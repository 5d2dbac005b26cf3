import PluginForge.Json.Number.Reader
import PluginForge.Json.Quoted

namespace PluginForge.Json

/-- A fault that has its place, or one that gets its place from the record around it, once the reader
has looked for the end of that record behind the cursor. -/
inductive Problem where
  | placed (error : Error)
  | unplaced (fault : Fault) (cursor : Cursor)

/-- Reads a value at a cursor and gives the cursor behind it. -/
abbrev Reader (α : Type) := Cursor → Except Problem (α × Cursor)

namespace Cursor

def failAt {α : Type} (fault : Fault) (position : Position) : Except Problem α :=
  .error (.placed ⟨fault, position⟩)

/-- Lets a fault with a place pass as a problem. -/
def placed {α : Type} : Except Error α → Except Problem α
  | .ok a => .ok a
  | .error e => .error (.placed e)

def skipWord : Text → Cursor → Except Error Cursor
  | [], c => .ok c
  | w :: word, c =>
    match c.rest with
    | [] => .error ⟨.endInValue, c.position⟩
    | x :: _ => if x = w then skipWord word c.advance else .error ⟨.expectedWord, c.next⟩

/-- The error of a value at the cursor that is not of the expected kind. A scalar is read before it is
found wrong, so a fault inside it comes first. -/
def mismatch (expected : Expected) (c : Cursor) : Error :=
  let word (rest : Text) (found : Found) : Error :=
    match c.advance.skipWord rest with
    | .ok c => ⟨.wrongType found expected, c.position⟩
    | .error e => e
  match c.peek? with
  | some 'n' => word "ull" .null
  | some 't' => word "rue" (.boolean true)
  | some 'f' => word "alse" (.boolean false)
  | some '"' =>
    match c.readString with
    | .ok (value, c) => ⟨.wrongType (.string value) expected, c.position⟩
    | .error e => e
  | some '[' => ⟨.wrongType .sequence expected, c.position⟩
  | some '\x7b' => ⟨.wrongType .map expected, c.position⟩
  | some x =>
    if isDigit x || x == '-' then
      match c.readNumber with
      | .ok (value, c) => ⟨.wrongType (.number value) expected, c.position⟩
      | .error e => e
    else ⟨.expectedValue, c.next⟩
  | none => ⟨.endInValue, c.next⟩

def skipColon (c : Cursor) : Except Error Cursor :=
  let c := c.skipBlanks
  match c.peek? with
  | some ':' => .ok c.advance
  | some _ => .error ⟨.expectedColon, c.next⟩
  | none => .error ⟨.endInObject, c.next⟩

/-- Looks for an element of a list: the cursor is put at it, or at the closing bracket, for which the
answer is `false`. -/
def seekElement (isFirst : Bool) (c : Cursor) : Except Error (Bool × Cursor) :=
  let c := c.skipBlanks
  match c.peek? with
  | none => .error ⟨.endInList, c.next⟩
  | some ']' => .ok (false, c)
  | some x =>
    if isFirst then .ok (true, c)
    else if x = ',' then
      let c := c.advance.skipBlanks
      match c.peek? with
      | some ']' => .error ⟨.trailingComma, c.next⟩
      | some _ => .ok (true, c)
      | none => .error ⟨.endInValue, c.next⟩
    else .error ⟨.expectedCommaOrBracket, c.next⟩

/-- Looks for a key of an object: the cursor is put at its quote, or at the closing brace, for which the
answer is `false`. -/
def seekKey (isFirst : Bool) (c : Cursor) : Except Error (Bool × Cursor) :=
  let c := c.skipBlanks
  match c.peek? with
  | none => .error ⟨.endInObject, c.next⟩
  | some '\x7d' => .ok (false, c)
  | some x =>
    if isFirst then
      if x = '"' then .ok (true, c) else .error ⟨.expectedKey, c.next⟩
    else if x = ',' then
      let c := c.advance.skipBlanks
      match c.peek? with
      | some '"' => .ok (true, c)
      | some '\x7d' => .error ⟨.trailingComma, c.next⟩
      | some _ => .error ⟨.expectedKey, c.next⟩
      | none => .error ⟨.endInValue, c.next⟩
    else .error ⟨.expectedCommaOrBrace, c.next⟩

/-- Passes over the closing bracket of a list that must not hold more elements. -/
def closeList (c : Cursor) : Except Error Cursor :=
  let c := c.skipBlanks
  match c.peek? with
  | some ']' => .ok c.advance
  | some ',' =>
    let c := c.advance.skipBlanks
    .error ⟨if c.peek? = some ']' then .trailingComma else .trailingCharacters, c.next⟩
  | some _ => .error ⟨.trailingCharacters, c.next⟩
  | none => .error ⟨.endInList, c.next⟩

/-- Where the search for the closing bracket of a list ends. -/
def behindList (c : Cursor) : Position :=
  let c := c.skipBlanks
  match c.peek? with
  | some ']' => c.advance.position
  | some ',' => c.advance.skipBlanks.position
  | _ => c.position

/-- Where the search for the closing brace of an object ends. -/
def behindObject (c : Cursor) : Position :=
  let c := c.skipBlanks
  if c.peek? = some '\x7d' then c.advance.position else c.position

end Cursor

/-- Gives a fault without a place the one where the search for the end of its record ends. -/
def place {α : Type} (behind : Cursor → Position) : Except Problem α → Except Problem α
  | .error (.unplaced fault cursor) => Cursor.failAt fault (behind cursor)
  | result => result

namespace Reader

def text (expected : Expected) : Reader Text := fun c =>
  let c := c.skipBlanks
  if c.peek? = some '"' then Cursor.placed c.readString else .error (.placed (c.mismatch expected))

/-- Reads a value that may be `null` instead. -/
def option {α : Type} (read : Reader α) : Reader (Option α) := fun c =>
  let c := c.skipBlanks
  if c.peek? = some 'n' then do
    let c ← Cursor.placed (c.advance.skipWord "ull")
    return (none, c)
  else do
    let (a, c) ← read c
    return (some a, c)

def elements {α : Type} (read : Reader α) : Nat → Bool → Reader (List α)
  | 0, _, c => Cursor.failAt .endInList c.position
  | fuel + 1, isFirst, c => do
    let (found, c) ← Cursor.placed (c.seekElement isFirst)
    if found then
      let (a, c) ← read c
      let (as, c) ← elements read fuel false c
      return (a :: as, c)
    else return ([], c)

def list {α : Type} (read : Reader α) : Reader (List α) := fun c =>
  let c := c.skipBlanks
  if c.peek? = some '[' then do
    let (as, c) ← place Cursor.behindList (elements read (c.rest.length + 1) true c.advance)
    return (as, c.advance)
  else .error (.placed (c.mismatch .sequence))

/-- Reads members up to the closing brace and puts each into the map read so far. -/
def members {α μ : Type} (read : Reader α) (put : Text → α → μ → μ) : Nat → Bool → μ → Reader μ
  | 0, _, _, c => Cursor.failAt .endInObject c.position
  | fuel + 1, isFirst, map, c => do
    let (found, c) ← Cursor.placed (c.seekKey isFirst)
    if found then
      let (key, c) ← Cursor.placed c.readString
      let c ← Cursor.placed c.skipColon
      let (a, c) ← read c
      members read put fuel false (put key a map) c
    else return (map, c)

/-- Reads an object whose keys are free, from an empty map and an operation that puts a member into
it. -/
def map {α μ : Type} (read : Reader α) (empty : μ) (put : Text → α → μ → μ) : Reader μ := fun c =>
  let c := c.skipBlanks
  if c.peek? = some '\x7b' then do
    let (map, c) ←
      place Cursor.behindObject (members read put (c.rest.length + 1) true empty c.advance)
    return (map, c.advance)
  else .error (.placed (c.mismatch .map))

def run {α : Type} (read : Reader α) (t : Text) : Except Error α :=
  match read (.ofText t) with
  | .error (.placed e) => .error e
  | .error (.unplaced fault c) => .error ⟨fault, c.position⟩
  | .ok (a, c) =>
    let c := c.skipBlanks
    if c.rest.isEmpty then .ok a else .error ⟨.trailingCharacters, c.next⟩

end Reader

end PluginForge.Json
