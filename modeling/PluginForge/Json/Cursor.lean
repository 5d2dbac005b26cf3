import PluginForge.Text.Utf8

namespace PluginForge.Json

/-- A place in a text: the number of its line, and how many bytes of that line come before it. -/
structure Position where
  line : Nat
  column : Nat
  deriving DecidableEq, Repr

namespace Position

def start : Position :=
  ⟨1, 0⟩

def after (p : Position) (c : Char) : Position :=
  if c = '\n' then ⟨p.line + 1, 0⟩ else ⟨p.line, p.column + c.utf8Size⟩

/-- The place behind the first byte of a character. -/
def afterByte (p : Position) (c : Char) : Position :=
  if c = '\n' then ⟨p.line + 1, 0⟩ else ⟨p.line, p.column + 1⟩

def afterAll (p : Position) (t : Text) : Position :=
  t.foldl after p

/-- The place so many bytes further on in a text, if it is that long. -/
def afterBytes? (p : Position) : Nat → Text → Option Position
  | 0, _ => some p
  | _ + 1, [] => none
  | n + 1, c :: r =>
    if c.utf8Size ≤ n + 1 then (p.after c).afterBytes? (n + 1 - c.utf8Size) r
    else some ⟨p.line, p.column + (n + 1)⟩

end Position

/-- What is left of a text, and where it begins. -/
structure Cursor where
  position : Position
  rest : Text
  deriving DecidableEq, Repr

namespace Cursor

def ofText (t : Text) : Cursor :=
  ⟨.start, t⟩

/-- The blanks that may stand between the parts of a JSON text. -/
def isBlank (c : Char) : Bool :=
  c == ' ' || c == '\t' || c == '\n' || c == '\r'

def peek? (c : Cursor) : Option Char :=
  c.rest.head?

/-- The cursor behind the character at it; at the end of the text it stays. -/
def advance (c : Cursor) : Cursor :=
  match c.rest with
  | [] => c
  | x :: r => ⟨c.position.after x, r⟩

/-- The place behind the byte at the cursor; at the end of the text that is the cursor's own place. -/
def next (c : Cursor) : Position :=
  match c.rest with
  | [] => c.position
  | x :: _ => c.position.afterByte x

/-- The cursor behind the characters in front that satisfy `p`. -/
def skipWhile (p : Char → Bool) (c : Cursor) : Cursor :=
  ⟨c.position.afterAll (c.rest.takeWhile p), c.rest.dropWhile p⟩

def skipBlanks (c : Cursor) : Cursor :=
  c.skipWhile isBlank

end Cursor

end PluginForge.Json
