import PluginForge.Callback.Fault
import PluginForge.Callback.Literal
import PluginForge.Callback.TypeTag
import PluginForge.Java.Identifier

namespace PluginForge.Callback

inductive Statement where
  | declaration (indent : Text) (type : Java.Ty) (name value : Text)
  | raw (indent text : Text)
  | blank
  deriving DecidableEq, Repr

namespace Statement

def indent? : Statement → Option Text
  | .declaration indent _ _ _ => some indent
  | .raw indent _ => some indent
  | .blank => none

def isIndent (c : Char) : Bool :=
  c == ' ' || c == '\t'

def keywords : List Text :=
  ["let", "const", "var"]

/-- The element type and the name of a declaration `T[] name`. -/
def arrayTarget? (left : Text) : Option (Java.Scalar × Text) := do
  let (type, name) ← Text.cut? Text.isBlank (Text.trim left)
  guard (Text.endsWith type "[]")
  let element ← Java.Scalar.ofName? (type.take (type.length - 2))
  let name := Text.trim name
  guard (Java.isIdentifier name)
  return (element, name)

def keywordTarget? (left : Text) : Option Text := do
  let (keyword, rest) ← Text.cut? Text.isBlank (Text.trim left)
  guard (keywords.contains keyword)
  let name := rest.filter fun c => !Text.isBlank c
  guard (Java.isIdentifier name)
  return name

/-- What stands between the brackets of a right side that is one bracketed list and at most a semicolon.
The list ends at the first closing bracket. -/
def bracketed? (right : Text) : Option Text := do
  let inner ← Text.dropHead? "[" (Text.trim right)
  let (segment, rest) ← Text.cut? (· == ']') inner
  let rest := Text.trim rest
  guard (rest.isEmpty || rest == [';'])
  return segment

def dropQuotes (t : Text) : Text :=
  Text.dropEndWhile (· == '"') (t.dropWhile (· == '"'))

/-- The array that a bracketed list stands for. The items of a list of strings are quoted anew, and
empty ones are left out; any other list is taken as it is. -/
def arrayValue (element : Java.Scalar) (segment : Text) : Text :=
  let items :=
    match element with
    | .string =>
      (Text.splitOn ',' segment).map Text.trim
        |>.filter (fun item => !item.isEmpty)
        |>.map (fun item => "\"" ++ dropQuotes item ++ "\"")
        |> Text.join ", "
    | _ => Text.trim segment
  Java.newArray element items

/-- What a text without indentation declares, if it is a declaration; `line` is the number of its line
for a fault. -/
def declaration? (line : Nat) (text : Text) : Except Fault (Option (Java.Ty × Text × Text)) :=
  match Text.cut? (· == '=') text with
  | none => .ok none
  | some (left, right) =>
    match arrayTarget? left with
    | some (element, name) =>
      .ok ((bracketed? right).map fun segment => (.array element, name, arrayValue element segment))
    | none =>
      match keywordTarget? left with
      | none => .ok none
      | some name =>
        let value := Text.trim (right.takeWhile (· != ';'))
        match Literal.parse? value with
        | none => .error (.notLiteral line value)
        | some literal =>
          match literal.type? with
          | none => .error (.notUniform line value)
          | some type => .ok (some (type, name, literal.java type))

/-- A line with the quotes and the types of Java. -/
def normalize (line : Text) : Text :=
  replaceTypeTags (normalizeQuotes line)

/-- Reads one line of a body. A line that declares nothing is taken as it is, blanks at its end apart. -/
def parse (line : Nat) (source : Text) : Except Fault Statement :=
  let normal := normalize source
  let rest := normal.dropWhile isIndent
  if rest.all Text.isBlank then .ok .blank
  else
    let indent := normal.takeWhile isIndent
    let text := Text.trimEnd rest
    match declaration? line text with
    | .error fault => .error fault
    | .ok none => .ok (.raw indent text)
    | .ok (some (type, name, value)) => .ok (.declaration indent type name value)

end Statement

end PluginForge.Callback
