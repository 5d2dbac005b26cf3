import PluginForge.Java.Types
import PluginForge.Json.Reader

namespace PluginForge.Callback

inductive Scalar where
  | string (value : Text)
  | boolean (value : Bool)
  | integer (value : Int)
  | float (value : Float)

/-- The text of a scalar as a list of values shows it. -/
def Scalar.write : Scalar → Text
  | .string value => Json.writeString value
  | .boolean true => "true"
  | .boolean false => "false"
  | .integer value => (Json.Number.int value).write
  | .float value => (Json.Number.float value).write

/-- A scalar literal: its value and the text it is written with. -/
structure Atom where
  value : Scalar
  text : Text

namespace Atom

/-- Integers up to this size are declared `int`, larger ones `long`. -/
def intLimit : Nat :=
  127

/-- The integer can be written without the suffix of long integers. -/
def fitsInt (value : Int) : Bool :=
  -2147483648 ≤ value && value < 2147483648

def type (a : Atom) : Java.Scalar :=
  match a.value with
  | .string _ => .string
  | .boolean _ => .boolean
  | .integer value => if intLimit < value.natAbs then .long else .int
  | .float _ => .double

/-- The expression for the value: its text, with the suffix of long integers where it needs one. -/
def java (a : Atom) : Text :=
  match a.value with
  | .integer value => if fitsInt value then a.text else a.text ++ "L"
  | _ => a.text

end Atom

/-- A literal on the right of a declaration: a scalar or a list of scalars. -/
inductive Literal where
  | atom (atom : Atom)
  | array (items : List Atom)

/-- The narrowest type that holds the values of both types. Only numbers of different types have one. -/
def widen? : Java.Scalar → Java.Scalar → Option Java.Scalar
  | .double, .int | .double, .long | .int, .double | .long, .double => some .double
  | .long, .int | .int, .long => some .long
  | a, b => if a = b then some a else none

namespace Literal

/-- The text of a literal: for a list, that of its items without any blanks between them. -/
def text : Literal → Text
  | .atom a => a.text
  | .array items => "[" ++ Text.join "," (items.map Atom.text) ++ "]"

open Json in
/-- Reads a scalar value; `null` is none. -/
def readScalar : Reader Scalar := fun c =>
  let c := c.skipBlanks
  let word (rest : Text) (value : Bool) : Except Problem (Scalar × Cursor) :=
    (Cursor.placed (c.advance.skipWord rest)).map fun c => (.boolean value, c)
  match c.peek? with
  | some '"' => (Cursor.placed c.readString).map fun (value, c) => (.string value, c)
  | some 't' => word "rue" true
  | some 'f' => word "alse" false
  | some x =>
    if isDigit x || x == '-' then
      (Cursor.placed c.readNumber).map fun
        | (.int value, c) => (.integer value, c)
        | (.float value, c) => (.float value, c)
    else Cursor.failAt .expectedValue c.next
  | none => Cursor.failAt .endInValue c.next

/-- The literal that a text is, blanks around it apart. -/
def parse? (t : Text) : Option Literal :=
  let t := Text.trim t
  if t.head? = some '[' then
    match (Json.Reader.list readScalar).run t with
    | .ok values => some (.array (values.map fun value => ⟨value, value.write⟩))
    | .error _ => none
  else
    match readScalar.run t with
    | .ok value => some (.atom ⟨value, t⟩)
    | .error _ => none

/-- The type that a declaration with this value gets. A list has one if it is not empty and its items
have a common type. -/
def type? : Literal → Option Java.Ty
  | .atom a => some (.scalar a.type)
  | .array [] => none
  | .array (first :: rest) =>
    (rest.foldlM (fun type item => widen? type item.type) first.type).map .array

def java (l : Literal) (ty : Java.Ty) : Text :=
  match l with
  | .atom a => a.java
  | .array items => Java.newArray ty.element (Text.join ", " (items.map Atom.java))

end Literal

end PluginForge.Callback
