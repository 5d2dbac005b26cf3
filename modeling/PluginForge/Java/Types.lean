import PluginForge.Text.Basic

namespace PluginForge.Java

inductive Scalar where
  | int
  | long
  | double
  | string
  | boolean
  deriving DecidableEq, Repr

namespace Scalar

def all : List Scalar :=
  [.int, .long, .double, .string, .boolean]

def name : Scalar → Text
  | .int => "int"
  | .long => "long"
  | .double => "double"
  | .string => "String"
  | .boolean => "boolean"

def ofName? (name : Text) : Option Scalar :=
  all.find? fun scalar => scalar.name == name

theorem ofName?_name (scalar : Scalar) : ofName? scalar.name = some scalar := by
  cases scalar <;> decide

end Scalar

/-- A declared type: a scalar or a one-dimensional array of one. -/
inductive Ty where
  | scalar (element : Scalar)
  | array (element : Scalar)
  deriving DecidableEq, Repr

namespace Ty

def element : Ty → Scalar
  | .scalar element => element
  | .array element => element

/-- The type as it stands in front of a declared name. -/
def name : Ty → Text
  | .scalar element => element.name
  | .array element => element.name ++ "[]"

def ofName? (name : Text) : Option Ty :=
  match Scalar.ofName? name with
  | some element => some (.scalar element)
  | none =>
    if Text.endsWith name "[]" then (Scalar.ofName? (name.take (name.length - 2))).map .array else none

end Ty

/-- The expression that builds an array from the text of its elements. -/
def newArray (element : Scalar) (elements : Text) : Text :=
  "new " ++ element.name ++ "[]\x7b" ++ elements ++ "\x7d"

end PluginForge.Java
