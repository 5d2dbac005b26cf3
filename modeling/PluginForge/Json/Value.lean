import PluginForge.Json.Quoted

namespace PluginForge.Json

/-- The values that the library's documents are made of. -/
inductive Value where
  | string (text : Text)
  | list (items : List Value)
  | object (members : List (Text × Value))

namespace Value

mutual

def compact : Value → Text
  | .string text => writeString text
  | .list items => "[" ++ compactItems items ++ "]"
  | .object members => "\x7b" ++ compactMembers members ++ "\x7d"

def compactItems : List Value → Text
  | [] => []
  | [item] => item.compact
  | item :: items => item.compact ++ "," ++ compactItems items

def compactMembers : List (Text × Value) → Text
  | [] => []
  | [(key, value)] => writeString key ++ ":" ++ value.compact
  | (key, value) :: members =>
    writeString key ++ ":" ++ value.compact ++ "," ++ compactMembers members

end

def newLine (depth : Nat) : Text :=
  '\n' :: List.replicate (2 * depth) ' '

mutual

/-- The text of a value with every item on a line of its own, two spaces deeper than its bracket. -/
def pretty (depth : Nat) : Value → Text
  | .string text => writeString text
  | .list [] => "[]"
  | .list items => "[" ++ prettyItems (depth + 1) items ++ newLine depth ++ "]"
  | .object [] => "\x7b\x7d"
  | .object members => "\x7b" ++ prettyMembers (depth + 1) members ++ newLine depth ++ "\x7d"

def prettyItems (depth : Nat) : List Value → Text
  | [] => []
  | [item] => newLine depth ++ item.pretty depth
  | item :: items => newLine depth ++ item.pretty depth ++ "," ++ prettyItems depth items

def prettyMembers (depth : Nat) : List (Text × Value) → Text
  | [] => []
  | [(key, value)] => newLine depth ++ writeString key ++ ": " ++ value.pretty depth
  | (key, value) :: members =>
    newLine depth ++ writeString key ++ ": " ++ value.pretty depth ++ "," ++
      prettyMembers depth members

end

end Value

end PluginForge.Json
