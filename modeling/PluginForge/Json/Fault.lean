import PluginForge.Json.Cursor
import PluginForge.Json.Number.Basic
import PluginForge.Text.Quoted

namespace PluginForge.Json

/-- What stands in a text where something else is expected. -/
inductive Found where
  | null
  | boolean (value : Bool)
  | number (value : Number)
  | string (value : Text)
  | sequence
  | map

def Found.message : Found → Text
  | .null => "null"
  | .boolean true => "boolean `true`"
  | .boolean false => "boolean `false`"
  | .number (.int value) => "integer `" ++ (Number.int value).write ++ "`"
  | .number (.float value) => "floating point `" ++ (Number.float value).write ++ "`"
  | .string value => "string " ++ Text.quoted value
  | .sequence => "sequence"
  | .map => "map"

inductive Expected where
  | string
  | path
  | sequence
  | map
  | record (name : Text)

def Expected.message : Expected → Text
  | .string => "a string"
  | .path => "path string"
  | .sequence => "a sequence"
  | .map => "a map"
  | .record name => "struct " ++ name

inductive Fault where
  | endInValue
  | endInObject
  | endInList
  | endInString
  | expectedColon
  | expectedCommaOrBracket
  | expectedCommaOrBrace
  | expectedValue
  | expectedWord
  | expectedKey
  | trailingComma
  | trailingCharacters
  | invalidNumber
  | numberOutOfRange
  | invalidEscape
  | loneSurrogate
  | unpairedEscape
  | controlCharacter
  | wrongType (found : Found) (expected : Expected)
  | missingField (name : Text)
  | duplicateField (name : Text)
  | wrongLength (length : Nat) (record : Text) (fields : Nat)
  | unknownVariant (word : Text) (variants : List Text)

def Fault.message : Fault → Text
  | .endInValue => "EOF while parsing a value"
  | .endInObject => "EOF while parsing an object"
  | .endInList => "EOF while parsing a list"
  | .endInString => "EOF while parsing a string"
  | .expectedColon => "expected `:`"
  | .expectedCommaOrBracket => "expected `,` or `]`"
  | .expectedCommaOrBrace => "expected `,` or `\x7d`"
  | .expectedValue => "expected value"
  | .expectedWord => "expected ident"
  | .expectedKey => "key must be a string"
  | .trailingComma => "trailing comma"
  | .trailingCharacters => "trailing characters"
  | .invalidNumber => "invalid number"
  | .numberOutOfRange => "number out of range"
  | .invalidEscape => "invalid escape"
  | .loneSurrogate => "lone leading surrogate in hex escape"
  | .unpairedEscape => "unexpected end of hex escape"
  | .controlCharacter => "control character (\\u0000-\\u001F) found while parsing a string"
  | .wrongType found expected => "invalid type: " ++ found.message ++ ", expected " ++ expected.message
  | .missingField name => "missing field `" ++ name ++ "`"
  | .duplicateField name => "duplicate field `" ++ name ++ "`"
  | .wrongLength length record fields =>
    "invalid length " ++ Text.ofNat length ++ ", expected struct " ++ record ++ " with " ++
      Text.ofNat fields ++ " elements"
  | .unknownVariant word variants =>
    "unknown variant '" ++ word ++ "', expected one of: " ++ Text.join ", " variants

structure Error where
  fault : Fault
  position : Position

def Error.message (e : Error) : Text :=
  e.fault.message ++ " at line " ++ Text.ofNat e.position.line ++ " column " ++
    Text.ofNat e.position.column

end PluginForge.Json
