import PluginForge.Java.Types

namespace PluginForge.Callback

/-- Turns single quotes into the double quotes of string literals. -/
def normalizeQuotes (line : Text) : Text :=
  line.map fun c => if c = '\'' then '"' else c

/-- The tag in front of a name that declares it with a scalar type. -/
def scalarTag (type : Java.Scalar) : Text :=
  "java." ++ type.name ++ "."

/-- The tag in front of a name that declares it with an array type. -/
def arrayTag (type : Java.Scalar) : Text :=
  "java.Array." ++ type.name ++ "."

/-- Replaces the two tags of a type by the type and a space. -/
def replaceTagsOf (line : Text) (type : Java.Scalar) : Text :=
  line
    |> Text.replaceAll (arrayTag type) (type.name ++ "[] ")
    |> Text.replaceAll (scalarTag type) (type.name ++ " ")

def replaceTypeTags (line : Text) : Text :=
  Java.Scalar.all.foldl replaceTagsOf line

end PluginForge.Callback
