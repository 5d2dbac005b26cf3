import PluginForge.Text.Basic

namespace PluginForge.Java

structure Method where
  signature : Text
  body : Text
  deriving DecidableEq, Repr

def indent : Text :=
  "    "

/-- The lines of a method as a member of a class. -/
def Method.member (m : Method) : List Text :=
  (indent ++ m.signature ++ " \x7b") ::
    (Text.lines m.body).map (Text.indentLine (indent ++ indent)) ++ [indent ++ "\x7d"]

/-- A method on its own, without a line feed at its end. -/
def Method.text (m : Method) : Text :=
  Text.join "\n"
    ((m.signature ++ " \x7b") :: (Text.lines m.body).map (Text.indentLine indent) ++ [['\x7d']])

/-- The lines that name the package of a source file and what it imports. -/
def preface (package : Text) (imports : List Text) : List Text :=
  ("package " ++ package ++ ";") :: imports.map fun name => "import " ++ name ++ ";"

def classSource (package : Text) (imports : List Text) (header : Text) (members : List Text) :
    List Text :=
  preface package imports ++ (header ++ " \x7b") :: members ++ [['\x7d']]

def unlines (lines : List Text) : Text :=
  lines.flatMap fun line => line ++ "\n"

end PluginForge.Java
