import PluginForge.Callback.Parameters
import PluginForge.Callback.Statement

namespace PluginForge.Callback

namespace Statement

/-- A text that stands as it is needs a semicolon behind it: it holds none, and neither opens nor closes
a block nor begins a condition. -/
def needsTerminator (text : Text) : Bool :=
  let text := Text.trim text
  let opensCondition :=
    match Text.dropHead? "if" text with
    | some (c :: _) => c == '(' || Text.isBlank c
    | _ => false
  !(text.isEmpty || text.contains ';' || text == ['\x7d'] || Text.endsWith text "\x7b" ||
    opensCondition)

/-- The line for a statement, with the first `strip` characters of its indentation left out. -/
def emit (strip : Nat) : Statement → Text
  | .declaration indent type name value =>
    indent.drop strip ++ type.name ++ " " ++ name ++ "=" ++ value ++ ";"
  | .raw indent text =>
    indent.drop strip ++ text ++ if needsTerminator text then [';'] else []
  | .blank => []

end Statement

/-- The line that ends every body. -/
def successReturn : Text :=
  "return true;"

/-- The width of the indentation that all statements have in common; blank ones do not count. -/
def commonIndent (statements : List Statement) : Nat :=
  ((statements.filterMap Statement.indent?).map List.length).min?.getD 0

/-- The lines of a body: one for each statement, and the return at the end. -/
def bodyLines (statements : List Statement) : List Text :=
  statements.map (Statement.emit (commonIndent statements)) ++ [successReturn]

def body (statements : List Statement) : Text :=
  Text.join "\n" (bodyLines statements)

/-- A command handler: the names of its parameters and the text of its body. -/
structure Handler where
  parameters : Parameters
  body : Text
  deriving DecidableEq, Repr

namespace Handler

def signature (h : Handler) : Text :=
  h.parameters.signature

/-- Reads the lines of a body, the first of which has the given number. -/
def parseLines : Nat → List Text → Except Fault (List Statement)
  | _, [] => .ok []
  | n, line :: lines =>
    match Statement.parse n line with
    | .error fault => .error fault
    | .ok statement =>
      match parseLines (n + 1) lines with
      | .error fault => .error fault
      | .ok statements => .ok (statement :: statements)

/-- Makes a handler of the source of a callback. Its first line names the parameters, its last line
closes it, and every line between holds one statement. -/
def ofSource (source : Text) : Except Fault Handler :=
  match Text.lines (Text.trim source) with
  | [] => .error .emptySource
  | first :: rest =>
    match Parameters.parse first with
    | .error fault => .error fault
    | .ok parameters =>
      match parseLines 2 rest.dropLast with
      | .error fault => .error fault
      | .ok statements => .ok ⟨parameters, Callback.body statements⟩

end Handler

end PluginForge.Callback
