import PluginForge.Build.Program
import PluginForge.Failure
import PluginForge.Text.Utf8

namespace PluginForge.Build

/-- A step that reads and changes files, and keeps what it has changed when it fails. -/
abbrev Action (α : Type) := ExceptT Failure (StateM Files.Tree) α

structure Tool where
  program : Text
  args : List Text
  deriving DecidableEq, Repr

namespace Tool

/-- An argument as it is shown: in quotes if there is a space in it. -/
def quoteArg (arg : Text) : Text :=
  if arg.contains ' ' then "'" ++ arg ++ "'" else arg

def commandLine (tool : Tool) : Text :=
  tool.program ++ tool.args.flatMap fun arg => ' ' :: quoteArg arg

/-- What is told about a program that failed: what it has written as errors, or else its output. -/
def complaint (o : Program.Outcome) : Text :=
  let errors := Text.ofUtf8Lossy o.errors
  if errors.all Text.isBlank then Text.ofUtf8Lossy o.output else errors

/-- Runs a program to its end. It must be found, and it must end well. -/
def execute (programs : Programs) (tool : Tool) : Action Program.Outcome := do
  match programs (← get) tool.program with
  | none => throw (.toolNotFound tool.program)
  | some run =>
    if tool.args.any fun arg => arg.contains '\x00' then throw .nulInArgument
    let o ← (run tool.args).adapt .files
    if !o.status.isSuccess then
      throw (.toolFailed tool.program o.status.message (complaint o))
    return o

end Tool

end PluginForge.Build
