import PluginForge.Plugin.Command
import PluginForge.Yaml.Mapping

namespace PluginForge.Manifest

/-- What the server is told about a plugin as a whole. -/
structure Header where
  name : Text
  main : Text
  version : Text
  author : Text
  description : Text
  deriving DecidableEq, Repr

def fileName : Text :=
  "plugin.yml"

def textNode (t : Text) : Yaml.Node :=
  .leaf (.text t)

/-- The line below which the commands are listed. -/
def commandsLine : Text :=
  "commands:\n"

/-- The beginning of the file, with no commands yet. -/
def Header.text (h : Header) : Text :=
  Yaml.document
    [("name", textNode h.name), ("main", textNode h.main), ("version", textNode h.version),
      ("author", textNode h.author), ("description", textNode h.description)] ++
    commandsLine

/-- The entry of a command as a document of its own. -/
def commandDocument (c : Command) : Text :=
  Yaml.document
    [(c.name, .record
      [("usage", .text c.usage), ("description", .text c.description),
        ("aliases", .list (c.aliases.getD []))])]

/-- The lines of a command in the file: its entry, moved below the line of all commands. -/
def commandBlock (c : Command) : Text :=
  Java.unlines ((Text.lines (commandDocument c)).map fun line => "  " ++ line)

end PluginForge.Manifest
