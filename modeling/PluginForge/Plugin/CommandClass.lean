import PluginForge.Java.Source

namespace PluginForge

/-- The class that runs a command. Its package is empty until the command belongs to a plugin. -/
structure CommandClass where
  package : Text
  imports : List Text
  header : Text
  constructor : Java.Method
  handler : Java.Method
  deriving DecidableEq, Repr

namespace CommandClass

def fixedImports : List Text :=
  ["org.bukkit.command.Command", "org.bukkit.command.CommandExecutor",
    "org.bukkit.command.CommandSender", "org.bukkit.entity.Player"]

/-- The class with a name and a handler; its constructor makes it the executor of the command. -/
def ofHandler (name : Text) (handler : Java.Method) : CommandClass where
  package := []
  imports := fixedImports
  header := "public class " ++ name ++ " implements CommandExecutor"
  constructor :=
    ⟨"public " ++ name ++ "(Plugin plugin)",
      "plugin.getCommand(\"" ++ name ++ "\").setExecutor(this);"⟩
  handler := handler

/-- Puts a class into the package of a plugin's commands and lets it import the plugin's own class. -/
def stamp (c : CommandClass) (plugin : Text) : CommandClass :=
  { c with package := plugin ++ ".commands", imports := c.imports ++ [plugin ++ ".Plugin"] }

def source (c : CommandClass) : Text :=
  Java.unlines
    (Java.classSource c.package c.imports c.header
      (c.constructor.member ++ [[]] ++ c.handler.member))

end CommandClass

end PluginForge
