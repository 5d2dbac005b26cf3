import PluginForge.Java.Source

namespace PluginForge

/-- The class that the server starts a plugin with. -/
structure EntryPoint where
  package : Text
  imports : List Text
  header : Text
  deriving DecidableEq, Repr

namespace EntryPoint

def className : Text :=
  "Plugin"

def fixedImports : List Text :=
  ["org.bukkit.Bukkit", "org.bukkit.plugin.java.JavaPlugin"]

/-- The entry point of a plugin without commands. -/
def ofPackage (package : Text) : EntryPoint :=
  ⟨package, fixedImports, "public class " ++ className ++ " extends JavaPlugin"⟩

/-- The statement that creates a command class, which registers itself. -/
def registration (commandClass : Text) : Text :=
  "new " ++ commandClass ++ "(this);"

/-- The method that registers the command classes. -/
def onEnable (commandClasses : List Text) : Java.Method :=
  ⟨"public void onEnable()", Text.join "\n" (commandClasses.map registration)⟩

/-- The source file of an entry point that registers the command classes. -/
def source (e : EntryPoint) (commandClasses : List Text) : Text :=
  Java.unlines
    (Java.classSource e.package e.imports e.header
      ((Java.indent ++ "@Override") :: (onEnable commandClasses).member))

end EntryPoint

end PluginForge
