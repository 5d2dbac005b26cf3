import PluginForge.Files.Action
import PluginForge.Plugin.Basic

namespace PluginForge

/-- A plugin that is being described, and the files among which its project is written. -/
structure Project where
  plugin : Plugin
  files : Files.Tree

namespace Project

/-- A step that describes a plugin further, and keeps what it has changed when it fails. -/
abbrev Action (α : Type) := ExceptT Failure (StateM Project) α

def onFiles {α : Type} (action : Files.Action α) : Action α := fun p =>
  match action p.files with
  | (result, files) => (result.mapError .files, { p with files })

def modifyPlugin (f : Plugin → Plugin) : Action Unit :=
  modify fun p => { p with plugin := f p.plugin }

/-- Creates the directories of the project, and its manifest unless that has been done. -/
def ensure : Action Unit := do
  let plugin := (← get).plugin
  onFiles (Files.ensureDirectory plugin.details.packageDirectory)
  unless plugin.hasManifest do
    onFiles (Files.writeText plugin.details.manifestPath plugin.details.header.text)
    modifyPlugin fun plugin => { plugin with hasManifest := true }

/-- The name under which the entry point imports the class of a command. -/
def importName (d : Details) (commandClass : Text) : Text :=
  d.qualifiedName ++ ".commands." ++ commandClass

/-- Lets the entry point import the class of a command. -/
def importCommand (c : Command) (plugin : Plugin) : Plugin :=
  let imports := plugin.entryPoint.imports ++ [importName plugin.details c.name]
  { plugin with entryPoint := { plugin.entryPoint with imports } }

def addCommand (c : Command) (plugin : Plugin) : Plugin :=
  { plugin with
    commandClasses := plugin.commandClasses ++ [c.name]
    commands := plugin.commands ++ [c] }

/-- A command can be registered: its name can be that of a class, and is that of no earlier command. -/
def checkName (c : Command) : Action Unit := do
  if !Java.isIdentifier c.name then throw (.invalidName c.name)
  if (← get).plugin.commandClasses.contains c.name then throw (.duplicateCommand c.name)

/-- Takes up a command that is stamped for the plugin: the entry point imports its class, if it has one,
and its entry is put at the end of the manifest. -/
def attach (c : Command) : Action Unit := do
  if c.commandClass.isSome then modifyPlugin (importCommand c)
  onFiles (Files.appendText (← get).plugin.details.manifestPath (Manifest.commandBlock c))
  modifyPlugin (addCommand c)

/-- Registers a command: its entry is put at the end of the manifest, and its class, if it has one, into
the package of the plugin. The name of the class must be new. -/
def register (c : Command) : Action Unit := do
  checkName c
  ensure
  attach (c.stamp (← get).plugin.details.qualifiedName)

end Project

end PluginForge
