import PluginForge.Config.Basic
import PluginForge.Files.Path
import PluginForge.Plugin.Command
import PluginForge.Plugin.EntryPoint
import PluginForge.Plugin.Manifest

namespace PluginForge

/-- What is said about a plugin when it is begun. -/
structure Details where
  name : Text
  package : Text
  description : Text
  author : Text
  version : Text
  path : Files.Path
  deriving DecidableEq, Repr

/-- The details of a plugin of which only the name is known. Spaces in the name become underscores. -/
def Details.ofName (name : Text) : Details where
  name := name.map fun c => if c = ' ' then '_' else c
  package := "com"
  description := "this plugin has no description"
  author := "unknown"
  version := "1.0.0"
  path := ⟨"./"⟩

/-- A plugin: its details, its commands and the names of their classes in the order of their registration,
the class that it is started with, whether its manifest has been written, and whether it belongs to a
deferred build. -/
structure Plugin where
  details : Details
  commands : List Command
  commandClasses : List Text
  entryPoint : EntryPoint
  hasManifest : Bool
  isScheduled : Bool
  deriving DecidableEq, Repr

namespace Details

/-- The package of the plugin's own class. -/
def qualifiedName (d : Details) : Text :=
  d.package ++ "." ++ d.name

def mainClass (d : Details) : Text :=
  d.qualifiedName ++ "." ++ EntryPoint.className

/-- The directory of the project, which exists only while the plugin is built. -/
def root (d : Details) : Files.Path :=
  d.path.join d.name

def packageSegments (d : Details) : List Text :=
  Text.splitOn '.' d.package

/-- The first segment of the package, which names a directory of the project. -/
def packageRoot (d : Details) : Text :=
  d.package.takeWhile (· != '.')

def sourceRoot (d : Details) : Files.Path :=
  d.root.join d.packageRoot

def packageDirectory (d : Details) : Files.Path :=
  (d.root.joinAll d.packageSegments).join d.name

def commandsDirectory (d : Details) : Files.Path :=
  d.packageDirectory.join "commands"

def sourceExtension : Text :=
  "java"

def sourceName (className : Text) : Text :=
  className ++ "." ++ sourceExtension

def entryPointPath (d : Details) : Files.Path :=
  d.packageDirectory.join (sourceName EntryPoint.className)

def commandPath (d : Details) (commandClass : Text) : Files.Path :=
  d.commandsDirectory.join (sourceName commandClass)

def manifestPath (d : Details) : Files.Path :=
  d.root.join Manifest.fileName

def archiveName (d : Details) : Text :=
  d.name ++ ".jar"

/-- What the server is told about the plugin. -/
def header (d : Details) : Manifest.Header where
  name := d.name
  main := d.mainClass
  version := d.version
  author := d.author
  description := d.description

end Details

namespace Plugin

/-- Begins a plugin. Its names must be identifiers, and its project must not take the place of the
support library. -/
def ofDetails (d : Details) : Except Failure Plugin :=
  if !Java.isIdentifier d.name then .error (.invalidName d.name)
  else if !Java.isQualifiedName d.package then .error (.invalidName d.package)
  else if d.name = Config.libraryDirectory then .error (.nameOfLibrary d.name)
  else .ok ⟨d, [], [], .ofPackage d.qualifiedName, false, false⟩

def runnable (p : Plugin) : List Command :=
  p.commands.filter fun c => c.commandClass.isSome

end Plugin

end PluginForge
