import PluginForge.Archive.Basic
import PluginForge.Build.SupportLibrary
import PluginForge.Plugin.BuildManifest
import PluginForge.Plugin.Project

namespace PluginForge.Build

open Files (Path)
open Work (onFiles)

/-- What a build gives: where the archive was written to, the number of its bytes, and the command classes
that its entry point registers. -/
structure Artifact where
  path : Path
  size : Nat
  registered : List Text

namespace Assembly

/-- Creates the directories of a plugin's project, and its manifest unless that has been done. -/
def ensureProject (plugin : Plugin) : Work Unit := fun w =>
  match Project.ensure ⟨plugin, w.files⟩ with
  | (result, project) => (result, { w with files := project.files })

def writeCommands (plugin : Plugin) : Work Unit :=
  plugin.commands.forM fun c =>
    match c.commandClass with
    | none => return
    | some commandClass =>
      onFiles (Files.writeText (plugin.details.commandPath c.name) commandClass.source)

def registeredNames (plugin : Plugin) : List Text :=
  plugin.runnable.map Command.name

def buildManifestDirectory (l : Layout) : Path :=
  l.pluginRoot.join BuildManifest.directory

def writeBuildManifest (plugin : Plugin) (l : Layout) : Work Unit := do
  let directory := buildManifestDirectory l
  onFiles (Files.ensureDirectory directory)
  onFiles
    (Files.writeText (directory.join BuildManifest.fileName)
      (BuildManifest.text plugin.details.mainClass))

def writeSources (plugin : Plugin) (l : Layout) : Work Unit := do
  writeCommands plugin
  onFiles
    (Files.writeText plugin.details.entryPointPath
      (plugin.entryPoint.source (registeredNames plugin)))
  writeBuildManifest plugin l

/-- The archive of a project whose classes are compiled: the build manifest, the manifest, and the tree
of the package. -/
def pack (compression : Config.Compression) (plugin : Plugin) (l : Layout) : Work Archive := fun w =>
  let d := plugin.details
  let result : Except Failure Archive := do
    let addDirectory (a : Archive) (source : Path) (top : Text) : Except Failure Archive :=
      match a.addDirectory w.files source top with
      | (.ok (), a) => .ok a
      | (.error failure, _) => .error failure
    let a ← addDirectory (.empty compression) (buildManifestDirectory l) BuildManifest.directory
    let a ← a.addFile w.files (l.pluginRoot.join Manifest.fileName) Manifest.fileName
    addDirectory a d.sourceRoot d.packageRoot
  (result, w)

/-- Cancels the deferred build that a plugin belongs to. -/
def cancelSchedule (plugin : Plugin) : Work Unit :=
  modify fun w => { w with isCancelled := w.isCancelled || plugin.isScheduled }

/-- Builds a plugin: writes its project, compiles it, packs the classes without their sources, and
deletes the project. The steps are done in order up to the first that fails, and none is undone. -/
def run (write : Archive.Writer) (tools : Toolchain) (config : Config) (plugin : Plugin) :
    Work Artifact := do
  let d := plugin.details
  let l ← (Layout.ofDetails config.library d : Except Failure Layout)
  ensureProject plugin
  onFiles (Files.ensureDirectory d.commandsDirectory)
  SupportLibrary.ensure tools l config.library
  writeSources plugin l
  Work.compile tools l d.entryPointPath
  discard (onFiles (Files.removeWithExtension d.sourceRoot Details.sourceExtension))
  let archive ← pack config.compression plugin l
  let bytes ← (archive.finish write : Except Failure ByteArray)
  let path := l.workingRoot.join d.archiveName
  onFiles (Files.write path bytes)
  onFiles (Files.removePath l.pluginRoot)
  cancelSchedule plugin
  return ⟨path, bytes.size, registeredNames plugin⟩

end Assembly

end PluginForge.Build
