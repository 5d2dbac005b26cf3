import PluginForge.Archive.Zip
import PluginForge.CommandLine.Reach
import PluginForge.Files.Change

namespace PluginForge.CommandLine

/-- Puts a directory and those on the way to it into a tree. -/
def withDirectory (at' : Files.Location) (t : Files.Tree) : Files.Tree :=
  (List.range at'.length).foldl (fun t n => t.put (at'.take (n + 1)) .directory) t

/-- Adds to a tree what stands at a path of the system, and below it if that is wanted. -/
partial def loadPath (deep : Bool) (path : String) (t : Files.Tree) : IO Files.Tree := do
  let p := (← IO.currentDir) / path
  let at' := (Files.Path.mk path.toList).names
  if ← p.isDir then
    let mut t := withDirectory at' t
    if deep then
      for entry in ← p.readDir do
        t ← loadPath true entry.path.toString t
    return t
  else if ← p.pathExists then
    return (withDirectory at'.dropLast t).put at' (.file (← IO.FS.readBinFile p))
  else return t

def systemPath (at' : Files.Location) : String :=
  String.ofList (locationPath at').text

def applyChange : Files.Change → IO Unit
  | .delete at' => do
    let p := (← IO.currentDir) / systemPath at'
    if ← p.isDir then IO.FS.removeDir p else IO.FS.removeFile p
  | .makeDirectory at' => IO.FS.createDirAll (systemPath at')
  | .write at' content => IO.FS.writeBinFile (systemPath at') content

/-- The directories of the files that are looked at, so that new files can be put there. -/
def parents (paths : List Files.Path) : List Files.Path :=
  paths.filterMap Files.Path.parent?

/-- The files of the system as far as a request may look at them. -/
def load (cwd : Files.Path) (r : Reach) : IO Files.Tree := do
  let mut t := withDirectory cwd.names .empty
  for p in parents r.files ++ r.files do
    t ← loadPath false (String.ofList p.text) t
  for p in r.trees do
    t ← loadPath true (String.ofList p.text) t
  return t

end PluginForge.CommandLine

open PluginForge in
/-- Does what the arguments ask for in the current directory. -/
def main (args : List String) : IO UInt32 := do
  let cwd : Files.Path := ⟨(← IO.currentDir).toString.toList⟩
  let args := args.map String.toList
  let before ← CommandLine.load cwd (CommandLine.reach cwd args)
  -- There is no way to run a program from here, so that none is found.
  let (ending, after) := CommandLine.run Archive.Zip.write .empty cwd args before
  for change in Files.Change.between before after do
    CommandLine.applyChange change
  IO.print (String.ofList ending.output)
  IO.eprint (String.ofList ending.errors)
  return ending.exitCode.toUInt32
