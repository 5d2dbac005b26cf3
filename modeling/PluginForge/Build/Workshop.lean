import PluginForge.Build.Toolchain

namespace PluginForge.Build

open Files (Path Tree)

/-- What a toolchain was asked for; of a compilation also the files at that time. -/
inductive Call where
  | fetch (library : Config.Library) (destination : Path)
  | compile (layout : Layout) (entryPoint : Path) (files : Tree)

/-- Where builds are done: the files, what the toolchain has been asked for so far, and whether the
deferred build that shares them is cancelled. -/
structure Workshop where
  files : Tree
  calls : List Call
  isCancelled : Bool

def Workshop.ofFiles (files : Tree) : Workshop :=
  ⟨files, [], false⟩

/-- A step of a build, which keeps what it has changed when it fails. -/
abbrev Work (α : Type) := ExceptT Failure (StateM Workshop) α

namespace Work

def act {α : Type} (action : Action α) : Work α := fun w =>
  match action w.files with
  | (result, files) => (result, { w with files })

def onFiles {α : Type} (action : Files.Action α) : Work α :=
  act (action.adapt .files)

def note (call : Call) : Work Unit :=
  modify fun w => { w with calls := w.calls ++ [call] }

def fetch (tools : Toolchain) (l : Layout) (library : Config.Library) (destination : Path) :
    Work Unit := do
  note (.fetch library destination)
  act (tools.fetch l library destination)

def compile (tools : Toolchain) (l : Layout) (entryPoint : Path) : Work Unit := do
  note (.compile l entryPoint (← get).files)
  act (tools.compile l entryPoint)

/-- Does something with a new scratch directory, which is deleted in any case. -/
def withScratch {α : Type} (root : Path) (task : Path → Work α) : Work α := do
  let scratch ← onFiles (Files.makeScratch root)
  fun w =>
    match task scratch w with
    | (result, w) => (result, { w with files := (Files.removePath scratch w.files).2 })

end Work

end PluginForge.Build
