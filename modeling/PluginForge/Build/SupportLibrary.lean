import PluginForge.Build.Workshop

namespace PluginForge.Build.SupportLibrary

open Files (Path)
open Work (onFiles)

def checkoutName : Text :=
  "checkout"

/-- Fetches the support library into a scratch directory, deletes what is not wanted of the checkout, and
moves the library's directory to its place. -/
def obtain (tools : Toolchain) (l : Layout) (library : Config.Library) (scratch : Path) :
    Work Unit := do
  let checkout := scratch.join checkoutName
  Work.fetch tools l library checkout
  library.prune.forM fun name => onFiles (Files.removePath (checkout.join name))
  let fetched := checkout.join library.directory
  if !(← onFiles (Files.isDirectory fetched)) then
    throw (.noLibrary library.repository library.directory)
  onFiles (Files.rename fetched l.cachePath)

/-- The place where an interrupted build has left the support library, if it has. -/
def stray? (l : Layout) : Work (Option Path) :=
  match l.strayPath with
  | none => return none
  | some stray => return if ← onFiles (Files.isDirectory stray) then some stray else none

/-- Sees to it that the support library is at its place: it stays there, is moved back from where an
interrupted build has left it, or is fetched. -/
def ensure (tools : Toolchain) (l : Layout) (library : Config.Library) : Work Unit := do
  if ← onFiles (Files.isDirectory l.cachePath) then return
  match ← stray? l with
  | some stray => onFiles (Files.rename stray l.cachePath)
  | none => Work.withScratch l.workingRoot (obtain tools l library)

end PluginForge.Build.SupportLibrary
