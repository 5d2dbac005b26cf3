import PluginForge.CommandLine.Session

namespace PluginForge.CommandLine

open Files (Path)

/-- What a request may look at: single files, and directories with all that is below them. -/
structure Reach where
  files : List Path
  trees : List Path

/-- The configuration files that are looked for from a directory on. -/
def configCandidates (directory : Path) : List Path :=
  directory.ancestors.flatMap fun p => Config.fileNames.map p.join

def Request.reach (cwd : Path) : Request → Reach
  | .build file config =>
    let file := resolve cwd file
    let base := (file.parent?).getD cwd
    ⟨(config.map (resolve cwd)).toList ++ configCandidates base, [base]⟩
  | .transpile file _ _ => ⟨resolve cwd file :: configCandidates cwd, []⟩
  | .init directory _ =>
    ⟨[((directory.map (resolve cwd)).getD cwd).join Config.defaultFileName], []⟩
  | .version | .help => ⟨[], []⟩

/-- What arguments given in a directory make the program look at. -/
def reach (cwd : Path) (args : List Text) : Reach :=
  ((Request.ofArgs? args).map (Request.reach cwd)).getD ⟨[], []⟩

end PluginForge.CommandLine
