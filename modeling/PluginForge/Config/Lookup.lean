import PluginForge.Config.Reader
import PluginForge.Config.Writer
import PluginForge.Failure
import PluginForge.Files.Action

namespace PluginForge.Config

open Files (Path Tree)

/-- The names of a configuration file; the first is preferred within one directory. -/
def fileNames : List Text :=
  [".plugsmith.json", "plugsmith.json"]

/-- The name under which a new configuration file is written. -/
def defaultFileName : Text :=
  ".plugsmith.json"

def inDirectory? (t : Tree) (directory : Path) : Option Path :=
  (fileNames.map directory.join).find? t.exists?

/-- The configuration file of the nearest directory among a path and its parents that has one. -/
def find? (t : Tree) (start : Path) : Option Path :=
  start.ancestors.findSome? (inDirectory? t)

def loadFile (t : Tree) (p : Path) : Except Failure Config :=
  match t.readText p with
  | .error e => .error (.files e)
  | .ok contents => (ofText contents).mapError .config

/-- The settings of the nearest configuration file, or the default ones if there is none. -/
def load (t : Tree) (start : Path) : Except Failure Config :=
  match find? t start with
  | none => .ok .default
  | some p => loadFile t p

def save (config : Config) (p : Path) : Files.Action Unit :=
  Files.writeText p config.toText

end PluginForge.Config
