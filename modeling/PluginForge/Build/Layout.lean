import PluginForge.Plugin.Basic

namespace PluginForge.Build

open Files (Path)

/-- The places that one build works with: where the archive is written to, the project, the support
library, and where an interrupted build may have left that library. -/
structure Layout where
  workingRoot : Path
  pluginRoot : Path
  cachePath : Path
  strayPath : Option Path
  deriving DecidableEq, Repr

namespace Layout

/-- The places for a plugin, whose project must not take the place of the support library. A package
whose first segment is named like the library has that directory for itself. -/
def ofDetails (library : Config.Library) (d : Details) : Except Failure Layout :=
  if d.name = library.directory then .error (.nameOfLibrary d.name)
  else
    .ok {
      workingRoot := d.path
      pluginRoot := d.root
      cachePath := d.path.join library.directory
      strayPath :=
        if d.packageRoot = library.directory then none else some (d.root.join library.directory) }

/-- Where the compiler looks for classes: the project, and the place of the support library. -/
def classpath (l : Layout) : Except Failure Text :=
  if l.pluginRoot.text.contains ':' || l.workingRoot.text.contains ':' then
    .error .separatorInClasspath
  else .ok (l.pluginRoot.text ++ ":" ++ l.workingRoot.text)

end Layout

end PluginForge.Build
