import PluginForge.Build.Layout
import PluginForge.Build.Tool

namespace PluginForge.Build

open Files (Path)

/-- Obtains the support library and compiles sources. Fetching writes the library's sources to a
directory that does not exist yet; compiling writes the classes beside their sources. -/
structure Toolchain where
  fetch : Layout → Config.Library → Path → Action Unit
  compile : Layout → Path → Action Unit

/-- The tool that copies the repository of the support library into a directory. -/
def cloneTool (git : Text) (library : Config.Library) (destination : Path) : Tool where
  program := git
  args :=
    ["clone", "--depth", "1", "--branch", library.branch, library.repository, destination.text]

/-- The tool that compiles an entry point and what it refers to. -/
def compileTool (compiler : Config.Compiler) (l : Layout) (entryPoint : Path) :
    Except Failure Tool :=
  l.classpath.map fun classpath =>
    ⟨compiler.command, ["-cp".toList, classpath] ++ compiler.extraArgs ++ [entryPoint.text]⟩

/-- The configured tools, as far as there are such programs. -/
def Toolchain.system (programs : Programs) (config : Config) : Toolchain where
  fetch _ library destination :=
    discard ((cloneTool config.git library destination).execute programs)
  compile l entryPoint := do
    let tool ← (compileTool config.compiler l entryPoint : Except Failure Tool)
    discard (tool.execute programs)

end PluginForge.Build
