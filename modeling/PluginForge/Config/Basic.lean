import PluginForge.Guard.Registry

namespace PluginForge

namespace Config

/-- The Java compiler and the arguments that it gets besides those of the build. -/
structure Compiler where
  command : Text
  extraArgs : List Text
  deriving DecidableEq, Repr

def Compiler.default : Compiler :=
  ⟨"javac", []⟩

/-- Where the support library comes from, the directory that holds it there, and what is deleted from a
checkout before it is used. -/
structure Library where
  repository : Text
  branch : Text
  directory : Text
  prune : List Text
  deriving DecidableEq, Repr

/-- The directory of the support library unless another one is configured. -/
def libraryDirectory : Text :=
  "org"

def Library.default : Library :=
  ⟨"https://github.com/ephf/plug-org.git", "main", libraryDirectory, [".git", "README.md"]⟩

inductive Compression where
  | deflated
  | stored
  deriving DecidableEq, Repr

namespace Compression

def all : List Compression :=
  [.deflated, .stored]

def name : Compression → Text
  | .deflated => "deflated"
  | .stored => "stored"

def ofName? (name : Text) : Option Compression :=
  all.find? fun compression => compression.name == name.map Char.toLower

end Compression

end Config

structure Config where
  compiler : Config.Compiler
  git : Text
  library : Config.Library
  capabilities : Guard.Registry
  compression : Config.Compression

namespace Config

/-- The settings without any capability of their own. -/
def bare : Config where
  compiler := .default
  git := "git"
  library := .default
  capabilities := Table.empty
  compression := .deflated

def default : Config :=
  { bare with capabilities := .builtin }

/-- The capabilities that a build with these settings knows: the configured ones over the built-in
ones. -/
def registry (config : Config) : Guard.Registry :=
  Guard.Registry.builtin.insertAll config.capabilities.entries

end Config

end PluginForge
