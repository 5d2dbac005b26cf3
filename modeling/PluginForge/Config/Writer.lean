import PluginForge.Config.Basic
import PluginForge.Json.Value

namespace PluginForge.Config

open Json

/-- A member whose list or object is left out when it is empty. -/
def unlessEmpty {α : Type} (name : Text) (write : List α → Value) (items : List α) :
    List (Text × Value) :=
  if items.isEmpty then [] else [(name, write items)]

def listValue (items : List Text) : Value :=
  .list (items.map .string)

def capabilityValue (capability : Guard.Capability) : Value :=
  .object [("target_type", .string capability.targetType),
    ("rejection_message", .string capability.rejection)]

def capabilitiesValue (entries : List (Text × Guard.Capability)) : Value :=
  .object (entries.map fun (tag, capability) => (tag, capabilityValue capability))

def compilerValue (compiler : Compiler) : Value :=
  .object (("command".toList, .string compiler.command) ::
    unlessEmpty "extra_args" listValue compiler.extraArgs)

def libraryValue (library : Library) : Value :=
  .object [("repository", .string library.repository), ("branch", .string library.branch),
    ("directory", .string library.directory), ("prune", listValue library.prune)]

def toValue (config : Config) : Value :=
  .object (
    [("compiler".toList, compilerValue config.compiler),
      ("git".toList, .object [("command", .string config.git)]),
      ("support_library".toList, libraryValue config.library)] ++
    unlessEmpty "capabilities" capabilitiesValue config.capabilities.entries ++
    [("archive".toList, .object [("compression", .string config.compression.name)])])

def toText (config : Config) : Text :=
  config.toValue.pretty 0

end PluginForge.Config
