import PluginForge.Table
import PluginForge.Text.Basic

namespace PluginForge.Guard

/-- What a sender must be, and what it is told when it is not. -/
structure Capability where
  targetType : Text
  rejection : Text
  deriving DecidableEq, Repr

def Capability.player : Capability :=
  ⟨"Player", "You have to be a player in order to use this command!"⟩

def playerTag : Text :=
  "player"

abbrev Registry := Table Text Capability

/-- The registry that every build starts from. -/
def Registry.builtin : Registry :=
  Table.empty.insert playerTag .player

end PluginForge.Guard
