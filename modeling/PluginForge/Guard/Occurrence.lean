import PluginForge.Java.Identifier

namespace PluginForge.Guard

/-- The character does not go on an identifier. -/
def isBoundary (c : Option Char) : Bool :=
  !c.any Java.isIdentifierChar

/-- The rest of a scan that renames identifiers, after `skip` characters that belong to a match already
dealt with, with the character before the rest. A match inside a longer identifier stays. -/
def renameFrom (old new : Text) : (skip : Nat) → (before : Option Char) → Text → Text
  | _, _, [] => []
  | skip + 1, _, c :: r => renameFrom old new skip (some c) r
  | 0, before, c :: r =>
    if old.isPrefixOf (c :: r) then
      let standsAlone := isBoundary before && isBoundary ((c :: r).drop old.length).head?
      (if standsAlone then new else old) ++ renameFrom old new (old.length - 1) (some c) r
    else c :: renameFrom old new 0 (some c) r

/-- Replaces the name `old` by `new` wherever it stands as a whole identifier. -/
def rename (old new t : Text) : Text :=
  if old = [] then t else renameFrom old new 0 none t

/-- The name stands somewhere in the text as a whole identifier. -/
def occurs (name t : Text) : Bool :=
  rename name [] t != t

end PluginForge.Guard
