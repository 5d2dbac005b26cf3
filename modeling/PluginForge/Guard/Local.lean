import PluginForge.Guard.Occurrence

namespace PluginForge.Guard

/-- The local name for tags that are no names themselves. -/
def fallbackLocal : Text :=
  "guarded"

/-- The name that a tag suggests: its identifier characters in lower case. -/
def localBase (tag : Text) : Text :=
  let base := (tag.filter Java.isIdentifierChar).map Char.toLower
  if Java.isIdentifier base then base else fallbackLocal

/-- The first of the names `base` with the numbers from `n` on that is not used in a body, among the
next `fuel` of them. -/
def searchLocal? (body base : Text) : (fuel n : Nat) → Option Text
  | 0, _ => none
  | fuel + 1, n =>
    let candidate := base ++ Text.ofNat n
    if occurs candidate body then searchLocal? body base fuel (n + 1) else some candidate

/-- A name that a body does not use: `base`, or `base` with the least number from one on. A body uses
fewer names than it has characters, so the search ends before its last candidate. -/
def freshLocal (body base : Text) : Text :=
  if occurs base body then (searchLocal? body base (body.length + 1) 1).getD base else base

end PluginForge.Guard
