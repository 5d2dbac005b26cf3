import PluginForge.Text.Basic

namespace PluginForge.Java

/-- A character inside a string literal: a backslash stands before a quote and before a backslash. -/
def escapeChar (c : Char) : Text :=
  if c = '\\' ∨ c = '"' then ['\\', c] else [c]

def escape (t : Text) : Text :=
  t.flatMap escapeChar

theorem escape_cons (c : Char) (t : Text) : escape (c :: t) = escapeChar c ++ escape t :=
  rfl

theorem escape_append (a b : Text) : escape (a ++ b) = escape a ++ escape b :=
  List.flatMap_append

end PluginForge.Java
