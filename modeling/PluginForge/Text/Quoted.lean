import PluginForge.Text.Pictured

namespace PluginForge.Text

/-- The spelling of one character inside a quoted text: the usual short escapes, and the code point
in braces for a character without a picture. -/
def quotedChar (c : Char) : Text :=
  if c = '"' then "\\\""
  else if c = '\\' then "\\\\"
  else if c = '\n' then "\\n"
  else if c = '\r' then "\\r"
  else if c = '\t' then "\\t"
  else if c.toNat = 0 then "\\0"
  else if isPictured c then [c]
  else "\\u\x7b" ++ Nat.toDigits 16 c.toNat ++ "\x7d"

/-- A text in double quotes as a message shows it. -/
def quoted (t : Text) : Text :=
  '"' :: t.flatMap quotedChar ++ ['"']

end PluginForge.Text
