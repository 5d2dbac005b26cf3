import PluginForge.Guard.Local
import PluginForge.Guard.Registry
import PluginForge.Java.StringLiteral

namespace PluginForge.Guard

/-- The lines that declare `localName` as the sender seen as the target type, and turn away every other
sender. -/
def preamble (capability : Capability) (sender localName : Text) : Text :=
  let type := capability.targetType
  type ++ " " ++ localName ++ " = " ++ sender ++ " instanceof " ++ type ++ " ? (" ++ type ++ ") " ++
      sender ++ " : null;\n" ++
    "if (!(" ++ localName ++ " instanceof " ++ type ++ ")) \x7b\n" ++
    "    " ++ sender ++ ".sendMessage(\"" ++ Java.escape capability.rejection ++ "\");\n" ++
    "    return false;\n" ++
    "\x7d\n"

/-- Guards a body so that only senders with the capability get past its beginning: all uses of the sender
in it become uses of a new local of the target type. -/
def guardBody (capability : Capability) (body sender tag : Text) : Text :=
  let localName := freshLocal body (localBase tag)
  preamble capability sender localName ++ rename sender localName body

/-- Guards a body with the capability of a tag. An unknown tag leaves it as it is. -/
def inject (registry : Registry) (body sender tag : Text) : Text :=
  match registry.get? tag with
  | none => body
  | some capability => guardBody capability body sender tag

end PluginForge.Guard
