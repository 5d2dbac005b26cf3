import PluginForge.Callback.Fault

namespace PluginForge.Callback

/-- The names that a callback gives to the four parameters of a command handler. -/
structure Parameters where
  sender : Text
  command : Text
  label : Text
  args : Text
  deriving DecidableEq, Repr

namespace Parameters

/-- A name without the blanks in and around it. -/
def cleanName (name : Text) : Text :=
  name.filter fun c => !Text.isBlank c

/-- Reads the names between the first opening parenthesis of a line and the first closing one behind it.
Names after the fourth are left out. -/
def parse (line : Text) : Except Fault Parameters :=
  match Text.cut? (· == '(') line with
  | none => .error (.noParameters (Text.trim line))
  | some (_, rest) =>
    match Text.cut? (· == ')') rest with
    | none => .error (.unclosedParameters (Text.trim line))
    | some (list, _) =>
      match (Text.splitOn ',' list).map cleanName with
      | sender :: command :: label :: args :: _ =>
        if sender.isEmpty || command.isEmpty || label.isEmpty || args.isEmpty then
          .error (.missingParameters ("(" ++ list ++ ")"))
        else .ok ⟨sender, command, label, args⟩
      | _ => .error (.missingParameters ("(" ++ list ++ ")"))

/-- The signature of a command handler with a placeholder for each name. -/
def signatureTemplate : Text :=
  "public boolean onCommand(CommandSender %sender%, Command %cmd%, String %label%, String[] %args%)"

/-- The signature of a handler with these parameters. The placeholders are filled in one after another,
so a name that reads like a later placeholder is filled in its turn. -/
def signature (p : Parameters) : Text :=
  signatureTemplate
    |> Text.replaceFirst "%sender%" p.sender
    |> Text.replaceFirst "%cmd%" p.command
    |> Text.replaceFirst "%label%" p.label
    |> Text.replaceFirst "%args%" p.args

end Parameters

end PluginForge.Callback
