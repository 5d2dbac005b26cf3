import PluginForge.Text.Basic

namespace PluginForge.Callback

/-- Why a callback cannot become a handler. -/
inductive Fault where
  | emptySource
  | noParameters (line : Text)
  | unclosedParameters (line : Text)
  | missingParameters (list : Text)
  | notLiteral (line : Nat) (value : Text)
  | notUniform (line : Nat) (value : Text)
  deriving DecidableEq, Repr

namespace Fault

/-- The fault lies in the parameter list, not in a declaration. -/
def isMalformed : Fault → Bool
  | .notLiteral _ _ => false
  | .notUniform _ _ => false
  | _ => true

def reason : Fault → Text
  | .emptySource => "callback source is empty"
  | .noParameters line => "no parameter list in `" ++ line ++ "`"
  | .unclosedParameters line => "unclosed parameter list in `" ++ line ++ "`"
  | .missingParameters list =>
    "expected four parameters (sender, command, label, args), found `" ++ list ++ "`"
  | .notLiteral _ value => "`" ++ value ++ "` is not a literal value"
  | .notUniform _ value => "`" ++ value ++ "` is not a homogeneous, non-empty array"

def message (fault : Fault) : Text :=
  match fault with
  | .notLiteral line _ | .notUniform line _ =>
    "Cannot infer a type for the declaration on line " ++ Text.ofNat line ++ ": " ++ fault.reason
  | _ => "Malformed handler signature: " ++ fault.reason

end Fault

end PluginForge.Callback
