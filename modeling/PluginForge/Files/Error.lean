import PluginForge.Files.Path
import PluginForge.Text.Quoted

namespace PluginForge.Files

/-- Why the system refuses an operation on files. -/
inductive Refusal where
  | notFound
  | busy
  | alreadyExists
  | notDirectory
  | isDirectory
  | invalid
  | nameTooLong
  | notEmpty
  deriving DecidableEq, Repr

def Refusal.message : Refusal → Text
  | .notFound => "No such file or directory (os error 2)"
  | .busy => "Device or resource busy (os error 16)"
  | .alreadyExists => "File exists (os error 17)"
  | .notDirectory => "Not a directory (os error 20)"
  | .isDirectory => "Is a directory (os error 21)"
  | .invalid => "Invalid argument (os error 22)"
  | .nameTooLong => "File name too long (os error 36)"
  | .notEmpty => "Directory not empty (os error 39)"

inductive Error where
  | refused (reason : Refusal)
  | notUtf8
  | nulInPath
  | inCreating (path : Path) (reason : Error)
  | inWalking (path : Path) (reason : Error)
  deriving DecidableEq, Repr

def Error.message : Error → Text
  | .refused reason => reason.message
  | .notUtf8 => "stream did not contain valid UTF-8"
  | .nulInPath => "file name contained an unexpected NUL byte"
  | .inCreating path reason => reason.message ++ " at path " ++ Text.quoted path.text
  | .inWalking path reason =>
    "IO error for operation on " ++ path.text ++ ": " ++ reason.message

def Error.messages (error : Error) : List Text :=
  error.message ::
    match error with
    | .inCreating _ reason | .inWalking _ reason => [reason.message]
    | _ => []

end PluginForge.Files
