import PluginForge.Callback.Fault
import PluginForge.Files.Error
import PluginForge.Json.Fault

namespace PluginForge

inductive Failure where
  | files (error : Files.Error)
  | callback (fault : Callback.Fault)
  | invalidName (name : Text)
  | duplicateCommand (name : Text)
  | missingHandler (command : Text)
  | nameOfLibrary (plugin : Text)
  | toolNotFound (program : Text)
  | nulInArgument
  | toolFailed (program status output : Text)
  | duplicateEntry (name : Text)
  | archive (reason : Text)
  | config (error : Json.Error)
  | separatorInClasspath
  | noLibrary (repository directory : Text)
  | refused (reason : Text)
  | abandoned
  | cancelled

namespace Failure

def message : Failure → Text
  | .files error => "IO error: " ++ error.message
  | .callback fault => fault.message
  | .invalidName name => "'" ++ name ++ "' is not a valid Java identifier"
  | .duplicateCommand name => "A command class named '" ++ name ++ "' is already registered"
  | .missingHandler command => "Command '" ++ command ++ "' has no handler"
  | .nameOfLibrary plugin =>
    "Plugin '" ++ plugin ++ "' has the same name as the support library directory"
  | .toolNotFound program => "Required tool '" ++ program ++ "' was not found on PATH"
  | .nulInArgument => "IO error: nul byte found in provided data"
  | .toolFailed program status output =>
    program ++ " failed (" ++ status ++ ")\n" ++ output
  | .duplicateEntry name => "Archive error: invalid Zip archive: Duplicate filename: " ++ name
  | .archive reason => "Archive error: " ++ reason
  | .config error => "Configuration error: Failed to parse config: " ++ error.message
  | .separatorInClasspath => "Cannot build classpath: path segment contains separator `:`"
  | .noLibrary repository directory =>
    repository ++ " does not contain a '" ++ directory ++ "' directory"
  | .refused reason => reason
  | .abandoned => "Registration ended before the plugin was marked ready"
  | .cancelled => "The deferred build was cancelled"

/-- The message of a failure and those of its causes, outermost first. -/
def messages (failure : Failure) : List Text :=
  failure.message ::
    match failure with
    | .files error => error.messages
    | .nulInArgument => ["nul byte found in provided data"]
    | .duplicateEntry name => ["invalid Zip archive: Duplicate filename: " ++ name]
    | .archive reason => [reason]
    | _ => []

end Failure

end PluginForge
