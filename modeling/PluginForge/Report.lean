import PluginForge.Failure

namespace PluginForge

/-- What the program was about when a request failed. -/
inductive Attempt where
  | readDescriptor (path : Files.Path)
  | parseDescriptor (path : Files.Path)
  | describePlugin (name : Text)
  | describeCommand (name : Text)
  | registerCommand (name : Text)
  | readHandler (path : Files.Path)
  | readCallback (path : Text)
  | transpile (path : Text)
  | findDescriptor (path : Text)
  | loadConfigFile (path : Text)
  | loadConfig
  | build
  | resolveRoot
  | writeConfig (path : Files.Path)
  deriving DecidableEq, Repr

def Attempt.message : Attempt → Text
  | .readDescriptor path => "Failed to read descriptor " ++ path.text
  | .parseDescriptor path => "Failed to parse descriptor " ++ path.text
  | .describePlugin name => "Invalid plugin '" ++ name ++ "'"
  | .describeCommand name => "Invalid command '" ++ name ++ "'"
  | .registerCommand name => "Failed to register command '" ++ name ++ "'"
  | .readHandler path => "Failed to read handler " ++ path.text
  | .readCallback path => "Failed to read callback " ++ path
  | .transpile path => "Failed to transpile " ++ path
  | .findDescriptor path => "Descriptor not found: " ++ path
  | .loadConfigFile path => "Failed to load config " ++ path
  | .loadConfig => "Failed to load config"
  | .build => "Build failed"
  | .resolveRoot => "Failed to canonicalize project root"
  | .writeConfig path => "Failed to write config to " ++ path.text

inductive Cause where
  | failure (reason : Failure)
  | files (error : Files.Error)
  | json (error : Json.Error)
  | twoHandlers
  | noParent

def Cause.messages : Cause → List Text
  | .failure reason => reason.messages
  | .files error => error.messages
  | .json error => [error.message]
  | .twoHandlers => ["set either 'handler' or 'handler_source', not both"]
  | .noParent => ["Descriptor has no parent directory"]

/-- Why a request failed: what was attempted, outermost first, and the cause. -/
structure Report where
  attempts : List Attempt
  cause : Cause

namespace Report

/-- The messages from the outermost attempt to the innermost cause. -/
def messages (r : Report) : List Text :=
  r.attempts.map Attempt.message ++ r.cause.messages

/-- The report of something that was done as a part of an attempt. -/
def within (attempt : Attempt) (r : Report) : Report :=
  { r with attempts := attempt :: r.attempts }

def ofCause (cause : Cause) : Report :=
  ⟨[], cause⟩

def ofFailure (failure : Failure) : Report :=
  ofCause (.failure failure)

/-- The failure of one thing that was attempted. -/
def ofFiles (attempt : Attempt) (error : Files.Error) : Report :=
  ⟨[attempt], .files error⟩

end Report

end PluginForge
