import PluginForge.Files.Action

namespace PluginForge.Build

namespace Program

inductive Status where
  | exited (code : Nat)
  | killed (signal : Nat)
  deriving DecidableEq, Repr

/-- The names of the signals, the first of which has number one. -/
def signalNames : List Text :=
  (["HUP", "INT", "QUIT", "ILL", "TRAP", "ABRT", "BUS", "FPE", "KILL", "USR1", "SEGV", "USR2", "PIPE",
    "ALRM", "TERM", "STKFLT", "CHLD", "CONT", "STOP", "TSTP", "TTIN", "TTOU", "URG", "XCPU", "XFSZ",
    "VTALRM", "PROF", "WINCH", "IO", "PWR", "SYS"] : List String).map String.toList

def signalName? (signal : Nat) : Option Text :=
  if signal = 0 then none else signalNames[signal - 1]?

namespace Status

def isSuccess (s : Status) : Bool :=
  s == .exited 0

def message : Status → Text
  | .exited code => "exit status: " ++ Text.ofNat code
  | .killed signal =>
    "signal: " ++ Text.ofNat signal ++
      match signalName? signal with
      | some name => " (SIG" ++ name ++ ")"
      | none => []

end Status

/-- What a program leaves behind: how it ended and what it has written. -/
structure Outcome where
  status : Status
  output : ByteArray
  errors : ByteArray

end Program

/-- The programs of the system. Where a name leads to a program among the files, the program takes arguments
and may change files. -/
abbrev Programs := Files.Tree → Text → Option (List Text → Files.Action Program.Outcome)

def Programs.empty : Programs := fun _ _ => none

end PluginForge.Build
