import PluginForge.Callback.Handler
import PluginForge.Failure
import PluginForge.Guard.Injection
import PluginForge.Plugin.CommandClass

namespace PluginForge

/-- Guards the handler of a class with the capability of a tag. -/
def CommandClass.guard (registry : Guard.Registry) (sender tag : Text) (c : CommandClass) :
    CommandClass :=
  { c with handler := { c.handler with body := Guard.inject registry c.handler.body sender tag } }

/-- A command of a plugin. A callback gives it the name of the sender and the class that runs it. -/
structure Command where
  name : Text
  usage : Text
  description : Text
  aliases : Option (List Text)
  sender : Option Text
  commandClass : Option CommandClass
  deriving DecidableEq, Repr

namespace Command

/-- A command that says nothing about itself and does nothing yet. -/
def ofName (name : Text) : Command where
  name := name
  usage := "this command doesn't specify a usage"
  description := "this command doesn't have a description"
  aliases := none
  sender := none
  commandClass := none

/-- Lets a command run a callback, instead of an earlier one with its guards. -/
def onUse (c : Command) (source : Text) : Except Failure Command :=
  match Callback.Handler.ofSource source with
  | .error fault => .error (.callback fault)
  | .ok handler =>
    let method : Java.Method := ⟨handler.signature, handler.body⟩
    .ok
      { c with
        sender := some handler.parameters.sender
        commandClass := some (.ofHandler c.name method) }

/-- Restricts a command to senders with the capability of a tag; an unknown tag restricts nothing. -/
def executeType (registry : Guard.Registry) (c : Command) (tag : Text) : Except Failure Command :=
  match c.commandClass, c.sender with
  | some commandClass, some sender =>
    .ok { c with commandClass := some (commandClass.guard registry sender tag) }
  | _, _ => .error (.missingHandler c.name)

/-- A step that describes a command further, and keeps what it has changed when it fails. -/
abbrev Action (α : Type) := ExceptT Failure (StateM Command) α

/-- What can be done with a command before it is registered. -/
inductive Step where
  | usage (text : Text)
  | description (text : Text)
  | aliases (names : List Text)
  | name (text : Text)
  | onUse (source : Text)
  | executeType (registry : Guard.Registry) (tag : Text)

def Step.perform : Step → Action Unit
  | .usage text => modify fun c => { c with usage := text }
  | .description text => modify fun c => { c with description := text }
  | .aliases names => modify fun c => { c with aliases := some names }
  | .name text => modify fun c => { c with name := text }
  | .onUse source => do
    let c ← ((← get).onUse source : Except Failure Command)
    set c
  | .executeType registry tag => do
    let c ← ((← get).executeType registry tag : Except Failure Command)
    set c

/-- Puts the class of a command into a plugin's package. -/
def stamp (c : Command) (plugin : Text) : Command :=
  { c with commandClass := c.commandClass.map fun commandClass => commandClass.stamp plugin }

end Command

end PluginForge
