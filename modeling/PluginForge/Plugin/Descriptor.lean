import PluginForge.Json.Record
import PluginForge.Json.Value
import PluginForge.Plugin.Project
import PluginForge.Report

namespace PluginForge.Descriptor

open Files (Path Tree)

/-- The description of a command by its author. The callback is given by the path of its file, or as it
is. -/
structure CommandEntry where
  name : Text
  usage : Option Text
  description : Option Text
  aliases : Option (List Text)
  handler : Option Text
  handlerSource : Option Text
  executeType : Option Text
  deriving DecidableEq, Repr

structure PluginEntry where
  name : Text
  package : Option Text
  description : Option Text
  author : Option Text
  version : Option Text
  path : Option Text
  commands : List CommandEntry
  deriving DecidableEq, Repr

section Reading

open Json

def text : Reader Text :=
  Reader.text .string

def path : Reader Text :=
  Reader.text .path

def commandShape : Shape CommandEntry where
  name := "CommandDescriptor"
  initial := ⟨[], none, none, none, none, none, none⟩
  fields :=
    [.required "name" text fun c name => { c with name },
      .nullable "usage" text fun c usage => { c with usage },
      .nullable "description" text fun c description => { c with description },
      .nullable "aliases" (.list text) fun c aliases => { c with aliases },
      .nullable "handler" path fun c handler => { c with handler },
      .nullable "handler_source" text fun c handlerSource => { c with handlerSource },
      .nullable "execute_type" text fun c executeType => { c with executeType }]

def pluginShape : Shape PluginEntry where
  name := "PluginDescriptor"
  initial := ⟨[], none, none, none, none, none, []⟩
  fields :=
    [.required "name" text fun p name => { p with name },
      .nullable "package" text fun p package => { p with package },
      .nullable "description" text fun p description => { p with description },
      .nullable "author" text fun p author => { p with author },
      .nullable "version" text fun p version => { p with version },
      .nullable "path" path fun p path => { p with path },
      .optional "commands" (.list commandShape.read) fun p commands => { p with commands }]

def load (t : Tree) (file : Path) : Except Report PluginEntry :=
  match t.readText file with
  | .error e => .error (.ofFiles (.readDescriptor file) e)
  | .ok contents =>
    match pluginShape.read.run contents with
    | .error e => .error ⟨[.parseDescriptor file], .json e⟩
    | .ok entry => .ok entry

end Reading

section Writing

open Json

/-- A member that is left out when it has no value. -/
def member {α : Type} (name : Text) (write : α → Value) (value : Option α) : List (Text × Value) :=
  value.toList.map fun a => (name, write a)

def textMember (name : Text) (value : Option Text) : List (Text × Value) :=
  member name .string value

def CommandEntry.toValue (c : CommandEntry) : Value :=
  .object (
    textMember "name" (some c.name) ++ textMember "usage" c.usage ++
    textMember "description" c.description ++
    member "aliases" (fun aliases => .list (aliases.map .string)) c.aliases ++
    textMember "handler" c.handler ++ textMember "handler_source" c.handlerSource ++
    textMember "execute_type" c.executeType)

def PluginEntry.toValue (p : PluginEntry) : Value :=
  .object (
    textMember "name" (some p.name) ++ textMember "package" p.package ++
    textMember "description" p.description ++ textMember "author" p.author ++
    textMember "version" p.version ++ textMember "path" p.path ++
    member "commands" .list (some (p.commands.map CommandEntry.toValue)))

end Writing

/-- The callback of a command; its file is looked up from a base directory. -/
def CommandEntry.source? (t : Tree) (base : Path) (c : CommandEntry) : Except Report (Option Text) :=
  match c.handler, c.handlerSource with
  | some _, some _ => .error (.ofCause .twoHandlers)
  | some file, none =>
    match t.readText (base.join file) with
    | .error e => .error (.ofFiles (.readHandler (base.join file)) e)
    | .ok source => .ok (some source)
  | none, source => .ok source

def CommandEntry.toCommand (t : Tree) (base : Path) (registry : Guard.Registry) (c : CommandEntry) :
    Except Report Command := do
  let start := Command.ofName c.name
  let start :=
    { start with
      usage := c.usage.getD start.usage
      description := c.description.getD start.description
      aliases := c.aliases }
  let command ←
    match ← c.source? t base with
    | none => pure start
    | some source => (start.onUse source).mapError .ofFailure
  match c.executeType with
  | none => return command
  | some tag => (command.executeType registry tag).mapError .ofFailure

/-- The details that an entry gives, and the default ones for the others. The plugin's own path is looked
up from a base directory. -/
def PluginEntry.details (base : Path) (p : PluginEntry) : Details :=
  let start := Details.ofName p.name
  { start with
    package := p.package.getD start.package
    description := p.description.getD start.description
    author := p.author.getD start.author
    version := p.version.getD start.version
    path := base.join (p.path.getD ['.']) }

def registerAll (base : Path) (registry : Guard.Registry) (entries : List CommandEntry) :
    ExceptT Report (StateM Project) Unit :=
  entries.forM fun entry => do
    let command ←
      ((entry.toCommand (← get).files base registry).mapError (.within (.describeCommand entry.name)) :
        Except Report Command)
    ((Project.register command).adapt fun failure =>
      (Report.ofFailure failure).within (.registerCommand entry.name))

/-- The plugin that an entry describes, with all its commands registered. Registration writes to the
files, also when it fails in the end. -/
def PluginEntry.toPlugin (base : Path) (registry : Guard.Registry) (p : PluginEntry) (t : Tree) :
    Except Report Plugin × Tree :=
  match Plugin.ofDetails (p.details base) with
  | .error failure => (.error ((Report.ofFailure failure).within (.describePlugin p.name)), t)
  | .ok plugin =>
    match registerAll base registry p.commands ⟨plugin, t⟩ with
    | (result, project) => (result.map fun _ => project.plugin, project.files)

end PluginForge.Descriptor
