import PluginForge.Build.Assembly
import PluginForge.CommandLine.Request
import PluginForge.Config.Lookup
import PluginForge.Plugin.Descriptor

namespace PluginForge.CommandLine

open Files (Path Tree)

/-- What a request leads to: what was written, why it failed if it did, and the files. -/
structure Reply where
  output : Text
  report : Option Report
  files : Tree

namespace Reply

def failed (files : Tree) (report : Report) : Reply :=
  ⟨[], some report, files⟩

def said (files : Tree) (lines : List Text) : Reply :=
  ⟨Java.unlines lines, none, files⟩

end Reply

/-- A path as it is given in a directory; the empty path leads nowhere. -/
def resolve (cwd : Path) (t : Text) : Path :=
  if t.isEmpty then ⟨[]⟩ else cwd.join t

def locationPath (at' : Files.Location) : Path :=
  ⟨'/' :: Text.join "/" at'⟩

/-- The path of what a path leads to, from the root on and without any detours. -/
def canonical (t : Tree) (p : Path) : Except Files.Error Path :=
  (t.find p).map fun found => locationPath found.1

/-- Makes a handler of a callback and guards it with the capability of a tag. -/
def preview (cwd : Path) (t : Tree) (file : Text) (guardTag name : Option Text) :
    Except Report Java.Method := do
  let source ← (t.readText (resolve cwd file)).mapError (.ofFiles (.readCallback file))
  let name := name.getD ((Path.fileStem? ⟨file⟩).getD "command")
  let command ← ((Command.ofName name).onUse source).mapError fun failure =>
    (Report.ofFailure failure).within (.transpile file)
  let command ←
    match guardTag with
    | none => pure command
    | some tag => do
      let config ← (Config.load t cwd).mapError fun failure =>
        (Report.ofFailure failure).within .loadConfig
      (command.executeType config.registry tag).mapError .ofFailure
  match command.commandClass with
  | none => .error (.ofFailure (.missingHandler command.name))
  | some commandClass => return commandClass.handler

/-- The settings of a build: those of a file that is given, or those found from a directory on. -/
def buildConfig (cwd base : Path) (t : Tree) (file : Option Text) : Except Report Config :=
  match file with
  | some file =>
    (Config.loadFile t (resolve cwd file)).mapError fun failure =>
      (Report.ofFailure failure).within (.loadConfigFile file)
  | none =>
    (Config.load t base).mapError fun failure => (Report.ofFailure failure).within .loadConfig

/-- The plugin of a descriptor and the settings to build it with. -/
def describe (cwd : Path) (t : Tree) (file : Text) (configFile : Option Text) :
    Except Report (Config × Plugin) × Tree :=
  let prepared : Except Report (Path × Config × Descriptor.PluginEntry) := do
    let path ← (canonical t (resolve cwd file)).mapError (.ofFiles (.findDescriptor file))
    match path.parent? with
    | none => throw (.ofCause .noParent)
    | some base => do
      let config ← buildConfig cwd base t configFile
      return (base, config, ← Descriptor.load t path)
  match prepared with
  | .error report => (.error report, t)
  | .ok (base, config, entry) =>
    match entry.toPlugin base config.registry t with
    | (result, t) => (result.map fun plugin => (config, plugin), t)

def announcement (plugin : Plugin) : Text :=
  "🔨 Building " ++ plugin.details.name ++ " with " ++ Text.ofNat plugin.commands.length ++
    " command(s)"

def summary (a : Build.Artifact) : List Text :=
  ["✅ Built " ++ a.path.text ++ " (" ++ Text.ofNat a.size ++ " bytes)",
    if a.registered.isEmpty then "   No commands registered"
    else "   Commands: " ++ Text.join ", " a.registered]

def buildPlugin (write : Archive.Writer) (programs : Build.Programs) (cwd : Path) (t : Tree)
    (file : Text) (configFile : Option Text) : Reply :=
  match describe cwd t file configFile with
  | (.error report, t) => .failed t report
  | (.ok (config, plugin), t) =>
    match Build.Assembly.run write (.system programs config) config plugin (.ofFiles t) with
    | (.error failure, w) =>
      { Reply.said w.files [announcement plugin] with
        report := some ((Report.ofFailure failure).within .build) }
    | (.ok artifact, w) => .said w.files (announcement plugin :: summary artifact)

/-- Writes a configuration file with the default settings, unless one is there and must not be
replaced. -/
def writeDefaults (cwd : Path) (t : Tree) (directory : Option Text) (force : Bool) : Reply :=
  match canonical t ((directory.map (resolve cwd)).getD cwd) with
  | .error e => .failed t (.ofFiles .resolveRoot e)
  | .ok root =>
    let file := root.join Config.defaultFileName
    if t.exists? file && !force then
      .said t ["❌ Config already exists at: " ++ file.text, "   Use --force to overwrite"]
    else
      match Config.save .default file t with
      | (.error e, t) =>
        .failed t ((Report.ofFailure (.files e)).within (.writeConfig file))
      | (.ok (), t) =>
        .said t ["✅ Created config: " ++ file.text, [],
          "📌 Edit 'compiler' to point at your JDK, or add entries under 'capabilities'"]

def versionLine : Text :=
  "plugsmith 0.1.0"

def usageLines : List Text :=
  ["Usage: plugsmith build [-c FILE] DESCRIPTOR",
    "       plugsmith transpile [-g TAG] [-n NAME] FILE",
    "       plugsmith init [--cwd DIRECTORY] [-f]"]

def Request.reply (write : Archive.Writer) (programs : Build.Programs) (cwd : Path) (t : Tree) :
    Request → Reply
  | .build file configFile => buildPlugin write programs cwd t file configFile
  | .transpile file guardTag name =>
    match preview cwd t file guardTag name with
    | .error report => .failed t report
    | .ok method => .said t [method.text]
  | .init directory force => writeDefaults cwd t directory force
  | .version => .said t [versionLine]
  | .help => .said t usageLines

/-- The text of a message whose further lines are moved to the right. -/
def indented (first further : Text) (message : Text) : Text :=
  first ++ Text.join ('\n' :: further) (Text.splitOn '\n' message)

def numbered : Nat → List Text → List Text
  | _, [] => []
  | n, message :: messages =>
    let digits := Text.ofNat n
    indented (List.replicate (5 - digits.length) ' ' ++ digits ++ ": ") "       " message ::
      numbered (n + 1) messages

/-- The text of a report as the user sees it: the outermost message, and below it its causes. -/
def reportText (r : Report) : Text :=
  match r.messages with
  | [] => []
  | [message] => "Error: " ++ message ++ "\n"
  | message :: causes =>
    let causes :=
      match causes with
      | [cause] => [indented "    " "    " cause]
      | causes => numbered 0 causes
    "Error: " ++ message ++ "\n\nCaused by:\n" ++ Java.unlines causes

/-- How a run of the program ends: its exit code, and what it has written. -/
structure Ending where
  exitCode : Nat
  output : Text
  errors : Text

def run (write : Archive.Writer) (programs : Build.Programs) (cwd : Path) (args : List Text)
    (t : Tree) : Ending × Tree :=
  match Request.ofArgs? args with
  | none => (⟨2, [], Java.unlines usageLines⟩, t)
  | some request =>
    let reply := request.reply write programs cwd t
    match reply.report with
    | none => (⟨0, reply.output, []⟩, reply.files)
    | some report => (⟨1, reply.output, reportText report⟩, reply.files)

end PluginForge.CommandLine
