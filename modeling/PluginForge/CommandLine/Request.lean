import PluginForge.Text.Basic

namespace PluginForge.CommandLine

/-- An option of a request: its letter, its word, and whether a value belongs to it. -/
structure Switch where
  letter : Option Char
  word : Text
  takesValue : Bool

/-- The arguments that a request takes: its options, and whether one argument stands on its own. -/
structure Form where
  switches : List Switch
  takesOperand : Bool

/-- The arguments that have been read: the one on its own, the options with their values, the option that
waits for its value, and whether one has not got its value. -/
structure Given where
  operand : Option Text
  values : List (Text × Text)
  waiting : Option Text
  isLacking : Bool

def Given.empty : Given :=
  ⟨none, [], none, false⟩

/-- What reading an argument leads to: to go on, to show the help, or to refuse the arguments. -/
inductive Reading (α : Type) where
  | goOn (a : α)
  | help
  | refused

namespace Given

def value? (g : Given) (word : Text) : Option Text :=
  g.values.lookup word

/-- Adds an option with its value; no option is given twice. -/
def add (g : Given) (word value : Text) : Reading Given :=
  if (g.value? word).isSome then .refused
  else .goOn { g with values := g.values ++ [(word, value)], waiting := none }

/-- An option begins: one that still waits for its value does not get any. -/
def interrupt (g : Given) : Given :=
  { g with isLacking := g.isLacking || g.waiting.isSome, waiting := none }

def addOperand (form : Form) (g : Given) (arg : Text) : Reading Given :=
  if form.takesOperand && g.operand.isNone then .goOn { g with operand := some arg } else .refused

def await (g : Given) (word : Text) : Reading Given :=
  if (g.value? word).isSome then .refused else .goOn { g with waiting := some word }

/-- Reads the option of a word, with the value behind its equals sign if there is one. -/
def addWord (form : Form) (g : Given) (word : Text) (value : Option Text) : Reading Given :=
  match form.switches.find? fun switch => switch.word == word with
  | some switch =>
    match switch.takesValue, value with
    | true, some value => g.add word value
    | true, none => g.await word
    | false, none => g.add word []
    | false, some _ => .refused
  | none => if word = "help" && value.isNone then .help else .refused

/-- Reads options that are given by their letters; what follows the letter of an option that takes a
value is its value. -/
def addLetters (form : Form) : Given → Text → Reading Given
  | g, [] => .goOn g
  | g, c :: r =>
    match form.switches.find? fun switch => switch.letter == some c with
    | some switch =>
      if switch.takesValue then
        match r with
        | [] => g.await switch.word
        | '=' :: value => g.add switch.word value
        | value => g.add switch.word value
      else
        match g.add switch.word [] with
        | .goOn g => addLetters form g r
        | reading => reading
    | none => if c = 'h' then .help else .refused

/-- Reads the arguments of a request; behind a double dash all stand on their own. -/
def readAll (form : Form) : (onlyOperands : Bool) → Given → List Text → Reading Given
  | _, g, [] => if g.isLacking || g.waiting.isSome then .refused else .goOn g
  | true, g, arg :: args =>
    match g.addOperand form arg with
    | .goOn g => readAll form true g args
    | reading => reading
  | false, g, arg :: args =>
    let reading : Reading (Bool × Given) :=
      let mark (onlyOperands : Bool) : Reading Given → Reading (Bool × Given)
        | .goOn g => .goOn (onlyOperands, g)
        | .help => .help
        | .refused => .refused
      match arg with
      | ['-', '-'] => .goOn (true, g.interrupt)
      | '-' :: '-' :: word =>
        mark false <|
          match Text.cut? (· == '=') word with
          | some (word, value) => g.interrupt.addWord form word (some value)
          | none => g.interrupt.addWord form word none
      | '-' :: c :: r => mark false (g.interrupt.addLetters form (c :: r))
      | arg =>
        mark false <|
          match g.waiting with
          | some word => g.add word arg
          | none => g.addOperand form arg
    match reading with
    | .goOn (onlyOperands, g) => readAll form onlyOperands g args
    | .help => .help
    | .refused => .refused

end Given

inductive Request where
  | build (descriptor : Text) (config : Option Text)
  | transpile (file : Text) (guardTag name : Option Text)
  | init (directory : Option Text) (force : Bool)
  | version
  | help
  deriving DecidableEq, Repr

namespace Request

def buildForm : Form :=
  ⟨[⟨some 'c', "config", true⟩], true⟩

def transpileForm : Form :=
  ⟨[⟨some 'g', "guard", true⟩, ⟨some 'n', "name", true⟩], true⟩

def initForm : Form :=
  ⟨[⟨none, "cwd", true⟩, ⟨some 'f', "force", false⟩], false⟩

/-- The form of a request, and the request that given arguments make. -/
structure Kind where
  names : List Text
  form : Form
  make : Given → Option Request

def kinds : List Kind :=
  [⟨["build", ['b']], buildForm, fun g => g.operand.map fun descriptor =>
      .build descriptor (g.value? "config")⟩,
    ⟨["transpile", ['t']], transpileForm, fun g => g.operand.map fun file =>
      .transpile file (g.value? "guard") (g.value? "name")⟩,
    ⟨["init"], initForm, fun g => some (.init (g.value? "cwd") (g.value? "force").isSome)⟩]

def kind? (name : Text) : Option Kind :=
  kinds.find? fun kind => kind.names.contains name

/-- The request that arguments make; `none` if they make none. -/
def ofArgs? : List Text → Option Request
  | [] => none
  | arg :: args =>
    match kind? arg with
    | some kind =>
      match Given.empty.readAll kind.form false args with
      | .goOn g => kind.make g
      | .help => some .help
      | .refused => none
    | none =>
      if arg = "--version" then some .version
      else if arg = "--help" then some .help
      else
        match arg with
        | '-' :: 'V' :: _ => some .version
        | '-' :: 'h' :: _ => some .help
        | arg =>
          if arg = "help" then
            match args with
            | [] => some .help
            | [name] => if name = "help" || (kind? name).isSome then some .help else none
            | _ => none
          else none

end Request

end PluginForge.CommandLine
