import PluginForge.Config.Basic
import PluginForge.Failure
import PluginForge.Files.Access

namespace PluginForge

/-- A file or a directory in an archive, and how its content is kept there. -/
structure Archive.Entry where
  name : Text
  method : Config.Compression
  content : ByteArray

/-- Gives the bytes of an archive with some entries, or tells why they cannot be kept. -/
abbrev Archive.Writer := List Archive.Entry → Except Text ByteArray

/-- Gives the entries of an archive, if the bytes are those of one. -/
abbrev Archive.Reader := ByteArray → Option (List Archive.Entry)

/-- An archive while it is made: how the content of files is to be kept, and the entries so far. -/
structure Archive where
  compression : Config.Compression
  entries : List Archive.Entry

namespace Archive

open Files (Location Path Tree)

def Entry.isDirectory (e : Entry) : Bool :=
  e.name.getLast? == some '/'

def empty (compression : Config.Compression) : Archive :=
  ⟨compression, []⟩

def names (a : Archive) : List Text :=
  a.entries.map Entry.name

/-- Puts an entry behind the others. No two entries have the same name. -/
def push (a : Archive) (e : Entry) : Except Failure Archive :=
  if a.names.contains e.name then .error (.duplicateEntry e.name)
  else .ok { a with entries := a.entries ++ [e] }

def addFile (t : Tree) (a : Archive) (source : Path) (name : Text) : Except Failure Archive :=
  match t.read source with
  | .error e => .error (.files e)
  | .ok content => a.push ⟨name, a.compression, content⟩

/-- The name of an entry at some names below a directory whose own entry begins with `top`. -/
def entryName (top : Text) (names : Location) : Text :=
  top ++ names.flatMap fun name => '/' :: name

/-- The entry for a place below the top. The names of directories end in a slash, and they have no
content. -/
def entryOf (compression : Config.Compression) (top : Text) : Location × Files.Node → Entry
  | (names, .directory) => ⟨entryName top names ++ "/", .stored, ByteArray.empty⟩
  | (names, .file content) => ⟨entryName top names, compression, content⟩

/-- Adds entries up to the first that cannot be added. -/
def pushAll : Archive → List Entry → Except Failure Unit × Archive
  | a, [] => (.ok (), a)
  | a, e :: es =>
    match a.push e with
    | .error failure => (.error failure, a)
    | .ok a => pushAll a es

/-- Adds what a path leads to and all that is below it, every directory before what it holds and the
entries of a directory in the order of their names. -/
def addDirectory (t : Tree) (a : Archive) (source : Path) (top : Text) :
    Except Failure Unit × Archive :=
  match t.find source with
  | .error e => (.error (.files (.inWalking source e)), a)
  | .ok (at', _) =>
    let top := Text.dropEndWhile (· == '/') top
    a.pushAll ((t.below at').map (entryOf a.compression top))

def finish (write : Writer) (a : Archive) : Except Failure ByteArray :=
  (write a.entries).mapError .archive

/-- The room that an entry needs at most: its fields, its name twice, and its content. -/
def Entry.room (e : Entry) : Nat :=
  2 * ((Text.toUtf8 e.name).size + e.content.size) + 128

def room : List Entry → Nat
  | [] => 0
  | e :: es => e.room + room es

/-- The entries are few and small enough for the numbers of two and of four bytes in an archive. -/
def Fits (entries : List Entry) : Prop :=
  entries.length < 0x10000 ∧ (∀ e ∈ entries, (Text.toUtf8 e.name).size < 0x10000) ∧
    room entries < 0x100000000

instance (entries : List Entry) : Decidable (Fits entries) :=
  inferInstanceAs (Decidable (_ ∧ _ ∧ _))

/-- A reader understands a writer: it finds the entries that were written, if no two have the same name.
The writer refuses no such entries that fit. -/
structure Understands (read : Reader) (write : Writer) : Prop where
  readBack : ∀ entries bytes, (entries.map Entry.name).Nodup → write entries = .ok bytes →
    read bytes = some entries
  accepts : ∀ entries, (entries.map Entry.name).Nodup → Fits entries → ∃ bytes, write entries = .ok bytes

end Archive

end PluginForge
