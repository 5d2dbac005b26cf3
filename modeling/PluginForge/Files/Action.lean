import PluginForge.Files.Access

namespace PluginForge.Files

/-- A step that reads and changes files, and keeps what it has changed when it fails. -/
abbrev Action (α : Type) := ExceptT Error (StateM Tree) α

namespace Action

/-- Reads from the files without changing them. -/
def look {α : Type} (f : Tree → Except Error α) : Action α :=
  fun t => (f t, t)

/-- Changes the files in one piece: a change that fails leaves them as they are. -/
def change (f : Tree → Except Error Tree) : Action Unit := fun t =>
  match f t with
  | .error e => (.error e, t)
  | .ok t => (.ok (), t)

end Action

def isDirectory (p : Path) : Action Bool :=
  .look fun t => .ok (t.isDirectory p)

def write (p : Path) (content : ByteArray) : Action Unit :=
  .change fun t => t.write p content

def writeText (p : Path) (t : Text) : Action Unit :=
  write p (Text.toUtf8 t)

def appendText (p : Path) (t : Text) : Action Unit :=
  .change fun tree => tree.append p (Text.toUtf8 t)

def rename (source target : Path) : Action Unit :=
  .change fun t => t.rename source target

/-- What the creation of a directory has led to. It is no failure if the directory is there anyway. -/
def orThere (p : Path) (t : Tree) : Except Error Tree → Except Error Unit × Tree
  | .ok t => (.ok (), t)
  | .error e => if t.isDirectory p then (.ok (), t) else (.error e, t)

/-- Creates the first directory of a path and its parents that can be created, and then those in front
of it. A parent that is there already is no failure. -/
def createAll : List Path → Action Unit
  | [] => return
  | p :: parents => fun t =>
    if p.text.isEmpty then (.ok (), t)
    else
      match t.makeDirectory p with
      | .error (.refused .notFound) =>
        match createAll parents t with
        | (.error e, t) => (.error e, t)
        | (.ok (), t) => orThere p t (t.makeDirectory p)
      | result => orThere p t result

/-- Creates a directory with all that is missing on the way to it, unless it is there already. -/
def ensureDirectory (p : Path) : Action Unit :=
  createAll p.ancestors

/-- Deletes a file or a directory with all that it holds; a path that leads nowhere is no failure. -/
def removePath (p : Path) : Action Unit := fun t =>
  if t.isDirectory p then
    match t.removeAll p with
    | (result, t) => (result.map fun _ => (), t)
  else
    match t.find p with
    | .error _ => (.ok (), t)
    | .ok (at', _) => (.ok (), t.remove at')

/-- The places of the files at or below a place whose names have an extension. -/
def withExtension (t : Tree) (at' : Location) (extension : Text) : List Location :=
  (t.below at').filterMap fun entry =>
    let location := at' ++ entry.1
    match entry.2 with
    | .directory => none
    | .file _ =>
      match location.getLast? with
      | none => none
      | some name => if (Path.splitName name).2 = some extension then some location else none

/-- Deletes the files at or below a path whose names have an extension, and counts them. -/
def removeWithExtension (root : Path) (extension : Text) : Action Nat := fun t =>
  match t.find root with
  | .error _ => (.ok 0, t)
  | .ok (at', _) =>
    let locations := withExtension t at' extension
    (.ok locations.length, locations.foldl Tree.remove t)

/-- The names that a scratch directory can get begin with this. -/
def scratchPrefix : Text :=
  ".plugsmith-fetch-"

/-- A name for a scratch directory: six digits behind the common beginning. -/
def scratchName (n : Nat) : Text :=
  let digits := Text.ofNat n
  scratchPrefix ++ List.replicate (6 - digits.length) '0' ++ digits

/-- The path of a scratch directory in a directory: the first name that is not in use there. There are
fewer names in use than files, so one of the candidates is free. -/
def scratchPath (t : Tree) (root : Path) : Path :=
  let free (n : Nat) : Bool := !t.exists? (root.join (scratchName n))
  root.join (scratchName (((List.range (t.nodes.entries.length + 1)).find? free).getD 0))

def makeScratch (root : Path) : Action Path := fun t =>
  let p := scratchPath t root
  match t.makeDirectory p with
  | .error e => (.error (.inCreating p e), t)
  | .ok t => (.ok p, t)

end PluginForge.Files
