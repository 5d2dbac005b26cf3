import PluginForge.Files.Tree
import PluginForge.Text.Utf8

namespace PluginForge.Files

namespace Tree

/-- The names of the directory's entries can be up to this long in bytes. -/
def nameLimit : Nat :=
  255

/-- Follows steps from a place. All places on the way must be directories; the last need not exist. -/
def walk (t : Tree) : Location → List Text → Except Refusal Location
  | at', [] => .ok at'
  | at', step :: steps =>
    match t.node? at' with
    | none => .error .notFound
    | some (.file _) => .error .notDirectory
    | some .directory =>
      if step = ['.'] then walk t at' steps
      else if step = ['.', '.'] then walk t at'.dropLast steps
      else if nameLimit < Text.utf8Length step then .error .nameTooLong
      else walk t (at' ++ [step]) steps

/-- The steps of a path; one that ends in a slash has to end at a directory. -/
def stepsOf (p : Path) : List Text :=
  if p.endsInSlash then p.steps ++ [['.']] else p.steps

/-- Paths with a NUL are refused before anything is looked up. -/
def checked {α : Type} (p : Path) (result : Except Refusal α) : Except Error α :=
  if p.text.contains '\x00' then .error .nulInPath else result.mapError .refused

/-- Where a path leads to. A path that is not absolute is followed from the root. -/
def target (t : Tree) (p : Path) : Except Error Location :=
  checked p (if p.text.isEmpty then .error .notFound else walk t [] (stepsOf p))

def find (t : Tree) (p : Path) : Except Error (Location × Node) :=
  match t.target p with
  | .error e => .error e
  | .ok at' =>
    match t.node? at' with
    | none => .error (.refused .notFound)
    | some node => .ok (at', node)

def exists? (t : Tree) (p : Path) : Bool :=
  (t.find p).isOk

def isDirectory (t : Tree) (p : Path) : Bool :=
  match t.find p with
  | .ok (_, .directory) => true
  | _ => false

def read (t : Tree) (p : Path) : Except Error ByteArray :=
  match t.find p with
  | .error e => .error e
  | .ok (_, .directory) => .error (.refused .isDirectory)
  | .ok (_, .file content) => .ok content

def readText (t : Tree) (p : Path) : Except Error Text :=
  match t.read p with
  | .error e => .error e
  | .ok content =>
    match Text.ofUtf8? content with
    | none => .error .notUtf8
    | some text => .ok text

/-- The directory that holds the last step of a path, and that step; `none` for a path without a last
step. -/
def holder (t : Tree) (p : Path) : Except Refusal (Option (Location × Text)) :=
  if p.text.isEmpty then .error .notFound
  else
    match p.steps.getLast? with
    | none => .ok none
    | some name =>
      match walk t [] p.steps.dropLast with
      | .error e => .error e
      | .ok at' =>
        match t.node? at' with
        | none => .error .notFound
        | some (.file _) => .error .notDirectory
        | some .directory =>
          if nameLimit < Text.utf8Length name then .error .nameTooLong else .ok (some (at', name))

def makeDirectory (t : Tree) (p : Path) : Except Error Tree :=
  checked p <|
    match t.holder p with
    | .error e => .error e
    | .ok none => .error .alreadyExists
    | .ok (some (at', name)) =>
      if !isName name || (t.node? (at' ++ [name])).isSome then .error .alreadyExists
      else .ok (t.put (at' ++ [name]) .directory)

/-- Writes a file, instead of one that stands there. -/
def write (t : Tree) (p : Path) (content : ByteArray) : Except Error Tree :=
  checked p <|
    match t.holder p with
    | .error e => .error e
    | .ok none => .error .isDirectory
    | .ok (some (at', name)) =>
      if p.endsInSlash || !isName name || Node.isDirectory (t.node? (at' ++ [name])) then
        .error .isDirectory
      else .ok (t.put (at' ++ [name]) (.file content))

/-- Writes behind the end of a file that stands there. -/
def append (t : Tree) (p : Path) (content : ByteArray) : Except Error Tree :=
  match t.find p with
  | .error e => .error e
  | .ok (_, .directory) => .error (.refused .isDirectory)
  | .ok (at', .file old) => .ok (t.put at' (.file (old ++ content)))

/-- Renames what one path leads to. A directory may replace an empty one, a file another file. -/
def rename (t : Tree) (source target : Path) : Except Error Tree :=
  checked source <|
    match t.holder source with
    | .error e => .error e
    | .ok from? =>
      match t.holder target with
      | .error e => .error e
      | .ok to? =>
        match from?, to? with
        | some (sourceAt, sourceName), some (targetAt, targetName) =>
          if !isName sourceName || !isName targetName then .error .busy
          else
            let source' := sourceAt ++ [sourceName]
            let target' := targetAt ++ [targetName]
            let asDirectory := source.endsInSlash || target.endsInSlash
            match t.node? source', t.node? target' with
            | none, _ => .error .notFound
            | some (.file _), some .directory =>
              .error (if asDirectory then .notDirectory else .isDirectory)
            | some (.file _), _ =>
              if asDirectory then .error .notDirectory
              else if source' = target' then .ok t
              else .ok (t.move source' target')
            | some .directory, some (.file _) => .error .notDirectory
            | some .directory, found =>
              if source' = target' then .ok t
              else if source'.isPrefixOf target' then .error .invalid
              else if found.isSome && !t.isEmptyDirectory target' then .error .notEmpty
              else .ok (t.move source' target')
        | _, _ => .error .busy

/-- Deletes what a path leads to, with all that is below it. The directory itself is deleted by its name:
one named by a dot is only emptied, and the deletion fails; one named by two dots is emptied, which takes
away the path that led to it. -/
def removeAll (t : Tree) (p : Path) : Except Error Tree × Tree :=
  match t.find p with
  | .error e => (.error e, t)
  | .ok (at', .file _) => (.ok (t.remove at'), t.remove at')
  | .ok (at', .directory) =>
    match p.steps.getLast? with
    | none => (.error (.refused .busy), t.clear at')
    | some name =>
      if name = ['.'] then (.error (.refused .invalid), t.clear at')
      else if name = ['.', '.'] then (.ok (t.clear at'), t.clear at')
      else (.ok (t.remove at'), t.remove at')

end Tree

end PluginForge.Files
