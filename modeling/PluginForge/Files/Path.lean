import PluginForge.Text.Basic

namespace PluginForge.Files

/-- The text that names a file or a directory. It is kept as it is written: nothing is resolved. -/
structure Path where
  text : Text
  deriving DecidableEq, Repr

namespace Path

/-- A path seen from another one. An absolute path stays as it is; joining the empty text marks the path
as a directory. -/
def join (p : Path) (t : Text) : Path :=
  if t.head? = some '/' then ⟨t⟩
  else if p.text.isEmpty || p.text.getLast? == some '/' then ⟨p.text ++ t⟩
  else ⟨p.text ++ '/' :: t⟩

def joinAll (p : Path) (names : List Text) : Path :=
  names.foldl join p

/-- The pieces of a path that name a step from one place to another. -/
def steps (p : Path) : List Text :=
  (Text.splitOn '/' p.text).filter fun piece => !piece.isEmpty

/-- The names on the way to where a path leads if every step on the way is a directory. -/
def names (p : Path) : List Text :=
  p.steps.foldl
    (fun names step =>
      if step = ['.'] then names else if step = ['.', '.'] then names.dropLast else names ++ [step])
    []

/-- The path ends in a slash, so it can only name a directory. -/
def endsInSlash (p : Path) : Bool :=
  p.text.getLast? == some '/'

/-- The part of a path in front of all its names: the root, or the dot of a path that begins with one. -/
def anchor (p : Path) : Text :=
  match p.text with
  | '/' :: _ => ['/']
  | '.' :: '/' :: _ => ['.']
  | ['.'] => ['.']
  | _ => []

/-- A piece that does not move to another place. -/
def isIdle (piece : Text) : Bool :=
  piece.isEmpty || piece == ['.']

/-- The pieces behind the anchor, last first, from the last one that moves to another place. -/
def pieces (p : Path) : List Text :=
  (Text.splitOn '/' (p.text.drop p.anchor.length)).reverse.dropWhile isIdle

/-- The path of the directory that holds a file; the root and the empty path have none. -/
def parent? (p : Path) : Option Path :=
  match p.pieces with
  | [] => if p.anchor == ['.'] then some ⟨[]⟩ else none
  | _ :: rest => some ⟨p.anchor ++ Text.join "/" (rest.dropWhile isIdle).reverse⟩

def fileName? (p : Path) : Option Text :=
  p.pieces.head?.filter fun name => name != "..".toList

/-- A name in front of and behind its last dot; a dot at its beginning does not count. -/
def splitName (name : Text) : Text × Option Text :=
  match Text.cut? (· == '.') name.reverse with
  | none => (name, none)
  | some (behind, before) =>
    if before.isEmpty then (name, none) else (before.reverse, some behind.reverse)

def fileStem? (p : Path) : Option Text :=
  p.fileName?.map fun name => (splitName name).1

theorem text_eq (p : Path) : p.anchor ++ p.text.drop p.anchor.length = p.text := by
  simp only [anchor]
  split <;> simp [*]

theorem length_parent? {p q : Path} (h : p.parent? = some q) : q.text.length < p.text.length := by
  have hp := congrArg List.length (text_eq p)
  have hw := Text.width_splitOn '/' (p.text.drop p.anchor.length)
  rw [List.length_append] at hp
  simp only [parent?] at h
  split at h
  · split at h
    · next hd =>
      cases h
      rw [eq_of_beq hd] at hp
      simp only [List.length_nil, List.length_singleton] at hp ⊢
      omega
    · cases h
  · next x rest hs =>
    cases h
    let split := (Text.splitOn '/' (p.text.drop p.anchor.length)).reverse
    have hs : split.dropWhile isIdle = x :: rest := hs
    have hn : 0 < x.length := by
      have := List.head?_dropWhile_not isIdle split
      rw [hs] at this
      exact List.length_pos_iff.2 (by rintro rfl; simp [isIdle] at this)
    obtain ⟨idle, hi⟩ := List.dropWhile_suffix isIdle (l := split)
    obtain ⟨more, hm⟩ := List.dropWhile_suffix isIdle (l := rest)
    rw [hs, ← List.reverse_inj, List.reverse_reverse, ← hm] at hi
    rw [← hi] at hw
    simp only [List.reverse_append, List.reverse_cons, Text.width_append, Text.width_cons] at hw
    have hj : (Text.join "/" (rest.dropWhile isIdle).reverse).length =
        Text.width (rest.dropWhile isIdle).reverse - 1 := Text.length_join '/' _
    rw [List.length_append]
    omega

def ancestors (p : Path) : List Path :=
  p ::
    match h : p.parent? with
    | none => []
    | some parent =>
      have : parent.text.length < p.text.length := length_parent? h
      parent.ancestors
  termination_by p.text.length

end Path

end PluginForge.Files
