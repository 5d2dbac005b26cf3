namespace PluginForge

/-- A text is a list of characters, so that every scan of the library is a recursion over one. -/
abbrev Text := List Char

instance : Coe String Text := ⟨String.toList⟩

namespace Text

/-- The characters with the Unicode property `White_Space`. -/
def isBlank (c : Char) : Bool :=
  let n := c.toNat
  (0x9 ≤ n && n ≤ 0xD) || n == 0x20 || n == 0x85 || n == 0xA0 || n == 0x1680 ||
    (0x2000 ≤ n && n ≤ 0x200A) || n == 0x2028 || n == 0x2029 || n == 0x202F || n == 0x205F ||
    n == 0x3000

/-- The text without the characters at its end that satisfy `p`. -/
def dropEndWhile (p : Char → Bool) (t : Text) : Text :=
  (t.reverse.dropWhile p).reverse

def trimStart (t : Text) : Text :=
  t.dropWhile isBlank

def trimEnd (t : Text) : Text :=
  dropEndWhile isBlank t

def trim (t : Text) : Text :=
  trimEnd (trimStart t)

/-- The parts on either side of the first character that satisfies `p`. -/
def cut? (p : Char → Bool) : Text → Option (Text × Text)
  | [] => none
  | c :: r => if p c then some ([], r) else (cut? p r).map fun parts => (c :: parts.1, parts.2)

/-- The pieces between the occurrences of `separator`; a text without any is one piece. -/
def splitOn (separator : Char) : Text → List Text
  | [] => [[]]
  | c :: r =>
    if c = separator then [] :: splitOn separator r
    else
      match splitOn separator r with
      | [] => [[c]]
      | piece :: pieces => (c :: piece) :: pieces

/-- A line without the carriage return that belongs to its line feed. -/
def dropReturn (line : Text) : Text :=
  if line.getLast? = some '\r' then line.dropLast else line

/-- The lines of a text: each line feed ends one, together with a carriage return right before it,
and what follows the last line feed is a line unless it is empty. -/
def lines (t : Text) : List Text :=
  let pieces := splitOn '\n' t
  let last := pieces.getLastD []
  pieces.dropLast.map dropReturn ++ if last.isEmpty then [] else [last]

/-- What follows `head` in a text that begins with it. -/
def dropHead? : (head t : Text) → Option Text
  | [], t => some t
  | _ :: _, [] => none
  | h :: head, c :: r => if h = c then dropHead? head r else none

/-- The rest of a scan that replaces every occurrence of `old`, after `skip` characters that belong
to an occurrence already replaced. -/
def replaceFrom (old new : Text) : (skip : Nat) → Text → Text
  | _, [] => []
  | skip + 1, _ :: r => replaceFrom old new skip r
  | 0, c :: r =>
    if old.isPrefixOf (c :: r) then new ++ replaceFrom old new (old.length - 1) r
    else c :: replaceFrom old new 0 r

/-- Replaces the occurrences of the non-empty text `old` from left to right. -/
def replaceAll (old new t : Text) : Text :=
  replaceFrom old new 0 t

def replaceFirst (old new : Text) : Text → Text
  | [] => if old = [] then new else []
  | c :: r =>
    match dropHead? old (c :: r) with
    | some rest => new ++ rest
    | none => c :: replaceFirst old new r

def join (separator : Text) (parts : List Text) : Text :=
  separator.intercalate parts

def endsWith (t tail : Text) : Bool :=
  tail.isSuffixOf t

def ofNat (n : Nat) : Text :=
  Nat.toDigits 10 n

/-- A line of a body moved behind an indentation; a blank line becomes empty. -/
def indentLine (indent line : Text) : Text :=
  if line.all isBlank then [] else indent ++ line

@[simp] theorem replaceFrom_nil (old new : Text) (skip : Nat) :
    replaceFrom old new skip [] = [] := by
  cases skip <;> rfl

theorem splitOn_ne_nil (separator : Char) (t : Text) : splitOn separator t ≠ [] := by
  cases t with
  | nil => simp [splitOn]
  | cons c r =>
    rw [splitOn]
    split
    · simp
    · split <;> simp

/-- What pieces take up in a text that holds each of them and a separator behind it. -/
def width : List Text → Nat
  | [] => 0
  | piece :: pieces => piece.length + 1 + width pieces

theorem width_cons (piece : Text) (pieces : List Text) :
    width (piece :: pieces) = piece.length + 1 + width pieces :=
  rfl

theorem width_append (a b : List Text) : width (a ++ b) = width a + width b := by
  induction a with
  | nil => rw [List.nil_append, width, Nat.zero_add]
  | cons piece a ih => rw [List.cons_append, width_cons, width_cons, ih, Nat.add_assoc (_ + 1)]

theorem width_splitOn (separator : Char) (t : Text) :
    width (splitOn separator t) = t.length + 1 := by
  induction t with
  | nil => rfl
  | cons c r ih =>
    rw [splitOn]
    split
    · rw [width_cons, ih, List.length_cons, List.length_nil]
      omega
    · split
      · next h => exact absurd h (splitOn_ne_nil separator r)
      · next piece pieces h =>
        rw [h, width_cons] at ih
        rw [width_cons, List.length_cons, List.length_cons]
        omega

theorem join_cons_cons (separator piece next : Text) (rest : List Text) :
    join separator (piece :: next :: rest) = piece ++ separator ++ join separator (next :: rest) := by
  simp [join, List.intercalate]

theorem length_join (separator : Char) (pieces : List Text) :
    (join [separator] pieces).length = width pieces - 1 := by
  induction pieces with
  | nil => rfl
  | cons piece pieces ih =>
    cases pieces with
    | nil => simp [join, width]
    | cons next rest =>
      rw [join_cons_cons, List.length_append, List.length_append, List.length_singleton, ih,
        width_cons piece, width_cons next]
      omega

end Text

end PluginForge
