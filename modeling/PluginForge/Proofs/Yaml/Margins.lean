import PluginForge.Java.Source
import PluginForge.Proofs.Text.Basic
import PluginForge.Yaml.Scalar

namespace PluginForge.Yaml

/-- A way to tell lines apart: a line feed ends one, and so may the other breaks of a document. -/
structure EndsLines (ends : Char → Bool) : Prop where
  lineFeed : ends '\n'
  isBreak {c : Char} : ends c → isBreak c

/-- The lines of a text, with an empty one behind an end of a line that ends the text. -/
def linesAt (ends : Char → Bool) (t : Text) : List Text :=
  t.splitOnP ends

def firstLine (ends : Char → Bool) (t : Text) : Text :=
  t.takeWhile fun c => !ends c

def laterLines (ends : Char → Bool) (t : Text) : List Text :=
  (linesAt ends t).tail

/-- A character that does not show: a space, or a break that does not end the line. -/
def isFiller (c : Char) : Bool :=
  isSpace c || isBreak c

def isEmptyLine (line : Text) : Bool :=
  line.all isFiller

def margin (line : Text) : Nat :=
  (line.takeWhile isFiller).length

/-- The line is not empty, and its text begins in a given column. -/
def standsAt (n : Nat) (line : Text) : Bool :=
  !isEmptyLine line && margin line == n

/-- The text of the line, if there is any, begins in a given column or behind it. -/
def Clears (n : Nat) (line : Text) : Prop :=
  isEmptyLine line ∨ n ≤ margin line

variable {a b lead line row t : Text} {c : Char} {k n : Nat} {ends : Char → Bool} {rows : List Text}

section Lines

theorem linesAt_nil : linesAt ends [] = [[]] :=
  List.splitOnP_nil

theorem linesAt_cons (ends : Char → Bool) (c : Char) (t : Text) :
    linesAt ends (c :: t) =
      if ends c then [] :: linesAt ends t else (linesAt ends t).modifyHead (c :: ·) :=
  List.splitOnP_cons_eq_if_modifyHead c t

theorem linesAt_eq_cons (ends : Char → Bool) (t : Text) :
    linesAt ends t = firstLine ends t :: laterLines ends t := by
  induction t with
  | nil => rfl
  | cons c t ih =>
    rw [laterLines, linesAt_cons, firstLine, List.takeWhile_cons]
    cases ends c with
    | true => rfl
    | false =>
      rw [if_neg Bool.false_ne_true, ih]
      rfl

theorem linesAt_append_of_end (hc : ends c) :
    linesAt ends (a ++ c :: b) = linesAt ends a ++ linesAt ends b :=
  List.splitOnP_append_cons a b hc

theorem firstLine_append (ha : ∀ c ∈ a, ends c = false) :
    firstLine ends (a ++ b) = a ++ firstLine ends b :=
  List.takeWhile_append_of_pos fun c hc => by rw [ha c hc, Bool.not_false]

theorem firstLine_append_end (hc : ends c) : firstLine ends (a ++ c :: b) = firstLine ends a := by
  have hlines := linesAt_append_of_end (a := a) (b := b) hc
  rw [linesAt_eq_cons, linesAt_eq_cons ends a, List.cons_append, List.cons.injEq] at hlines
  exact hlines.1

theorem laterLines_append (ha : ∀ c ∈ a, ends c = false) :
    laterLines ends (a ++ b) = laterLines ends b := by
  induction a with
  | nil => rfl
  | cons c a ih =>
    rw [List.cons_append, laterLines, linesAt_cons, ha c List.mem_cons_self,
      if_neg Bool.false_ne_true, List.tail_modifyHead]
    exact ih fun c hc => ha c (List.mem_cons_of_mem _ hc)

theorem linesAt_append (ha : ∀ c ∈ a, ends c = false) :
    linesAt ends (a ++ b) = (a ++ firstLine ends b) :: laterLines ends b := by
  rw [linesAt_eq_cons, firstLine_append ha, laterLines_append ha]

theorem linesAt_eq_flatMap (he : EndsLines ends) (t : Text) :
    linesAt ends t = (Text.splitOn '\n' t).flatMap (linesAt ends) := by
  induction t with
  | nil => rfl
  | cons c t ih =>
    rw [linesAt_cons, ih, Text.splitOn]
    by_cases hc : c = '\n'
    · rw [hc, if_pos he.lineFeed, if_pos rfl, List.flatMap_cons, linesAt_nil]
      rfl
    rw [if_neg hc]
    cases hs : Text.splitOn '\n' t with
    | nil => exact absurd hs (Text.splitOn_ne_nil '\n' t)
    | cons row rows =>
      simp only [List.flatMap_cons]
      rw [linesAt_cons]
      cases ends c with
      | true => rfl
      | false =>
        rw [linesAt_eq_cons]
        rfl

theorem linesAt_unlines_append (he : EndsLines ends) (rows : List Text) (t : Text) :
    linesAt ends (Java.unlines rows ++ t) = rows.flatMap (linesAt ends) ++ linesAt ends t := by
  induction rows with
  | nil => rfl
  | cons row rows ih =>
    rw [Java.unlines, List.flatMap_cons, List.append_assoc, List.append_assoc, List.flatMap_cons,
      List.append_assoc, ← ih]
    exact linesAt_append_of_end he.lineFeed

theorem linesAt_unlines (he : EndsLines ends) (rows : List Text) :
    linesAt ends (Java.unlines rows) = rows.flatMap (linesAt ends) ++ [[]] := by
  rw [← List.append_nil (Java.unlines rows), linesAt_unlines_append he, linesAt_nil]

theorem splitOn_eq_linesAt : Text.splitOn '\n' = linesAt (· == '\n') :=
  funext (Text.splitOn_eq_splitOn '\n')

theorem lines_unlines (h : ∀ row ∈ rows, '\r' ∉ row) :
    Text.lines (Java.unlines rows) = rows.flatMap (Text.splitOn '\n') := by
  have hends : EndsLines (· == '\n') := ⟨rfl, fun h => eq_of_beq h ▸ rfl⟩
  have hsplit : Text.splitOn '\n' (Java.unlines rows) =
      rows.flatMap (Text.splitOn '\n') ++ [[]] := by
    rw [splitOn_eq_linesAt]
    exact linesAt_unlines hends rows
  have hreturn : (rows.flatMap (Text.splitOn '\n')).map Text.dropReturn =
      rows.flatMap (Text.splitOn '\n') := by
    refine (List.map_congr_left fun piece hpiece => ?_).trans (List.map_id _)
    obtain ⟨row, hrow, hpiece⟩ := List.mem_flatMap.1 hpiece
    refine Text.dropReturn_eq fun hlast => h row hrow ?_
    exact Text.mem_of_mem_splitOn hpiece (List.mem_of_getLast? hlast)
  simp only [Text.lines, hsplit, List.dropLast_concat, List.getLastD_concat, hreturn]
  exact List.append_nil _

/-- Spaces in front of every row of a text move its lines, and keep their margins. -/
theorem linesAt_indented (he : EndsLines ends) (k : Nat) (t : Text) :
    ∃ later, (Text.splitOn '\n' t).flatMap (fun row => linesAt ends (spaces k ++ row)) =
        (spaces k ++ firstLine ends t) :: later ∧
      ∀ line ∈ later, line ∈ laterLines ends t ∨
        ∃ plain ∈ laterLines ends t, line = spaces k ++ plain := by
  have hspaces (c : Char) (hc : c ∈ spaces k) : ends c = false := by
    rw [List.eq_of_mem_replicate hc]
    exact Bool.eq_false_iff.2 fun h => absurd (he.isBreak h) (by decide)
  have hlines := linesAt_eq_flatMap he t
  rw [linesAt_eq_cons] at hlines
  cases hs : Text.splitOn '\n' t with
  | nil => exact absurd hs (Text.splitOn_ne_nil '\n' t)
  | cons row rows =>
    rw [hs, List.flatMap_cons, linesAt_eq_cons ends row, List.cons_append, List.cons.injEq] at hlines
    obtain ⟨hfirst, hlater⟩ := hlines
    rw [List.flatMap_cons, linesAt_append hspaces, hfirst]
    refine ⟨_, rfl, fun line hline => ?_⟩
    rw [hlater]
    rcases List.mem_append.1 hline with hline | hline
    · exact .inl (List.mem_append_left _ hline)
    obtain ⟨other, hother, hline⟩ := List.mem_flatMap.1 hline
    have hmem {line : Text} (h : line ∈ linesAt ends other) :
        line ∈ laterLines ends row ++ rows.flatMap (linesAt ends) :=
      List.mem_append_right _ (List.mem_flatMap.2 ⟨other, hother, h⟩)
    rw [linesAt_eq_cons] at hmem
    rw [linesAt_append hspaces] at hline
    rcases List.mem_cons.1 hline with rfl | hline
    · exact .inr ⟨_, hmem List.mem_cons_self, rfl⟩
    · exact .inl (hmem (List.mem_cons_of_mem _ hline))

end Lines

section Margins

theorem Clears.nil : Clears n [] :=
  .inl rfl

theorem Clears.mono (h : Clears n line) (hk : k ≤ n) : Clears k line :=
  h.imp_right hk.trans

theorem Clears.of_filler (hc : isFiller c) (h : Clears n line) : Clears n (c :: line) := by
  refine h.imp (fun hall => ?_) fun hn => ?_
  · rw [isEmptyLine, List.all_cons, hc]
    exact hall
  · rw [margin, List.takeWhile_cons, if_pos hc]
    exact Nat.le_succ_of_le hn

theorem isFiller_of_mem_spaces (hc : c ∈ spaces n) : isFiller c := by
  rw [List.eq_of_mem_replicate hc]
  rfl

theorem margin_spaces_append (n : Nat) (t : Text) : margin (spaces n ++ t) = n + margin t := by
  rw [margin, List.takeWhile_append_of_pos fun _ hc => isFiller_of_mem_spaces hc,
    List.length_append, spaces, List.length_replicate, margin]

theorem Clears.spaces (n : Nat) (t : Text) : Clears n (spaces n ++ t) :=
  .inr (by rw [margin_spaces_append]; exact Nat.le_add_right n _)

theorem Clears.indent (k : Nat) (h : Clears n line) : Clears (k + n) (Yaml.spaces k ++ line) := by
  refine h.imp (fun hall => ?_) fun hn => ?_
  · rw [isEmptyLine, List.all_append, List.all_eq_true.2 fun _ hc => isFiller_of_mem_spaces hc]
    exact hall
  · rw [margin_spaces_append]
    exact Nat.add_le_add_left hn k

theorem margin_spaces_cons (hc : isFiller c = false) : margin (spaces n ++ c :: t) = n := by
  rw [margin_spaces_append, margin, List.takeWhile_cons, hc]
  rfl

theorem standsAt_spaces_cons (hc : isFiller c = false) :
    standsAt k (spaces n ++ c :: t) = (n == k) := by
  rw [standsAt, margin_spaces_cons hc, isEmptyLine, List.all_append, List.all_cons, hc,
    Bool.false_and, Bool.and_false, Bool.not_false, Bool.true_and]

theorem standsAt_of_clears (h : Clears n line) (hk : k < n) : standsAt k line = false := by
  rw [standsAt]
  rcases h with h | h
  · rw [h]
    rfl
  · rw [beq_false_of_ne (Nat.ne_of_gt (Nat.lt_of_lt_of_le hk h)), Bool.and_false]

theorem filter_standsAt_of_clears (h : ∀ line ∈ rows, Clears n line) (hk : k < n) :
    rows.filter (standsAt k) = [] := by
  rw [List.filter_eq_nil_iff]
  intro line hline
  rw [standsAt_of_clears (h line hline) hk]
  exact Bool.false_ne_true

end Margins

/-- The lines of a text keep a margin, except for the first if the text does not begin a line. -/
def Hangs (ends : Char → Bool) (n : Nat) (atStart : Bool) (t : Text) : Prop :=
  ∀ line ∈ if atStart then linesAt ends t else laterLines ends t, Clears n line

namespace Hangs

variable {atStart : Bool}

theorem nil : Hangs ends n atStart [] := by
  intro line hline
  cases atStart with
  | true =>
    rw [List.mem_singleton.1 hline]
    exact .nil
  | false => cases hline

theorem of_start (h : Hangs ends n true t) : Hangs ends n false t := fun line hline =>
  h line (List.mem_of_mem_tail hline)

theorem append (ha : ∀ c ∈ a, ends c = false) (h : Hangs ends n false t) :
    Hangs ends n false (a ++ t) := by
  intro line hline
  rw [if_neg Bool.false_ne_true, laterLines_append ha] at hline
  exact h line hline

theorem cons_of_end (hc : ends c) (h : Hangs ends n true t) : Hangs ends n atStart (c :: t) := by
  intro line hline
  rw [laterLines, linesAt_cons, if_pos hc] at hline
  cases atStart with
  | true =>
    rcases List.mem_cons.1 hline with rfl | hline
    · exact .nil
    · exact h line hline
  | false => exact h line hline

theorem cons_of_filler (hf : isFiller c) (h : Hangs ends n atStart t) (hc : ends c = false) :
    Hangs ends n atStart (c :: t) := by
  cases atStart with
  | false => exact append (a := [c]) (by simpa using hc) h
  | true =>
    intro line hline
    rw [if_pos rfl, linesAt_cons, hc, if_neg Bool.false_ne_true, linesAt_eq_cons] at hline
    have hlines : ∀ line ∈ firstLine ends t :: laterLines ends t, Clears n line := by
      rw [← linesAt_eq_cons]
      exact h
    rcases List.mem_cons.1 hline with rfl | hline
    · exact (hlines _ List.mem_cons_self).of_filler hf
    · exact hlines line (List.mem_cons_of_mem _ hline)

theorem indent (ha : ∀ c ∈ spaces n ++ a, ends c = false) (h : Hangs ends n false t) :
    Hangs ends n true (spaces n ++ a ++ t) := by
  intro line hline
  rw [if_pos rfl, linesAt_append ha] at hline
  rcases List.mem_cons.1 hline with rfl | hline
  · rw [List.append_assoc]
    exact .spaces n _
  · exact h line hline

end Hangs

end PluginForge.Yaml
