import PluginForge.Plugin.CommandClass
import PluginForge.Proofs.Callback.Breaks

namespace PluginForge

namespace Text

variable {a b line : Text}

theorem all_isBlank_of_append (h : (a ++ b).all isBlank) : b.all isBlank := by
  rw [List.all_append, Bool.and_eq_true] at h
  exact h.2

theorem indentLine_indentLine (line : Text) :
    indentLine a (indentLine b line) = indentLine (a ++ b) line := by
  by_cases hblank : line.all isBlank
  · have hinner : indentLine b line = [] := if_pos hblank
    rw [hinner, indentLine, if_pos List.all_nil, indentLine, if_pos hblank]
  · have hinner : indentLine b line = b ++ line := if_neg hblank
    have hindented : ¬(b ++ line).all isBlank := fun h => hblank (all_isBlank_of_append h)
    rw [hinner, indentLine, if_neg hindented, indentLine, if_neg hblank, List.append_assoc]

theorem eq_nil_of_isBlank_indentLine (h : (indentLine a line).all isBlank) :
    indentLine a line = [] := by
  rw [indentLine] at h ⊢
  split at h
  · next hblank => rw [if_pos hblank]
  · next hblank => exact absurd (all_isBlank_of_append h) hblank

theorem newline_not_mem_indentLine (ha : '\n' ∉ a) (h : '\n' ∉ line) : '\n' ∉ indentLine a line := by
  rw [indentLine]
  split
  · exact List.not_mem_nil
  · exact newline_not_mem_append ha h

end Text

namespace Java

variable {lines : List Text} {m : Method}

theorem splitOn_unlines_append (h : ∀ line ∈ lines, '\n' ∉ line) (t : Text) :
    Text.splitOn '\n' (unlines lines ++ t) = lines ++ Text.splitOn '\n' t := by
  induction lines with
  | nil => rfl
  | cons line lines ih =>
    rw [List.forall_mem_cons] at h
    have hline : Text.splitOn '\n' line = [line] := by
      rw [Text.splitOn_eq_splitOn, List.splitOn_eq_singleton h.1]
    have htext : unlines (line :: lines) ++ t = line ++ '\n' :: (unlines lines ++ t) := by
      rw [unlines, List.flatMap_cons, List.append_assoc, List.append_assoc]
      rfl
    rw [htext, Text.splitOn_append_cons, hline, ih h.2]
    rfl

theorem splitOn_unlines (h : ∀ line ∈ lines, '\n' ∉ line) :
    Text.splitOn '\n' (unlines lines) = lines ++ [[]] := by
  have happend := splitOn_unlines_append h []
  rwa [List.append_nil] at happend

namespace Method

def rows (m : Method) : List Text :=
  (m.signature ++ " \x7b") :: (Text.lines m.body).map (Text.indentLine indent) ++ [['\x7d']]

theorem newline_not_mem_rows (h : '\n' ∉ m.signature) : ∀ row ∈ m.rows, '\n' ∉ row := by
  intro row hrow
  rcases List.mem_append.1 hrow with hrow | hrow
  · rcases List.mem_cons.1 hrow with rfl | hrow
    · exact newline_not_mem_append h (by decide)
    · obtain ⟨line, hline, rfl⟩ := List.mem_map.1 hrow
      exact Text.newline_not_mem_indentLine (by decide) (Text.not_mem_of_mem_lines hline)
  · rw [List.mem_singleton.1 hrow]
    decide

theorem splitOn_text (h : '\n' ∉ m.signature) : Text.splitOn '\n' m.text = m.rows :=
  Text.splitOn_join (newline_not_mem_rows h) (by simp)

/-- In a class, the lines of a method are the same, indented once more. -/
theorem member_eq_map_rows (m : Method) : m.member = m.rows.map (Text.indentLine indent) := by
  have hopening : Text.indentLine indent (m.signature ++ " \x7b") =
      indent ++ m.signature ++ " \x7b" := by
    have hbrace : ¬(m.signature ++ " \x7b".toList).all Text.isBlank := fun h =>
      absurd (Text.all_isBlank_of_append h) (by decide)
    rw [Text.indentLine, if_neg hbrace, List.append_assoc]
  have hbody : ((Text.lines m.body).map (Text.indentLine indent)).map (Text.indentLine indent) =
      (Text.lines m.body).map (Text.indentLine (indent ++ indent)) := by
    rw [List.map_map]
    exact List.map_congr_left fun line _ => Text.indentLine_indentLine line
  rw [member, rows, List.map_append, List.map_cons, hopening, hbody]
  rfl

theorem eq_nil_of_mem_rows {row : Text} (hrow : row ∈ m.rows) (h : row.all Text.isBlank) :
    row = [] := by
  rcases List.mem_append.1 hrow with hrow | hrow
  · rcases List.mem_cons.1 hrow with rfl | hrow
    · exact absurd (Text.all_isBlank_of_append h) (by decide)
    · obtain ⟨line, -, rfl⟩ := List.mem_map.1 hrow
      exact Text.eq_nil_of_isBlank_indentLine h
  · rw [List.mem_singleton.1 hrow] at h
    exact absurd h (by decide)

end Method

end Java

namespace CommandClass

def opening (c : CommandClass) : List Text :=
  Java.preface c.package c.imports ++ (c.header ++ " \x7b") :: c.constructor.member

/-- Behind its constructor and an empty line, the source of a class holds the lines of a method moved
four blanks to the right, and then it ends. Empty lines stay empty. -/
def Shows (c : CommandClass) (m : Java.Method) : Prop :=
  Text.splitOn '\n' c.source =
    Text.splitOn '\n' (Java.unlines c.opening) ++
      (Text.splitOn '\n' m.text).map (fun line =>
        if line.all Text.isBlank then [] else [' ', ' ', ' ', ' '] ++ line) ++ [['\x7d'], []]

theorem shows_handler {c : CommandClass} (h : '\n' ∉ c.handler.signature) : c.Shows c.handler := by
  have hsource : c.source = Java.unlines c.opening ++
      '\n' :: Java.unlines (c.handler.member ++ [['\x7d']]) := by
    rw [source, Java.classSource, opening, Java.unlines, Java.unlines, Java.unlines]
    simp
  have hmember : ∀ line ∈ c.handler.member ++ [['\x7d']], '\n' ∉ line := by
    intro line hline
    rw [Java.Method.member_eq_map_rows] at hline
    rcases List.mem_append.1 hline with hline | hline
    · obtain ⟨row, hrow, rfl⟩ := List.mem_map.1 hline
      exact Text.newline_not_mem_indentLine (by decide) (Java.Method.newline_not_mem_rows h row hrow)
    · rw [List.mem_singleton.1 hline]
      decide
  change Text.splitOn '\n' c.source = Text.splitOn '\n' (Java.unlines c.opening) ++
    (Text.splitOn '\n' c.handler.text).map (Text.indentLine Java.indent) ++ [['\x7d'], []]
  rw [hsource, Text.splitOn_append_cons, Java.splitOn_unlines hmember, Java.Method.splitOn_text h,
    Java.Method.member_eq_map_rows]
  simp

end CommandClass

end PluginForge
