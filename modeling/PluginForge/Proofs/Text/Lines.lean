import PluginForge.Proofs.Text.Trimming

namespace PluginForge.Text

variable {a b t w : Text} {c : Char}

theorem splitOn_of_not_mem (h : c ∉ t) : splitOn c t = [t] := by
  rw [splitOn_eq_splitOn, List.splitOn_eq_singleton h]

theorem length_splitOn (c : Char) (t : Text) : (splitOn c t).length = t.count c + 1 := by
  induction t with
  | nil => rfl
  | cons x t ih =>
    rw [splitOn]
    split
    · next hx => rw [hx, List.length_cons, ih, List.count_cons_self]
    · next hx =>
      rw [List.count_cons_of_ne hx, ← ih]
      split
      · next h => exact absurd h (splitOn_ne_nil c t)
      · next h => rw [h, List.length_cons, List.length_cons]

theorem lines_append_cons (a b : Text) :
    lines (a ++ '\n' :: b) = (splitOn '\n' a).map dropReturn ++ lines b := by
  have hb := splitOn_ne_nil '\n' b
  have hlast : (splitOn '\n' a ++ splitOn '\n' b).getLastD [] = (splitOn '\n' b).getLastD [] := by
    rw [List.getLastD_eq_getLast?, List.getLastD_eq_getLast?, List.getLast?_append_of_ne_nil _ hb]
  rw [lines, splitOn_append_cons]
  simp only [hlast, List.dropLast_append_of_ne_nil hb, List.map_append, List.append_assoc]
  rfl

theorem lines_of_not_mem (h : '\n' ∉ t) : lines t = if t.isEmpty then [] else [t] := by
  rw [lines, splitOn_of_not_mem h]
  rfl

theorem exists_last_break (h : '\n' ∈ t) : ∃ a b, t = a ++ '\n' :: b ∧ '\n' ∉ b := by
  obtain ⟨b, a, hsplit, hb⟩ := List.eq_append_cons_of_mem (List.mem_reverse.2 h)
  refine ⟨a.reverse, b.reverse, ?_, fun hmem => hb (List.mem_reverse.1 hmem)⟩
  rw [← List.reverse_reverse t, hsplit]
  simp

theorem lines_append_of_mem (front : Text) (h : '\n' ∈ t) :
    ∃ before, lines (front ++ t) = before ++ (lines t).tail ∧
      before.length = front.count '\n' + 1 := by
  obtain ⟨a, b, rfl, ha⟩ := List.eq_append_cons_of_mem h
  refine ⟨(splitOn '\n' (front ++ a)).map dropReturn, ?_, ?_⟩
  · rw [← List.append_assoc, lines_append_cons, lines_append_cons, splitOn_of_not_mem ha]
    rfl
  · rw [List.length_map, length_splitOn, List.count_append, List.count_eq_zero.2 ha, Nat.add_zero]

theorem dropLast_lines_prefix (t back : Text) : (lines t).dropLast <+: lines (t ++ back) := by
  by_cases h : '\n' ∈ t
  · obtain ⟨a, b, rfl, hb⟩ := exists_last_break h
    rw [List.append_assoc, List.cons_append, lines_append_cons, lines_append_cons,
      lines_of_not_mem hb]
    split
    · rw [List.append_nil]
      exact (List.dropLast_prefix _).trans (List.prefix_append _ _)
    · rw [List.dropLast_concat]
      exact List.prefix_append _ _
  · rw [lines_of_not_mem h]
    split <;> exact List.nil_prefix

theorem eq_takeWhile_append_trim (t : Text) : ∃ back, t = t.takeWhile isBlank ++ (trim t ++ back) := by
  refine ⟨(trimStart t).rtakeWhile isBlank, ?_⟩
  rw [trim, trimEnd, dropEndWhile_eq_rdropWhile, List.rdropWhile_append_rtakeWhile]
  exact List.takeWhile_append_dropWhile.symm

theorem head?_of_lines_eq_cons {line : Text} {rest : List Text}
    (hblank : ∀ c ∈ t.head?, isBlank c = false) (h : lines t = line :: rest) :
    line.head? = t.head? := by
  by_cases hmem : '\n' ∈ t
  · obtain ⟨a, b, rfl, ha⟩ := List.eq_append_cons_of_mem hmem
    rw [lines_append_cons, splitOn_of_not_mem ha] at h
    obtain ⟨rfl, -⟩ := List.cons_eq_cons.1 h
    cases a with
    | nil => exact absurd (hblank '\n' rfl) (by decide)
    | cons x a =>
      rw [dropReturn]
      split
      · next hreturn =>
        cases a with
        | nil =>
          cases hreturn
          exact absurd (hblank '\r' rfl) (by decide)
        | cons y a => rfl
      · rfl
  · rw [lines_of_not_mem hmem] at h
    split at h
    · cases h
    · obtain ⟨rfl, -⟩ := List.cons_eq_cons.1 h
      rfl

theorem trimEnd_dropReturn (line : Text) : trimEnd (dropReturn line) = trimEnd line := by
  rw [dropReturn]
  split
  · next h =>
    have hreturn : List.all ['\r'] isBlank := by decide
    rw [← trimEnd_append_blank hreturn, List.dropLast_append_getLast? _ h]
  · rfl

theorem map_trimEnd_splitOn_append (hw : w.all isBlank) (hn : '\n' ∉ w) (t : Text) :
    (splitOn '\n' (t ++ w)).map trimEnd = (splitOn '\n' t).map trimEnd := by
  by_cases h : '\n' ∈ t
  · obtain ⟨a, b, rfl, hb⟩ := exists_last_break h
    have hbw : '\n' ∉ b ++ w := by
      rw [List.mem_append, not_or]
      exact ⟨hb, hn⟩
    rw [List.append_assoc, List.cons_append, splitOn_append_cons, splitOn_append_cons,
      splitOn_of_not_mem hb, splitOn_of_not_mem hbw, List.map_append, List.map_append,
      List.map_singleton, List.map_singleton, trimEnd_append_blank hw]
  · have htw : '\n' ∉ t ++ w := by
      rw [List.mem_append, not_or]
      exact ⟨h, hn⟩
    rw [splitOn_of_not_mem h, splitOn_of_not_mem htw, List.map_singleton, List.map_singleton,
      trimEnd_append_blank hw]

/-- Blanks in front of a line feed change the lines of a trimmed text at their ends at most. -/
theorem lines_trim_append_blank (hw : w.all isBlank) (hn : '\n' ∉ w) (a b : Text) :
    (lines (trim (a ++ w ++ '\n' :: b))).map trimEnd = (lines (trim (a ++ '\n' :: b))).map trimEnd := by
  have hfeed : isBlank '\n' := by decide
  have hreturn : (fun line => trimEnd (dropReturn line)) = trimEnd := funext trimEnd_dropReturn
  cases ha : a.all isBlank with
  | true =>
    have hfront : (a ++ w ++ ['\n']).all isBlank ∧ (a ++ ['\n']).all isBlank := by
      simp [List.all_append, ha, hw, hfeed]
    have hlong : a ++ w ++ '\n' :: b = a ++ w ++ ['\n'] ++ b := by simp
    have hshort : a ++ '\n' :: b = a ++ ['\n'] ++ b := by simp
    rw [hlong, hshort, trim_blank_append hfront.1, trim_blank_append hfront.2]
  | false =>
    cases hb : b.all isBlank with
    | true =>
      have hback : (w ++ '\n' :: b).all isBlank ∧ ('\n' :: b).all isBlank := by
        simp [List.all_append, hb, hw, hfeed]
      rw [List.append_assoc, trim_append_blank hback.1, trim_append_blank hback.2]
    | false =>
      have hback : ('\n' :: b).all isBlank = false := by
        rw [List.all_cons, hb, Bool.and_false]
      have haw : (a ++ w).all isBlank = false := by
        rw [List.all_append, ha, Bool.false_and]
      have hend : trimEnd ('\n' :: b) = '\n' :: trimEnd b :=
        dropEndWhile_append (a := ['\n']) hb
      have hstart : trimStart (a ++ w) = trimStart a ++ w := by
        rw [trimStart, List.dropWhile_append, isEmpty_trimStart ha, if_neg Bool.false_ne_true]
        rfl
      rw [trim_append haw hback, trim_append ha hback, hend, hstart, lines_append_cons,
        lines_append_cons, List.map_append, List.map_append, List.map_map, List.map_map]
      change List.map (fun line => trimEnd (dropReturn line)) _ ++ _ =
        List.map (fun line => trimEnd (dropReturn line)) _ ++ _
      rw [hreturn, map_trimEnd_splitOn_append hw hn]

end PluginForge.Text
