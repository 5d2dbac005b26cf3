import Mathlib.Data.Option.Basic
import PluginForge.Callback.Statement
import PluginForge.Proofs.Text.Trimming

namespace PluginForge.Callback

variable {right segment t : Text}

def IsTerminator (t : Text) : Prop :=
  Text.trim t = [] ∨ Text.trim t = [';']

instance (t : Text) : Decidable (IsTerminator t) :=
  inferInstanceAs (Decidable (_ ∨ _))

theorem isTerminator_semicolon {lost : Text} : IsTerminator (';' :: lost) ↔ lost.all Text.isBlank := by
  have htrim : Text.trim (';' :: lost) = ';' :: Text.trimEnd lost := by
    rw [Text.trim, Text.trimStart, List.dropWhile_cons]
    exact Text.trimEnd_cons (by decide) lost
  have hnil : Text.trimEnd lost = [] ↔ lost.all Text.isBlank := by
    rw [Text.trimEnd, Text.dropEndWhile_eq_rdropWhile, List.rdropWhile_eq_nil_iff, List.all_eq_true]
  rw [IsTerminator, htrim, ← hnil]
  simp

/-- What a list in brackets is: its segment ends at the first closing bracket, behind which there is nothing
or a semicolon. -/
theorem bracketed?_eq_some_iff :
    Statement.bracketed? right = some segment ↔
      ∃ gap behind, right = gap ++ '[' :: (segment ++ ']' :: behind) ∧ gap.all Text.isBlank ∧
        ']' ∉ segment ∧ IsTerminator behind := by
  simp only [Statement.bracketed?, Option.bind_eq_bind, Option.bind_eq_some_iff,
    Option.guard_eq_some', Option.pure_def, Option.some.injEq, Bool.or_eq_true, List.isEmpty_iff,
    beq_iff_eq]
  constructor
  · rintro ⟨inner, hinner, ⟨segment', rest⟩, hcut, -, hrest, rfl⟩
    obtain ⟨gap, back, hright, hgap, hback⟩ := Text.eq_trim_append right
    obtain ⟨rfl, hsegment⟩ := Text.cut?_char_iff.1 hcut
    refine ⟨gap, rest ++ back, ?_, hgap, hsegment, ?_⟩
    · rw [hright, Text.eq_of_dropHead? hinner]
      simp
    · rwa [IsTerminator, Text.trim_append_blank hback]
  · rintro ⟨gap, behind, rfl, hgap, hsegment, hbehind⟩
    have hclose : List.all (']' :: behind) Text.isBlank = false := by
      rw [List.all_cons, show Text.isBlank ']' = false by decide, Bool.false_and]
    have htrim : Text.trim (gap ++ '[' :: (segment ++ ']' :: behind)) =
        '[' :: (segment ++ ']' :: Text.trimEnd behind) := by
      rw [Text.trim_blank_append hgap, Text.trim, Text.trimStart, List.dropWhile_cons]
      change Text.trimEnd ('[' :: (segment ++ ']' :: behind)) = _
      rw [Text.trimEnd_cons (by decide), Text.trimEnd, Text.dropEndWhile_append hclose,
        ← Text.trimEnd, Text.trimEnd_cons (by decide)]
    refine ⟨segment ++ ']' :: Text.trimEnd behind, by rw [htrim]; rfl, (segment, Text.trimEnd behind),
      Text.cut?_char_iff.2 ⟨rfl, hsegment⟩, (), ?_, rfl⟩
    rwa [Text.trim_trimEnd]

theorem subset_of_bracketed? (h : Statement.bracketed? right = some segment) : segment ⊆ right := by
  obtain ⟨gap, behind, rfl, -⟩ := bracketed?_eq_some_iff.1 h
  intro c hc
  simp [hc]

theorem bracketed?_eq_none (h : ∀ c ∈ right.head?, Text.isBlank c = false ∧ c ≠ '[') :
    Statement.bracketed? right = none := by
  rw [Option.eq_none_iff_forall_ne_some]
  intro segment hsegment
  obtain ⟨gap, behind, rfl, hgap, -⟩ := bracketed?_eq_some_iff.1 hsegment
  cases gap with
  | nil => exact (h '[' rfl).2 rfl
  | cons c gap =>
    rw [List.all_cons, Bool.and_eq_true, (h c rfl).1] at hgap
    cases hgap.1

theorem isTerminator_append_semicolon (h : IsTerminator (t ++ [';'])) : t.all Text.isBlank := by
  cases hblank : t.all Text.isBlank with
  | true => rfl
  | false =>
    have hne := Text.isEmpty_trimStart hblank
    have htrim : Text.trim (t ++ [';']) = Text.trimStart t ++ [';'] :=
      Text.trim_append hblank (by decide)
    rw [IsTerminator, htrim] at h
    rcases h with h | h
    · exact absurd h (List.append_ne_nil_of_right_ne_nil _ nofun)
    · rw [List.append_eq_singleton_iff] at h
      rcases h with ⟨h, -⟩ | ⟨-, h⟩
      · rw [← Text.trimStart, h] at hne
        cases hne
      · cases h

theorem bracketed?_append_semicolon (h : Statement.bracketed? right = none) :
    Statement.bracketed? (right ++ [';']) = none := by
  rw [Option.eq_none_iff_forall_ne_some] at h ⊢
  intro segment hsegment
  obtain ⟨gap, behind, hright, hgap, hclosed, hbehind⟩ := bracketed?_eq_some_iff.1 hsegment
  rcases List.eq_nil_or_concat behind with rfl | ⟨back, last, rfl⟩
  · have hsplit : right ++ [';'] = gap ++ '[' :: segment ++ [']'] := by
      rw [hright]
      simp
    cases (List.append_inj' hsplit rfl).2
  · rw [List.concat_eq_append] at hright hbehind
    have hsplit : right ++ [';'] = gap ++ '[' :: (segment ++ ']' :: back) ++ [last] := by
      rw [hright]
      simp
    obtain ⟨rfl, hlast⟩ := List.append_inj' hsplit rfl
    cases hlast
    have hback := Text.trim_eq_nil_iff.2 (isTerminator_append_semicolon hbehind)
    exact h segment (bracketed?_eq_some_iff.2 ⟨gap, back, rfl, hgap, hclosed, .inl hback⟩)

end PluginForge.Callback
