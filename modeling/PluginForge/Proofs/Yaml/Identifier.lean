import PluginForge.Java.Identifier
import PluginForge.Proofs.Yaml.Margins

namespace PluginForge.Yaml

variable {ch : Char} {n : Nat} {name t : Text}

open Java (isIdentifier isIdentifierChar toNat_of_isIdentifierChar)

theorem plain_of_isIdentifierChar (h : isIdentifierChar ch) :
    isPrintable ch ∧ isSpace ch = false ∧ isBreak ch = false ∧ ch ≠ '\'' ∧ ch ≠ ':' := by
  have hne (x : Char) (hx : isIdentifierChar x = false) : ch ≠ x := by
    rintro rfl
    exact Bool.eq_false_iff.1 hx h
  obtain ⟨hlow, hhigh⟩ := toNat_of_isIdentifierChar h
  refine ⟨?_, ?_, ?_, hne _ (by decide), hne _ (by decide)⟩
  · simp [isPrintable]
    omega
  · exact beq_false_of_ne (hne _ (by decide))
  · simp only [isBreak, Bool.or_eq_false_iff, beq_eq_false_iff_ne]
    exact ⟨⟨⟨⟨hne _ (by decide), hne _ (by decide)⟩, hne _ (by decide)⟩, hne _ (by decide)⟩,
      hne _ (by decide)⟩

theorem holdsPair_eq_false {first second : Char → Bool} (h : ∀ c ∈ t, first c = false) :
    holdsPair first second t = false := by
  induction t with
  | nil => rfl
  | cons a t ih =>
    cases t with
    | nil => rfl
    | cons b t =>
      rw [holdsPair, h a List.mem_cons_self, Bool.false_and, Bool.false_or]
      exact ih fun c hc => h c (List.mem_cons_of_mem _ hc)

theorem indentLines_singleChar (h : ∀ c ∈ t, isBreak c = false ∧ c ≠ '\'') :
    indentLines n singleChar false t = t := by
  induction t with
  | nil => rfl
  | cons c t ih =>
    obtain ⟨hbreak, hquote⟩ := h c List.mem_cons_self
    rw [indentLines, hbreak, if_neg Bool.false_ne_true, if_neg Bool.false_ne_true, singleChar,
      if_neg hquote, ih fun c hc => h c (List.mem_cons_of_mem _ hc)]
    rfl

/-- An identifier is written as it is, or between quotes if it would be read as something else. -/
theorem writeScalar_identifier (h : isIdentifier name) (n : Nat) :
    writeScalar n name = ⟨name, false⟩ ∨ writeScalar n name = ⟨"'" ++ name ++ "'", false⟩ := by
  have hplain (c : Char) (hc : c ∈ name) :=
    plain_of_isIdentifierChar (List.all_eq_true.1 (Java.all_isIdentifierChar h) c hc)
  have hbreak (c : Char) (hc : c ∈ name) : isBreak c = false := (hplain c hc).2.2.1
  have hline : name.contains '\n' = false := by
    rw [← Bool.not_eq_true, List.contains_iff_mem]
    exact fun hc => absurd (hbreak _ hc) (by decide)
  have hescapes : needsEscapes name = false := by
    rw [needsEscapes, holdsPair_eq_false fun c hc => (hplain c hc).2.1, Bool.or_false,
      List.any_eq_false]
    intro c hc
    rw [(hplain c hc).1]
    exact Bool.false_ne_true
  have hsingle : allowsSingle name := by
    rw [allowsSingle, hescapes, holdsPair_eq_false hbreak]
    rfl
  have hlast : name.getLast?.any isBreak = false := by
    cases hl : name.getLast? with
    | none => rfl
    | some c => exact hbreak c (List.mem_of_getLast? hl)
  have hstyle : style name = .plain ∨ style name = .single := by
    rw [style, hline, if_neg Bool.false_ne_true, if_pos hsingle]
    split
    · exact .inl rfl
    · exact .inr rfl
  rcases hstyle with hstyle | hstyle
  · left
    rw [writeScalar, hstyle]
  · right
    rw [writeScalar, hstyle]
    simp only [hlast, if_neg Bool.false_ne_true, List.append_nil]
    rw [indentLines_singleChar fun c hc => ⟨hbreak c hc, (hplain c hc).2.2.2.1⟩]

end PluginForge.Yaml
