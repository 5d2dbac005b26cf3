import Mathlib.Data.List.Dedup
import Mathlib.Data.List.Perm.Subperm
import PluginForge.Guard.Local
import PluginForge.Proofs.Guard.Renaming

namespace PluginForge.Guard

open Java (isIdentifierChar)

variable {c : Char} {body base l t tag : Text} {fuel n : Nat} {ws : List Text}

theorem ofNat_injective {m n : Nat} (h : Text.ofNat m = Text.ofNat n) : m = n := by
  have := congrArg (Nat.ofDigitChars 10 · 0) h
  simpa only [Text.ofNat, Nat.ofDigitChars_ten_toDigits] using this

theorem all_isIdentifierChar_ofNat (n : Nat) : (Text.ofNat n).all isIdentifierChar := by
  refine List.all_eq_true.2 fun c hc => ?_
  have hd := Nat.isDigit_of_mem_toDigits (b := 10) (by decide) (by decide) hc
  simp [isIdentifierChar, Char.isAlphanum, hd]

theorem all_candidate (hb : base.all isIdentifierChar) (n : Nat) :
    (base ++ Text.ofNat n).all isIdentifierChar := by
  rw [List.all_append, hb, all_isIdentifierChar_ofNat]
  rfl

theorem length_extend_le (c : Char) (ws : List Text) : (extend c ws).length ≤ ws.length + 1 := by
  cases ws with
  | nil => exact Nat.le_refl _
  | cons w ws =>
    rw [extend]
    split
    · exact Nat.le_succ _
    · exact Nat.le_refl _

theorem length_words_le : (words t).length ≤ t.length := by
  induction t with
  | nil => exact Nat.le_refl _
  | cons c t ih =>
    have := length_extend_le c (words t)
    rw [words_cons, List.length_cons]
    omega

theorem searchLocal?_eq_none (h : searchLocal? body base fuel n = none) :
    ∀ k < fuel, occurs (base ++ Text.ofNat (n + k)) body := by
  induction fuel generalizing n with
  | zero => exact fun k hk => absurd hk (Nat.not_lt_zero k)
  | succ fuel ih =>
    rw [searchLocal?] at h
    intro k hk
    split at h
    · next hocc =>
      cases k with
      | zero => exact hocc
      | succ k =>
        rw [← Nat.add_assoc, Nat.add_right_comm]
        exact ih h k (Nat.lt_of_succ_lt_succ hk)
    · cases h

theorem searchLocal?_eq_some (h : searchLocal? body base fuel n = some l) :
    ∃ k < fuel, l = base ++ Text.ofNat (n + k) ∧ occurs l body = false ∧
      ∀ j < k, occurs (base ++ Text.ofNat (n + j)) body := by
  induction fuel generalizing n with
  | zero => cases h
  | succ fuel ih =>
    rw [searchLocal?] at h
    split at h
    · next hocc =>
      obtain ⟨k, hk, hl, hfree, hused⟩ := ih h
      refine ⟨k + 1, Nat.succ_lt_succ hk, ?_, hfree, fun j hj => ?_⟩
      · rw [hl, Nat.add_right_comm, Nat.add_assoc]
      · cases j with
        | zero => exact hocc
        | succ j =>
          rw [← Nat.add_assoc, Nat.add_right_comm]
          exact hused j (Nat.lt_of_succ_lt_succ hj)
    · next hocc =>
      cases h
      exact ⟨0, Nat.succ_pos fuel, rfl, eq_false_of_ne_true hocc,
        fun j hj => absurd hj (Nat.not_lt_zero j)⟩

/-- The candidates differ from each other, so a body cannot use more of them than it has words. -/
theorem searchLocal?_isSome (hb : base.all isIdentifierChar)
    (hf : (words body).dedup.length < fuel) : (searchLocal? body base fuel n).isSome := by
  rw [Option.isSome_iff_ne_none]
  intro hnone
  let candidates := (List.range fuel).map fun k => base ++ Text.ofNat (n + k)
  have hnodup : candidates.Nodup := by
    refine List.Nodup.map (fun j k h => ?_) List.nodup_range
    exact Nat.add_left_cancel (ofNat_injective (List.append_cancel_left h))
  have hsub : candidates ⊆ (words body).dedup := by
    intro w hw
    obtain ⟨k, hk, rfl⟩ := List.mem_map.1 hw
    have hocc := searchLocal?_eq_none hnone k (List.mem_range.1 hk)
    have hall := all_candidate hb (n + k)
    exact List.mem_dedup.2 ((mem_words_iff hall).2 ((occurs_iff hall).1 hocc))
  have hlen := (hnodup.subperm hsub).length_le
  rw [List.length_map, List.length_range] at hlen
  omega

theorem searchLocal?_of_length (hb : base.all isIdentifierChar) :
    (searchLocal? body base (body.length + 1) n).isSome := by
  refine searchLocal?_isSome hb (Nat.lt_succ_of_le ?_)
  exact Nat.le_trans (List.dedup_sublist (words body)).length_le length_words_le

/-- The new name is the base, or the base with the least number that makes it new. -/
theorem freshLocal_spec (body : Text) (hb : base.all isIdentifierChar) :
    occurs (freshLocal body base) body = false ∧
      (freshLocal body base = base ∨
        ∃ k, freshLocal body base = base ++ Text.ofNat (k + 1) ∧
          occurs base body ∧ ∀ j < k, occurs (base ++ Text.ofNat (j + 1)) body) := by
  rw [freshLocal]
  split
  · next hocc =>
    obtain ⟨l, hl⟩ := Option.isSome_iff_exists.1 (searchLocal?_of_length (n := 1) hb)
    obtain ⟨k, -, rfl, hfree, hused⟩ := searchLocal?_eq_some hl
    rw [hl, Option.getD_some]
    refine ⟨hfree, .inr ⟨k, ?_, hocc, fun j hj => ?_⟩⟩
    · rw [Nat.add_comm]
    · rw [Nat.add_comm]
      exact hused j hj
  · next hocc => exact ⟨eq_false_of_ne_true hocc, .inl rfl⟩

theorem freshLocal_ne_nil (body : Text) (hne : base ≠ []) (hb : base.all isIdentifierChar) :
    freshLocal body base ≠ [] := by
  rcases (freshLocal_spec body hb).2 with h | ⟨k, h, -, -⟩ <;> simp [h, hne]

theorem all_freshLocal (body : Text) (hb : base.all isIdentifierChar) :
    (freshLocal body base).all isIdentifierChar := by
  rcases (freshLocal_spec body hb).2 with h | ⟨k, h, -, -⟩
  · rwa [h]
  · rw [h]
    exact all_candidate hb (k + 1)

theorem not_standsIn_freshLocal (body : Text) (hb : base.all isIdentifierChar) :
    ¬ StandsIn (freshLocal body base) body := by
  rw [← occurs_iff (all_freshLocal body hb), (freshLocal_spec body hb).1]
  exact Bool.false_ne_true

theorem isIdentifier_localBase (tag : Text) : Java.isIdentifier (localBase tag) := by
  rw [localBase]
  split
  · assumption
  · decide

theorem localBase_ne_nil (tag : Text) : localBase tag ≠ [] :=
  Java.isIdentifier_ne_nil (isIdentifier_localBase tag)

theorem all_localBase (tag : Text) : (localBase tag).all isIdentifierChar :=
  Java.all_isIdentifierChar (isIdentifier_localBase tag)

theorem freshLocal_localBase (body tag : Text) :
    freshLocal body (localBase tag) ≠ [] ∧
      (freshLocal body (localBase tag)).all isIdentifierChar ∧
      freshLocal body (localBase tag) ∉ words body := by
  have hb := all_localBase tag
  have hl := all_freshLocal body hb
  exact ⟨freshLocal_ne_nil body (localBase_ne_nil tag) hb, hl,
    mt (mem_words_iff hl).1 (not_standsIn_freshLocal body hb)⟩

end PluginForge.Guard
