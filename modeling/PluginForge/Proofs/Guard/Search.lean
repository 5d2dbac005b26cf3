import Mathlib.Order.Bounds.Basic
import PluginForge.Proofs.Guard.Freshness

namespace PluginForge

namespace Java

variable {name : Text}

theorem isIdentifier_cons {c : Char} :
    isIdentifier (c :: name) ↔
      isIdentifierStart c ∧ name.all isIdentifierChar ∧ c :: name ∉ reservedWords := by
  rw [isIdentifier, Bool.and_eq_true, Bool.and_eq_true, Bool.not_eq_true', List.contains_eq_mem,
    decide_eq_false_iff_not, and_assoc]

/-- An identifier with a number behind it is one: no reserved word ends with a digit. -/
theorem isIdentifier_append_ofNat (h : isIdentifier name) (n : Nat) :
    isIdentifier (name ++ Text.ofNat n) := by
  have hwords : (reservedWords.all fun word => !word.getLast?.any Char.isDigit) = true := by decide
  obtain ⟨c, rest, rfl⟩ := List.exists_cons_of_ne_nil (isIdentifier_ne_nil h)
  obtain ⟨hstart, hrest, -⟩ := isIdentifier_cons.1 h
  rw [List.cons_append, isIdentifier_cons, List.all_append, hrest, Guard.all_isIdentifierChar_ofNat]
  refine ⟨hstart, rfl, fun hmem => ?_⟩
  have hne : Text.ofNat n ≠ [] := Nat.toDigits_ne_nil
  have hlast := List.getLast_mem hne
  have hword := List.all_eq_true.1 hwords _ hmem
  rw [← List.cons_append, List.getLast?_append, List.getLast?_eq_some_getLast hne, Option.some_or,
    Option.any_some, Nat.isDigit_of_mem_toDigits (b := 10) (by decide) (by decide) hlast] at hword
  cases hword

end Java

namespace Guard

open Java (isIdentifier isIdentifier_append_ofNat)

variable {base body t w : Text} {k m n : Nat}

def identifiers (t : Text) : List Text :=
  ((words t).filter isIdentifier).dedup

theorem mem_identifiers : w ∈ identifiers t ↔ w ∈ words t ∧ isIdentifier w := by
  rw [identifiers, List.mem_dedup, List.mem_filter]

theorem mem_identifiers_of_occurs (hw : isIdentifier w) (h : occurs w t) : w ∈ identifiers t := by
  have hchars := Java.all_isIdentifierChar hw
  exact mem_identifiers.2 ⟨(mem_words_iff hchars).2 ((occurs_iff hchars).1 h), hw⟩

theorem numbered_injective (base : Text) : Function.Injective fun n => base ++ Text.ofNat n :=
  fun _ _ h => ofNat_injective (List.append_cancel_left h)

theorem lt_length_identifiers (hb : isIdentifier base) (hbase : occurs base body)
    (hused : ∀ j < k, occurs (base ++ Text.ofNat (j + 1)) body) : k < (identifiers body).length := by
  let used := base :: (List.range k).map fun j => base ++ Text.ofNat (j + 1)
  have hnodup : used.Nodup := by
    refine List.nodup_cons.2 ⟨fun hmem => ?_, ?_⟩
    · obtain ⟨j, -, hj⟩ := List.mem_map.1 hmem
      exact Nat.toDigits_ne_nil (List.append_right_eq_self.1 hj)
    · exact List.nodup_range.map ((numbered_injective base).comp Nat.succ_injective)
  have hsub : used ⊆ identifiers body := by
    intro w hw
    rcases List.mem_cons.1 hw with rfl | hw
    · exact mem_identifiers_of_occurs hb hbase
    · obtain ⟨j, hj, rfl⟩ := List.mem_map.1 hw
      exact mem_identifiers_of_occurs (isIdentifier_append_ofNat hb _) (hused j (List.mem_range.1 hj))
  have hlength := (hnodup.subperm hsub).length_le
  rwa [List.length_cons, List.length_map, List.length_range] at hlength

/-- A search that is not cut off ends at the first number that makes the name new. -/
theorem searchLocal?_eq (hfree : occurs (base ++ Text.ofNat (m + k)) body = false)
    (hused : ∀ j < k, occurs (base ++ Text.ofNat (m + j)) body) (fuel : Nat) :
    searchLocal? body base fuel m =
      if k < fuel then some (base ++ Text.ofNat (m + k)) else none := by
  induction fuel generalizing m k with
  | zero => rfl
  | succ fuel ih =>
    rw [searchLocal?]
    cases k with
    | zero =>
      rw [Nat.add_zero] at hfree
      rw [hfree, if_neg Bool.false_ne_true, if_pos (Nat.succ_pos fuel), Nat.add_zero]
    | succ k =>
      have hfirst : occurs (base ++ Text.ofNat m) body := hused 0 (Nat.succ_pos k)
      have hrest := ih (m := m + 1) (k := k) (by rwa [Nat.add_right_comm]) fun j hj => by
        rw [Nat.add_right_comm]
        exact hused (j + 1) (Nat.succ_lt_succ hj)
      rw [if_pos hfirst, hrest, Nat.add_right_comm]
      exact if_congr Nat.succ_lt_succ_iff.symm rfl rfl

theorem isLeast_unused (hb : base.all Java.isIdentifierChar)
    (hfree : occurs (base ++ Text.ofNat (k + 1)) body = false)
    (hused : ∀ j < k, occurs (base ++ Text.ofNat (j + 1)) body) :
    IsLeast {n | 1 ≤ n ∧ ¬StandsIn (base ++ Text.ofNat n) body} (k + 1) := by
  have hoccurs (n : Nat) : occurs (base ++ Text.ofNat n) body ↔ StandsIn (base ++ Text.ofNat n) body :=
    occurs_iff (all_candidate hb n)
  refine ⟨⟨Nat.succ_pos k, ?_⟩, ?_⟩
  · rw [← hoccurs, hfree]
    exact Bool.false_ne_true
  · rintro n ⟨hpos, hnew⟩
    obtain ⟨j, rfl⟩ := Nat.exists_eq_add_one.2 hpos
    exact Nat.succ_le_succ (Nat.not_lt.1 fun hj => hnew ((hoccurs _).1 (hused j hj)))

/-- The local of a guard is an identifier whatever the tag: the base that the tag suggests, or if the body uses
this, the base with the least number from one on that makes it new. The search ends at this number, however
many numbers it may try, and the body has at least as many identifiers as it tries numbers. -/
theorem freshLocal_search (body tag : Text) :
    let base := localBase tag
    isIdentifier (freshLocal body base) ∧
      (¬StandsIn base body → freshLocal body base = base) ∧
      (StandsIn base body → ∃ n, IsLeast {n | 1 ≤ n ∧ ¬StandsIn (base ++ Text.ofNat n) body} n ∧
        freshLocal body base = base ++ Text.ofNat n ∧ n ≤ (identifiers body).length ∧
        ∀ fuel, searchLocal? body base fuel 1 =
          if n ≤ fuel then some (base ++ Text.ofNat n) else none) := by
  intro base
  have hbase : isIdentifier base := isIdentifier_localBase tag
  have hchars := Java.all_isIdentifierChar hbase
  obtain ⟨hfree, hsame | ⟨k, hnumbered, huse, hused⟩⟩ := freshLocal_spec body hchars
  · have hnot : ¬StandsIn base body := by
      rw [← occurs_iff hchars, ← hsame, hfree]
      exact Bool.false_ne_true
    exact ⟨by rwa [hsame], fun _ => hsame, fun h => absurd h hnot⟩
  · have hstands : StandsIn base body := (occurs_iff hchars).1 huse
    rw [hnumbered] at hfree ⊢
    refine ⟨isIdentifier_append_ofNat hbase _, fun h => absurd hstands h, fun _ => ⟨k + 1,
      isLeast_unused hchars hfree hused, rfl, lt_length_identifiers hbase huse hused, fun fuel => ?_⟩⟩
    rw [Nat.add_comm] at hfree ⊢
    rw [searchLocal?_eq hfree fun j hj => by rw [Nat.add_comm]; exact hused j hj, Nat.add_comm]
    exact if_congr Nat.succ_le_iff.symm rfl rfl

/-- A tag whose name is reserved, and a body that uses the name that stands in for it, and all but one of the
first numbers. -/
example : freshLocal "guarded(guarded1, guarded3);" (localBase "cla-ss") = "guarded2" := by
  decide

end Guard

end PluginForge
