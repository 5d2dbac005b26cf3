import PluginForge.Proofs.Java.Constants
import PluginForge.Proofs.Json.Integers

namespace PluginForge.Java

open Json (integerText integerValue isDigit_of_mem_ofNat ofNat_ne_nil)

variable {c : Char} {t : Text}

def longSuffix (long : Bool) : Text :=
  if long then "L" else []

theorem isDecimal_ofNat (n : Nat) : isDecimal (Text.ofNat n) := by
  have hne := List.isEmpty_eq_false_iff.2 (ofNat_ne_nil n)
  have hall : (Text.ofNat n).all Char.isDigit := List.all_eq_true.2 fun _ => isDigit_of_mem_ofNat
  by_cases hn : n = 0
  · rw [hn]
    rfl
  · have hhead := bne_iff_ne.2 (Json.head?_ofNat_ne_zero hn)
    rw [isDecimal, hne, hall, hhead]
    rfl

theorem decimal?_ofNat (negative long : Bool) (n : Nat) :
    decimal? negative (Text.ofNat n ++ longSuffix long) =
      if n < magnitudeLimit long ∨ negative ∧ n = magnitudeLimit long then
        some (if long then .long else .int, integerValue negative n)
      else none := by
  have hlast : ((Text.ofNat n ++ longSuffix long).getLast? == some 'L' ||
      (Text.ofNat n ++ longSuffix long).getLast? == some 'l') = long := by
    cases long with
    | true =>
      rw [longSuffix, if_pos rfl, List.getLast?_append]
      rfl
    | false =>
      have hne {x : Char} (hx : Json.isDigit x = false) : (Text.ofNat n).getLast? ≠ some x := fun h =>
        Bool.false_ne_true (hx.symm.trans (isDigit_of_mem_ofNat (List.mem_of_getLast? h)))
      rw [longSuffix, if_neg Bool.false_ne_true, List.append_nil, Bool.or_eq_false_iff]
      exact ⟨beq_eq_false_iff_ne.2 (hne rfl), beq_eq_false_iff_ne.2 (hne rfl)⟩
  have hdigits : (if long then (Text.ofNat n ++ longSuffix long).dropLast
      else Text.ofNat n ++ longSuffix long) = Text.ofNat n := by
    cases long with
    | true => exact List.dropLast_concat
    | false => exact List.append_nil _
  have hvalue : Nat.ofDigitChars 10 (Text.ofNat n) 0 = n :=
    Nat.ofDigitChars_toDigits (by decide) (by decide)
  simp only [decimal?, hlast, hdigits, hvalue, isDecimal_ofNat, true_and]
  rfl

theorem integer?_integerText (negative long : Bool) (n : Nat) :
    integer? (integerText negative n ++ longSuffix long) =
      if n < magnitudeLimit long ∨ negative ∧ n = magnitudeLimit long then
        some (if long then .long else .int, integerValue negative n)
      else none := by
  rw [← decimal?_ofNat]
  cases negative with
  | true => rfl
  | false =>
    rw [integerText, if_neg Bool.false_ne_true, List.nil_append, integer?]
    intro t ht
    obtain ⟨c, digits, hdigits⟩ := List.exists_cons_of_ne_nil (ofNat_ne_nil n)
    have hc : c ∈ Text.ofNat n := hdigits ▸ List.mem_cons_self
    rw [hdigits, List.cons_append] at ht
    rw [(List.cons.inj ht).1] at hc
    exact absurd (isDigit_of_mem_ofNat hc) (by decide)

theorem fits_iff {long negative : Bool} {n : Nat} :
    n < magnitudeLimit long ∨ negative ∧ n = magnitudeLimit long ↔
      -magnitudeLimit long ≤ integerValue negative n ∧ integerValue negative n < magnitudeLimit long := by
  have hpos : 0 < magnitudeLimit long := by
    cases long <;> decide
  cases negative with
  | true =>
    simp only [integerValue, if_true, true_and]
    omega
  | false =>
    simp only [integerValue, Bool.false_eq_true, if_false, false_and, or_false]
    omega

theorem string?_cons (hc : c.toNat < 0x10000) (hquote : c ≠ '"') (hbackslash : c ≠ '\\') :
    string? (c :: t) = none := by
  have hunit : c.toNat ≠ 0x22 := fun he => hquote (Char.toNat_inj.1 he)
  rw [string?, translate, Text.charUnits_of_lt hc]
  · cases translate false t with
    | none => rfl
    | some us =>
      simp only [Option.map_some, List.singleton_append]
      split
      · next he => exact absurd (List.cons.inj (Option.some.inj he)).1 hunit
      · rfl
  · exact fun _ h => absurd h hbackslash
  · exact fun _ h => absurd h hbackslash

/-- An integer with the suffix of long integers or without it denotes its value exactly if that is one of
the type. -/
theorem constant?_integerText (negative long : Bool) (n : Nat) :
    constant? (integerText negative n ++ longSuffix long) =
      if -magnitudeLimit long ≤ integerValue negative n ∧ integerValue negative n < magnitudeLimit long then
        some (.integer (if long then .long else .int) (integerValue negative n))
      else none := by
  have hinteger := integer?_integerText negative long n
  obtain ⟨c, t, ht, hc⟩ := Json.exists_integerText negative n
  have hsmall : c.toNat < 0x10000 := by
    rw [Json.isIntegerChar, Bool.or_eq_true, beq_iff_eq] at hc
    rcases hc with hc | rfl
    · rw [Json.isDigit, Bool.and_eq_true, decide_eq_true_eq, decide_eq_true_eq] at hc
      exact Nat.lt_of_le_of_lt (Char.le_def.1 hc.2) (by decide)
    · decide
  have hstring : string? (c :: (t ++ longSuffix long)) = none :=
    string?_cons hsmall (Json.ne_of_isIntegerChar hc rfl) (Json.ne_of_isIntegerChar hc rfl)
  rw [ht, List.cons_append] at hinteger ⊢
  have htrue : c :: (t ++ longSuffix long) ≠ "true" :=
    fun h => Json.ne_of_isIntegerChar (x := 't') hc rfl (List.cons.inj h).1
  have hfalse : c :: (t ++ longSuffix long) ≠ "false" :=
    fun h => Json.ne_of_isIntegerChar (x := 'f') hc rfl (List.cons.inj h).1
  rw [constant?, if_neg htrue, if_neg hfalse, hstring]
  simp only [hinteger, fits_iff]
  exact apply_ite (Option.map _) _ _ _

example : constant? "-2147483648" = some (.integer .int (-2147483648)) ∧ constant? "2147483648" = none := by
  decide

end PluginForge.Java
