import Mathlib.Data.List.Basic
import PluginForge.Json.Number.Reader

namespace PluginForge.Json

variable {c : Char} {n : Nat} {negative : Bool} {p : Position} {r t : Text}

/-- An integer without fraction and exponent: a minus or not, and the digits of its magnitude. -/
def integerText (negative : Bool) (n : Nat) : Text :=
  (if negative then ['-'] else []) ++ Text.ofNat n

def integerValue (negative : Bool) (n : Nat) : Int :=
  if negative then -n else n

theorem isDigit_of_mem_ofNat (h : c ∈ Text.ofNat n) : isDigit c :=
  Nat.isDigit_of_mem_toDigits (b := 10) (by decide) (by decide) h

theorem ofNat_ne_nil (n : Nat) : Text.ofNat n ≠ [] :=
  Nat.toDigits_ne_nil

theorem head?_ofNat_ne_zero (h : n ≠ 0) : (Text.ofNat n).head? ≠ some '0' := by
  induction n using Nat.strongRecOn with
  | ind n ih =>
    rw [Text.ofNat, Nat.toDigits_eq_if (by decide)]
    split
    · next hlt =>
      have hdigit : ∀ n < 10, n ≠ 0 → n.digitChar ≠ '0' := by decide
      rw [List.head?_singleton, ne_eq, Option.some.injEq]
      exact hdigit n hlt h
    · have hhead := ih (n / 10) (by omega) (by omega)
      rwa [← Text.ofNat, List.head?_append_of_ne_nil _ (ofNat_ne_nil (n / 10))]

theorem digitsValue_ofNat (n : Nat) : digitsValue (Text.ofNat n) = n := by
  have hstep : (fun n c => n * 10 + digitValue c) = fun n c => 10 * n + (c.toNat - '0'.toNat) := by
    funext n c
    rw [Nat.mul_comm, digitValue]
  rw [digitsValue, hstep]
  exact Nat.ofDigitChars_toDigits (by decide) (by decide)

def isIntegerChar (c : Char) : Bool :=
  isDigit c || c == '-'

theorem ne_of_isIntegerChar {x : Char} (hc : isIntegerChar c) (hx : isIntegerChar x = false) : c ≠ x := by
  rintro rfl
  exact Bool.false_ne_true (hx.symm.trans hc)

theorem isIntegerChar_of_mem (h : c ∈ integerText negative n) : isIntegerChar c := by
  rw [integerText, List.mem_append] at h
  rcases h with h | h
  · cases negative with
    | true =>
      rw [List.mem_singleton.1 h]
      rfl
    | false => cases h
  · rw [isIntegerChar, isDigit_of_mem_ofNat h, Bool.true_or]

theorem not_mem_integerText (hc : isIntegerChar c = false) : c ∉ integerText negative n :=
  fun h => Bool.false_ne_true (hc.symm.trans (isIntegerChar_of_mem h))

theorem exists_integerText (negative : Bool) (n : Nat) :
    ∃ c t, integerText negative n = c :: t ∧ isIntegerChar c := by
  have hne : integerText negative n ≠ [] := List.append_ne_nil_of_right_ne_nil _ (ofNat_ne_nil n)
  obtain ⟨c, t, ht⟩ := List.exists_cons_of_ne_nil hne
  exact ⟨c, t, ht, isIntegerChar_of_mem (ht ▸ List.mem_cons_self)⟩

theorem isDigit_of_getLast? (h : (integerText negative n).getLast? = some c) : isDigit c := by
  rw [integerText, List.getLast?_append_of_ne_nil _ (ofNat_ne_nil n)] at h
  exact isDigit_of_mem_ofNat (List.mem_of_getLast? h)

/-- A text in which a number does not go on. -/
def EndsNumber (r : Text) : Prop :=
  ∀ x ∈ r.head?, isDigit x = false ∧ x ≠ '.' ∧ x ≠ 'e' ∧ x ≠ 'E'

theorem EndsNumber.not_isDigit (h : EndsNumber r) : r.head?.any isDigit = false := by
  cases r with
  | nil => rfl
  | cons x r => exact (h x rfl).1

theorem EndsNumber.peek? (h : EndsNumber r) (hc : c ∈ ['.', 'e', 'E']) :
    Cursor.peek? ⟨p, r⟩ ≠ some c := by
  intro hpeek
  obtain ⟨-, hpoint, he, hE⟩ := h c hpeek
  simp [hpoint, he, hE] at hc

theorem takeWhile_digits (ht : ∀ x ∈ t, isDigit x) (hr : r.head?.any isDigit = false) :
    (t ++ r).takeWhile isDigit = t ∧ (t ++ r).dropWhile isDigit = r := by
  rw [List.takeWhile_append_of_pos ht, List.dropWhile_append_of_pos ht]
  cases r with
  | nil => exact ⟨List.append_nil t, rfl⟩
  | cons x r =>
    have hx : isDigit x = false := hr
    rw [List.takeWhile_cons, List.dropWhile_cons, hx]
    exact ⟨List.append_nil t, rfl⟩

theorem readWhole_ofNat (strict : Bool) (p : Position) (n : Nat) (h : EndsNumber r) :
    ∃ q, Cursor.readWhole strict ⟨p, Text.ofNat n ++ r⟩ = .ok (Text.ofNat n, ⟨q, r⟩) := by
  by_cases hn : n = 0
  · subst hn
    refine ⟨p.after '0', ?_⟩
    change Cursor.readWhole strict ⟨p, '0' :: r⟩ = _
    apply if_neg
    rw [h.not_isDigit]
    exact Bool.false_ne_true
  · obtain ⟨htake, hdrop⟩ :=
      takeWhile_digits (fun _ hx => isDigit_of_mem_ofNat (n := n) hx) h.not_isDigit
    obtain ⟨x, digits, hdigits⟩ := List.exists_cons_of_ne_nil (ofNat_ne_nil n)
    have hx : isDigit x := isDigit_of_mem_ofNat (n := n) (by rw [hdigits]; exact List.mem_cons_self)
    have hzero : x ≠ '0' := by
      have hhead := head?_ofNat_ne_zero hn
      rw [hdigits] at hhead
      exact fun he => hhead (congrArg some he)
    refine ⟨p.afterAll (Text.ofNat n), ?_⟩
    rw [hdigits] at htake hdrop ⊢
    rw [List.cons_append] at htake hdrop ⊢
    rw [Cursor.readWhole]
    split
    · next hrest => cases hrest
    · next hrest =>
      cases hrest
      exact absurd rfl hzero
    · next hrest =>
      cases hrest
      rw [if_pos hx, Cursor.readDigits, Cursor.skipWhile, htake, hdrop]

theorem readNumeral_ofNat (strict negative : Bool) (p : Position) (n : Nat) (h : EndsNumber r) :
    ∃ q, Cursor.readNumeral strict negative ⟨p, Text.ofNat n ++ r⟩ =
      .ok (⟨negative, Text.ofNat n, none, none⟩, ⟨q, r⟩) := by
  obtain ⟨q, hq⟩ := readWhole_ofNat strict p n h
  have hfraction : Cursor.readFraction strict ⟨q, r⟩ = .ok (none, ⟨q, r⟩) :=
    if_neg (h.peek? (by decide))
  have hexponent : Cursor.readExponent strict ⟨q, r⟩ = .ok (none, ⟨q, r⟩) :=
    if_neg (not_or.2 ⟨h.peek? (by decide), h.peek? (by decide)⟩)
  refine ⟨q, ?_⟩
  rw [Cursor.readNumeral, hq]
  simp only [Except.bind, bind, hfraction, hexponent]
  rfl

theorem readNumber_integerText (p : Position) (negative : Bool) (n : Nat) (h : EndsNumber r) :
    ∃ q, Cursor.readNumber ⟨p, integerText negative n ++ r⟩ =
      match (Numeral.mk negative (Text.ofNat n) none none).value? with
      | some number => .ok (number, ⟨q, r⟩)
      | none => .error ⟨.numberOutOfRange, q⟩ := by
  cases negative with
  | true =>
    obtain ⟨q, hq⟩ := readNumeral_ofNat true true (p.after '-') n h
    refine ⟨q, ?_⟩
    change (Cursor.readNumeral true true ⟨p.after '-', Text.ofNat n ++ r⟩ >>= _) = _
    rw [hq]
    rfl
  | false =>
    obtain ⟨q, hq⟩ := readNumeral_ofNat true false p n h
    have hpeek : Cursor.peek? ⟨p, Text.ofNat n ++ r⟩ ≠ some '-' := by
      intro hpeek
      rw [Cursor.peek?, List.head?_append_of_ne_nil _ (ofNat_ne_nil n)] at hpeek
      exact absurd (isDigit_of_mem_ofNat (List.mem_of_mem_head? hpeek)) (by decide)
    refine ⟨q, ?_⟩
    rw [integerText, if_neg Bool.false_ne_true, List.nil_append, Cursor.readNumber]
    simp only [hpeek, if_false, decide_false, hq]
    rfl

/-- An integer of 64 bits, signed or not, is kept. A negative zero and any other are read as doubles. -/
theorem value?_ofNat (negative : Bool) (n : Nat) :
    (Numeral.mk negative (Text.ofNat n) none none).value? =
      if (negative → n ≠ 0) ∧ -9223372036854775808 ≤ integerValue negative n ∧
          integerValue negative n < 18446744073709551616 then
        some (.int (integerValue negative n))
      else (Numeral.mk negative (Text.ofNat n) none none).float?.map .float := by
  rw [Numeral.value?]
  simp only [Nat.pow_eq, digitsValue_ofNat, Option.isSome_none, Bool.or_self, Bool.false_eq_true, if_false]
  cases negative with
  | true =>
    simp only [integerValue, if_true, true_imp_iff]
    congr 1
    apply propext
    omega
  | false =>
    simp only [integerValue, Bool.false_eq_true, if_false, false_imp_iff, true_and]
    congr 1
    apply propext
    omega

theorem write_integerValue (h : negative → n ≠ 0) :
    (Number.int (integerValue negative n)).write = integerText negative n := by
  cases negative with
  | true =>
    obtain ⟨n, rfl⟩ := Nat.exists_eq_add_one_of_ne_zero (h rfl)
    rfl
  | false => rfl

end PluginForge.Json
