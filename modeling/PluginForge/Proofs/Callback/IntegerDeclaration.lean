import PluginForge.Proofs.Callback.Declaration
import PluginForge.Proofs.Callback.Initializer

namespace PluginForge.Callback

open Json (Numeral integerText integerValue)

variable {indent keyword name terminator : Text} {n : Nat} {negative : Bool}

def integerType (v : Int) : Java.Scalar :=
  if v.natAbs ≤ 127 then .int else .long

theorem type_integer (v : Int) (t : Text) : Atom.type ⟨.integer v, t⟩ = integerType v := by
  simp only [Atom.type, integerType, ← Nat.not_lt]
  exact (ite_not ..).symm

theorem expresses_integer (hzero : negative → n ≠ 0)
    (hmin : -9223372036854775808 ≤ integerValue negative n)
    (hmax : integerValue negative n < 9223372036854775808) :
    Expresses (Atom.java ⟨.integer (integerValue negative n), integerText negative n⟩)
      (integerType (integerValue negative n)) (.integer (integerValue negative n)) := by
  have hwrite : Scalar.write (.integer (integerValue negative n)) = integerText negative n :=
    Json.write_integerValue hzero
  have hspells := SpellsScalar.integer hzero hmin hmax
  rw [← hwrite, ← type_integer]
  exact hspells.expresses (widen?_self _)

theorem constant?_java_large (h : 9223372036854775808 ≤ integerValue negative n) :
    Java.constant? (Atom.java ⟨.integer (integerValue negative n), integerText negative n⟩) = none := by
  rw [constant?_java_integer, Scalar.constant?, if_neg (by omega), if_neg (by omega)]

theorem constant?_large (h : integerValue negative n < -9223372036854775808 ∨
    18446744073709551616 ≤ integerValue negative n) :
    Java.constant? (integerText negative n) = none := by
  have hshort := Java.constant?_integerText negative false n
  rw [Java.longSuffix, if_neg Bool.false_ne_true, List.append_nil] at hshort
  rw [hshort, if_neg]
  change ¬(-2147483648 ≤ integerValue negative n ∧ integerValue negative n < 2147483648)
  omega

/-- An integer of 64 bits, signed or not, declares a name with its type; a negative zero and any other
integer with that of doubles, unless it is too large for one. -/
theorem parse_integerLine (hindent : indent.all Statement.isIndent) (hkeyword : keyword ∈ Statement.keywords)
    (hname : Java.isIdentifier name) (hend : terminator = [] ∨ terminator = [';']) (line : Nat)
    (negative : Bool) (n : Nat) :
    Statement.parse line (indent ++ keywordLine keyword name (integerText negative n ++ terminator)) =
      if (negative → n ≠ 0) ∧ -9223372036854775808 ≤ integerValue negative n ∧
          integerValue negative n < 18446744073709551616 then
        .ok (.declaration indent (.scalar (integerType (integerValue negative n))) name
          (Atom.java ⟨.integer (integerValue negative n), integerText negative n⟩))
      else if (Numeral.mk negative (Text.ofNat n) none none).float?.isSome then
        .ok (.declaration indent (.scalar .double) name (integerText negative n))
      else .error (.notLiteral line (integerText negative n)) := by
  have hquote : '\'' ∉ integerText negative n := Json.not_mem_integerText rfl
  have htags : IsTagFree (integerText negative n) :=
    isTagFree_of_dot_not_mem (Json.not_mem_integerText rfl)
  have htake : (integerText negative n).takeWhile (· != ';') = integerText negative n := by
    rw [List.takeWhile_eq_self_iff]
    exact fun c hc => bne_iff_ne.2 (Json.ne_of_isIntegerChar (Json.isIntegerChar_of_mem hc) rfl)
  rw [parse_keywordLine_terminated hkeyword hname hindent hquote htags hend, htake]
  simp only [trim_integerText, parse?_integerText, Json.value?_ofNat]
  by_cases hrange : (negative → n ≠ 0) ∧ -9223372036854775808 ≤ integerValue negative n ∧
      integerValue negative n < 18446744073709551616
  · simp only [if_pos hrange, ← type_integer _ (integerText negative n)]
    rfl
  · simp only [if_neg hrange]
    cases (Numeral.mk negative (Text.ofNat n) none none).float? with
    | none => rfl
    | some x => rfl

/-- A negative zero and an integer that is none of 64 signed bits declare what no literal of Java's
integer types denotes, or what is denoted by one of another type. -/
theorem integer_declaration (hindent : indent.all Statement.isIndent)
    (hkeyword : keyword ∈ Statement.keywords) (hname : Java.isIdentifier name)
    (hend : terminator = [] ∨ terminator = [';']) (line : Nat) (negative : Bool) (n : Nat) :
    let v := integerValue negative n
    let source := integerText negative n
    let declared := Statement.parse line (indent ++ keywordLine keyword name (source ++ terminator))
    ((negative → n ≠ 0) → -9223372036854775808 ≤ v → v < 18446744073709551616 → ∃ value,
      declared = .ok (.declaration indent (.scalar (integerType v)) name value) ∧
      if v < 9223372036854775808 then Expresses value (integerType v) (.integer v)
      else Java.constant? value = none) ∧
    (v < -9223372036854775808 ∨ 18446744073709551616 ≤ v → Java.constant? source = none ∧
      declared = if (Numeral.mk negative (Text.ofNat n) none none).float?.isSome
        then .ok (.declaration indent (.scalar .double) name source)
        else .error (.notLiteral line source)) ∧
    (negative → n = 0 → declared = .ok (.declaration indent (.scalar .double) name source)) := by
  intro v source declared
  have hdeclared := parse_integerLine hindent hkeyword hname hend line negative n
  refine ⟨fun hzero hmin hmax => ?_, fun hout => ⟨?_, ?_⟩, ?_⟩
  · rw [if_pos ⟨hzero, hmin, hmax⟩] at hdeclared
    refine ⟨_, hdeclared, ?_⟩
    split
    · next hlong => exact expresses_integer hzero hmin hlong
    · next hlong => exact constant?_java_large (Int.not_lt.1 hlong)
  · exact constant?_large hout
  · rw [if_neg (by omega)] at hdeclared
    exact hdeclared
  · rintro rfl rfl
    rw [if_neg (by decide)] at hdeclared
    have hfloat : (Numeral.mk true (Text.ofNat 0) none none).float?.isSome := by decide +kernel
    rw [if_pos hfloat] at hdeclared
    exact hdeclared

theorem integer_declaration_long :
    ∃ value, Statement.parse 1 (keywordLine "let" "x" "-2147483649;") =
      .ok (.declaration [] (.scalar .long) "x" value) ∧ Expresses value .long (.integer (-2147483649)) := by
  have hindent : List.all ([] : Text) Statement.isIndent := rfl
  have hkeyword : ("let" : Text) ∈ Statement.keywords := by decide
  have hname : Java.isIdentifier "x" := rfl
  have hdeclared := integer_declaration hindent hkeyword hname (.inr rfl) 1 true 2147483649
  exact hdeclared.1 (by decide) (by decide) (by decide)

/-- A negative zero is declared as a double, and integers that no variable of the type `long` can hold
are declared with a text that is no literal of Java. -/
theorem integer_declaration_misses :
    Statement.parse 1 (keywordLine "let" "x" "-0;") = .ok (.declaration [] (.scalar .double) "x" "-0") ∧
    (Statement.parse 1 (keywordLine "let" "x" "9223372036854775808;") =
        .ok (.declaration [] (.scalar .long) "x" "9223372036854775808L") ∧
      Java.constant? "9223372036854775808L" = none) ∧
    Statement.parse 1 (keywordLine "let" "x" "18446744073709551616;") =
        .ok (.declaration [] (.scalar .double) "x" "18446744073709551616") ∧
      Java.constant? "18446744073709551616" = none := by
  refine ⟨?_, ⟨?_, ?_⟩, ?_, ?_⟩
  · decide +kernel
  · decide +kernel
  · decide +kernel
  · decide +kernel
  · decide +kernel

end PluginForge.Callback
