import PluginForge.Proofs.Callback.Literals
import PluginForge.Proofs.Java.Integers
import PluginForge.Proofs.Java.JsonStrings

namespace PluginForge.Callback

open Java (Constant longSuffix)
open Json (SpellsText integerText integerValue)

variable {a b c element first : Java.Scalar} {constant : Constant} {items : List Atom} {parts : List Text}
  {spelling t : Text} {ty : Java.Ty} {value : Scalar} {values : List Scalar}

theorem widen?_upper (h : widen? a b = some c) : widen? a c = some c ∧ widen? b c = some c := by
  cases a <;> cases b <;> cases h <;> exact ⟨rfl, rfl⟩

theorem widen?_self (a : Java.Scalar) : widen? a a = some a := by
  cases a <;> rfl

theorem widen?_trans (hab : widen? a b = some b) (hbc : widen? b c = some c) : widen? a c = some c := by
  cases a <;> cases b <;> cases hab <;> cases c <;> cases hbc <;> rfl

theorem widen?_foldlM (h : items.foldlM (fun type item => widen? type item.type) first = some element) :
    widen? first element = some element ∧ ∀ item ∈ items, widen? item.type element = some element := by
  induction items generalizing first with
  | nil =>
    cases h
    exact ⟨widen?_self _, nofun⟩
  | cons item items ih =>
    obtain ⟨wide, hwide, h⟩ := Option.bind_eq_some_iff.1 h
    obtain ⟨hfirst, hitem⟩ := widen?_upper hwide
    obtain ⟨hle, hall⟩ := ih h
    refine ⟨widen?_trans hfirst hle, fun other hother => ?_⟩
    rcases List.mem_cons.1 hother with rfl | hother
    · exact widen?_trans hitem hle
    · exact hall other hother

theorem widen?_of_type? (h : (Literal.array items).type? = some ty) :
    ∃ element, ty = .array element ∧ ∀ item ∈ items, widen? item.type element = some element := by
  cases items with
  | nil => cases h
  | cons first rest =>
    obtain ⟨element, hfold, rfl⟩ := Option.map_eq_some_iff.1 h
    obtain ⟨hfirst, hrest⟩ := widen?_foldlM hfold
    exact ⟨element, rfl, List.forall_mem_cons.2 ⟨hfirst, hrest⟩⟩

/-- The value of the literal for a scalar: an integer is of the type `int` as long as it is one. -/
def Scalar.constant? : Scalar → Option Constant
  | .string s => some (.string (Text.units s))
  | .boolean b => some (.boolean b)
  | .integer v =>
    if -2147483648 ≤ v ∧ v < 2147483648 then some (.integer .int v)
    else if -9223372036854775808 ≤ v ∧ v < 9223372036854775808 then some (.integer .long v)
    else none
  | .float _ => none

theorem fitsInt_iff {v : Int} : Atom.fitsInt v ↔ -2147483648 ≤ v ∧ v < 2147483648 := by
  rw [Atom.fitsInt, Bool.and_eq_true, decide_eq_true_eq, decide_eq_true_eq]

theorem java_integer (v : Int) (t : Text) :
    Atom.java ⟨.integer v, t⟩ = t ++ longSuffix (!Atom.fitsInt v) := by
  simp only [Atom.java]
  cases Atom.fitsInt v with
  | true => exact (List.append_nil t).symm
  | false => rfl

theorem constant?_java_integer (negative : Bool) (n : Nat) :
    Java.constant? (Atom.java ⟨.integer (integerValue negative n), integerText negative n⟩) =
      Scalar.constant? (.integer (integerValue negative n)) := by
  rw [java_integer, Java.constant?_integerText, Scalar.constant?]
  cases hfits : Atom.fitsInt (integerValue negative n) with
  | true =>
    have hrange := fitsInt_iff.1 hfits
    rw [if_pos hrange]
    exact if_pos hrange
  | false =>
    have hrange := mt fitsInt_iff.2 (Bool.eq_false_iff.1 hfits)
    rw [if_neg hrange]
    rfl

theorem constant?_writeString (s : Text) :
    Java.constant? (Json.writeString s) = some (.string (Text.units s)) := by
  have htrue : Json.writeString s ≠ "true" := nofun
  have hfalse : Json.writeString s ≠ "false" := nofun
  rw [Java.constant?, if_neg htrue, if_neg hfalse, Java.string?_writeString]

theorem SpellsScalar.constant? (h : SpellsScalar value spelling) :
    ∃ constant, value.constant? = some constant ∧
      Java.constant? (Atom.java ⟨value, value.write⟩) = some constant := by
  cases h with
  | @string s _ h => exact ⟨_, rfl, constant?_writeString s⟩
  | true => exact ⟨_, rfl, rfl⟩
  | false => exact ⟨_, rfl, rfl⟩
  | @integer negative n hzero hmin hmax =>
    have hwrite : Scalar.write (.integer (integerValue negative n)) = integerText negative n :=
      Json.write_integerValue hzero
    rw [hwrite, constant?_java_integer, Scalar.constant?]
    split
    · exact ⟨_, rfl, rfl⟩
    · rw [if_pos ⟨hmin, hmax⟩]
      exact ⟨_, rfl, rfl⟩

theorem getLast?_java (h : SpellsScalar value spelling) :
    (Atom.java ⟨value, value.write⟩).getLast? = some 'L' ↔
      ∃ v, value.constant? = some (.integer .long v) := by
  cases h with
  | @string s _ _ =>
    have hlast : (Json.writeString s).getLast? = some '"' := List.getLast?_concat
    exact iff_of_false (fun h => absurd (hlast.symm.trans h) (by decide)) (by rintro ⟨v, ⟨⟩⟩)
  | true => exact iff_of_false (by decide) (by rintro ⟨v, ⟨⟩⟩)
  | false => exact iff_of_false (by decide) (by rintro ⟨v, ⟨⟩⟩)
  | @integer negative n hzero hmin hmax =>
    have hwrite : Scalar.write (.integer (integerValue negative n)) = integerText negative n :=
      Json.write_integerValue hzero
    rw [hwrite, java_integer, Scalar.constant?]
    cases hfits : Atom.fitsInt (integerValue negative n) with
    | true =>
      have hlast : (integerText negative n).getLast? ≠ some 'L' := fun h =>
        absurd (Json.isDigit_of_getLast? h) (by decide)
      rw [if_pos (fitsInt_iff.1 hfits), Bool.not_true, longSuffix, if_neg Bool.false_ne_true,
        List.append_nil]
      exact iff_of_false hlast (by rintro ⟨v, ⟨⟩⟩)
    | false =>
      rw [if_neg (mt fitsInt_iff.2 (Bool.eq_false_iff.1 hfits)), if_pos ⟨hmin, hmax⟩]
      exact iff_of_true List.getLast?_concat ⟨_, rfl⟩

/-- A variable of any type that the type of a scalar widens to can be given its constant. -/
theorem fits_of_widen? (h : value.constant? = some constant)
    (hwiden : widen? (Atom.type ⟨value, t⟩) element = some element) : constant.fits element := by
  cases value with
  | string s =>
    cases h
    cases element <;> cases hwiden
    rfl
  | boolean b =>
    cases h
    cases element <;> cases hwiden
    rfl
  | integer v =>
    -- The type goes by one limit and the literal by another: a long integer may have no suffix.
    have hsmall : v.natAbs ≤ 127 → -2147483648 ≤ v ∧ v < 2147483648 := by omega
    simp only [Scalar.constant?] at h
    simp only [Atom.type] at hwiden
    by_cases hlong : Atom.intLimit < v.natAbs
    · rw [if_pos hlong] at hwiden
      split at h
      · cases h
        cases element <;> cases hwiden <;> rfl
      · rw [Option.ite_some_none_eq_some] at h
        obtain ⟨-, rfl⟩ := h
        cases element <;> cases hwiden <;> rfl
    · rw [if_neg hlong] at hwiden
      rw [if_pos (hsmall (Nat.not_lt.1 hlong))] at h
      cases h
      cases element <;> cases hwiden <;> rfl
  | float x => cases h

theorem exists_of_forall₂ {α β : Type} {R : α → β → Prop} {as : List α} {bs : List β} {y : β}
    (h : List.Forall₂ R as bs) (hy : y ∈ bs) : ∃ x, R x y := by
  induction h with
  | nil => cases hy
  | cons hxy _ ih =>
    rcases List.mem_cons.1 hy with rfl | hy
    · exact ⟨_, hxy⟩
    · exact ih hy

/-- A literal of Java denotes a scalar that a variable of a type can be given. The suffix of long
integers stands behind the integers that need it, and nowhere else. -/
def Expresses (item : Text) (element : Java.Scalar) (value : Scalar) : Prop :=
  ∃ constant, value.constant? = some constant ∧ Java.constant? item = some constant ∧
    constant.fits element ∧ (item.getLast? = some 'L' ↔ ∃ v, constant = .integer .long v)

theorem SpellsScalar.expresses (h : SpellsScalar value spelling)
    (hwiden : widen? (Atom.type ⟨value, value.write⟩) element = some element) :
    Expresses (Atom.java ⟨value, value.write⟩) element value := by
  obtain ⟨constant, hconstant, hjava⟩ := h.constant?
  have hlast := getLast?_java h
  rw [hconstant] at hlast
  exact ⟨constant, hconstant, hjava, fits_of_widen? hconstant hwiden, by simpa using hlast⟩

/-- A list of strings, booleans and integers of 64 bits declares an array with as many elements, each
of which denotes its value in Java. -/
theorem parse?_list_initializer
    (h : SpellsParts parts values) (ht : Text.trim t = '[' :: Text.join "," parts ++ [']']) :
    ∃ literal, Literal.parse? t = some literal ∧
      ∀ ty, literal.type? = some ty →
        ∃ element items, ty = .array element ∧
          literal.java ty = Java.newArray element (Text.join ", " items) ∧
          List.Forall₂ (fun value item => Expresses item element value) values items := by
  refine ⟨_, parse?_list h ht, fun ty hty => ?_⟩
  obtain ⟨element, rfl, hwiden⟩ := widen?_of_type? hty
  refine ⟨element, _, rfl, rfl, ?_⟩
  rw [List.map_map, List.forall₂_map_right_iff, List.forall₂_same]
  intro value hvalue
  obtain ⟨part, spelling, -, hspells⟩ := exists_of_forall₂ h hvalue
  exact hspells.expresses (hwiden _ (List.mem_map_of_mem hvalue))

theorem parse?_list_initializer_escapes :
    ∃ literal, Literal.parse? " [\"\\/\\u000A\" ,\t\"\"]" = some literal ∧
      ∀ ty, literal.type? = some ty →
        ∃ element items, ty = .array element ∧
          literal.java ty = Java.newArray element (Text.join ", " items) ∧
          List.Forall₂ (fun value item => Expresses item element value)
            [.string "/\n", .string []] items := by
  have hescapes : SpellsText "\\/\\u000A" "/\n" :=
    .cons (.short (by decide)) (.cons (u := []) (.unit (n := 0x0A) (by decide) (by decide)) .nil)
  have hparts : SpellsParts ["\"\\/\\u000A\" ", "\t\"\""] [.string "/\n", .string []] :=
    .cons ⟨_, .mk (b := []) (d := " ") .nil (by decide), .string hescapes⟩
      (.cons ⟨_, .mk (b := "\t") (d := []) (by decide) .nil, .string .nil⟩ .nil)
  exact parse?_list_initializer hparts (by decide)

/-- A string is declared with the text that it is written with. That denotes the string in Java exactly
if the text is portable, while the item of a list that is this string denotes it in any case. -/
theorem string_initializer_iff {atom : Atom} {s : Text} (h : Literal.parse? t = some (.atom atom))
    (hs : atom.value = .string s) :
    ∃ contents item, Text.trim t = '"' :: contents ++ ['"'] ∧ SpellsText contents s ∧
      atom.java = Text.trim t ∧
      (Java.string? atom.java = some (Text.units s) ↔ Java.isPortable false contents) ∧
      Literal.parse? ('[' :: Text.trim t ++ [']']) = some (.array [item]) ∧
      Java.string? item.java = some (Text.units s) := by
  obtain ⟨hrun, htext⟩ := parse?_eq_atom h
  rw [hs] at hrun
  obtain ⟨contents, ht, hspells⟩ := spellsText_of_run hrun
  have hjava : atom.java = Text.trim t := by
    rw [← htext, Atom.java, hs]
  refine ⟨contents, ⟨.string s, Json.writeString s⟩, ht, hspells, hjava, ?_, ?_, ?_⟩
  · rw [hjava, ht]
    exact Java.string?_eq_units_iff hspells
  · rw [ht]
    exact parse?_singleton hspells
  · exact Java.string?_writeString s

theorem string_initializer_iff_solidus :
    ∃ contents item, Text.trim "\"\\/\"" = '"' :: contents ++ ['"'] ∧ SpellsText contents "/" ∧
      Atom.java ⟨.string "/", "\"\\/\""⟩ = Text.trim "\"\\/\"" ∧
      (Java.string? (Atom.java ⟨.string "/", "\"\\/\""⟩) = some (Text.units "/") ↔
        Java.isPortable false contents) ∧
      Literal.parse? ('[' :: Text.trim "\"\\/\"" ++ [']']) = some (.array [item]) ∧
      Java.string? item.java = some (Text.units "/") :=
  string_initializer_iff (t := "\"\\/\"") rfl rfl

/-- An escaped solidus is no literal of Java. A unit for a backslash begins an escape there, and so stands
for something else together with the letter behind it. -/
theorem string_initializer_differs :
    (∃ atom, Literal.parse? "\"a\\/b\"" = some (.atom atom) ∧ atom.value = .string "a/b" ∧
      Java.string? atom.java = none) ∧
    ∃ atom, Literal.parse? "\"\\u005Cn\"" = some (.atom atom) ∧ atom.value = .string "\\n" ∧
      Java.string? atom.java = some (Text.units "\n") := by
  have hsolidus : SpellsText "a\\/b" "a/b" :=
    .cons (.plain (by decide) (by decide) (by decide)) (.cons (.short (by decide))
      (.cons (u := []) (.plain (by decide) (by decide) (by decide)) .nil))
  have hunit : SpellsText "\\u005Cn" "\\n" :=
    .cons (.unit (n := 0x5C) (by decide) (by decide))
      (.cons (u := []) (.plain (by decide) (by decide) (by decide)) .nil)
  have hparse := parse?_string hsolidus
  have hparse' := parse?_string hunit
  exact ⟨⟨_, hparse, rfl, by decide⟩, _, hparse', rfl, by decide⟩

end PluginForge.Callback
