import Mathlib.Data.List.Forall2
import PluginForge.Callback.Literal
import PluginForge.Proofs.Json.Parts
import PluginForge.Proofs.Json.Quotes
import PluginForge.Proofs.Text.Trimming

namespace PluginForge.Callback

open Json (Cursor EndsNumber IsGap Numeral Padded Position ReadsAs SpellsText integerText integerValue)

variable {p : Position} {n : Nat} {negative : Bool} {contents r s t : Text} {parts : List Text}
  {value : Scalar} {values : List Scalar} {x : Char}

/-- What JSON calls a string, a boolean or an integer of 64 bits, without the blanks around it. There is
no integer that is written as a negative zero. -/
inductive SpellsScalar : Scalar → Text → Prop where
  | string {s t : Text} (h : SpellsText t s) : SpellsScalar (.string s) ('"' :: t ++ ['"'])
  | true : SpellsScalar (.boolean true) "true"
  | false : SpellsScalar (.boolean false) "false"
  | integer {negative : Bool} {n : Nat} (hzero : negative → n ≠ 0)
      (hmin : -9223372036854775808 ≤ integerValue negative n)
      (hmax : integerValue negative n < 9223372036854775808) :
      SpellsScalar (.integer (integerValue negative n)) (integerText negative n)

theorem skipBlanks_cons (hx : Cursor.isBlank x = false) (p : Position) (r : Text) :
    Cursor.skipBlanks ⟨p, x :: r⟩ = ⟨p, x :: r⟩ := by
  rw [Cursor.skipBlanks, Cursor.skipWhile, List.takeWhile_cons, List.dropWhile_cons, hx]
  rfl

theorem isBlank_of_gap (h : Cursor.isBlank x) : Text.isBlank x := by
  simp only [Cursor.isBlank, Bool.or_eq_true, beq_iff_eq] at h
  rcases h with ((rfl | rfl) | rfl) | rfl <;> decide

theorem isBlank_eq_false (h : Text.isBlank x = false) : Cursor.isBlank x = false := by
  rw [Bool.eq_false_iff] at h ⊢
  exact mt isBlank_of_gap h

theorem isBlank_of_isIntegerChar (h : Json.isIntegerChar x) : Text.isBlank x = false := by
  rw [Json.isIntegerChar, Bool.or_eq_true, beq_iff_eq] at h
  rcases h with h | rfl
  · rw [Json.isDigit, Bool.and_eq_true, decide_eq_true_eq, decide_eq_true_eq] at h
    have hlow : 48 ≤ x.toNat := Char.le_def.1 h.1
    have hhigh : x.toNat ≤ 57 := Char.le_def.1 h.2
    simp only [Text.isBlank, Bool.or_eq_false_iff, Bool.and_eq_false_iff, decide_eq_false_iff_not,
      beq_eq_false_iff_ne]
    omega
  · rfl

theorem readScalar_string (h : SpellsText t s) (p : Position) (r : Text) :
    ∃ q, Literal.readScalar ⟨p, '"' :: t ++ ['"'] ++ r⟩ = .ok (.string s, ⟨q, r⟩) := by
  obtain ⟨q, hq⟩ := Json.readStringFrom_spellsText h (p.after '"') r
  refine ⟨q, ?_⟩
  rw [List.cons_append, List.cons_append, List.append_assoc]
  change (Cursor.placed (Json.readStringFrom (p.after '"') (t ++ '"' :: r))).map _ = _
  rw [hq]
  rfl

def Scalar.ofNumber : Json.Number → Scalar
  | .int value => .integer value
  | .float value => .float value

theorem readScalar_integerText (p : Position) (negative : Bool) (n : Nat) (h : EndsNumber r) :
    ∃ q, Literal.readScalar ⟨p, integerText negative n ++ r⟩ =
      match (Json.Numeral.mk negative (Text.ofNat n) none none).value? with
      | some number => .ok (.ofNumber number, ⟨q, r⟩)
      | none => .error (.placed ⟨.numberOutOfRange, q⟩) := by
  obtain ⟨q, hq⟩ := Json.readNumber_integerText p negative n h
  obtain ⟨x, t, ht, hx⟩ := Json.exists_integerText negative n
  refine ⟨q, ?_⟩
  have hquote := Json.ne_of_isIntegerChar (x := '"') hx rfl
  have htrue := Json.ne_of_isIntegerChar (x := 't') hx rfl
  have hfalse := Json.ne_of_isIntegerChar (x := 'f') hx rfl
  have hblank := isBlank_eq_false (isBlank_of_isIntegerChar hx)
  have hnumber : (Json.isDigit x || x == '-') = true := hx
  rw [ht, List.cons_append] at hq ⊢
  rw [Literal.readScalar, skipBlanks_cons hblank]
  simp only [Cursor.peek?, List.head?_cons]
  rw [if_pos hnumber, hq]
  cases (Json.Numeral.mk negative (Text.ofNat n) none none).value? with
  | none => rfl
  | some number => cases number <;> rfl

theorem SpellsScalar.readsAs (h : SpellsScalar value t) : ReadsAs Literal.readScalar t value := by
  cases h with
  | string h => exact ⟨_, _, rfl, rfl, by decide, fun p r _ => readScalar_string h p r⟩
  | true => exact ⟨_, _, rfl, rfl, by decide, fun p r _ => ⟨_, rfl⟩⟩
  | false => exact ⟨_, _, rfl, rfl, by decide, fun p r _ => ⟨_, rfl⟩⟩
  | @integer negative n hzero hmin hmax =>
    obtain ⟨x, t, ht, hx⟩ := Json.exists_integerText negative n
    have hblank := isBlank_eq_false (isBlank_of_isIntegerChar hx)
    refine ⟨x, t, ht, hblank, Json.ne_of_isIntegerChar hx rfl, fun p r hr => ?_⟩
    obtain ⟨q, hq⟩ := readScalar_integerText p negative n hr
    have hrange : (negative → n ≠ 0) ∧ -9223372036854775808 ≤ integerValue negative n ∧
        integerValue negative n < 18446744073709551616 := ⟨hzero, hmin, by omega⟩
    rw [Json.value?_ofNat, if_pos hrange] at hq
    exact ⟨q, hq⟩

def SpellsParts (parts : List Text) (values : List Scalar) : Prop :=
  List.Forall₂ (fun part value => ∃ spelling, Padded spelling part ∧ SpellsScalar value spelling) parts
    values

theorem parse?_list (h : SpellsParts parts values)
    (ht : Text.trim t = '[' :: Text.join "," parts ++ [']']) :
    Literal.parse? t = some (.array (values.map fun value => ⟨value, value.write⟩)) := by
  have hparts : Json.ReadsParts Literal.readScalar parts values := by
    apply h.imp
    rintro part value ⟨spelling, hpadded, hspells⟩
    exact ⟨spelling, hpadded, hspells.readsAs⟩
  have hhead : (Text.trim t).head? = some '[' := by
    rw [ht]
    rfl
  have hrun := Json.run_list_join hparts
  rw [← ht] at hrun
  simp only [Literal.parse?, if_pos hhead, hrun]

theorem parse?_singleton (h : SpellsText contents s) :
    Literal.parse? ('[' :: ('"' :: contents ++ ['"']) ++ [']']) =
      some (.array [⟨.string s, Json.writeString s⟩]) := by
  have hparts : SpellsParts ['"' :: contents ++ ['"']] [.string s] :=
    .cons ⟨_, .refl _, .string h⟩ .nil
  apply parse?_list hparts
  rw [Text.join, List.intercalate_singleton]
  exact Text.trim_between rfl rfl _

theorem isBlank_of_isGap {b : Text} (hb : IsGap b) : b.all Text.isBlank :=
  List.all_eq_true.2 fun c hc => isBlank_of_gap (hb c hc)

theorem skipBlanks_split (c : Cursor) : ∃ b, c.rest = b ++ c.skipBlanks.rest ∧ IsGap b :=
  ⟨_, List.takeWhile_append_dropWhile.symm, fun _ hx => List.mem_takeWhile_imp hx⟩

theorem rest_eq_cons {c : Cursor} {x : Char} (h : c.peek? = some x) : c.rest = x :: c.advance.rest := by
  obtain ⟨position, rest⟩ := c
  cases rest with
  | nil => cases h
  | cons y rest =>
    cases h
    rfl

/-- What is read as a string goes on with the string between quotes. -/
theorem spellsText_of_readScalar {c c' : Cursor}
    (h : Literal.readScalar c = .ok (.string s, c')) :
    ∃ contents, c.skipBlanks.rest = '"' :: contents ++ '"' :: c'.rest ∧ SpellsText contents s := by
  have hword {rest : Text} {b : Bool} :
      (Cursor.placed (c.skipBlanks.advance.skipWord rest)).map (fun c => (Scalar.boolean b, c)) ≠
        .ok (.string s, c') := by
    intro h
    obtain ⟨_, -, he⟩ := Json.except_map_eq_ok h
    cases he
  rw [Literal.readScalar] at h
  simp only at h
  split at h
  · next hpeek =>
    obtain ⟨⟨value, behind⟩, hread, he⟩ := Json.except_map_eq_ok h
    cases he
    obtain ⟨contents, hrest, hspells⟩ := Json.spellsText_of_readStringFrom (Json.placed_eq_ok hread)
    exact ⟨contents, by rw [rest_eq_cons hpeek, hrest]; rfl, hspells⟩
  · exact absurd h hword
  · exact absurd h hword
  · split at h
    · obtain ⟨⟨number, behind⟩, -, he⟩ := Json.except_map_eq_ok h
      cases number <;> cases he
    · cases h
  · cases h

theorem spellsText_of_run (h : Literal.readScalar.run (Text.trim t) = .ok (.string s)) :
    ∃ contents, Text.trim t = '"' :: contents ++ ['"'] ∧ SpellsText contents s := by
  obtain ⟨c, hread, hend⟩ := Json.Reader.run_eq_ok h
  obtain ⟨contents, hrest, hspells⟩ := spellsText_of_readScalar hread
  obtain ⟨front, hfront, hgap⟩ := skipBlanks_split (.ofText (Text.trim t))
  obtain ⟨back, hback, hgap'⟩ := skipBlanks_split c
  refine ⟨contents, ?_, hspells⟩
  have hbetween : Text.trim t = front ++ ('"' :: contents ++ ['"']) ++ back := by
    rw [hend, List.append_nil] at hback
    change Text.trim t = _ at hfront
    rw [hfront, hrest, hback]
    simp only [List.cons_append, List.append_assoc, List.nil_append]
  exact Text.trim_eq_of_blanks hbetween (isBlank_of_isGap hgap) (isBlank_of_isGap hgap')

theorem parse?_eq_atom {atom : Atom} (h : Literal.parse? t = some (.atom atom)) :
    Literal.readScalar.run (Text.trim t) = .ok atom.value ∧ atom.text = Text.trim t := by
  simp only [Literal.parse?] at h
  split at h
  · split at h <;> cases h
  · split at h
    · next hrun =>
      cases h
      exact ⟨hrun, rfl⟩
    · cases h

theorem parse?_string (h : SpellsText contents s) :
    Literal.parse? ('"' :: contents ++ ['"']) =
      some (.atom ⟨.string s, '"' :: contents ++ ['"']⟩) := by
  have htrim := Text.trim_between (x := '"') (y := '"') rfl rfl contents
  obtain ⟨q, hread⟩ := readScalar_string h .start []
  rw [List.append_nil] at hread
  have hrun : Literal.readScalar.run ('"' :: contents ++ ['"']) = .ok (.string s) := by
    rw [Json.Reader.run, Cursor.ofText, hread]
    rfl
  rw [Literal.parse?]
  simp only [htrim, hrun]
  rfl

theorem trim_integerText (negative : Bool) (n : Nat) :
    Text.trim (integerText negative n) = integerText negative n := by
  apply Text.trim_eq_self
  · exact fun c hc => isBlank_of_isIntegerChar (Json.isIntegerChar_of_mem (List.mem_of_mem_head? hc))
  · exact fun c hc => isBlank_of_isIntegerChar (Json.isIntegerChar_of_mem (List.mem_of_getLast? hc))

theorem parse?_integerText (negative : Bool) (n : Nat) :
    Literal.parse? (integerText negative n) =
      (Numeral.mk negative (Text.ofNat n) none none).value?.map fun number =>
        .atom ⟨.ofNumber number, integerText negative n⟩ := by
  have hend : Json.EndsNumber [] := nofun
  obtain ⟨q, hread⟩ := readScalar_integerText .start negative n hend
  have hhead : (integerText negative n).head? ≠ some '[' := fun h =>
    Json.not_mem_integerText (c := '[') rfl (List.mem_of_mem_head? h)
  rw [List.append_nil] at hread
  simp only [Literal.parse?, trim_integerText, if_neg hhead]
  rw [Json.Reader.run, Json.Cursor.ofText, hread]
  cases (Numeral.mk negative (Text.ofNat n) none none).value? with
  | none => rfl
  | some number => rfl

end PluginForge.Callback
