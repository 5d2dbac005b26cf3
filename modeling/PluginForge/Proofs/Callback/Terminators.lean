import PluginForge.Callback.Handler
import PluginForge.Proofs.Callback.Lines
import PluginForge.Proofs.Java.StringLiterals

namespace PluginForge.Callback

variable {indent line text : Text} {literals : List Text} {n : Nat}

/-- A closing brace alone, or a text that ends by opening a block. -/
def BoundsBlock (text : Text) : Prop :=
  Text.trim text = ['\x7d'] ∨ Text.endsWith (Text.trim text) "\x7b"

instance (text : Text) : Decidable (BoundsBlock text) :=
  inferInstanceAs (Decidable (_ ∨ _))

def BeginsCondition (text : Text) : Prop :=
  ∃ c rest, Text.trim text = 'i' :: 'f' :: c :: rest ∧ (c = '(' ∨ Text.isBlank c)

theorem beginsCondition_iff :
    BeginsCondition text ↔
      (match Text.dropHead? "if" (Text.trim text) with
        | some (c :: _) => c == '(' || Text.isBlank c
        | _ => false) = true := by
  constructor
  · rintro ⟨c, rest, htext, hc⟩
    have hhead : Text.dropHead? "if" (Text.trim text) = some (c :: rest) := by
      rw [htext]
      rfl
    rw [hhead]
    simpa using hc
  · intro h
    split at h
    · next c rest hhead => exact ⟨c, rest, Text.eq_of_dropHead? hhead, by simpa using h⟩
    · cases h

instance (text : Text) : Decidable (BeginsCondition text) :=
  decidable_of_iff _ beginsCondition_iff.symm

theorem needsTerminator_iff :
    Statement.needsTerminator text ↔
      text.all Text.isBlank = false ∧ ';' ∉ text ∧ ¬BoundsBlock text ∧ ¬BeginsCondition text := by
  rw [Statement.needsTerminator, beginsCondition_iff, BoundsBlock, ← Text.mem_trim_iff (by decide) text,
    ← Bool.not_eq_true, ← Text.trim_eq_nil_iff]
  simp only [Bool.not_eq_true', Bool.or_eq_false_iff, List.isEmpty_eq_false_iff,
    List.contains_eq_mem, decide_eq_false_iff_not, beq_eq_false_iff_ne, not_or, ne_eq, Bool.not_eq_true]
  tauto

theorem emit_raw (hblank : text.all Text.isBlank = false) (strip : Nat) (indent : Text) :
    (Statement.raw indent text).emit strip = indent.drop strip ++ text ++
      (if ';' ∈ text ∨ BoundsBlock text ∨ BeginsCondition text then [] else [';']) := by
  have hneeds : Statement.needsTerminator text ↔
      ¬(';' ∈ text ∨ BoundsBlock text ∨ BeginsCondition text) := by
    rw [needsTerminator_iff, not_or, not_or]
    exact and_iff_right hblank
  rw [Statement.emit, if_congr hneeds rfl rfl, ite_not]

/-- A line that is taken as it is gets a semicolon if it holds none, even if the only ones stand in string
literals. So exactly the lines with one outside of them end right, and those that hold none at all and begin
no condition. -/
theorem emit_terminator (h : Statement.parse n line = .ok (.raw indent text))
    (hliterals : Java.literals? .code text = some literals) (strip : Nat) :
    let emitted := (Statement.raw indent text).emit strip
    let dedented := indent.drop strip ++ text
    let outside := Java.outside .code text
    emitted = dedented ++
        (if ';' ∈ text ∨ BoundsBlock text ∨ BeginsCondition text then [] else [';']) ∧
      (¬BoundsBlock text →
        (emitted = dedented ++ (if ';' ∈ outside then [] else [';']) ↔
          ';' ∈ outside ∨ ¬BeginsCondition text ∧ ∀ literal ∈ literals, ';' ∉ literal)) := by
  intro emitted dedented outside
  have hblank : text.all Text.isBlank = false := by
    rcases Statement.parse_cases h with ⟨-, hs⟩ | ⟨hb, hs⟩ | ⟨-, type, name, value, -, hs⟩
    · cases hs
    · cases hs
      exact all_textOf hb
    · cases hs
  have hemitted : emitted = dedented ++
      (if ';' ∈ text ∨ BoundsBlock text ∨ BeginsCondition text then [] else [';']) :=
    emit_raw hblank strip indent
  refine ⟨hemitted, fun hbounds => ?_⟩
  have hmem : ';' ∈ text ↔ ';' ∈ outside ∨ ∃ literal ∈ literals, ';' ∈ literal :=
    Java.mem_iff_outside_literals hliterals
  have hends (p q : Prop) [Decidable p] [Decidable q] :
      ((if p then [] else [';']) : Text) = (if q then [] else [';']) ↔ (p ↔ q) := by
    by_cases hp : p <;> by_cases hq : q <;> simp [hp, hq]
  have hnone : (∀ literal ∈ literals, ';' ∉ literal) ↔ ¬∃ literal ∈ literals, ';' ∈ literal := by
    simp
  rw [hemitted, List.append_right_inj, hends, hmem, hnone]
  by_cases houtside : ';' ∈ outside
  · exact iff_of_true (iff_of_true (.inl (.inl houtside)) houtside) (.inl houtside)
  · simp only [houtside, hbounds, false_or, iff_false, not_or]
    exact and_comm

theorem emit_terminator_greeting :
    Statement.parse 2 "  s.sendMessage('hi')" = .ok (.raw "  " "s.sendMessage(\"hi\")") ∧
      Java.literals? .code "s.sendMessage(\"hi\")" = some ["\"hi\"".toList] ∧
      (Statement.raw "  " "s.sendMessage(\"hi\")").emit 2 = "s.sendMessage(\"hi\");" := by
  have hparse : Statement.parse 2 "  s.sendMessage('hi')" =
      .ok (.raw "  " "s.sendMessage(\"hi\")") := by
    rfl
  have hliterals : Java.literals? .code "s.sendMessage(\"hi\")" = some ["\"hi\"".toList] := by
    decide
  exact ⟨hparse, hliterals, (emit_terminator hparse hliterals 2).1⟩

/-- A semicolon that stands in a string literal keeps a line without the one that it needs. -/
theorem emit_terminator_differs :
    Statement.parse 2 "  s.sendMessage('a;b')" = .ok (.raw "  " "s.sendMessage(\"a;b\")") ∧
      Java.literals? .code "s.sendMessage(\"a;b\")" = some ["\"a;b\"".toList] ∧
      ';' ∉ Java.outside .code "s.sendMessage(\"a;b\")" ∧
      ¬BoundsBlock "s.sendMessage(\"a;b\")" ∧ ¬BeginsCondition "s.sendMessage(\"a;b\")" ∧
      Handler.ofSource "(s, c, l, a) => \x7b\n  s.sendMessage('a;b')\n\x7d" =
        .ok ⟨⟨"s", "c", "l", "a"⟩, "s.sendMessage(\"a;b\")\nreturn true;"⟩ := by
  refine ⟨?_, ?_, ?_, ?_, ?_, ?_⟩
  · rfl
  · decide
  · decide
  · decide
  · decide
  · rfl

end PluginForge.Callback
