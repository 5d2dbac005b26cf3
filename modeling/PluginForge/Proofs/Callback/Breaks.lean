import PluginForge.Callback.Handler
import PluginForge.Proofs.Json.Numerals

namespace PluginForge

variable {a b t : Text}

theorem newline_not_mem_append (ha : '\n' ∉ a) (hb : '\n' ∉ b) : '\n' ∉ a ++ b := by
  rw [List.mem_append, not_or]
  exact ⟨ha, hb⟩

theorem newline_not_mem_join {separator : Text} {parts : List Text} (hs : '\n' ∉ separator)
    (h : ∀ part ∈ parts, '\n' ∉ part) : '\n' ∉ Text.join separator parts := by
  intro hm
  rcases Text.mem_of_mem_join hm with hm | ⟨part, hpart, hm⟩
  · exact hs hm
  · exact h part hpart hm

namespace Json

theorem newline_not_mem_writeChar (c : Char) : '\n' ∉ writeChar c := by
  have hdigit (n : Nat) : '\n' ≠ hexDigit n := Ne.symm (Nat.digitChar_ne '\n' (by decide))
  simp only [writeChar]
  repeat' split
  all_goals try decide
  · simp [hdigit]
  · next h _ _ _ =>
    rw [List.mem_singleton]
    exact Ne.symm h

theorem newline_not_mem_writeString (t : Text) : '\n' ∉ writeString t := by
  refine newline_not_mem_append (a := '"' :: t.flatMap writeChar) ?_ (by decide)
  rw [List.mem_cons, not_or]
  refine ⟨by decide, fun h => ?_⟩
  obtain ⟨c, -, hc⟩ := List.mem_flatMap.1 h
  exact newline_not_mem_writeChar c hc

end Json

namespace Callback

theorem newline_not_mem_scalar (s : Scalar) : '\n' ∉ s.write := by
  cases s with
  | string value => exact Json.newline_not_mem_writeString value
  | boolean value => cases value <;> decide
  | integer value => exact Text.not_mem_of_all (Json.all_isNumeral_writeInt value) (by decide)
  | float value => exact Text.not_mem_of_all (Json.all_isNumeral_writeFloat value) (by decide)

theorem newline_not_mem_type (type : Java.Scalar) : '\n' ∉ type.name := by
  cases type <;> decide

theorem newline_not_mem_ty (ty : Java.Ty) : '\n' ∉ ty.name := by
  cases ty with
  | scalar element => exact newline_not_mem_type element
  | array element => exact newline_not_mem_append (newline_not_mem_type element) (by decide)

theorem newline_not_mem_newArray (element : Java.Scalar) (h : '\n' ∉ t) :
    '\n' ∉ Java.newArray element t :=
  newline_not_mem_append (newline_not_mem_append (newline_not_mem_append
    (newline_not_mem_append (by decide) (newline_not_mem_type element)) (by decide)) h) (by decide)

theorem newline_not_mem_atom {a : Atom} (h : '\n' ∉ a.text) : '\n' ∉ a.java := by
  rw [Atom.java]
  split
  · split
    · exact h
    · exact newline_not_mem_append h (by decide)
  · exact h

theorem newline_not_mem_literal {l : Literal} (h : Literal.parse? t = some l) (ht : '\n' ∉ t)
    (ty : Java.Ty) : '\n' ∉ l.java ty := by
  rw [Literal.parse?] at h
  split at h
  · split at h
    · next values _ =>
      cases h
      refine newline_not_mem_newArray _ (newline_not_mem_join (by decide) fun part hpart => ?_)
      obtain ⟨atom, hatom, rfl⟩ := List.mem_map.1 hpart
      obtain ⟨value, -, rfl⟩ := List.mem_map.1 hatom
      exact newline_not_mem_atom (newline_not_mem_scalar value)
    · cases h
  · split at h
    · cases h
      exact newline_not_mem_atom fun hm => ht (Text.trim_subset t hm)
    · cases h

end Callback

end PluginForge
