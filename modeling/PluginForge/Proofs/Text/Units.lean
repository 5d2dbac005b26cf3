import PluginForge.Text.Basic

namespace PluginForge.Text

def charUnits (c : Char) : List Nat :=
  if c.toNat < 0x10000 then [c.toNat]
  else [0xD800 + (c.toNat - 0x10000) / 0x400, 0xDC00 + (c.toNat - 0x10000) % 0x400]

def units (t : Text) : List Nat :=
  t.flatMap charUnits

def hexDigit? (c : Char) : Option Nat :=
  (List.range 16).find? fun n => n.digitChar == c.toLower

def hexUnit? (a b c d : Char) : Option Nat := do
  return ((← hexDigit? a) * 0x1000 + (← hexDigit? b) * 0x100 + (← hexDigit? c) * 0x10 + (← hexDigit? d))

variable {a b c d : Char} {n : Nat}

theorem units_cons (c : Char) (t : Text) : units (c :: t) = charUnits c ++ units t :=
  List.flatMap_cons ..

theorem charUnits_of_lt (h : c.toNat < 0x10000) : charUnits c = [c.toNat] :=
  if_pos h

theorem length_charUnits_pos (c : Char) : 0 < (charUnits c).length := by
  rw [charUnits]
  split <;> exact Nat.succ_pos _

theorem toNat_ne_surrogate (c : Char) : c.toNat < 0xD800 ∨ 0xDFFF < c.toNat ∧ c.toNat < 0x110000 :=
  c.valid

theorem toNat_ofNat (h : n < 0xD800 ∨ 0xDFFF < n ∧ n < 0x110000) : (Char.ofNat n).toNat = n := by
  rw [Char.ofNat, dif_pos h]
  rfl

theorem lt_of_hexUnit? (h : hexUnit? a b c d = some n) : n < 0x10000 := by
  have hdigit {x : Char} {n : Nat} (h : hexDigit? x = some n) : n < 16 :=
    List.mem_range.1 (List.mem_of_find?_eq_some h)
  simp only [hexUnit?, Option.bind_eq_bind, Option.bind_eq_some_iff, Option.pure_def,
    Option.some.injEq] at h
  obtain ⟨i, hi, j, hj, k, hk, l, hl, rfl⟩ := h
  have := hdigit hi
  have := hdigit hj
  have := hdigit hk
  have := hdigit hl
  omega

end PluginForge.Text
