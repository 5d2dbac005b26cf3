import Mathlib.Tactic.SplitIfs
import PluginForge.KeyOrder
import PluginForge.Text.Utf8

namespace PluginForge.Text

def utf8 (t : Text) : List UInt8 :=
  (toUtf8 t).data.toList

theorem utf8_eq (t : Text) : utf8 t = t.flatMap String.utf8EncodeChar := by
  rw [utf8, toUtf8, String.toUTF8_eq_toByteArray, String.toByteArray_ofList, List.utf8Encode,
    List.toList_data_toByteArray]

theorem utf8_cons (c : Char) (t : Text) : utf8 (c :: t) = String.utf8EncodeChar c ++ utf8 t := by
  rw [utf8_eq, utf8_eq, List.flatMap_cons]

theorem ofNat_lt_ofNat {m n : Nat} (hm : m < 256) (hn : n < 256) :
    UInt8.ofNat m < UInt8.ofNat n ↔ m < n := by
  rw [UInt8.lt_iff_toNat_lt, UInt8.toNat_ofNat_of_lt' hm, UInt8.toNat_ofNat_of_lt' hn]

theorem ofNat_eq_ofNat {m n : Nat} (hm : m < 256) (hn : n < 256) :
    UInt8.ofNat m = UInt8.ofNat n ↔ m = n := by
  rw [← UInt8.toNat_inj, UInt8.toNat_ofNat_of_lt' hm, UInt8.toNat_ofNat_of_lt' hn]

theorem utf8EncodeChar_lt {c d : Char} (h : c.toNat < d.toNat) (r s : List UInt8) :
    String.utf8EncodeChar c ++ r < String.utf8EncodeChar d ++ s := by
  have hd : d.val.toNat < 0x110000 := by
    rcases d.valid with hd | ⟨-, hd⟩
    · exact Nat.lt_trans hd (by decide)
    · exact hd
  change c.val.toNat < d.val.toNat at h
  have h4096 (k : Nat) : k / 4096 = k / 64 / 64 := (Nat.div_div_eq_div_mul k 64 64).symm
  have h262144 (k : Nat) : k / 262144 = k / 64 / 64 / 64 := by
    rw [Nat.div_div_eq_div_mul, Nat.div_div_eq_div_mul]
  simp only [String.utf8EncodeChar, h4096, h262144]
  generalize c.val.toNat = m at *
  generalize d.val.toNat = n at *
  split_ifs <;>
    simp (disch := omega) only [List.cons_append, List.nil_append, List.cons_lt_cons_iff,
      ofNat_lt_ofNat, ofNat_eq_ofNat] <;>
    omega

theorem utf8_lt_of_before {a b : Text} (h : KeyOrder.before a b) : utf8 a < utf8 b := by
  induction a generalizing b with
  | nil =>
    cases b with
    | nil => exact absurd h (KeyOrder.irrefl [])
    | cons d b =>
      have hne : utf8 (d :: b) ≠ [] := by
        rw [utf8_cons]
        exact List.append_ne_nil_of_left_ne_nil String.utf8EncodeChar_ne_nil _
      obtain ⟨byte, bytes, hbytes⟩ := List.exists_cons_of_ne_nil hne
      rw [hbytes]
      exact List.nil_lt_cons _ _
  | cons c a ih =>
    cases b with
    | nil => cases h
    | cons d b =>
      rw [utf8_cons, utf8_cons]
      replace h : KeyOrder.beforeWord (c :: a) (d :: b) := h
      rw [KeyOrder.beforeWord_cons] at h
      split at h
      · next he =>
        subst he
        exact List.append_left_lt (ih h)
      · exact utf8EncodeChar_lt (of_decide_eq_true h) _ _

/-- Names come in the order of their bytes. -/
theorem before_iff_utf8_lt (a b : Text) : KeyOrder.before a b ↔ utf8 a < utf8 b := by
  refine ⟨utf8_lt_of_before, fun h => ?_⟩
  by_cases he : a = b
  · rw [he] at h
    exact absurd h (List.lt_irrefl _)
  · refine Decidable.of_not_not fun hnot => ?_
    exact List.lt_asymm h (utf8_lt_of_before (KeyOrder.total he hnot))

end PluginForge.Text
