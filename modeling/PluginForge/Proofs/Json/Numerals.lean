import PluginForge.Json.Number.Reader
import PluginForge.Proofs.Text.Basic

namespace PluginForge.Json

def isNumeral (c : Char) : Bool :=
  isDigit c || ['-', '+', '.', 'e'].contains c

theorem all_isNumeral_ofNat (n : Nat) : (Text.ofNat n).all isNumeral := by
  rw [List.all_eq_true]
  intro c hc
  have hdigit : isDigit c := Nat.isDigit_of_mem_toDigits (b := 10) (by decide) (by decide) hc
  rw [isNumeral, hdigit, Bool.true_or]

theorem all_isNumeral_writeInt (n : Int) : (Number.writeInt n).all isNumeral := by
  cases n with
  | ofNat n => exact all_isNumeral_ofNat n
  | negSucc n => exact all_isNumeral_ofNat (n + 1)

theorem all_isNumeral_scientific (d : Decimal.Scaled) : d.scientific.1.all isNumeral := by
  have hdigits := List.all_eq_true.1 (all_isNumeral_ofNat d.digits)
  simp only [Decimal.Scaled.scientific]
  split
  · rfl
  · exact List.all_eq_true.2 fun c hc => hdigits c (Text.dropEndWhile_subset _ _ hc)

theorem all_isNumeral_layout (l : Decimal.Layout) (d : Decimal.Scaled) : (l.write d).all isNumeral := by
  have hd := all_isNumeral_scientific d
  have htake (n : Nat) : (d.scientific.1.take n).all isNumeral :=
    List.all_eq_true.2 fun c hc => List.all_eq_true.1 hd c (List.mem_of_mem_take hc)
  have hdrop (n : Nat) : (d.scientific.1.drop n).all isNumeral :=
    List.all_eq_true.2 fun c hc => List.all_eq_true.1 hd c (List.mem_of_mem_drop hc)
  have hzeros (n : Nat) : (List.replicate n '0').all isNumeral :=
    List.all_eq_true.2 fun c hc => by rw [List.eq_of_mem_replicate hc]; rfl
  have hfraction : (if d.scientific.1.length = 1 then [] else '.' :: d.scientific.1.drop 1).all
      isNumeral := by
    split
    · rfl
    · rw [List.all_cons, hdrop]
      rfl
  have hsign : (if d.scientific.2 < 0 then "-".toList else "+".toList).all isNumeral := by
    split <;> rfl
  simp only [Decimal.Layout.write]
  split
  · split
    · simp only [List.all_append, hzeros, hd, Bool.and_true]
      rfl
    · split
      · simp only [List.all_append, hzeros, hd, Bool.true_and]
        rfl
      · simp only [List.all_append, htake, hdrop, Bool.true_and, Bool.and_true]
        rfl
  · simp only [List.all_append, htake, hfraction, hsign, all_isNumeral_ofNat, Bool.true_and,
      Bool.and_true]
    rfl

theorem all_isNumeral_writeFloat (value : Float) : (Number.writeFloat value).all isNumeral := by
  rw [Number.writeFloat, List.all_append, all_isNumeral_layout, Bool.and_true]
  split <;> rfl

end PluginForge.Json
