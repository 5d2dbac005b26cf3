import PluginForge.Proofs.Text.Basic
import PluginForge.Text.Utf8

namespace PluginForge.Text

variable {a b old r t : Text} {c : Char} {n : Nat}

/-- The parts of a text in front of its first `n` bytes' end and behind it. There are none if the place lies
within a character or behind the end of the text. -/
def splitBytes? : (n : Nat) → Text → Option (Text × Text)
  | 0, t => some ([], t)
  | _ + 1, [] => none
  | n + 1, c :: r =>
    if c.utf8Size ≤ n + 1 then
      (splitBytes? (n + 1 - c.utf8Size) r).map fun parts => (c :: parts.1, parts.2)
    else none

def slice? (first last : Nat) (t : Text) : Option Text :=
  (splitBytes? last t).bind fun parts => (splitBytes? first parts.1).map Prod.snd

theorem utf8Length_append (a b : Text) : utf8Length (a ++ b) = utf8Length a + utf8Length b := by
  induction a with
  | nil => exact (Nat.zero_add _).symm
  | cons c a ih => rw [List.cons_append, utf8Length, utf8Length, ih, Nat.add_assoc]

theorem splitBytes?_cons (c : Char) (n : Nat) (r : Text) :
    splitBytes? (c.utf8Size + n) (c :: r) =
      (splitBytes? n r).map fun parts => (c :: parts.1, parts.2) := by
  obtain ⟨k, hk⟩ := Nat.exists_eq_add_one.2 (Nat.add_pos_left c.utf8Size_pos n)
  rw [hk, splitBytes?, ← hk, if_pos (Nat.le_add_right _ n), Nat.add_sub_cancel_left]

theorem splitBytes?_append (a b : Text) : splitBytes? (utf8Length a) (a ++ b) = some (a, b) := by
  induction a with
  | nil => rw [utf8Length, List.nil_append, splitBytes?]
  | cons c a ih => rw [utf8Length, List.cons_append, splitBytes?_cons, ih, Option.map_some]

theorem slice?_append (a b r : Text) :
    slice? (utf8Length a) (utf8Length (a ++ b)) (a ++ b ++ r) = some b := by
  rw [slice?, splitBytes?_append, Option.bind_some, splitBytes?_append]
  rfl

/-- The rest of a search for the places at which a piece begins, with the place that it has come to. After an
occurrence it goes on behind it, so `skip` characters are passed over. -/
def startsFrom (old : Text) : (skip place : Nat) → Text → List Nat
  | _, _, [] => []
  | skip + 1, place, c :: r => startsFrom old skip (place + c.utf8Size) r
  | 0, place, c :: r =>
    if old.isPrefixOf (c :: r) then
      place :: startsFrom old (old.length - 1) (place + c.utf8Size) r
    else startsFrom old 0 (place + c.utf8Size) r

/-- The places at which a piece begins in a text, from left to right, none within an earlier occurrence. -/
def starts (old t : Text) : List Nat :=
  startsFrom old 0 0 t

theorem startsFrom_skip (old a t : Text) (place : Nat) :
    startsFrom old a.length place (a ++ t) = startsFrom old 0 (place + utf8Length a) t := by
  induction a generalizing place with
  | nil => rfl
  | cons c a ih =>
    rw [List.length_cons, List.cons_append, startsFrom, ih, utf8Length, Nat.add_assoc]

theorem startsFrom_match (hold : old ≠ []) (t : Text) (place : Nat) :
    startsFrom old 0 place (old ++ t) = place :: startsFrom old 0 (place + utf8Length old) t := by
  obtain ⟨c, rest, rfl⟩ := List.exists_cons_of_ne_nil hold
  have hprefix : (c :: rest).isPrefixOf (c :: (rest ++ t)) :=
    List.isPrefixOf_iff_prefix.2 (List.prefix_append (c :: rest) t)
  rw [List.cons_append, startsFrom, if_pos hprefix, List.length_cons, Nat.add_sub_cancel,
    startsFrom_skip, utf8Length, Nat.add_assoc]

theorem startsFrom_miss (h : ¬old <+: c :: t) (place : Nat) :
    startsFrom old 0 place (c :: t) = startsFrom old 0 (place + c.utf8Size) t := by
  rw [startsFrom, if_neg (mt List.isPrefixOf_iff_prefix.1 h)]

end PluginForge.Text
