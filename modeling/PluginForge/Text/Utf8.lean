import PluginForge.Text.Basic

namespace PluginForge.Text

def toUtf8 (t : Text) : ByteArray :=
  (String.ofList t).toUTF8

/-- The text whose bytes these are, if they are UTF-8. -/
def ofUtf8? (bytes : ByteArray) : Option Text :=
  (String.fromUTF8? bytes).map String.toList

theorem ofUtf8?_toUtf8 (t : Text) : ofUtf8? (toUtf8 t) = some t := by
  have hs : String.fromUTF8? (String.ofList t).toUTF8 = some (String.ofList t) :=
    dif_pos (String.ofList t).isValidUTF8
  rw [ofUtf8?, toUtf8, hs, Option.map_some, String.toList_ofList]

def utf8Length : Text → Nat
  | [] => 0
  | c :: r => c.utf8Size + utf8Length r

/-- A byte that continues a character, within the bounds that the byte before it leaves. -/
def continues (low high : Nat) (b : UInt8) : Bool :=
  low ≤ b.toNat && b.toNat ≤ high

/-- The bounds of the second byte after a given first byte, and the number of bytes that follow the
second; `none` for a byte that starts no character of several bytes. -/
def leadBounds? (b : UInt8) : Option (Nat × Nat × Nat) :=
  let n := b.toNat
  if 0xC2 ≤ n ∧ n ≤ 0xDF then some (0x80, 0xBF, 0)
  else if n = 0xE0 then some (0xA0, 0xBF, 1)
  else if n = 0xED then some (0x80, 0x9F, 1)
  else if 0xE1 ≤ n ∧ n ≤ 0xEF then some (0x80, 0xBF, 1)
  else if n = 0xF0 then some (0x90, 0xBF, 2)
  else if 0xF1 ≤ n ∧ n ≤ 0xF3 then some (0x80, 0xBF, 2)
  else if n = 0xF4 then some (0x80, 0x8F, 2)
  else none

/-- What is known of a character of several bytes while it is read: its bits so far, the bounds of its
next byte, and how many bytes follow that one. -/
structure Pending where
  bits : Nat
  low : Nat
  high : Nat
  more : Nat

/-- Reads bytes as UTF-8, with one replacement character for every longest piece that begins a
character and does not end it, and for every other byte that has no place. -/
def ofUtf8LossyFrom : Option Pending → List UInt8 → Text
  | none, [] => []
  | some _, [] => ['\uFFFD']
  | none, b :: r => start b r
  | some p, b :: r =>
    if continues p.low p.high b then
      let bits := p.bits * 64 + b.toNat % 64
      match p.more with
      | 0 => Char.ofNat bits :: ofUtf8LossyFrom none r
      | more + 1 => ofUtf8LossyFrom (some ⟨bits, 0x80, 0xBF, more⟩) r
    else '\uFFFD' :: start b r
where
  start (b : UInt8) (r : List UInt8) : Text :=
    if b.toNat < 0x80 then Char.ofNat b.toNat :: ofUtf8LossyFrom none r
    else
      match leadBounds? b with
      | none => '\uFFFD' :: ofUtf8LossyFrom none r
      | some (low, high, more) =>
        let width := if more = 0 then 0x20 else if more = 1 then 0x10 else 0x08
        ofUtf8LossyFrom (some ⟨b.toNat % width, low, high, more⟩) r

/-- The text of bytes that need not be UTF-8. -/
def ofUtf8Lossy (bytes : ByteArray) : Text :=
  ofUtf8LossyFrom none bytes.toList

end PluginForge.Text
