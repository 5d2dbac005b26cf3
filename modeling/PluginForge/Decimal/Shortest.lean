import PluginForge.Text.Basic

namespace PluginForge.Decimal

/-- The number `digits · 10 ^ exponent`. -/
structure Scaled where
  digits : Nat
  exponent : Int
  deriving DecidableEq, Repr

/-- The finite positive double `mantissa · 2 ^ exponent` of the normal form, and whether the gap to the
next smaller double is half the gap to the next larger one. -/
structure Binary where
  mantissa : Nat
  exponent : Int
  narrowBelow : Bool
  deriving DecidableEq, Repr

/-- The number that the bits of a finite double without its sign stand for. -/
def Binary.ofBits (bits : UInt64) : Binary :=
  let fraction : Nat := bits.toNat % Nat.pow 2 52
  let biased : Nat := bits.toNat / Nat.pow 2 52 % Nat.pow 2 11
  if biased = 0 then ⟨fraction, -1074, false⟩
  else ⟨Nat.pow 2 52 + fraction, (biased : Int) - 1075, fraction == 0 && biased > 1⟩

/-- `base` to the power of an exponent, as a numerator and a denominator. -/
def power (base : Nat) (exponent : Int) : Nat × Nat :=
  match exponent with
  | .ofNat n => (base.pow n, 1)
  | .negSucc n => (1, base.pow (n + 1))

/-- The point of the grid of multiples of `10 ^ step` that reads back as the double, if the two
neighbours of the double on that grid hold one: the nearer of two, and the even one of two that are
equally near. -/
def Binary.onGrid? (b : Binary) (step : Int) : Option Nat :=
  let binary := power 2 b.exponent
  let decimal := power 10 step
  let unit := binary.1 * decimal.2
  let grid := 4 * (binary.2 * decimal.1)
  let value := 4 * b.mantissa * unit
  let low := (4 * b.mantissa - if b.narrowBelow then 1 else 2) * unit
  let high := (4 * b.mantissa + 2) * unit
  let closed := b.mantissa % 2 == 0
  let readsBack (k : Nat) : Bool :=
    if closed then low ≤ k * grid && k * grid ≤ high else low < k * grid && k * grid < high
  let below := value / grid
  let above := below + 1
  let toBelow := value - below * grid
  let toAbove := above * grid - value
  match readsBack below && below != 0, readsBack above with
  | true, true =>
    if toBelow < toAbove then some below
    else if toAbove < toBelow then some above
    else if below % 2 = 0 then some below else some above
  | true, false => some below
  | false, true => some above
  | false, false => none

def digitCount (n : Nat) : Nat :=
  if n = 0 then 0 else (Text.ofNat n).length

/-- The integer `e` with `10 ^ e` at most the double and `10 ^ (e + 1)` above it. -/
def Binary.magnitude (b : Binary) : Int :=
  let binary := power 2 b.exponent
  let numerator := b.mantissa * binary.1
  if binary.2 ≤ numerator then (digitCount (numerator / binary.2) : Int) - 1
  else -(digitCount ((binary.2 - 1) / numerator) : Int)

/-- Tries grids of more and more digits, up to seventeen, which always suffice. -/
def Binary.shortestFrom (b : Binary) (magnitude : Int) : Nat → Nat → Scaled
  | 0, _ => ⟨0, 0⟩
  | fuel + 1, digits =>
    let step := magnitude - digits + 1
    match b.onGrid? step with
    | some k => ⟨k, step⟩
    | none => b.shortestFrom magnitude fuel (digits + 1)

/-- The decimal with the fewest digits that reads back as the double, and of those the nearest. -/
def Binary.shortest (b : Binary) : Scaled :=
  b.shortestFrom b.magnitude 17 1

/-- Where plain notation gives way to scientific notation: the scientific exponents that are written
plainly lie from `low` up to, but not including, `high`. -/
structure Layout where
  low : Int
  high : Int
  deriving DecidableEq, Repr

/-- The digits of a number as a text of at least one digit, with the exponent of the first of them;
zeros at the end are left out. -/
def Scaled.scientific (d : Scaled) : Text × Int :=
  let all := Text.ofNat d.digits
  let significant := Text.dropEndWhile (· == '0') all
  (if significant.isEmpty then "0" else significant, d.exponent + (all.length : Int) - 1)

/-- Writes a number with a point and at least one digit on either side of it, or with an exponent that
always has its sign. -/
def Layout.write (n : Layout) (d : Scaled) : Text :=
  let (digits, exponent) := d.scientific
  if n.low ≤ exponent ∧ exponent < n.high then
    if exponent < 0 then
      "0." ++ List.replicate (-exponent - 1).toNat '0' ++ digits
    else
      let whole := exponent.toNat + 1
      if digits.length ≤ whole then digits ++ List.replicate (whole - digits.length) '0' ++ ".0"
      else digits.take whole ++ "." ++ digits.drop whole
  else
    let fraction := if digits.length = 1 then [] else '.' :: digits.drop 1
    let sign : Text := if exponent < 0 then "-" else "+"
    digits.take 1 ++ fraction ++ "e" ++ sign ++ Text.ofNat exponent.natAbs

end PluginForge.Decimal
