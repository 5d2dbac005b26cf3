import PluginForge.Json.Fault

namespace PluginForge.Json

def isDigit (c : Char) : Bool :=
  '0' ≤ c && c ≤ '9'

def digitValue (c : Char) : Nat :=
  c.toNat - '0'.toNat

def digitsValue (digits : Text) : Nat :=
  digits.foldl (fun n c => n * 10 + digitValue c) 0

structure Numeral where
  negative : Bool
  whole : Text
  fraction : Option Text
  /-- Whether the exponent is negative, and its digits. -/
  exponent : Option (Bool × Text)

namespace Numeral

/-- The largest written exponent that is still told apart from larger ones. -/
def exponentLimit : Nat :=
  Nat.pow 2 31 - 1

/-- The significand goes on taking digits while it stays below this. -/
def significandLimit : Nat :=
  Nat.pow 2 64

/-- Takes digits into a significand while it fits 64 bits; the second number is how many of them were
left out. -/
def absorb : Nat → Text → Nat × Nat
  | n, [] => (n, 0)
  | n, c :: r =>
    let m := n * 10 + digitValue c
    if m < significandLimit then absorb m r else (n, r.length + 1)

/-- The significand and the power of ten that belongs to it before the written exponent. -/
def significand (n : Numeral) : Nat × Int :=
  let whole := absorb 0 n.whole
  let fraction := n.fraction.getD []
  let all := absorb whole.1 fraction
  (all.1, (whole.2 : Int) - (fraction.length - all.2 : Nat))

/-- The double nearest to a power of ten. -/
def powerOfTen (n : Nat) : Float :=
  Float.ofScientific 1 false n

/-- Scales a double by a power of ten in steps that a double can hold; `none` if the result is too
large for one. -/
def scale : Nat → Float → Int → Option Float
  | 0, f, _ => some f
  | fuel + 1, f, exponent =>
    if exponent.natAbs ≤ 308 then
      if exponent < 0 then some (f / powerOfTen exponent.natAbs)
      else
        let scaled := f * powerOfTen exponent.natAbs
        if scaled.isInf then none else some scaled
    else if f == 0.0 then some f
    else if exponent < 0 then scale fuel (f / powerOfTen 308) (exponent + 308)
    else none

/-- Three steps of scaling down bring every 64-bit significand to zero or to its exponent. -/
def scaleSteps : Nat := 4

/-- The double that the numeral stands for, `none` if it is too large. -/
def float? (n : Numeral) : Option Float :=
  let (significand, shift) := n.significand
  let exponent : Int :=
    match n.exponent with
    | none => 0
    | some (negative, digits) =>
      let value : Int := digitsValue digits
      if negative then -value else value
  let unsigned :=
    if exponentLimit < exponent.natAbs then
      if significand ≠ 0 ∧ 0 < exponent then none else some 0.0
    else scale scaleSteps significand.toUInt64.toFloat (shift + exponent)
  unsigned.map fun f => if n.negative then -f else f

/-- The value of a numeral: an integer if it is written without fraction and exponent and fits 64 bits,
except for a negative zero. -/
def value? (n : Numeral) : Option Number :=
  let whole := digitsValue n.whole
  if n.fraction.isSome || n.exponent.isSome then n.float?.map .float
  else if n.negative then
    if 0 < whole ∧ whole ≤ Nat.pow 2 63 then some (.int (-whole)) else n.float?.map .float
  else if whole < Nat.pow 2 64 then some (.int whole)
  else n.float?.map .float

/-- How many digits of an exponent are read before it is known to be too large. -/
def exponentDigitsRead (digits : Text) : Nat :=
  ((List.range digits.length).find? fun k =>
    exponentLimit < digitsValue (digits.take (k + 1))).elim digits.length (· + 1)

end Numeral

namespace Cursor

def readDigits (c : Cursor) : Text × Cursor :=
  (c.rest.takeWhile isDigit, c.skipWhile isDigit)

/-- Reads the digits of an exponent at least one of which must stand at the cursor. -/
def readExponentDigits (strict : Bool) (c : Cursor) : Except Error (Text × Cursor) :=
  match c.rest with
  | [] => .error ⟨if strict then .endInValue else .invalidNumber, c.position⟩
  | x :: _ => if isDigit x then .ok c.readDigits else .error ⟨.invalidNumber, c.next⟩

/-- Reads what may follow the whole part or the fraction of a number: its exponent. -/
def readExponent (strict : Bool) (c : Cursor) : Except Error (Option (Bool × Text) × Cursor) :=
  if c.peek? = some 'e' ∨ c.peek? = some 'E' then
    let c := c.advance
    let negative := c.peek? = some '-'
    let c := if negative ∨ c.peek? = some '+' then c.advance else c
    match c.readExponentDigits strict with
    | .error e => .error e
    | .ok (digits, c') => .ok (some (negative, digits), c')
  else .ok (none, c)

def readFraction (strict : Bool) (c : Cursor) : Except Error (Option Text × Cursor) :=
  if c.peek? = some '.' then
    let (digits, c) := c.advance.readDigits
    if digits.isEmpty then
      .error ⟨if strict && c.rest.isEmpty then .endInValue else .invalidNumber, c.next⟩
    else .ok (some digits, c)
  else .ok (none, c)

/-- Reads the whole part of a number, which has no zero in front of other digits. -/
def readWhole (strict : Bool) (c : Cursor) : Except Error (Text × Cursor) :=
  match c.rest with
  | [] => .error ⟨if strict then .endInValue else .invalidNumber, c.position⟩
  | '0' :: r =>
    if r.head?.any isDigit then .error ⟨.invalidNumber, c.advance.next⟩ else .ok (['0'], c.advance)
  | x :: _ => if isDigit x then .ok c.readDigits else .error ⟨.invalidNumber, c.next⟩

/-- Reads the parts of a number behind its sign. A reader that is not `strict` calls a number that the
text breaks off invalid. -/
def readNumeral (strict negative : Bool) (c : Cursor) : Except Error (Numeral × Cursor) := do
  let (whole, c) ← c.readWhole strict
  let (fraction, c) ← c.readFraction strict
  let (exponent, c) ← c.readExponent strict
  return (⟨negative, whole, fraction, exponent⟩, c)

def readNumber (c : Cursor) : Except Error (Number × Cursor) := do
  let negative := c.peek? = some '-'
  let (numeral, after) ← (if negative then c.advance else c).readNumeral true negative
  match numeral.value? with
  | some number => return (number, after)
  | none =>
    let unread :=
      match numeral.exponent with
      | none => 0
      | some (_, digits) => digits.length - Numeral.exponentDigitsRead digits
    throw ⟨.numberOutOfRange, ⟨after.position.line, after.position.column - unread⟩⟩

end Cursor

end PluginForge.Json
