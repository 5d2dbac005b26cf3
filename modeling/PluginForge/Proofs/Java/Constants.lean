import PluginForge.Java.Types
import PluginForge.Proofs.Text.Units

namespace PluginForge.Java

open Text (charUnits hexUnit?)

/-- The code units of a source text, in which a backslash, `u` and four hexadecimal digits stand for a
unit. A backslash behind an odd number of others does not begin one; `marked` tells whether the text
stands behind the backslash and `u` of one. -/
def translate : (marked : Bool) → Text → Option (List Nat)
  | false, [] => some []
  | false, '\\' :: 'u' :: t => translate true t
  | false, '\\' :: '\\' :: t => (translate false t).map ([0x5C, 0x5C] ++ ·)
  | false, c :: t => (translate false t).map (charUnits c ++ ·)
  | true, 'u' :: t => translate true t
  | true, a :: b :: c :: d :: t =>
    match hexUnit? a b c d with
    | none => none
    | some unit => (translate false t).map (unit :: ·)
  | true, _ => none

/-- Where a reader is between the quotes of a string literal. -/
inductive Scan where
  | text
  | escape
  /-- Behind digits of an octal escape, to which so many more may belong. -/
  | octal (value more : Nat)
  | closed
  deriving DecidableEq

namespace Scan

def escapes : List (Char × Nat) :=
  [('b', 0x08), ('s', 0x20), ('t', 0x09), ('n', 0x0A), ('f', 0x0C), ('r', 0x0D), ('"', 0x22),
    ('\'', 0x27), ('\\', 0x5C)]

def escape? (unit : Nat) : Option Nat :=
  (escapes.find? fun e => e.1.toNat == unit).map Prod.snd

def octalDigit? (unit : Nat) : Option Nat :=
  if 0x30 ≤ unit ∧ unit < 0x38 then some (unit - 0x30) else none

/-- What a unit outside of escapes adds to the string, and where it leaves the reader. -/
def stepText (unit : Nat) : Option (List Nat × Scan) :=
  if unit = 0x22 then some ([], closed)
  else if unit = 0x5C then some ([], escape)
  else if unit = 0x0A ∨ unit = 0x0D then none
  else some ([unit], text)

def stepEscape (unit : Nat) : Option (List Nat × Scan) :=
  match escape? unit with
  | some value => some ([value], text)
  | none => (octalDigit? unit).map fun digit => ([], octal digit (if digit < 4 then 2 else 1))

def stepOctal (value more unit : Nat) : Option (List Nat × Scan) :=
  match octalDigit? unit, more with
  | some digit, more + 1 => some ([], octal (8 * value + digit) more)
  | _, _ => (stepText unit).map fun (out, scan) => (value :: out, scan)

def step : Scan → Nat → Option (List Nat × Scan)
  | text, unit => stepText unit
  | escape, unit => stepEscape unit
  | octal value more, unit => stepOctal value more unit
  | closed, _ => none

def run : Scan → List Nat → Option (List Nat × Scan)
  | scan, [] => some ([], scan)
  | scan, unit :: units => do
    let (out, scan) ← scan.step unit
    let (rest, scan) ← run scan units
    return (out ++ rest, scan)

end Scan

/-- The code units of the string that a text denotes as one string literal. -/
def string? (t : Text) : Option (List Nat) :=
  match translate false t with
  | some (0x22 :: units) =>
    match Scan.text.run units with
    | some (value, .closed) => some value
    | _ => none
  | _ => none

/-- The least magnitude that no positive value of a type has: of the long integers or the others. -/
def magnitudeLimit (long : Bool) : Nat :=
  if long then 9223372036854775808 else 2147483648

/-- Decimal digits that are not taken as octal ones. -/
def isDecimal (digits : Text) : Bool :=
  !digits.isEmpty && digits.all Char.isDigit && (digits.head? != some '0' || digits == ['0'])

/-- The type and the value of a decimal literal that may stand behind a minus. The largest magnitude of
its type needs the minus. -/
def decimal? (negative : Bool) (t : Text) : Option (Scalar × Int) :=
  let long := t.getLast? == some 'L' || t.getLast? == some 'l'
  let digits := if long then t.dropLast else t
  let magnitude := Nat.ofDigitChars 10 digits 0
  if isDecimal digits ∧ (magnitude < magnitudeLimit long ∨ negative ∧ magnitude = magnitudeLimit long) then
    some (if long then .long else .int, if negative then -magnitude else magnitude)
  else none

def integer? : Text → Option (Scalar × Int)
  | '-' :: t => decimal? true t
  | t => decimal? false t

/-- The value of a literal; that of an integer literal has a type. -/
inductive Constant where
  | string (units : List Nat)
  | boolean (value : Bool)
  | integer (type : Scalar) (value : Int)
  deriving DecidableEq

/-- What a text denotes as one literal. -/
def constant? (t : Text) : Option Constant :=
  if t = "true" then some (.boolean true)
  else if t = "false" then some (.boolean false)
  else
    match string? t with
    | some units => some (.string units)
    | none => (integer? t).map fun (type, value) => .integer type value

/-- A variable of a type can be given the value. -/
def Constant.fits : Constant → Scalar → Bool
  | .string _, type => type = .string
  | .boolean _, type => type = .boolean
  | .integer .long _, type => type = .long ∨ type = .double
  | .integer _ _, type => type = .int ∨ type = .long ∨ type = .double

example : constant? "\"a\\u0041\\\\u0041\\1012\"" = some (.string (Text.units "aA\\u0041A2")) := by
  decide

end PluginForge.Java
