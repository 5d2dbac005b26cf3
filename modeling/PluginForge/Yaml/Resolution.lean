import PluginForge.Text.Basic

namespace PluginForge.Yaml

/-- The words that stand for null, a truth value or a special number, besides the empty text. -/
def specialWords : List Text :=
  ([ "", "null", "Null", "NULL", "~", "true", "True", "TRUE", "false", "False", "FALSE",
    ".inf", ".Inf", ".INF", "+.inf", "+.Inf", "+.INF", "-.inf", "-.Inf", "-.INF",
    ".nan", ".NaN", ".NAN" ] : List String).map String.toList

def isDigit (c : Char) : Bool :=
  '0' ≤ c && c ≤ '9'

def digit? (base : Nat) (c : Char) : Option Nat :=
  let value :=
    if isDigit c then c.toNat - '0'.toNat
    else if 'a' ≤ c ∧ c ≤ 'f' then c.toNat - 'a'.toNat + 10
    else if 'A' ≤ c ∧ c ≤ 'F' then c.toNat - 'A'.toNat + 10
    else base
  if value < base then some value else none

/-- The number of a text of digits, at least one. -/
def digits? (base : Nat) (t : Text) : Option Nat :=
  if t.isEmpty then none
  else t.foldlM (fun n c => (digit? base c).map fun d => n * base + d) 0

/-- The number of a text that begins with the mark of its base. -/
def based? (t : Text) : Option Nat :=
  match t with
  | '0' :: 'x' :: r => digits? 16 r
  | '0' :: 'o' :: r => digits? 8 r
  | '0' :: 'b' :: r => digits? 2 r
  | _ => none

def isSign (c : Char) : Bool :=
  c == '+' || c == '-'

def dropSign (t : Text) : Text :=
  if t.head?.any isSign then t.tail else t

/-- The whole digits, the fraction digits and the exponent of a decimal number without a sign. -/
def decimal? (t : Text) : Option (Text × Text × Int) := do
  let whole := t.takeWhile isDigit
  let rest := t.dropWhile isDigit
  let behindPoint := if rest.head? = some '.' then rest.tail else rest
  let fraction := if rest.head? = some '.' then behindPoint.takeWhile isDigit else []
  let rest := if rest.head? = some '.' then behindPoint.dropWhile isDigit else rest
  guard (!(whole.isEmpty && fraction.isEmpty))
  match rest with
  | [] => return (whole, fraction, 0)
  | e :: rest =>
    guard (e == 'e' || e == 'E')
    let exponent : Int ← (digits? 10 (dropSign rest)).map Int.ofNat
    return (whole, fraction, if rest.head? = some '-' then -exponent else exponent)

/-- The least number that is too large for a double: half a step above the largest double. -/
def overflow : Nat :=
  Nat.pow 2 1024 - Nat.pow 2 970

/-- The decimal number is below the overflow of doubles. -/
def isFinite (whole fraction : Text) (exponent : Int) : Bool :=
  let digits := (whole ++ fraction).dropWhile (· == '0')
  let shift := exponent - (fraction.length : Int)
  let size := (digits.length : Int) + shift
  if digits.isEmpty || size < 300 then true
  else if 320 < size then false
  else
    let value := (digits? 10 digits).getD 0
    match shift with
    | .ofNat n => value * Nat.pow 10 n < overflow
    | .negSucc n => value < overflow * Nat.pow 10 (n + 1)

/-- Written plainly, the text would be read as something else than a string, or is a number with zeros in
front, which readers do not agree on. -/
def isAmbiguous (t : Text) : Bool :=
  let unsigned := dropSign t
  let plusFree := if t.head? = some '+' then unsigned else t
  specialWords.contains t ||
    (1 < unsigned.length && unsigned.head? == some '0' && unsigned.all isDigit) ||
    !(t.head? == some '+' && unsigned.head?.any isSign) &&
      ((based? plusFree).any (· < Nat.pow 2 128) ||
        (t.head? == some '-' && (based? unsigned).any (· ≤ Nat.pow 2 127)) ||
        (decimal? (dropSign plusFree)).any fun (whole, fraction, exponent) =>
          isFinite whole fraction exponent)

end PluginForge.Yaml
