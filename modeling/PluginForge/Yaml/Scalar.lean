import PluginForge.Yaml.Resolution

namespace PluginForge.Yaml

def isBreak (c : Char) : Bool :=
  c == '\r' || c == '\n' || c == '\x85' || c == '\u2028' || c == '\u2029'

/-- A character that need not be escaped. -/
def isPrintable (c : Char) : Bool :=
  let n := c.toNat
  c == '\n' || (0x20 ≤ n && n ≤ 0x7E) ||
    (0xA0 ≤ n && n != 0xFEFF && n != 0xFFFE && n != 0xFFFF)

/-- Nothing, a break or a blank: what may come next to an indicator. -/
def separates (c : Option Char) : Bool :=
  c.all fun c => c == ' ' || c == '\t' || c == '\x00' || isBreak c

/-- The characters that mean something else at the beginning of a plain scalar. -/
def indicators : Text :=
  "#,[]\x7b\x7d&*!|>'\"%@`"

/-- Behind a given character, the text holds a colon before a separator, or a hash behind one. -/
def holdsIndicator (before : Char) : Text → Bool
  | [] => false
  | c :: r =>
    (c == ':' && separates r.head?) || (c == '#' && separates (some before)) || holdsIndicator c r

/-- A plain scalar with this text would be taken for the beginning of something else. -/
def beginsIndicator : Text → Bool
  | [] => false
  | c :: r =>
    indicators.contains c || ((c == '?' || c == ':' || c == '-') && separates r.head?)

def isMarker (t : Text) : Bool :=
  "---".toList.isPrefixOf t || "...".toList.isPrefixOf t

/-- The text holds `first` right before `second`. -/
def holdsPair (first second : Char → Bool) : Text → Bool
  | a :: b :: r => (first a && second b) || holdsPair first second (b :: r)
  | _ => false

def isSpace (c : Char) : Bool :=
  c == ' '

/-- The text can only be written with escapes. -/
def needsEscapes (t : Text) : Bool :=
  t.any (fun c => !isPrintable c) || holdsPair isSpace isBreak t

/-- The text keeps its meaning without quotes on one line. -/
def allowsPlain (t : Text) : Bool :=
  let outer (c : Option Char) : Bool := c.any fun c => isSpace c || isBreak c
  !(needsEscapes t || t.any isBreak || outer t.head? || outer t.getLast? || isMarker t ||
    beginsIndicator t || t.head?.any fun c => holdsIndicator c t.tail)

/-- The text keeps its meaning between single quotes. -/
def allowsSingle (t : Text) : Bool :=
  !(needsEscapes t || holdsPair isBreak isSpace t)

/-- The text keeps its meaning as a block of lines. -/
def allowsLiteral (t : Text) : Bool :=
  !(needsEscapes t || t.isEmpty || t.getLast?.any isSpace)

inductive Style where
  | plain
  | single
  | double
  | literal
  deriving DecidableEq, Repr

/-- The style of a text: lines go into a block, a text that would not be read as a string into quotes,
and every other text stays plain, as far as that style allows it. -/
def style (t : Text) : Style :=
  if t.contains '\n' then
    if allowsLiteral t then .literal else .double
  else if !isAmbiguous t && allowsPlain t then .plain
  else if allowsSingle t then .single
  else .double

def spaces (n : Nat) : Text :=
  List.replicate n ' '

/-- The content of a scalar whose lines are put behind an indentation; whether the next character begins
a line is given. -/
def indentLines (indent : Nat) (spell : Char → Text) : (atStart : Bool) → Text → Text
  | _, [] => []
  | atStart, c :: r =>
    if isBreak c then c :: indentLines indent spell true r
    else (if atStart then spaces indent else []) ++ spell c ++ indentLines indent spell false r

/-- A quote inside single quotes is written twice. -/
def singleChar (c : Char) : Text :=
  if c = '\'' then "''" else [c]

def hex (width n : Nat) : Text :=
  let digits := (Nat.toDigits 16 n).map Char.toUpper
  List.replicate (width - digits.length) '0' ++ digits

def shortEscapes : List (Nat × Char) :=
  [(0x00, '0'), (0x07, 'a'), (0x08, 'b'), (0x09, 't'), (0x0A, 'n'), (0x0B, 'v'), (0x0C, 'f'),
   (0x0D, 'r'), (0x1B, 'e'), (0x22, '"'), (0x5C, '\\'), (0x85, 'N'), (0xA0, '_'), (0x2028, 'L'),
   (0x2029, 'P')]

/-- A character inside double quotes: escaped if it is a quote, a backslash, a break or not printable. -/
def doubleChar (c : Char) : Text :=
  if !isPrintable c || isBreak c || c == '"' || c == '\\' then
    let n := c.toNat
    match shortEscapes.find? fun entry => entry.1 == n with
    | some (_, letter) => ['\\', letter]
    | none =>
      if n ≤ 0xFF then "\\x" ++ hex 2 n
      else if n ≤ 0xFFFF then "\\u" ++ hex 4 n
      else "\\U" ++ hex 8 n
  else [c]

/-- What follows the bar of a block: the indentation if the block does not show it, and whether the
breaks at its end are dropped or kept. -/
def literalHints (t : Text) : Text :=
  let indent : Text := if t.head?.any fun c => isSpace c || isBreak c then ['2'] else []
  let chomp : Text :=
    match t.reverse with
    | [] => []
    | last :: before =>
      if !isBreak last then ['-']
      else if before.head?.all isBreak then ['+'] else []
  indent ++ chomp

/-- A piece of a document, and whether the next line can begin right behind it. -/
structure Written where
  text : Text
  atLineStart : Bool

/-- A scalar whose further lines have the given indentation. -/
def writeScalar (indent : Nat) (t : Text) : Written :=
  match style t with
  | .plain => ⟨t, false⟩
  | .single =>
    let tail := if t.getLast?.any isBreak then spaces indent else []
    ⟨"'" ++ indentLines indent singleChar false t ++ tail ++ "'", false⟩
  | .double => ⟨"\"" ++ t.flatMap doubleChar ++ "\"", false⟩
  | .literal =>
    ⟨"|" ++ literalHints t ++ "\n" ++ indentLines indent (fun c => [c]) true t,
      t.getLast?.any isBreak⟩

end PluginForge.Yaml
