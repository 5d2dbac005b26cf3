import PluginForge.Json.Fault

namespace PluginForge.Json

def hexDigit (n : Nat) : Char :=
  Nat.digitChar n

/-- The spelling of a character in a string: only quotes, backslashes and controls are escaped. -/
def writeChar (c : Char) : Text :=
  if c = '"' then "\\\""
  else if c = '\\' then "\\\\"
  else if c.toNat = 0x08 then "\\b"
  else if c = '\t' then "\\t"
  else if c = '\n' then "\\n"
  else if c.toNat = 0x0C then "\\f"
  else if c = '\r' then "\\r"
  else if c.toNat < 0x20 then ['\\', 'u', '0', '0', hexDigit (c.toNat / 16), hexDigit (c.toNat % 16)]
  else [c]

def writeString (t : Text) : Text :=
  '"' :: t.flatMap writeChar ++ ['"']

def simpleEscape? : Char → Option Char
  | '"' => some '"'
  | '\\' => some '\\'
  | '/' => some '/'
  | 'b' => some '\x08'
  | 'f' => some '\x0c'
  | 'n' => some '\n'
  | 'r' => some '\r'
  | 't' => some '\t'
  | _ => none

def hexValue? (c : Char) : Option Nat :=
  if '0' ≤ c ∧ c ≤ '9' then some (c.toNat - '0'.toNat)
  else if 'a' ≤ c ∧ c ≤ 'f' then some (c.toNat - 'a'.toNat + 10)
  else if 'A' ≤ c ∧ c ≤ 'F' then some (c.toNat - 'A'.toNat + 10)
  else none

def unit? (a b c d : Char) : Option Nat := do
  return (((← hexValue? a) * 16 + (← hexValue? b)) * 16 + (← hexValue? c)) * 16 + (← hexValue? d)

def isLeading (unit : Nat) : Bool :=
  0xD800 ≤ unit && unit ≤ 0xDBFF

def isTrailing (unit : Nat) : Bool :=
  0xDC00 ≤ unit && unit ≤ 0xDFFF

def pairChar (leading trailing : Nat) : Char :=
  Char.ofNat ((leading - 0xD800) * 0x400 + (trailing - 0xDC00) + 0x10000)

/-- The fault of an escape whose four digits should stand at `p`: too little text, or no digits. -/
def hexError (p : Position) (t : Text) : Error :=
  match p.afterBytes? 4 t with
  | some p => ⟨.invalidEscape, p⟩
  | none => ⟨.endInString, p.afterAll t⟩

/-- The fault of a text in which something else than a second escape follows a leading surrogate. -/
def pairError (p : Position) : Text → Error
  | [] => ⟨.endInString, p⟩
  | c :: _ => ⟨.unpairedEscape, p.afterByte c⟩

/-- Puts a character in front of the string that is read behind it. -/
def consChar (c : Char) : Except Error (Text × Cursor) → Except Error (Text × Cursor)
  | .error e => .error e
  | .ok (t, cursor) => .ok (c :: t, cursor)

/-- Reads a string behind its opening quote, up to and with its closing quote. -/
def readStringFrom (p : Position) : Text → Except Error (Text × Cursor)
  | [] => .error ⟨.endInString, p⟩
  | '"' :: r => .ok ([], ⟨p.after '"', r⟩)
  | '\\' :: [] => .error ⟨.endInString, p.after '\\'⟩
  | '\\' :: 'u' :: r =>
    let p := (p.after '\\').after 'u'
    match r with
    | a :: b :: c :: d :: r =>
      match unit? a b c d with
      | none => .error (hexError p (a :: b :: c :: d :: r))
      | some unit =>
        let p := p.afterAll [a, b, c, d]
        if isTrailing unit then .error ⟨.loneSurrogate, p⟩
        else if isLeading unit then
          match r with
          | '\\' :: 'u' :: r =>
            let p := (p.after '\\').after 'u'
            match r with
            | a :: b :: c :: d :: r =>
              match unit? a b c d with
              | none => .error (hexError p (a :: b :: c :: d :: r))
              | some second =>
                let p := p.afterAll [a, b, c, d]
                if isTrailing second then consChar (pairChar unit second) (readStringFrom p r)
                else .error ⟨.loneSurrogate, p⟩
            | r => .error (hexError p r)
          | '\\' :: r => .error (pairError (p.after '\\') r)
          | r => .error (pairError p r)
        else consChar (Char.ofNat unit) (readStringFrom p r)
    | r => .error (hexError p r)
  | '\\' :: e :: r =>
    let p := (p.after '\\').afterByte e
    match simpleEscape? e with
    | some c => consChar c (readStringFrom p r)
    | none => .error ⟨.invalidEscape, p⟩
  | c :: r =>
    if c.toNat < 0x20 then .error ⟨.controlCharacter, p.after c⟩
    else consChar c (readStringFrom (p.after c) r)

/-- Passes over a string behind its opening quote. Any four hexadecimal digits make an escape here. -/
def skipStringFrom (p : Position) : Text → Except Error Cursor
  | [] => .error ⟨.endInString, p⟩
  | '"' :: r => .ok ⟨p.after '"', r⟩
  | '\\' :: [] => .error ⟨.endInString, p.after '\\'⟩
  | '\\' :: 'u' :: r =>
    let p := (p.after '\\').after 'u'
    match r with
    | a :: b :: c :: d :: r =>
      match unit? a b c d with
      | none => .error (hexError p (a :: b :: c :: d :: r))
      | some _ => skipStringFrom (p.afterAll [a, b, c, d]) r
    | r => .error (hexError p r)
  | '\\' :: e :: r =>
    let p := (p.after '\\').afterByte e
    match simpleEscape? e with
    | some _ => skipStringFrom p r
    | none => .error ⟨.invalidEscape, p⟩
  | c :: r =>
    if c.toNat < 0x20 then .error ⟨.controlCharacter, p⟩ else skipStringFrom (p.after c) r

def Cursor.readString (c : Cursor) : Except Error (Text × Cursor) :=
  readStringFrom c.advance.position c.advance.rest

def Cursor.skipString (c : Cursor) : Except Error Cursor :=
  skipStringFrom c.advance.position c.advance.rest

end PluginForge.Json
