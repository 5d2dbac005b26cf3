import PluginForge.Json.Reader

namespace PluginForge.Json

inductive Bracket where
  | list
  | object
  deriving DecidableEq

def Bracket.closing : Bracket → Char
  | .list => ']'
  | .object => '\x7d'

namespace Cursor

def skipScalar (c : Cursor) : Except Error Cursor :=
  match c.peek? with
  | some 'n' => c.advance.skipWord "ull"
  | some 't' => c.advance.skipWord "rue"
  | some 'f' => c.advance.skipWord "alse"
  | some '"' => c.skipString
  | some '-' => (c.advance.readNumeral false true).map Prod.snd
  | some x =>
    if isDigit x then (c.readNumeral false false).map Prod.snd else .error ⟨.expectedValue, c.next⟩
  | none => .error ⟨.endInValue, c.next⟩

/-- Passes over the key and the colon in front of a member's value. -/
def skipKey (c : Cursor) : Except Error Cursor := do
  let c := c.skipBlanks
  match c.peek? with
  | some '"' => (← c.skipString).skipColon
  | some _ => throw ⟨.expectedKey, c.next⟩
  | none => throw ⟨.endInObject, c.next⟩

mutual

/-- Passes over a value, and over what is left of the brackets that enclose it, innermost first. -/
def skipValueIn : Nat → List Bracket → Cursor → Except Error Cursor
  | 0, _, c => .error ⟨.endInValue, c.position⟩
  | fuel + 1, enclosing, c =>
    let c := c.skipBlanks
    match c.peek? with
    | some '[' => skipMore fuel false (.list :: enclosing) c.advance
    | some '\x7b' => skipMore fuel false (.object :: enclosing) c.advance
    | _ =>
      match c.skipScalar with
      | .error e => .error e
      | .ok c => skipMore fuel true enclosing c

/-- Passes over what is left of the enclosing brackets; whether a comma may come next is given. -/
def skipMore : Nat → Bool → List Bracket → Cursor → Except Error Cursor
  | _, _, [], c => .ok c
  | 0, _, _ :: _, c => .error ⟨.endInValue, c.position⟩
  | fuel + 1, afterValue, bracket :: enclosing, c =>
    let c := c.skipBlanks
    let element (c : Cursor) : Except Error Cursor :=
      match bracket with
      | .list => skipValueIn fuel (bracket :: enclosing) c
      | .object =>
        match c.skipKey with
        | .error e => .error e
        | .ok c => skipValueIn fuel (bracket :: enclosing) c
    match c.peek? with
    | none => .error ⟨match bracket with | .list => .endInList | .object => .endInObject, c.next⟩
    | some x =>
      if afterValue && x == ',' then element c.advance
      else if x = bracket.closing then skipMore fuel true enclosing c.advance
      else if afterValue then
        .error ⟨match bracket with
          | .list => .expectedCommaOrBracket
          | .object => .expectedCommaOrBrace, c.next⟩
      else element c

end

def skipValue (c : Cursor) : Except Error Cursor :=
  skipValueIn (2 * c.rest.length + 2) [] c

end Cursor

end PluginForge.Json
