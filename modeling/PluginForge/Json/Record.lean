import PluginForge.Json.Skip

namespace PluginForge.Json

/-- A field of a record: its name, how its value is read into a record, and whether an object, or a list
of the fields in order, must hold it. -/
structure Field (ρ : Type) where
  name : Text
  read : ρ → Reader ρ
  inObject : Bool
  inList : Bool

namespace Field

variable {ρ α : Type}

/-- A field that may be left out, given how its value is put into a record. -/
def optional (name : Text) (read : Reader α) (put : ρ → α → ρ) : Field ρ where
  name := name
  read := fun record c => (read c).map fun (value, c) => (put record value, c)
  inObject := false
  inList := false

def required (name : Text) (read : Reader α) (put : ρ → α → ρ) : Field ρ :=
  { optional name read put with inObject := true, inList := true }

/-- A field that may be `null`, and may be left out of an object. -/
def nullable (name : Text) (read : Reader α) (put : ρ → Option α → ρ) : Field ρ :=
  { optional name read.option put with inList := true }

end Field

/-- The name of a record, its fields in order, and the record before anything is read into it. -/
structure Shape (ρ : Type) where
  name : Text
  initial : ρ
  fields : List (Field ρ)

namespace Shape

variable {ρ : Type}

/-- Reads the members of an object into a record up to the closing brace; unknown ones are passed
over. -/
def members (shape : Shape ρ) : Nat → Bool → List Text → ρ → Reader ρ
  | 0, _, _, _, c => Cursor.failAt .endInObject c.position
  | fuel + 1, isFirst, seen, record, c => do
    let (found, c) ← Cursor.placed (c.seekKey isFirst)
    if found then
      let (key, c) ← Cursor.placed c.readString
      match shape.fields.find? fun field => field.name == key with
      | none =>
        let c ← Cursor.placed c.skipColon
        let c ← Cursor.placed c.skipValue
        shape.members fuel false seen record c
      | some field =>
        if seen.contains key then .error (.unplaced (.duplicateField key) c)
        else
          let c ← Cursor.placed c.skipColon
          let (record, c) ← field.read record c
          shape.members fuel false (key :: seen) record c
    else
      match shape.fields.find? fun field => field.inObject && !seen.contains field.name with
      | some field => .error (.unplaced (.missingField field.name) c)
      | none => return (record, c)

/-- Reads the elements of a list into the fields of a record in order; `index` is the number of the
first of `fields`. -/
def elements (shape : Shape ρ) (index : Nat) (record : ρ) : List (Field ρ) → Reader ρ
  | [], c => .ok (record, c)
  | field :: fields, c => do
    let (found, c) ← Cursor.placed (c.seekElement (index == 0))
    if found then
      let (record, c) ← field.read record c
      shape.elements (index + 1) record fields c
    else if field.inList then
      .error (.unplaced (.wrongLength index shape.name shape.fields.length) c)
    else shape.elements (index + 1) record fields c

/-- Reads a record written as an object, or as the list of its fields in order. -/
def read (shape : Shape ρ) : Reader ρ := fun c =>
  let c := c.skipBlanks
  match c.peek? with
  | some '\x7b' => do
    let (record, c) ← place Cursor.behindObject
      (shape.members (c.rest.length + 1) true [] shape.initial c.advance)
    return (record, c.advance)
  | some '[' => do
    let (record, c) ← place Cursor.behindList
      (shape.elements 0 shape.initial shape.fields c.advance)
    let c ← Cursor.placed c.closeList
    return (record, c)
  | _ => .error (.placed (c.mismatch (.record shape.name)))

end Shape

end PluginForge.Json
