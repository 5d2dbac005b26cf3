import PluginForge.Text.Utf8
import PluginForge.Yaml.Scalar

namespace PluginForge.Yaml

/-- A value without members of its own. -/
inductive Leaf where
  | text (t : Text)
  | list (items : List Text)

/-- A value of a document: a leaf, or a record of leaves. -/
inductive Node where
  | leaf (value : Leaf)
  | record (fields : List (Text × Leaf))

namespace Written

/-- Puts text in front of a piece. -/
def behind (t : Text) (w : Written) : Written :=
  ⟨t ++ w.text, w.atLineStart⟩

/-- Puts a piece on a line of its own behind another one. -/
def line (indent : Nat) (w next : Written) : Written :=
  next.behind (w.text ++ (if w.atLineStart then [] else ['\n']) ++ spaces indent)

end Written

/-- Puts pieces on lines of their own behind a piece. -/
def writeLines (indent : Nat) (start : Written) (pieces : List Written) : Written :=
  pieces.foldl (Written.line indent) start

/-- Puts pieces on lines of their own below a key, or the first of them on the line of the colon. -/
def writeBelow (indent : Nat) (onColonLine : Bool) : List Written → Written
  | [] => ⟨[], false⟩
  | first :: rest =>
    if onColonLine then writeLines indent (first.behind " ") rest
    else writeLines indent ⟨[], false⟩ (first :: rest)

/-- Keys up to this length in bytes stand in front of their colon. -/
def simpleKeyLimit : Nat :=
  128

def isSimpleKey (key : Text) : Bool :=
  Text.utf8Length key ≤ simpleKeyLimit && !key.any isBreak

/-- A key and its value, which `write` puts behind the colon. A key that is long or has several lines
gets a line for itself, and its colon the next one. -/
def writeMember {α : Type} (write : Nat → Bool → α → Written) (indent : Nat) (member : Text × α) :
    Written :=
  let key := writeScalar (indent + 2) member.1
  if isSimpleKey member.1 then (write indent false member.2).behind (key.text ++ ":")
  else (key.behind "? ").line indent ((write indent true member.2).behind ":")

/-- A leaf behind the colon of a key with the given indentation. -/
def writeLeaf (indent : Nat) (onColonLine : Bool) : Leaf → Written
  | .text t => (writeScalar (indent + 2) t).behind " "
  | .list [] => ⟨" []", false⟩
  | .list items =>
    let indent := if onColonLine then indent + 2 else indent
    writeBelow indent onColonLine
      (items.map fun item => (writeScalar (indent + 2) item).behind "- ")

/-- A value behind the colon of a key with the given indentation. -/
def writeNode (indent : Nat) (onColonLine : Bool) : Node → Written
  | .leaf value => writeLeaf indent onColonLine value
  | .record fields =>
    writeBelow (indent + 2) onColonLine (fields.map (writeMember writeLeaf (indent + 2)))

def document (members : List (Text × Node)) : Text :=
  let written := writeLines 0 ⟨[], true⟩ (members.map (writeMember writeNode 0))
  written.text ++ if written.atLineStart then [] else ['\n']

end PluginForge.Yaml
