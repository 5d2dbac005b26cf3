import PluginForge.Text.Basic

namespace PluginForge.Java

/-- A character that may stand inside a Java identifier. The classes are those of ASCII: the generated
names do not use the rest of Unicode. -/
def isIdentifierChar (c : Char) : Bool :=
  c.isAlphanum || c == '_' || c == '$'

def isIdentifierStart (c : Char) : Bool :=
  c.isAlpha || c == '_' || c == '$'

/-- The words that Java keeps for itself. -/
def reservedWords : List Text :=
  (["abstract", "assert", "boolean", "break", "byte", "case", "catch", "char", "class", "const",
    "continue", "default", "do", "double", "else", "enum", "extends", "false", "final",
    "finally", "float", "for", "goto", "if", "implements", "import", "instanceof", "int",
    "interface", "long", "native", "new", "null", "package", "private", "protected", "public",
    "return", "short", "static", "strictfp", "super", "switch", "synchronized", "this", "throw",
    "throws", "transient", "true", "try", "void", "volatile", "while", "_"] : List String).map String.toList

/-- The name can be given to a class, a package segment or a local variable. -/
def isIdentifier : Text → Bool
  | [] => false
  | c :: r => isIdentifierStart c && r.all isIdentifierChar && !reservedWords.contains (c :: r)

/-- The name is a sequence of identifiers with dots between them. -/
def isQualifiedName (name : Text) : Bool :=
  (Text.splitOn '.' name).all isIdentifier

theorem isIdentifierChar_of_isIdentifierStart {c : Char} (h : isIdentifierStart c) :
    isIdentifierChar c := by
  simp only [isIdentifierStart, isIdentifierChar, Char.isAlphanum, Bool.or_eq_true] at h ⊢
  rcases h with (h | h) | h <;> simp [h]

theorem isIdentifier_ne_nil {name : Text} (h : isIdentifier name) : name ≠ [] := by
  rintro rfl
  simp [isIdentifier] at h

theorem all_isIdentifierChar {name : Text} (h : isIdentifier name) :
    name.all isIdentifierChar := by
  cases name with
  | nil => rfl
  | cons c r =>
    simp only [isIdentifier, Bool.and_eq_true] at h
    simp only [List.all_cons, Bool.and_eq_true]
    exact ⟨isIdentifierChar_of_isIdentifierStart h.1.1, h.1.2⟩

theorem toNat_of_isIdentifierChar {c : Char} (h : isIdentifierChar c) :
    0x20 < c.toNat ∧ c.toNat < 0x7F := by
  have hval : c.val.toNat = c.toNat := rfl
  delta isIdentifierChar Char.isAlphanum Char.isAlpha Char.isUpper Char.isLower Char.isDigit at h
  simp only [Bool.or_eq_true, Bool.and_eq_true, decide_eq_true_eq, beq_iff_eq, ge_iff_le,
    UInt32.le_iff_toNat_le, Char.reduceVal, UInt32.reduceToNat] at h
  rcases h with ((h | h) | rfl) | rfl
  · omega
  · omega
  · decide
  · decide

theorem isBlank_of_isIdentifierChar {c : Char} (h : isIdentifierChar c) : Text.isBlank c = false := by
  obtain ⟨hlow, hhigh⟩ := toNat_of_isIdentifierChar h
  rw [Bool.eq_false_iff]
  intro hblank
  simp only [Text.isBlank, Bool.or_eq_true, Bool.and_eq_true, decide_eq_true_eq, beq_iff_eq] at hblank
  omega

theorem not_mem_of_all_isIdentifierChar {c : Char} {name : Text} (hn : name.all isIdentifierChar)
    (hc : isIdentifierChar c = false) : c ∉ name := by
  intro hmem
  rw [List.all_eq_true.1 hn c hmem] at hc
  cases hc

end PluginForge.Java
