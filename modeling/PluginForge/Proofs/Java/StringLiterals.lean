import PluginForge.Java.Identifier
import PluginForge.Java.StringLiteral
import PluginForge.Proofs.Java.JsonStrings
import PluginForge.Proofs.Text.Basic

namespace PluginForge.Java

open Text (charUnits units)

variable {c : Char} {literal r t w : Text} {literals : List Text}

/-- The character ends a line of a source, so that no literal goes past it. -/
def endsLine (c : Char) : Bool :=
  c == '\n' || c == '\r'

/-- An escaped character is read as it was, unless it stops the reader. -/
theorem run_escapeChar (c : Char) :
    ∃ us, Translates (escapeChar c) us ∧ ∀ vs, Scan.text.run (us ++ vs) =
      if endsLine c then none else (Scan.text.run vs).map fun r => (charUnits c ++ r.1, r.2) := by
  rw [escapeChar]
  by_cases hmark : c = '\\' ∨ c = '"'
  · have hshort : (c, c) ∈ Json.shortEscapes := by
      rcases hmark with rfl | rfl <;> decide
    have hinside : c ≠ '/' ∧ endsLine c = false := by
      rcases hmark with rfl | rfl <;> decide
    rw [if_pos hmark]
    refine ⟨_, .of_mem_shortEscapes hshort, fun vs => ?_⟩
    rw [hinside.2, if_neg Bool.false_ne_true]
    exact Scan.run_short hshort hinside.1 vs
  · rw [not_or] at hmark
    rw [if_neg (not_or.2 hmark)]
    refine ⟨_, .plain hmark.1, fun vs => ?_⟩
    by_cases hend : endsLine c
    · rw [if_pos hend]
      simp only [endsLine, Bool.or_eq_true, beq_iff_eq] at hend
      rcases hend with rfl | rfl <;> rfl
    · rw [if_neg hend]
      apply Scan.run_text
      simp only [endsLine, Bool.or_eq_true, beq_iff_eq, not_or] at hend
      intro n
      apply not_mem_of_charUnits
      simp [hmark, hend]

theorem run_escape (t : Text) :
    ∃ us, Translates (escape t) us ∧ ∀ vs, Scan.text.run (us ++ vs) =
      if t.any endsLine then none else (Scan.text.run vs).map fun r => (units t ++ r.1, r.2) := by
  induction t with
  | nil =>
    refine ⟨[], .nil, fun vs => ?_⟩
    cases h : Scan.text.run vs <;> simp [h, units]
  | cons c t ih =>
    obtain ⟨us, hc, hrun⟩ := run_escapeChar c
    obtain ⟨us', ht, hrun'⟩ := ih
    refine ⟨us ++ us', hc.append ht, fun vs => ?_⟩
    rw [List.append_assoc, hrun, hrun', List.any_cons, Text.units_cons]
    cases endsLine c with
    | true => rfl
    | false =>
      rw [Bool.false_or, if_neg Bool.false_ne_true]
      split
      · rfl
      · rw [Option.map_map]
        congr 1
        funext r
        simp only [Function.comp_apply, List.append_assoc]

theorem string?_escape (t : Text) :
    string? ('"' :: escape t ++ ['"']) = if t.any endsLine then none else some (units t) := by
  obtain ⟨us, ht, hrun⟩ := run_escape t
  have hquote : Scan.text.run [0x22] = some ([], .closed) := rfl
  rw [string?_eq ht, hrun, hquote]
  by_cases hend : t.any endsLine
  · rw [if_pos hend, if_pos hend]
  · rw [if_neg hend, if_neg hend, Option.map_some, List.append_nil]

/-- To escape a text is to double its backslashes first and then to put one before each quote. -/
theorem escape_eq_replaceAll (t : Text) :
    escape t = Text.replaceAll ['"'] ['\\', '"'] (Text.replaceAll ['\\'] ['\\', '\\'] t) := by
  have hchar : escapeChar = fun c => (if c = '\\' then ['\\', '\\'] else [c]).flatMap fun c =>
      if c = '"' then ['\\', '"'] else [c] := by
    funext c
    rw [escapeChar]
    by_cases hbackslash : c = '\\'
    · rw [hbackslash]
      rfl
    · by_cases hquote : c = '"'
      · rw [hquote]
        rfl
      · simp [hbackslash, hquote]
  rw [Text.replaceAll_singleton, Text.replaceAll_singleton, List.flatMap_assoc, escape, hchar]

/-- Where a reader of a source is. It takes the characters one by one, those of escapes as they stand. -/
inductive Part where
  | code
  /-- Behind a slash, which may begin a comment. -/
  | slash
  | lineComment
  | comment
  /-- Behind a star, which may end a comment. -/
  | star
  | character
  | characterEscape
  | opened
  /-- Behind two quotes: an empty literal, unless a third one begins a text block. -/
  | reopened
  | string
  | stringEscape
  | block
  | blockEscape
  | blockQuote
  | blockQuotes
  deriving DecidableEq

namespace Part

def stepCode (c : Char) : Part :=
  if c = '"' then opened else if c = '\'' then character else if c = '/' then slash else code

/-- A step within quotes that have to be closed on the same line. -/
def stepQuoted (quote : Char) (closed escape inside : Part) (c : Char) : Option Part :=
  if endsLine c then none
  else if c = quote then some closed
  else if c = '\\' then some escape
  else some inside

def stepBlock (quoted : Part) (c : Char) : Part :=
  if c = '"' then quoted else if c = '\\' then blockEscape else block

def step : Part → Char → Option Part
  | code, c => some (stepCode c)
  | slash, c => some (if c = '/' then lineComment else if c = '*' then comment else stepCode c)
  | lineComment, c => some (if endsLine c then code else lineComment)
  | comment, c => some (if c = '*' then star else comment)
  | star, c => some (if c = '/' then code else if c = '*' then star else comment)
  | character, c => stepQuoted '\'' code characterEscape character c
  | characterEscape, c => if endsLine c then none else some character
  | opened, c => stepQuoted '"' reopened stringEscape string c
  | reopened, c => some (if c = '"' then block else stepCode c)
  | string, c => stepQuoted '"' code stringEscape string c
  | stringEscape, c => if endsLine c then none else some string
  | block, c => some (stepBlock blockQuote c)
  | blockEscape, _ => some block
  | blockQuote, c => some (stepBlock blockQuotes c)
  | blockQuotes, c => some (stepBlock code c)

def isLiteral : Part → Bool
  | opened | reopened | string | stringEscape | block | blockEscape | blockQuote | blockQuotes => true
  | _ => false

/-- What is left of the literals where a source ends; it must not end within one. -/
def atEnd? : Part → Option (List Text)
  | code | slash | lineComment => some []
  | reopened => some [[]]
  | _ => none

/-- The literals from a part on, given that a text leads to the next part and those from there on. The
first of them is the rest of a literal that was begun before. -/
def attach (part next : Part) (t : Text) (literals : List Text) : List Text :=
  if next.isLiteral then literals.modifyHead (t ++ ·)
  else if part = reopened then [] :: literals
  else if part.isLiteral then t :: literals
  else literals

/-- Where an identifier leads. -/
def behindWord : Part → Part
  | slash | reopened => code
  | star => comment
  | characterEscape => character
  | opened | stringEscape => string
  | blockEscape | blockQuote | blockQuotes => block
  | part => part

end Part

/-- The string literals of a source from a part on, with their quotes. -/
def literals? : Part → Text → Option (List Text)
  | part, [] => part.atEnd?
  | part, c :: t =>
    (part.step c).bind fun next => (literals? next t).map (part.attach next [c])

variable {next part : Part}

theorem literals?_of_step (h : part.step c = some next) (t : Text) :
    literals? part (c :: t) = (literals? next t).map (part.attach next [c]) := by
  rw [literals?, h, Option.bind_some]

theorem exists_of_isLiteral (hpart : part.isLiteral) (h : literals? part t = some literals) :
    ∃ rest others, literals = rest :: others ∧ rest <+: t := by
  induction t generalizing part literals with
  | nil =>
    cases part with
    | code | slash | lineComment | comment | star | character | characterEscape => cases hpart
    | reopened =>
      cases h
      exact ⟨[], [], rfl, List.prefix_rfl⟩
    | _ => cases h
  | cons c t ih =>
    rw [literals?, Option.bind_eq_some_iff] at h
    obtain ⟨next, -, h⟩ := h
    obtain ⟨later, hlater, rfl⟩ := Option.map_eq_some_iff.1 h
    rw [Part.attach, if_pos hpart]
    split
    · next hnext =>
      obtain ⟨rest, others, rfl, hrest⟩ := ih hnext hlater
      exact ⟨c :: rest, others, rfl, List.cons_prefix_cons.2 ⟨rfl, hrest⟩⟩
    · split
      · exact ⟨[], later, rfl, List.nil_prefix⟩
      · exact ⟨[c], later, rfl, List.cons_prefix_cons.2 ⟨rfl, List.nil_prefix⟩⟩

/-- The character that leads from a part to the next one belongs to a literal. -/
def Part.takes (part next : Part) : Bool :=
  next.isLiteral || (part.isLiteral && part != .reopened)

/-- The characters of a source that belong to none of its string literals. -/
def outside : Part → Text → Text
  | _, [] => []
  | part, c :: t =>
    match part.step c with
    | none => []
    | some next => if part.takes next then outside next t else c :: outside next t

theorem flatten_attach (h : literals? next t = some literals) (c : Char) :
    (part.attach next [c] literals).flatten =
      (if part.takes next then [c] else []) ++ literals.flatten := by
  rw [Part.attach, Part.takes]
  by_cases hnext : next.isLiteral
  · obtain ⟨rest, others, rfl, -⟩ := exists_of_isLiteral hnext h
    rw [if_pos hnext, hnext]
    rfl
  · rw [if_neg hnext, Bool.not_eq_true] at *
    rw [hnext, Bool.false_or]
    by_cases hreopened : part = .reopened
    · rw [if_pos hreopened, hreopened]
      rfl
    · rw [if_neg hreopened, bne_iff_ne.2 hreopened, Bool.and_true]
      split <;> rfl

/-- A source is made of its string literals and of what stands outside of them. -/
theorem perm_outside_literals (h : literals? part t = some literals) :
    t.Perm (outside part t ++ literals.flatten) := by
  induction t generalizing part literals with
  | nil =>
    cases part <;> cases h <;> exact .nil
  | cons c t ih =>
    rw [literals?, Option.bind_eq_some_iff] at h
    obtain ⟨next, hstep, h⟩ := h
    obtain ⟨later, hlater, rfl⟩ := Option.map_eq_some_iff.1 h
    have hperm := (ih hlater).cons c
    rw [flatten_attach hlater]
    simp only [outside, hstep]
    split
    · exact hperm.trans List.perm_middle.symm
    · exact hperm

theorem mem_iff_outside_literals (h : literals? part t = some literals) :
    c ∈ t ↔ c ∈ outside part t ∨ ∃ literal ∈ literals, c ∈ literal := by
  rw [(perm_outside_literals h).mem_iff, List.mem_append, List.mem_flatten]

theorem ne_of_isIdentifierChar (hc : isIdentifierChar c) {x : Char} (hx : isIdentifierChar x = false) :
    c ≠ x := by
  rintro rfl
  rw [hx] at hc
  cases hc

theorem step_identifier (hc : isIdentifierChar c) (part : Part) :
    part.step c = some part.behindWord := by
  have hfeed : c ≠ '\n' := ne_of_isIdentifierChar hc (by decide)
  have hreturn : c ≠ '\r' := ne_of_isIdentifierChar hc (by decide)
  have hquote : c ≠ '"' := ne_of_isIdentifierChar hc (by decide)
  have hapostrophe : c ≠ '\'' := ne_of_isIdentifierChar hc (by decide)
  have hbackslash : c ≠ '\\' := ne_of_isIdentifierChar hc (by decide)
  have hslash : c ≠ '/' := ne_of_isIdentifierChar hc (by decide)
  have hstar : c ≠ '*' := ne_of_isIdentifierChar hc (by decide)
  have hend : endsLine c = false := by
    simp [endsLine, hfeed, hreturn]
  cases part <;>
    simp [Part.step, Part.stepCode, Part.stepQuoted, Part.stepBlock, Part.behindWord, *]

theorem behindWord_behindWord (part : Part) : part.behindWord.behindWord = part.behindWord := by
  cases part <;> rfl

theorem attach_behindWord (part : Part) (v w : Text) (literals : List Text) :
    part.attach part.behindWord v (part.behindWord.attach part.behindWord w literals) =
      part.attach part.behindWord (v ++ w) literals := by
  cases literals <;> cases part <;> simp [Part.attach, Part.behindWord, Part.isLiteral]

theorem literals?_run (hne : w ≠ []) (hw : w.all isIdentifierChar) (part : Part) (r : Text) :
    literals? part (w ++ r) =
      (literals? part.behindWord r).map (part.attach part.behindWord w) := by
  induction w generalizing part with
  | nil => exact absurd rfl hne
  | cons c w ih =>
    rw [List.all_cons, Bool.and_eq_true] at hw
    rw [List.cons_append, literals?_of_step (step_identifier hw.1 part)]
    cases w with
    | nil => rfl
    | cons d w =>
      rw [ih (List.cons_ne_nil d w) hw.2, behindWord_behindWord, Option.map_map]
      congr 1
      funext literals
      exact attach_behindWord part [c] (d :: w) literals

/-- A character of code that begins neither quotes nor a comment. -/
def isPlain (c : Char) : Bool :=
  c != '"' && c != '\'' && c != '/'

theorem all_isPlain (ht : t.all isIdentifierChar) : t.all isPlain := by
  rw [List.all_eq_true] at ht ⊢
  intro c hc
  have hquote : c ≠ '"' := ne_of_isIdentifierChar (ht c hc) (by decide)
  have hapostrophe : c ≠ '\'' := ne_of_isIdentifierChar (ht c hc) (by decide)
  have hslash : c ≠ '/' := ne_of_isIdentifierChar (ht c hc) (by decide)
  simp [isPlain, hquote, hapostrophe, hslash]

theorem literals?_plain (ht : t.all isPlain) (r : Text) :
    literals? .code (t ++ r) = literals? .code r := by
  induction t with
  | nil => rfl
  | cons c t ih =>
    rw [List.all_cons, Bool.and_eq_true] at ht
    have hstep : Part.code.step c = some .code := by
      have hc := ht.1
      simp only [isPlain, Bool.and_eq_true, bne_iff_ne] at hc
      simp [Part.step, Part.stepCode, hc]
    rw [List.cons_append, literals?_of_step hstep, ih ht.2]
    exact Option.map_id'

theorem literals?_opened (hc : c ≠ '"') (t : Text) :
    literals? .opened (c :: t) = literals? .string (c :: t) := by
  rw [literals?, literals?, Part.step, Part.step, Part.stepQuoted, Part.stepQuoted, if_neg hc, if_neg hc]
  rfl

theorem literals?_reopened (hc : c ≠ '"') (t : Text) :
    literals? .reopened (c :: t) = (literals? .code (c :: t)).map ([] :: ·) := by
  have hcode : Part.code.step c = some (.stepCode c) := rfl
  have hreopened : Part.reopened.step c = some (.stepCode c) := by
    rw [Part.step, if_neg hc]
  have hnext : (Part.stepCode c).isLiteral = false := by
    rw [Part.stepCode, if_neg hc]
    split
    · rfl
    · split <;> rfl
  rw [literals?_of_step hcode, literals?_of_step hreopened, Option.map_map]
  congr 1
  funext literals
  rw [Function.comp_apply, Part.attach, Part.attach, hnext]
  rfl

theorem literals?_escape (ht : t.any endsLine = false) (r : Text) :
    literals? .string (escape t ++ '"' :: r) =
      (literals? .code r).map ((escape t ++ ['"']) :: ·) := by
  induction t with
  | nil => exact literals?_of_step rfl r
  | cons c t ih =>
    rw [List.any_cons, Bool.or_eq_false_iff] at ht
    rw [escape_cons, escapeChar]
    split
    · have hfirst : Part.string.step '\\' = some .stringEscape := rfl
      have hsecond : Part.stringEscape.step c = some .string := by
        rw [Part.step, ht.1]
        rfl
      rw [List.append_assoc, List.cons_append, List.singleton_append, literals?_of_step hfirst,
        literals?_of_step hsecond, ih ht.2, Option.map_map, Option.map_map]
      rfl
    · next hc =>
      rw [not_or] at hc
      have hstep : Part.string.step c = some .string := by
        rw [Part.step, Part.stepQuoted, ht.1, if_neg hc.2, if_neg hc.1]
        rfl
      rw [List.append_assoc, List.singleton_append, literals?_of_step hstep, ih ht.2, Option.map_map]
      rfl

theorem literals?_quoted (ht : t.any endsLine = false) (hc : c ≠ '"') (r : Text) :
    literals? .code ('"' :: escape t ++ '"' :: c :: r) =
      (literals? .code (c :: r)).map (('"' :: escape t ++ ['"']) :: ·) := by
  have hopen : Part.code.step '"' = some .opened := rfl
  rw [List.cons_append, literals?_of_step hopen]
  cases t with
  | nil =>
    have hclose : Part.opened.step '"' = some .reopened := rfl
    rw [escape, List.flatMap_nil, List.nil_append, literals?_of_step hclose, literals?_reopened hc,
      Option.map_map, Option.map_map]
    rfl
  | cons d t =>
    have hstring := literals?_escape ht (c :: r)
    obtain ⟨e, u, hu, he⟩ : ∃ e u, escape (d :: t) = e :: u ∧ e ≠ '"' := by
      rw [escape_cons, escapeChar]
      split
      · exact ⟨_, _, rfl, by decide⟩
      · next hd => exact ⟨d, _, rfl, (not_or.1 hd).2⟩
    rw [hu, List.cons_append] at hstring ⊢
    rw [literals?_opened he, hstring, Option.map_map]
    rfl

example : literals? .code "f(\"a\\\"\", \"\"); // \"\nc = '\"'; s = \"b\";" =
    (some ["\"a\\\"\"", "\"\"", "\"b\""] : Option (List Text)) := by
  decide

end PluginForge.Java
