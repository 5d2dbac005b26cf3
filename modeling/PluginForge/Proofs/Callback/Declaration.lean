import PluginForge.Proofs.Callback.Lines
import PluginForge.Proofs.Json.Quotes

namespace PluginForge.Callback

open Json (Closed PassesOver Passes except_map_eq_ok placed_eq_ok)

variable {c : Char} {indent keyword name source terminator t : Text} {literal : Literal}
  {type : Java.Ty}

theorem passesOver_readScalar : PassesOver Literal.readScalar := by
  intro c value c' h
  have hblanks := Passes.skipBlanks c
  have hword {first : Char} {rest : Text} {value : Bool} {result : Scalar × Json.Cursor}
      (hfirst : Json.isPlain first) (hrest : rest.all Json.isPlain)
      (hpeek : c.skipBlanks.peek? = some first)
      (h : (Json.Cursor.placed (c.skipBlanks.advance.skipWord rest)).map
        (fun c => (Scalar.boolean value, c)) = .ok result) : Passes c result.2 := by
    obtain ⟨behind, hbehind, rfl⟩ := except_map_eq_ok h
    exact (hblanks.trans (.advance hpeek hfirst)).trans (.skipWord hrest (placed_eq_ok hbehind))
  rw [Literal.readScalar] at h
  simp only at h
  split at h
  · next hpeek =>
    obtain ⟨⟨value, behind⟩, hread, he⟩ := except_map_eq_ok h
    cases he
    exact hblanks.trans (.readString hpeek (placed_eq_ok hread))
  · next hpeek => exact hword (by decide) (by decide) hpeek h
  · next hpeek => exact hword (by decide) (by decide) hpeek h
  · split at h
    · obtain ⟨⟨number, behind⟩, hread, he⟩ := except_map_eq_ok h
      have hnumber := hblanks.trans (.readNumber (placed_eq_ok hread))
      cases number with
      | int n =>
        cases he
        exact hnumber
      | float x =>
        cases he
        exact hnumber
    · cases h
  · cases h

theorem closed_of_all_isBlank (h : t.all Text.isBlank) : Closed false t := by
  apply Json.closed_of_isPlain
  rw [List.all_eq_true] at h ⊢
  intro c hc
  have hblank := h c hc
  rw [Json.isPlain, Bool.and_eq_true, bne_iff_ne, bne_iff_ne]
  constructor
  · rintro rfl
    exact absurd hblank (by decide)
  · rintro rfl
    exact absurd hblank (by decide)

theorem closed_of_parse? (hescape : '\\' ∉ t) (h : Literal.parse? t = some literal) : Closed false t := by
  have hescape' : '\\' ∉ Text.trim t := fun hm => hescape (Text.trim_subset t hm)
  have htrim : Closed false (Text.trim t) := by
    rw [Literal.parse?] at h
    split at h
    · split at h
      · next hrun => exact passesOver_readScalar.list.closed hescape' hrun
      · cases h
    · split at h
      · next hrun => exact passesOver_readScalar.closed hescape' hrun
      · cases h
  obtain ⟨front, back, ht, hfront, hback⟩ := Text.eq_trim_append t
  rw [ht]
  exact ((closed_of_all_isBlank hfront).append htrim).append (closed_of_all_isBlank hback)

theorem parse?_trim (t : Text) : Literal.parse? (Text.trim t) = Literal.parse? t := by
  rw [Literal.parse?, Literal.parse?, Text.trim_trim]

theorem parse?_takeWhile_semicolon (hescape : '\\' ∉ source)
    (h : Literal.parse? source = some literal) (hmem : ';' ∈ source) :
    Literal.parse? (source.takeWhile (· != ';')) = none := by
  have hsplit := List.takeWhile_append_dropWhile (p := (· != ';')) (l := source)
  have hclosed := closed_of_parse? hescape h
  cases hrest : source.dropWhile (· != ';') with
  | nil =>
    rw [List.dropWhile_eq_nil_iff] at hrest
    exact absurd (hrest ';' hmem) (by decide)
  | cons c rest =>
    have hc : c = ';' := by
      have hhead := List.head?_dropWhile_not (· != ';') source
      rw [hrest] at hhead
      simpa using hhead
    rw [hrest, hc] at hsplit
    rw [← hsplit] at hclosed
    by_contra hparse
    obtain ⟨front, hfront⟩ := Option.ne_none_iff_exists'.1 hparse
    apply hclosed.not_closed_front
    apply closed_of_parse? _ hfront
    exact fun hm => hescape ((List.takeWhile_prefix _).subset hm)

/-- A declaration with a keyword in front of the name and the right side behind an equals sign. -/
def keywordLine (keyword name right : Text) : Text :=
  keyword ++ ' ' :: name ++ ' ' :: '=' :: ' ' :: right

theorem keyword_facts (h : keyword ∈ Statement.keywords) :
    keyword ≠ [] ∧ keyword.all Java.isIdentifierChar ∧ Text.endsWith keyword "[]" = false := by
  revert keyword
  decide

theorem arrayTarget?_of_keywordTarget? {left : Text} (h : Statement.keywordTarget? left = some name) :
    Statement.arrayTarget? left = none := by
  simp only [Statement.keywordTarget?, Option.bind_eq_bind, Option.bind_eq_some_iff,
    Option.guard_eq_some'] at h
  obtain ⟨⟨keyword, rest⟩, hcut, -, hkeyword, -⟩ := h
  obtain ⟨-, -, hend⟩ := keyword_facts (List.contains_iff_mem.1 hkeyword)
  rw [Statement.arrayTarget?, hcut]
  simp only [Option.bind_eq_bind, Option.bind_some, hend]
  rfl

theorem isBlank_of_mem_name (hname : name.all Java.isIdentifierChar) (hc : c ∈ name) :
    Text.isBlank c = false :=
  Java.isBlank_of_isIdentifierChar (List.all_eq_true.1 hname c hc)

theorem isBlank_of_mem_ty (type : Java.Ty) (hc : c ∈ type.name) : Text.isBlank c = false := by
  have hword : type.name.any Text.isBlank = false := by
    rcases type with type | type <;> cases type <;> decide
  exact Bool.eq_false_iff.2 (List.any_eq_false.1 hword c hc)

theorem ty_ne_nil (type : Java.Ty) : type.name ≠ [] := by
  rcases type with type | type <;> cases type <;> decide

theorem trim_word {word : Text} (hne : word ≠ []) (hword : ∀ c ∈ word, Text.isBlank c = false)
    (hname : Java.isIdentifier name) : Text.trim (word ++ ' ' :: name) = word ++ ' ' :: name := by
  apply Text.trim_eq_self
  · intro c hc
    rw [List.head?_append_of_ne_nil _ hne] at hc
    exact hword c (List.mem_of_mem_head? hc)
  · intro c hc
    rw [List.getLast?_append_cons, List.getLast?_cons,
      List.getLast?_eq_some_getLast (Java.isIdentifier_ne_nil hname)] at hc
    cases hc
    exact isBlank_of_mem_name (Java.all_isIdentifierChar hname) (List.getLast_mem _)

section Line

variable {right : Text} {line : Nat} (hkeyword : keyword ∈ Statement.keywords)
  (hname : Java.isIdentifier name)

include hkeyword hname

theorem isTagFree_keywordLine (hindent : indent.all Statement.isIndent) (hright : IsTagFree right) :
    IsTagFree (indent ++ keywordLine keyword name right) := by
  obtain ⟨-, hword, -⟩ := keyword_facts hkeyword
  have hfront : '.' ∉ indent ++ keyword := by
    intro hmem
    rcases List.mem_append.1 hmem with hmem | hmem
    · exact absurd (List.all_eq_true.1 hindent _ hmem) (by decide)
    · exact Java.not_mem_of_all_isIdentifierChar hword (by decide) hmem
  have hmiddle : '.' ∉ name :=
    Java.not_mem_of_all_isIdentifierChar (Java.all_isIdentifierChar hname) (by decide)
  have hequals : IsTagFree ['='] := isTagFree_of_dot_not_mem (by decide)
  have hspace : breaksTags ' ' := by decide
  have hline := (isTagFree_of_dot_not_mem hfront).append_cons
    ((isTagFree_of_dot_not_mem hmiddle).append_cons (hequals.append_cons hright hspace) hspace) hspace
  simpa [keywordLine] using hline

theorem quote_not_mem_keywordLine (hindent : indent.all Statement.isIndent) (hright : '\'' ∉ right) :
    '\'' ∉ indent ++ keywordLine keyword name right := by
  obtain ⟨-, hword, -⟩ := keyword_facts hkeyword
  have hfront : '\'' ∉ indent := fun hmem =>
    absurd (List.all_eq_true.1 hindent _ hmem) (by decide)
  have hword := Java.not_mem_of_all_isIdentifierChar (c := '\'') hword (by decide)
  have hmiddle := Java.not_mem_of_all_isIdentifierChar (c := '\'') (Java.all_isIdentifierChar hname)
    (by decide)
  simp [keywordLine, hfront, hword, hmiddle, hright]

theorem trim_target : Text.trim (keyword ++ ' ' :: name ++ [' ']) = keyword ++ ' ' :: name := by
  obtain ⟨hne, hword, -⟩ := keyword_facts hkeyword
  rw [Text.trim_append_blank (by decide)]
  exact trim_word hne (fun c hc => isBlank_of_mem_name hword hc) hname

omit hname in
theorem cut?_target (name : Text) :
    Text.cut? Text.isBlank (keyword ++ ' ' :: name) = some (keyword, name) := by
  obtain ⟨-, hword, -⟩ := keyword_facts hkeyword
  apply Text.cut?_append_cons
  · exact fun c hc => isBlank_of_mem_name hword hc
  · decide

theorem keywordTarget?_keyword :
    Statement.keywordTarget? (keyword ++ ' ' :: name ++ [' ']) = some name := by
  have hfilter : (name.filter fun c => !Text.isBlank c) = name := by
    rw [List.filter_eq_self]
    intro c hc
    rw [isBlank_of_mem_name (Java.all_isIdentifierChar hname) hc]
    rfl
  rw [Statement.keywordTarget?, trim_target hkeyword hname, cut?_target hkeyword]
  simp [hkeyword, hfilter, hname]

theorem arrayTarget?_keyword :
    Statement.arrayTarget? (keyword ++ ' ' :: name ++ [' ']) = none :=
  arrayTarget?_of_keywordTarget? (keywordTarget?_keyword hkeyword hname)

theorem cut?_keywordLine (right : Text) :
    Text.cut? (· == '=') (Text.trimEnd (keywordLine keyword name right)) =
      some (keyword ++ ' ' :: name ++ [' '], Text.trimEnd (' ' :: right)) := by
  obtain ⟨-, hword, -⟩ := keyword_facts hkeyword
  have hequals : ('=' :: ' ' :: right).all Text.isBlank = false := rfl
  have hline : keywordLine keyword name right =
      keyword ++ ' ' :: name ++ [' '] ++ '=' :: ' ' :: right := by
    simp [keywordLine]
  rw [hline, Text.trimEnd, Text.dropEndWhile_append hequals, ← Text.trimEnd,
    Text.trimEnd_cons (by decide)]
  refine Text.cut?_char_iff.2 ⟨rfl, ?_⟩
  have hk := Java.not_mem_of_all_isIdentifierChar (c := '=') hword (by decide)
  have hn := Java.not_mem_of_all_isIdentifierChar (c := '=') (Java.all_isIdentifierChar hname) (by decide)
  simp [hk, hn]

/-- A line with a keyword goes by the literal in front of the first semicolon of its right side. -/
theorem declaration?_keywordLine (right : Text) :
    Statement.declaration? line (Text.trimEnd (keywordLine keyword name right)) =
      let value := Text.trim (right.takeWhile (· != ';'))
      match Literal.parse? value with
      | none => .error (.notLiteral line value)
      | some literal =>
        match literal.type? with
        | none => .error (.notUniform line value)
        | some type => .ok (some (type, name, literal.java type)) := by
  have hvalue : Text.trim ((Text.trimEnd (' ' :: right)).takeWhile (· != ';')) =
      Text.trim (right.takeWhile (· != ';')) := by
    rw [Text.trim_takeWhile_trimEnd (by decide)]
    exact Text.trim_blank_append (a := [' ']) (by decide) _
  have harray := arrayTarget?_keyword hkeyword hname
  have htarget := keywordTarget?_keyword hkeyword hname
  rw [Statement.declaration?, cut?_keywordLine hkeyword hname]
  cases hliteral : Literal.parse? (Text.trim (right.takeWhile (· != ';'))) with
  | none => simp only [harray, htarget, hvalue, hliteral]
  | some literal =>
    cases htype : literal.type? <;> simp only [harray, htarget, hvalue, hliteral, htype]

theorem parse_keywordLine (hindent : indent.all Statement.isIndent) (hquote : '\'' ∉ right)
    (htags : IsTagFree right) :
    Statement.parse line (indent ++ keywordLine keyword name right) =
      match Statement.declaration? line (Text.trimEnd (keywordLine keyword name right)) with
      | .error fault => .error fault
      | .ok none => .ok (.raw indent (Text.trimEnd (keywordLine keyword name right)))
      | .ok (some (type, name, value)) => .ok (.declaration indent type name value) := by
  obtain ⟨hne, hword, -⟩ := keyword_facts hkeyword
  obtain ⟨first, rest, hfirst⟩ := List.exists_cons_of_ne_nil hne
  have hmark : Text.isBlank first = false := by
    apply isBlank_of_mem_name hword
    rw [hfirst]
    exact List.mem_cons_self
  have hline : keywordLine keyword name right =
      first :: (rest ++ ' ' :: name ++ ' ' :: '=' :: ' ' :: right) := by
    rw [keywordLine, hfirst]
    rfl
  have hnormal : IsNormal (indent ++ keywordLine keyword name right) :=
    ⟨quote_not_mem_keywordLine hkeyword hname hindent hquote,
      isTagFree_keywordLine hkeyword hname hindent htags⟩
  refine Statement.parse_normal hindent (fun c hc => ?_) ?_ hnormal line
  · rw [hline] at hc
    cases hc
    exact isIndent_eq_false hmark
  · rw [hline, List.all_cons, hmark, Bool.false_and]

/-- Such a line declares what the text in front of its first semicolon is, if that is a literal with a
type. -/
theorem parse_keywordLine_terminated (hindent : indent.all Statement.isIndent) (hquote : '\'' ∉ source)
    (htags : IsTagFree source) (hend : terminator = [] ∨ terminator = [';']) :
    Statement.parse line (indent ++ keywordLine keyword name (source ++ terminator)) =
      let value := Text.trim (source.takeWhile (· != ';'))
      match Literal.parse? value with
      | none => .error (.notLiteral line value)
      | some literal =>
        match literal.type? with
        | none => .error (.notUniform line value)
        | some type => .ok (.declaration indent type name (literal.java type)) := by
  have hright : '\'' ∉ source ++ terminator ∧ IsTagFree (source ++ terminator) ∧
      (source ++ terminator).takeWhile (· != ';') = source.takeWhile (· != ';') := by
    rcases hend with rfl | rfl
    · rw [List.append_nil]
      exact ⟨hquote, htags, rfl⟩
    · have hempty : IsTagFree [] := isTagFree_of_dot_not_mem List.not_mem_nil
      exact ⟨by simpa using hquote, htags.append_cons hempty (by decide),
        Text.takeWhile_append_stop source ';'⟩
  obtain ⟨hquote, htags, htake⟩ := hright
  rw [parse_keywordLine hkeyword hname hindent hquote htags, declaration?_keywordLine hkeyword hname,
    htake]
  cases hliteral : Literal.parse? (Text.trim (source.takeWhile (· != ';'))) with
  | none => simp only [hliteral]
  | some literal => cases htype : literal.type? <;> simp only [hliteral, htype]

end Line

/-- A name that is declared with a keyword and a literal gets the type and the value of the literal, as
long as no semicolon stands in it: the right side ends at the first one, also inside a string. -/
theorem parse_keyword_declaration {line : Nat} (hindent : indent.all Statement.isIndent)
    (hkeyword : keyword ∈ Statement.keywords) (hname : Java.isIdentifier name)
    (hquote : '\'' ∉ source) (hescape : '\\' ∉ source) (htags : IsTagFree source)
    (hliteral : Literal.parse? source = some literal) (htype : literal.type? = some type)
    (hend : terminator = [] ∨ terminator = [';']) :
    Statement.parse line (indent ++ keywordLine keyword name (source ++ terminator)) =
      if ';' ∈ source then .error (.notLiteral line (Text.trim (source.takeWhile (· != ';'))))
      else .ok (.declaration indent type name (literal.java type)) := by
  have hquote' : '\'' ∉ source ++ terminator := by
    rcases hend with rfl | rfl
    · rwa [List.append_nil]
    · simpa using hquote
  have htags' : IsTagFree (source ++ terminator) := by
    rcases hend with rfl | rfl
    · rwa [List.append_nil]
    · exact htags.append_cons (isTagFree_of_dot_not_mem List.not_mem_nil) (by decide)
  have htake : (source ++ terminator).takeWhile (· != ';') = source.takeWhile (· != ';') := by
    rcases hend with rfl | rfl
    · rw [List.append_nil]
    · exact Text.takeWhile_append_stop source ';'
  rw [parse_keywordLine hkeyword hname hindent hquote' htags',
    declaration?_keywordLine hkeyword hname, htake]
  by_cases hmem : ';' ∈ source
  · simp only [if_pos hmem, parse?_trim, parse?_takeWhile_semicolon hescape hliteral hmem]
  · have hall : source.takeWhile (· != ';') = source := by
      rw [List.takeWhile_eq_self_iff]
      intro c hc
      rw [bne_iff_ne]
      rintro rfl
      exact hmem hc
    simp only [if_neg hmem, hall, parse?_trim, hliteral, htype]

theorem parse_keyword_declaration_names :
    Statement.parse 3 ("\t" ++ keywordLine "const" "names" ("[\"a=b\", \"c\"] " ++ [';'])) =
      .ok (.declaration "\t" (.array .string) "names" "new String[]\x7b\"a=b\", \"c\"\x7d") := by
  have hindent : List.all ("\t" : Text) Statement.isIndent := by decide
  have hkeyword : ("const" : Text) ∈ Statement.keywords := by decide
  have hname : Java.isIdentifier "names" := by decide
  have hquote : '\'' ∉ ("[\"a=b\", \"c\"] " : Text) := by decide
  have hescape : '\\' ∉ ("[\"a=b\", \"c\"] " : Text) := by decide
  have htags : IsTagFree "[\"a=b\", \"c\"] " := isTagFree_of_dot_not_mem (by decide)
  exact parse_keyword_declaration hindent hkeyword hname hquote hescape htags rfl rfl (.inr rfl)

/-- The semicolon of a string ends the right side, and what stands in front of it is no literal. -/
theorem parse_keyword_declaration_fails :
    (∃ literal, Literal.parse? "\"a;b\"" = some literal ∧ literal.type? = some (.scalar .string) ∧
      literal.java (.scalar .string) = "\"a;b\"".toList) ∧
      Statement.parse 1 (keywordLine "let" "s" "\"a;b\"") = .error (.notLiteral 1 "\"a") := by
  constructor
  · exact ⟨_, rfl, rfl, rfl⟩
  · rfl

end PluginForge.Callback
