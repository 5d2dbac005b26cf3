import PluginForge.Proofs.Callback.Body
import PluginForge.Proofs.Callback.DeclaredValues
import PluginForge.Proofs.Callback.LineEnds
import PluginForge.Proofs.Callback.Terminators

namespace PluginForge.Callback

variable {first indent line name right source t text value : Text} {n : Nat} {s : Statement}
  {statements : List Statement} {handler : Handler}

/-- A text declares nothing if it has no equals sign, or if no keyword stands in front of it and no list in
brackets goes with the type of an array. -/
theorem declaration?_eq_none_iff :
    Statement.declaration? n text = .ok none ↔
      ∀ left right, Text.cut? (· == '=') text = some (left, right) →
        Statement.keywordTarget? left = none ∧
          (Statement.arrayTarget? left = none ∨ Statement.bracketed? right = none) := by
  rw [Statement.declaration?]
  cases Text.cut? (· == '=') text with
  | none =>
    refine iff_of_true rfl ?_
    rintro _ _ ⟨⟩
  | some parts =>
    obtain ⟨left, right⟩ := parts
    have hparts {P : Text → Text → Prop} :
        (∀ left' right', some (left, right) = some (left', right') → P left' right') ↔ P left right := by
      refine ⟨fun h => h _ _ rfl, ?_⟩
      rintro h left' right' ⟨⟩
      exact h
    simp only [hparts]
    cases hkeyword : Statement.keywordTarget? left with
    | none => cases Statement.arrayTarget? left <;> simp
    | some name =>
      simp only [arrayTarget?_of_keywordTarget? hkeyword]
      refine iff_of_false (fun h => ?_) fun h => by cases h.1
      split at h
      · cases h
      · split at h <;> cases h

theorem declaration?_append_semicolon (h : Statement.declaration? n text = .ok none) (m : Nat) :
    Statement.declaration? m (text ++ [';']) = .ok none := by
  rw [declaration?_eq_none_iff] at h ⊢
  intro left right hcut
  rw [Text.cut?_append (List.forall_mem_singleton.2 rfl)] at hcut
  obtain ⟨⟨left', right'⟩, hparts, he⟩ := Option.map_eq_some_iff.1 hcut
  cases he
  obtain ⟨hkeyword, htarget⟩ := h _ _ hparts
  exact ⟨hkeyword, htarget.imp_right bracketed?_append_semicolon⟩

/-- A declaration as it stands in a body, without its indentation. -/
def declarationText (type : Java.Ty) (name value : Text) : Text :=
  type.name ++ ' ' :: (name ++ '=' :: value) ++ [';']

theorem equals_not_mem_ty (type : Java.Ty) : '=' ∉ type.name := by
  rcases type with type | type <;> cases type <;> decide

theorem ty_not_mem_keywords (type : Java.Ty) : type.name ∉ Statement.keywords := by
  rcases type with type | type <;> cases type <;> decide

theorem keywordTarget?_type (hname : Java.isIdentifier name) (type : Java.Ty) :
    Statement.keywordTarget? (type.name ++ ' ' :: name) = none := by
  have hword : ∀ c ∈ type.name, Text.isBlank c = false := fun c hc => isBlank_of_mem_ty type hc
  have hcut := Text.cut?_append_cons hword (c := ' ') (b := name) rfl
  rw [Statement.keywordTarget?, trim_word (ty_ne_nil type) hword hname, hcut]
  simp [ty_not_mem_keywords]

/-- A declaration of a body declares nothing anymore, for its type is no keyword and its value no list in
brackets. -/
theorem declaration?_declarationText (hname : Java.isIdentifier name)
    (hvalue : ∀ c ∈ value.head?, Text.isBlank c = false ∧ c ≠ '[') (n : Nat) (type : Java.Ty) :
    Statement.declaration? n (declarationText type name value) = .ok none := by
  have hequals := Java.not_mem_of_all_isIdentifierChar (c := '=') (Java.all_isIdentifierChar hname)
    (by decide)
  have hcut : Text.cut? (· == '=') (declarationText type name value) =
      some (type.name ++ ' ' :: name, value ++ [';']) := by
    rw [Text.cut?_char_iff]
    simp [declarationText, equals_not_mem_ty, hequals]
  have hright : ∀ c ∈ (value ++ [';']).head?, Text.isBlank c = false ∧ c ≠ '[' :=
    Text.forall_head?_append hvalue fun c hc => by cases hc; decide
  rw [declaration?_eq_none_iff]
  intro left right hparts
  rw [hcut] at hparts
  cases hparts
  exact ⟨keywordTarget?_type hname type, .inr (bracketed?_eq_none hright)⟩

def reread (strip : Nat) : Statement → Statement
  | .declaration indent type name value => .raw (indent.drop strip) (declarationText type name value)
  | .raw indent text =>
    .raw (indent.drop strip) (text ++ if Statement.needsTerminator text then [';'] else [])
  | .blank => .blank

theorem parse_raw (hindent : indent.all Statement.isIndent)
    (hhead : ∀ c ∈ text.head?, Statement.isIndent c = false) (hblank : text.all Text.isBlank = false)
    (htrim : Text.trimEnd text = text) (hnormal : IsNormal (indent ++ text))
    (h : Statement.declaration? n text = .ok none) :
    Statement.parse n (indent ++ text) = .ok (.raw indent text) := by
  rw [Statement.parse_normal hindent hhead hblank hnormal, htrim, h]

theorem parse_terminated (hindent : indent.all Statement.isIndent)
    (hhead : ∀ c ∈ text.head?, Statement.isIndent c = false) (hnormal : IsNormal (indent ++ text))
    (h : Statement.declaration? n (text ++ [';']) = .ok none) :
    IsNormal (indent ++ (text ++ [';'])) ∧
      Statement.parse n (indent ++ (text ++ [';'])) = .ok (.raw indent (text ++ [';'])) := by
  have hnormal' : IsNormal (indent ++ (text ++ [';'])) := by
    rw [← List.append_assoc]
    exact hnormal.append_cons isNormal_nil (by decide) (by decide)
  refine ⟨hnormal', parse_raw hindent ?_ ?_ ?_ hnormal' h⟩
  · exact Text.forall_head?_append hhead fun c hc => by cases hc; rfl
  · rw [List.all_append, show List.all [';'] Text.isBlank = false by rfl, Bool.and_false]
  · exact Text.dropEndWhile_append rfl

theorem isNormal_declaration (hindent : indent.all Statement.isIndent) (hname : Java.isIdentifier name)
    (hvalue : IsNormal value) (type : Java.Ty) :
    IsNormal (indent ++ (type.name ++ ' ' :: (name ++ '=' :: value))) := by
  have hfree {x : Char} (hx : Statement.isIndent x = false) : x ∉ indent :=
    Text.not_mem_of_all hindent hx
  have htype : '\'' ∉ type.name ∧ '.' ∉ type.name := by
    rcases type with type | type <;> cases type <;> decide
  have hfront : IsNormal (indent ++ type.name) := by
    apply isNormal_of_not_mem
    · rw [List.mem_append, not_or]
      exact ⟨hfree rfl, htype.1⟩
    · rw [List.mem_append, not_or]
      exact ⟨hfree rfl, htype.2⟩
  rw [← List.append_assoc]
  exact hfront.append_cons ((isNormal_identifier hname).append_cons hvalue (by decide) (by decide))
    (by decide) (by decide)

theorem emit_declaration (strip : Nat) (indent : Text) (type : Java.Ty) (name value : Text) :
    (Statement.declaration indent type name value).emit strip =
      indent.drop strip ++ declarationText type name value := by
  simp [Statement.emit, declarationText]

theorem needsTerminator_of_mem (h : ';' ∈ text) : Statement.needsTerminator text = false := by
  rw [← Bool.not_eq_true, needsTerminator_iff]
  exact fun hneeds => hneeds.2.1 h

/-- The line for a statement that was read from a body is the line that it was read from. -/
theorem emit_reread (strip : Nat) (s : Statement) : (reread strip s).emit 0 = s.emit strip := by
  cases s with
  | declaration indent type name value =>
    have hneeds : Statement.needsTerminator (declarationText type name value) = false :=
      needsTerminator_of_mem (by simp [declarationText])
    rw [emit_declaration, reread, Statement.emit, hneeds, if_neg Bool.false_ne_true, List.append_nil]
    rfl
  | raw indent text =>
    rw [reread, Statement.emit, Statement.emit]
    cases hneeds : Statement.needsTerminator text with
    | true =>
      rw [if_pos rfl, needsTerminator_of_mem (List.mem_append_right text List.mem_cons_self),
        if_neg Bool.false_ne_true, List.append_nil, List.append_assoc]
      rfl
    | false =>
      rw [if_neg Bool.false_ne_true, List.append_nil, hneeds, if_neg Bool.false_ne_true]
      rfl
  | blank => rfl

theorem declaration?_of_parse (h : Statement.parse n line = .ok (.raw indent text)) :
    Statement.declaration? n text = .ok none := by
  rw [Statement.parse_eq] at h
  split at h
  · cases h
  · split at h
    · cases h
    · next hd =>
      cases h
      exact hd
    · cases h

theorem textOf_isInfix (line : Text) : textOf line <:+: Statement.normalize line :=
  (List.rdropWhile_prefix _ _).isInfix.trans (List.dropWhile_suffix _).isInfix

theorem parse_emit (hescape : '\\' ∉ line) (h : Statement.parse n line = .ok s) (m strip : Nat) :
    IsNormal (s.emit strip) ∧ Statement.parse m (s.emit strip) = .ok (reread strip s) := by
  have hindent : ((indentOf line).drop strip).all Statement.isIndent :=
    List.all_eq_true.2 fun c hc => List.mem_takeWhile_imp (List.mem_of_mem_drop hc)
  rcases Statement.parse_cases h with ⟨-, rfl⟩ | ⟨hb, rfl⟩ | ⟨hb, type, name, value, hd, rfl⟩
  · exact ⟨isNormal_nil, rfl⟩
  · have hd := declaration?_of_parse h
    have hhead := isIndent_head_textOf line
    have hnormal : IsNormal ((indentOf line).drop strip ++ textOf line) := by
      have hsuffix : (indentOf line).drop strip ++ textOf line <:+ indentOf line ++ textOf line :=
        ⟨(indentOf line).take strip, by rw [← List.append_assoc, List.take_append_drop]⟩
      have hline := indentOf_append_textOf hb
      rw [hline] at hsuffix
      exact (isNormal_normalize line).mono
        (hsuffix.isInfix.trans (List.rdropWhile_prefix _ _).isInfix)
    rw [reread, Statement.emit, List.append_assoc]
    split
    · exact parse_terminated hindent hhead hnormal (declaration?_append_semicolon hd m)
    · rw [List.append_nil]
      exact ⟨hnormal, parse_raw hindent hhead (all_textOf hb) (trimEnd_textOf line) hnormal
        (declaration?_eq_none_iff.2 (declaration?_eq_none_iff.1 hd))⟩
  · obtain ⟨front, behind, htext, hdeclares⟩ := declares_of_declaration? hd
    have hname := hdeclares.isIdentifier
    have hinside : front <:+: Statement.normalize line := by
      have hfront : front <+: textOf line := ⟨behind, htext.symm⟩
      exact hfront.isInfix.trans (textOf_isInfix line)
    have hfree : '\\' ∉ Statement.normalize line :=
      not_mem_normalize (by decide) (fun type => by cases type <;> decide) hescape
    have hvalue : IsNormal value :=
      hdeclares.isNormal (fun hm => hfree (hinside.subset hm)) ((isNormal_normalize line).mono hinside)
    have hhead : ∀ c ∈ (type.name ++ ' ' :: (name ++ '=' :: value)).head?,
        Statement.isIndent c = false := by
      intro c hc
      rw [List.head?_append_of_ne_nil _ (ty_ne_nil type)] at hc
      exact isIndent_eq_false (isBlank_of_mem_ty type (List.mem_of_mem_head? hc))
    rw [emit_declaration]
    exact parse_terminated hindent hhead (isNormal_declaration hindent hname hvalue type)
      (declaration?_declarationText hname hdeclares.head?_value m type)

theorem parseLines_emit {lines : List Text} (hescape : ∀ line ∈ lines, '\\' ∉ line)
    (h : Handler.parseLines n lines = .ok statements) (m strip : Nat) :
    (∀ s ∈ statements, IsNormal (s.emit strip)) ∧
      Handler.parseLines m (statements.map (Statement.emit strip)) =
        .ok (statements.map (reread strip)) := by
  induction lines generalizing m n statements with
  | nil =>
    cases h
    exact ⟨nofun, rfl⟩
  | cons line lines ih =>
    obtain ⟨s, rest, hs, hrest, rfl⟩ := parseLines_cons h
    obtain ⟨hline, hlines⟩ := List.forall_mem_cons.1 hescape
    obtain ⟨hnormal, hparse⟩ := parse_emit hline hs m strip
    obtain ⟨hnormals, hparses⟩ := ih hlines hrest (m + 1)
    refine ⟨List.forall_mem_cons.2 ⟨hnormal, hnormals⟩, ?_⟩
    rw [List.map_cons, List.map_cons, Handler.parseLines, hparse]
    simp only [hparses]

theorem indent?_reread (strip : Nat) (s : Statement) :
    (reread strip s).indent? = s.indent?.map (List.drop strip) := by
  cases s <;> rfl

theorem commonIndent_reread (statements : List Statement) :
    commonIndent (statements.map (reread (commonIndent statements))) = 0 := by
  have hwidths (strip : Nat) :
      ((statements.map (reread strip)).filterMap Statement.indent?).map List.length =
        ((statements.filterMap Statement.indent?).map List.length).map (· - strip) := by
    rw [List.filterMap_map, List.map_filterMap, List.map_filterMap, List.map_filterMap]
    apply List.filterMap_congr
    intro s _
    rw [Function.comp_apply, indent?_reread]
    cases s.indent? with
    | none => rfl
    | some indent => exact congrArg some List.length_drop
  rw [commonIndent, hwidths]
  cases hleast : ((statements.filterMap Statement.indent?).map List.length).min? with
  | none =>
    rw [List.min?_eq_none_iff.1 hleast]
    rfl
  | some least =>
    have hcommon : commonIndent statements = least := by
      rw [commonIndent, hleast]
      rfl
    obtain ⟨hmem, -⟩ := List.min?_eq_some_iff.1 hleast
    have hzero : (((statements.filterMap Statement.indent?).map List.length).map (· - least)).min? =
        some 0 := by
      rw [List.min?_eq_some_iff]
      exact ⟨List.mem_map.2 ⟨least, hmem, Nat.sub_self least⟩, fun width _ => Nat.zero_le width⟩
    rw [hcommon, hzero]
    rfl

theorem body_reread (statements : List Statement) :
    body (statements.map (reread (commonIndent statements))) = body statements := by
  rw [body, body, bodyLines, bodyLines, commonIndent_reread, List.map_map]
  congr 2
  exact List.map_congr_left fun s _ => emit_reread (commonIndent statements) s

theorem ofSource_join {lines : List Text} {parameters : Parameters} (hne : first ≠ [])
    (hblank : ∀ c ∈ first.head?, Text.isBlank c = false)
    (hfeed : ∀ line ∈ first :: lines, '\n' ∉ line) (hfirst : Parameters.parse first = .ok parameters)
    (hlines : Handler.parseLines 2 lines = .ok statements) :
    Handler.ofSource (Text.join "\n" (first :: lines ++ [['\x7d']])) =
      .ok ⟨parameters, body statements⟩ := by
  have htrim : Text.trim (Text.join "\n" (first :: lines ++ [['\x7d']])) =
      Text.join "\n" (first :: lines ++ [['\x7d']]) := by
    apply Text.trim_eq_self
    · intro c hc
      rw [List.cons_append, Text.join_cons, List.head?_append_of_ne_nil _ hne] at hc
      exact hblank c hc
    · intro c hc
      rw [Text.join_concat (List.cons_ne_nil first lines)] at hc
      have hlast : c ∈ (Text.join "\n" (first :: lines) ++ "\n".toList ++ ['\x7d']).getLast? := hc
      rw [List.getLast?_concat] at hlast
      cases hlast
      decide
  have hsplit : Text.lines (Text.join "\n" (first :: lines ++ [['\x7d']])) =
      Text.dropReturn first :: (lines.map Text.dropReturn ++ [['\x7d']]) :=
    Text.lines_join_concat hfeed (by decide) nofun
  have hfirst' : Parameters.parse (Text.dropReturn first) = .ok parameters := by
    rw [← Parameters.parse_trimEnd, Text.trimEnd_dropReturn, Parameters.parse_trimEnd, hfirst]
  have hlines' : Handler.parseLines 2 (lines.map Text.dropReturn) = .ok statements := by
    have hblanks : Text.trimEnd ∘ Text.dropReturn = Text.trimEnd := funext Text.trimEnd_dropReturn
    rw [← parseLines_trimEnd, List.map_map, hblanks, parseLines_trimEnd, hlines]
  rw [Handler.ofSource, htrim, hsplit]
  simp only [hfirst', List.dropLast_concat, hlines']

/-- A body is stable. As long as a source holds no escapes, the lines of its body are normal and are taken as
they are, each for its statement, and between the first line of the source and a closing one they make a
source of the same handler. -/
theorem ofSource_generated (hescape : '\\' ∉ source) (h : Handler.ofSource source = .ok handler) :
    ∃ first rest kept statements,
      Text.lines (Text.trim source) = first :: rest ∧
      Text.splitOn '\n' handler.body = kept ++ [successReturn] ∧
      Handler.parseLines 2 (statementLines source) = .ok statements ∧
      kept = statements.map (Statement.emit (commonIndent statements)) ∧
      (∀ line ∈ kept, Statement.normalize line = line) ∧
      Handler.parseLines 2 kept = .ok (statements.map (reread (commonIndent statements))) ∧
      commonIndent (statements.map (reread (commonIndent statements))) = 0 ∧
      kept = (statements.map (reread (commonIndent statements))).map (Statement.emit 0) ∧
      Handler.ofSource (Text.join "\n" (first :: kept ++ [['\x7d']])) = .ok handler := by
  obtain ⟨first, rest, parameters, statements, hlines, hparameters, hstatements, rfl⟩ :=
    ofSource_parts h
  have hfeed := fun line (hl : line ∈ statementLines source) => newline_not_mem_of_mem_statementLines hl
  have hfree : ∀ line ∈ statementLines source, '\\' ∉ line := by
    intro line hl hm
    have hline : line ∈ Text.lines (Text.trim source) := List.mem_of_mem_tail (List.dropLast_subset _ hl)
    exact hescape (Text.trim_subset source (Text.mem_of_mem_lines hline hm))
  obtain ⟨hnormals, hreread⟩ := parseLines_emit hfree hstatements 2 (commonIndent statements)
  have hsplit := splitOn_body hstatements hfeed
  have hne : first ≠ [] := by
    rintro rfl
    cases hparameters
  have hhead : ∀ c ∈ first.head?, Text.isBlank c = false := by
    rw [Text.head?_of_lines_eq_cons (Text.isBlank_head_trim source) hlines]
    exact Text.isBlank_head_trim source
  have hbreaks : ∀ line ∈ first :: statements.map (Statement.emit (commonIndent statements)),
      '\n' ∉ line := by
    have hfirst : first ∈ Text.lines (Text.trim source) := by
      rw [hlines]
      exact List.mem_cons_self
    refine List.forall_mem_cons.2 ⟨Text.not_mem_of_mem_lines hfirst, fun line hl => ?_⟩
    apply Text.not_mem_of_mem_splitOn (t := body statements)
    rw [hsplit]
    exact List.mem_append_left _ hl
  have hsource := ofSource_join hne hhead hbreaks hparameters hreread
  rw [body_reread] at hsource
  refine ⟨first, rest, _, statements, hlines, hsplit, hstatements, rfl, ?_, hreread,
    commonIndent_reread statements, ?_, hsource⟩
  · intro line hl
    obtain ⟨s, hs, rfl⟩ := List.mem_map.1 hl
    exact (hnormals s hs).normalize
  · rw [List.map_map]
    exact (List.map_congr_left fun s _ => emit_reread (commonIndent statements) s).symm

theorem ofSource_generated_words :
    let source : Text := "(s, c, l, a) => \x7b\r\n  let x = ['a'];\n\n    s.say(x)\n\x7d"
    let handler : Handler :=
      ⟨⟨"s", "c", "l", "a"⟩, "String[] x=new String[]\x7b\"a\"\x7d;\n\n  s.say(x);\nreturn true;"⟩
    '\\' ∉ source ∧ Handler.ofSource source = .ok handler ∧
      Handler.ofSource
          "(s, c, l, a) => \x7b\nString[] x=new String[]\x7b\"a\"\x7d;\n\n  s.say(x);\n\x7d" =
        .ok handler := by
  intro source handler
  have hescape : '\\' ∉ source := by decide
  have h : Handler.ofSource source = .ok handler := by decide +kernel
  obtain ⟨first, rest, kept, statements, hlines, hsplit, -, -, -, -, -, -, hsource⟩ :=
    ofSource_generated hescape h
  have hfirst : (Text.lines (Text.trim source)).head? = some "(s, c, l, a) => \x7b".toList := by
    decide +kernel
  have hkept : Text.splitOn '\n' handler.body =
      ["String[] x=new String[]\x7b\"a\"\x7d;".toList, [], "  s.say(x);".toList] ++
        [successReturn] := by
    decide +kernel
  rw [hlines] at hfirst
  cases hfirst
  rw [hkept] at hsplit
  obtain ⟨rfl, -⟩ := List.append_inj' hsplit rfl
  exact ⟨hescape, h, hsource⟩

end PluginForge.Callback
