import PluginForge.Proofs.Callback.Body
import PluginForge.Proofs.Text.Lines

namespace PluginForge.Callback

variable {fault : Fault} {left line right source : Text} {lines : List Text} {number : Nat}

/-- How many lines end in front of the first character of a source that is no blank. -/
def leadingBreaks (source : Text) : Nat :=
  (source.takeWhile Text.isBlank).count '\n'

/-- The lines that hold statements are lines of the source as it was before it was trimmed. -/
theorem lines_source (h : statementLines source ≠ []) :
    ∃ before after, Text.lines source = before ++ statementLines source ++ after ∧
      before.length = leadingBreaks source + 1 := by
  obtain ⟨back, hsource⟩ := Text.eq_takeWhile_append_trim source
  have hbreak : '\n' ∈ Text.trim source := by
    by_contra hno
    apply h
    rw [statementLines, Text.lines_of_not_mem hno]
    split <;> rfl
  obtain ⟨before, hlines, hlength⟩ := Text.lines_append_of_mem (source.takeWhile Text.isBlank)
    (List.mem_append_left back hbreak)
  obtain ⟨after, hafter⟩ := Text.dropLast_lines_prefix (Text.trim source) back
  have hstatements : statementLines source = (Text.lines (Text.trim source)).dropLast.tail :=
    List.tail_dropLast.symm
  have hne : (Text.lines (Text.trim source)).dropLast ≠ [] := by
    intro hnil
    rw [hstatements, hnil] at h
    exact h rfl
  refine ⟨before, after, ?_, hlength⟩
  rw [hstatements, List.append_assoc, ← List.tail_append_of_ne_nil hne, hafter, ← hlines, ← hsource]

theorem mem_zipIdx_source (h : (line, number) ∈ (statementLines source).zipIdx 2) :
    (line, leadingBreaks source + number) ∈ (Text.lines source).zipIdx 1 := by
  have hne : statementLines source ≠ [] := by
    intro hnil
    rw [hnil] at h
    cases h
  obtain ⟨before, after, hlines, hlength⟩ := lines_source hne
  rw [List.mk_mem_zipIdx_iff_le_and_getElem?_sub] at h ⊢
  obtain ⟨hle, hget⟩ := h
  have hindex : leadingBreaks source + number - 1 = before.length + (number - 2) := by omega
  have hlt : number - 2 < (statementLines source).length := (List.getElem?_eq_some_iff.1 hget).1
  refine ⟨by omega, ?_⟩
  rw [hlines, hindex, List.append_assoc, List.getElem?_append_right (Nat.le_add_right _ _),
    Nat.add_sub_cancel_left, List.getElem?_append_left hlt, hget]

/-- What a declaration without a type assigns: the text up to the first semicolon. -/
def assigned (right : Text) : Text :=
  Text.trim (right.takeWhile (· != ';'))

/-- A line declares a name with a keyword in place of a type. What stands to the right of the first equals
sign is assigned to it. -/
def DeclaresByKeyword (line right : Text) : Prop :=
  ∃ left keyword blank name, textOf line = left ++ '=' :: right ∧ '=' ∉ left ∧
    Text.trim left = keyword ++ blank :: name ∧ keyword ∈ Statement.keywords ∧
    Text.isBlank blank ∧ Java.isIdentifier (name.filter fun c => !Text.isBlank c)

/-- The line with a number declares a name by a keyword and assigns what is no literal, or a list that has
no type. -/
inductive Uninferable (number : Nat) (line : Text) : Fault → Prop where
  | notLiteral {right : Text} (hline : DeclaresByKeyword line right)
      (h : Literal.parse? (assigned right) = none) :
      Uninferable number line (.notLiteral number (assigned right))
  | notUniform {right : Text} {literal : Literal} (hline : DeclaresByKeyword line right)
      (h : Literal.parse? (assigned right) = some literal) (htype : literal.type? = none) :
      Uninferable number line (.notUniform number (assigned right))

/-- The number of the line that a fault is about. -/
def Fault.line? : Fault → Option Nat
  | .notLiteral line _ | .notUniform line _ => some line
  | _ => none

theorem Uninferable.line? (h : Uninferable number line fault) : fault.line? = some number := by
  cases h <;> rfl

theorem line?_of_parameters (h : Parameters.parse line = .error fault) : fault.line? = none := by
  rw [Parameters.parse] at h
  repeat' split at h
  all_goals cases h
  all_goals rfl

theorem declaresByKeyword {name : Text}
    (hcut : Text.cut? (· == '=') (textOf line) = some (left, right))
    (hname : Statement.keywordTarget? left = some name) : DeclaresByKeyword line right := by
  obtain ⟨htext, hleft⟩ := Text.cut?_char_iff.1 hcut
  simp only [Statement.keywordTarget?, Option.bind_eq_bind, Option.bind_eq_some_iff,
    Option.guard_eq_some', Option.pure_def, Option.some.injEq] at hname
  obtain ⟨⟨keyword, rest⟩, hword, -, hkeyword, -, hidentifier, -⟩ := hname
  obtain ⟨blank, hblank, htarget⟩ := Text.eq_of_cut? hword
  exact ⟨left, keyword, blank, rest, htext, hleft, htarget, List.contains_iff_mem.1 hkeyword, hblank,
    hidentifier⟩

theorem uninferable_of_declaration? (h : Statement.declaration? number (textOf line) = .error fault) :
    Uninferable number line fault := by
  rw [Statement.declaration?] at h
  split at h
  · cases h
  next left right hcut =>
  split at h
  · cases h
  split at h
  · cases h
  next name hname =>
  have hline := declaresByKeyword hcut hname
  simp only at h
  split at h
  · next hliteral =>
    cases h
    exact .notLiteral hline hliteral
  next literal hliteral =>
  split at h
  · next htype =>
    cases h
    exact .notUniform hline hliteral htype
  · cases h

theorem Statement.parse_error (h : Statement.parse number line = .error fault) :
    Uninferable number line fault := by
  simp only [Statement.parse] at h
  split at h
  · cases h
  · split at h
    · next hfault =>
      cases h
      exact uninferable_of_declaration? hfault
    · cases h
    · cases h

theorem parseLines_error {n : Nat} (h : Handler.parseLines n lines = .error fault) :
    ∃ number line, (line, number) ∈ lines.zipIdx n ∧ Statement.parse number line = .error fault ∧
      ∀ earlier m, (earlier, m) ∈ lines.zipIdx n → m < number →
        ∃ s, Statement.parse m earlier = .ok s := by
  induction lines generalizing n with
  | nil => cases h
  | cons first lines ih =>
    rw [Handler.parseLines] at h
    split at h
    · next hfirst =>
      cases h
      refine ⟨n, first, List.mem_cons_self, hfirst, fun earlier m hmem hlt => ?_⟩
      have := (List.mk_mem_zipIdx_iff_le_and_getElem?_sub.1 hmem).1
      omega
    next s hs =>
    split at h
    · next hrest =>
      cases h
      obtain ⟨number, line, hmem, hparse, hearlier⟩ := ih hrest
      refine ⟨number, line, List.mem_cons_of_mem _ hmem, hparse, fun earlier m hm hlt => ?_⟩
      rcases List.mem_cons.1 hm with he | hm
      · cases he
        exact ⟨s, hs⟩
      · exact hearlier earlier m hm hlt
    · cases h

theorem ofSource_error (h : Handler.ofSource source = .error fault) (hline : fault.line? = some number) :
    Handler.parseLines 2 (statementLines source) = .error fault := by
  rw [Handler.ofSource] at h
  split at h
  · cases h
    cases hline
  next first rest hlines =>
  split at h
  · next hparameters =>
    cases h
    rw [line?_of_parameters hparameters] at hline
    cases hline
  split at h
  · next hstatements =>
    cases h
    rw [statementLines, hlines]
    exact hstatements
  · cases h

/-- A declaration whose type cannot be inferred is reported with the number of its line behind the line
feeds that the source begins with: it is the first line that cannot be read, and in the source itself its
number is larger by the number of these line feeds. -/
theorem fault_line (h : Handler.ofSource source = .error fault) (hline : fault.line? = some number) :
    ∃ line, (line, number) ∈ (statementLines source).zipIdx 2 ∧
      Statement.parse number line = .error fault ∧ Uninferable number line fault ∧
      (∀ earlier m, (earlier, m) ∈ (statementLines source).zipIdx 2 → m < number →
        ∃ s, Statement.parse m earlier = .ok s) ∧
      (line, leadingBreaks source + number) ∈ (Text.lines source).zipIdx 1 := by
  obtain ⟨m, line, hmem, hparse, hearlier⟩ := parseLines_error (ofSource_error h hline)
  have hfault := Statement.parse_error hparse
  cases hfault.line?.symm.trans hline
  exact ⟨line, hmem, hparse, hfault, hearlier, mem_zipIdx_source hmem⟩

theorem fault_line_second :
    let source : Text :=
      "\r\n \n (s, c, l, a) => \x7b\n  let x = [1, 2.5];\n\n  const y = [1, 'a'];\n  let z = s;\n\x7d"
    Handler.ofSource source = .error (.notUniform 4 "[1, \"a\"]") ∧
      ∃ line, (line, 4) ∈ (statementLines source).zipIdx 2 ∧
        Statement.parse 4 line = .error (.notUniform 4 "[1, \"a\"]") ∧
        Uninferable 4 line (.notUniform 4 "[1, \"a\"]") ∧
        (line, leadingBreaks source + 4) ∈ (Text.lines source).zipIdx 1 ∧ leadingBreaks source = 2 := by
  intro source
  have h : Handler.ofSource source = .error (.notUniform 4 "[1, \"a\"]") := by rfl
  obtain ⟨line, hmem, hparse, hfault, -, hsource⟩ := fault_line h rfl
  exact ⟨h, line, hmem, hparse, hfault, hsource, by decide⟩

/-- Behind an empty line, the third line of a source is reported as the second, which is the signature. -/
theorem fault_line_differs :
    let source : Text := "\n(s, c, l, a) => \x7b\n  let y = s.getName();\n\x7d"
    Handler.ofSource source = .error (.notLiteral 2 "s.getName()") ∧
      ("  let y = s.getName();".toList, 3) ∈ (Text.lines source).zipIdx 1 ∧
      ("(s, c, l, a) => \x7b".toList, 2) ∈ (Text.lines source).zipIdx 1 := by
  refine ⟨by rfl, by decide, by decide⟩

end PluginForge.Callback
