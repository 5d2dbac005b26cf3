import PluginForge.Proofs.Callback.Lines

namespace PluginForge.Callback

variable {line source : Text} {lines : List Text} {n strip : Nat} {s : Statement}
  {statements : List Statement} {handler : Handler}

/-- The lines of a callback's source that hold its statements: all but the first and the last. -/
def statementLines (source : Text) : List Text :=
  (Text.lines (Text.trim source)).tail.dropLast

/-- The widths of the indentations of the lines that are not blank. -/
def indentWidths (lines : List Text) : List Nat :=
  (lines.filter fun line => !line.all Text.isBlank).map fun line => (indentOf line).length

/-- The smallest indentation that a line which is not blank has. -/
def leastIndent (lines : List Text) : Nat :=
  (indentWidths lines).min?.getD 0

/-- What one line of a source becomes in a body that leaves out `strip` characters of indentation;
`number` is the number of the line. -/
inductive Emission (strip number : Nat) (line : Text) : Text → Prop where
  | blank (hblank : line.all Text.isBlank = true) (hparse : Statement.parse number line = .ok .blank) :
      Emission strip number line []
  | declaration (type : Java.Ty) (name value : Text) (hblank : line.all Text.isBlank = false)
      (hparse : Statement.parse number line =
        .ok (.declaration (indentOf line) type name value)) :
      Emission strip number line
        ((indentOf line).drop strip ++ (type.name ++ " " ++ name ++ "=" ++ value ++ ";"))
  | raw (text terminator : Text) (hblank : line.all Text.isBlank = false)
      (hparse : Statement.parse number line = .ok (.raw (indentOf line) text))
      (htext : indentOf line ++ text = Text.trimEnd (Statement.normalize line))
      (hterminator : terminator = [] ∨ terminator = [';']) :
      Emission strip number line ((indentOf line).drop strip ++ (text ++ terminator))

theorem Statement.emission (h : Statement.parse n line = .ok s) (strip : Nat) :
    Emission strip n line (s.emit strip) := by
  rcases Statement.parse_cases h with ⟨hb, rfl⟩ | ⟨hb, rfl⟩ | ⟨hb, type, name, value, -, rfl⟩
  · exact .blank hb h
  · rw [Statement.emit, List.append_assoc]
    refine .raw (textOf line) _ hb h (indentOf_append_textOf hb) ?_
    split
    · exact .inr rfl
    · exact .inl rfl
  · have hd : Emission strip n line _ := .declaration type name value hb h
    simp only [← List.append_assoc] at hd
    exact hd

theorem indent?_of_parse (h : Statement.parse n line = .ok s) :
    s.indent? = if line.all Text.isBlank then none else some (indentOf line) := by
  rcases Statement.parse_cases h with ⟨hb, rfl⟩ | ⟨hb, rfl⟩ | ⟨hb, type, name, value, -, rfl⟩ <;>
    rw [hb] <;> rfl

theorem mem_indentWidths {width : Nat} :
    width ∈ indentWidths lines ↔
      ∃ line ∈ lines, line.all Text.isBlank = false ∧ (indentOf line).length = width := by
  simp only [indentWidths, List.mem_map, List.mem_filter, Bool.not_eq_true', and_assoc]

theorem min?_indentWidths (hl : line ∈ lines) (hb : line.all Text.isBlank = false) :
    (indentWidths lines).min? = some (leastIndent lines) := by
  have hmem := mem_indentWidths.2 ⟨line, hl, hb, rfl⟩
  rw [leastIndent]
  cases hm : (indentWidths lines).min? with
  | none =>
    rw [List.min?_eq_none_iff.1 hm] at hmem
    exact absurd hmem List.not_mem_nil
  | some least => rfl

theorem leastIndent_le (hl : line ∈ lines) (hb : line.all Text.isBlank = false) :
    leastIndent lines ≤ (indentOf line).length := by
  obtain ⟨-, hle⟩ := List.min?_eq_some_iff.1 (min?_indentWidths hl hb)
  exact hle _ (mem_indentWidths.2 ⟨line, hl, hb, rfl⟩)

theorem exists_leastIndent (hl : line ∈ lines) (hb : line.all Text.isBlank = false) :
    ∃ line ∈ lines, line.all Text.isBlank = false ∧
      (indentOf line).length = leastIndent lines := by
  obtain ⟨hmem, -⟩ := List.min?_eq_some_iff.1 (min?_indentWidths hl hb)
  exact mem_indentWidths.1 hmem

theorem parseLines_cons (h : Handler.parseLines n (line :: lines) = .ok statements) :
    ∃ s rest, Statement.parse n line = .ok s ∧ Handler.parseLines (n + 1) lines = .ok rest ∧
      statements = s :: rest := by
  rw [Handler.parseLines] at h
  split at h
  · cases h
  next s hs =>
  split at h
  · cases h
  next rest hrest =>
  cases h
  exact ⟨s, rest, hs, hrest, rfl⟩

/-- Reading lines keeps them apart and in order: each statement is that of its own line. -/
theorem parseLines_getElem? (h : Handler.parseLines n lines = .ok statements) :
    statements.length = lines.length ∧
      ∀ i line, lines[i]? = some line →
        ∃ s, statements[i]? = some s ∧ Statement.parse (n + i) line = .ok s := by
  induction lines generalizing n statements with
  | nil =>
    cases h
    exact ⟨rfl, fun i line hi => by cases hi⟩
  | cons first lines ih =>
    obtain ⟨s, rest, hs, hrest, rfl⟩ := parseLines_cons h
    obtain ⟨hlength, hall⟩ := ih hrest
    refine ⟨congrArg (· + 1) hlength, fun i line hi => ?_⟩
    cases i with
    | zero =>
      cases hi
      exact ⟨s, rfl, hs⟩
    | succ i =>
      obtain ⟨s, hs, hparse⟩ := hall i line hi
      refine ⟨s, hs, ?_⟩
      rw [Nat.add_comm i 1, ← Nat.add_assoc]
      exact hparse

theorem indents_parseLines (h : Handler.parseLines n lines = .ok statements) :
    statements.filterMap Statement.indent? =
      (lines.filter fun line => !line.all Text.isBlank).map indentOf := by
  induction lines generalizing n statements with
  | nil =>
    cases h
    rfl
  | cons first lines ih =>
    obtain ⟨s, rest, hs, hrest, rfl⟩ := parseLines_cons h
    rw [List.filterMap_cons, indent?_of_parse hs, List.filter_cons, ih hrest]
    cases first.all Text.isBlank <;> rfl

theorem commonIndent_parseLines (h : Handler.parseLines n lines = .ok statements) :
    commonIndent statements = leastIndent lines := by
  rw [commonIndent, indents_parseLines h, List.map_map, leastIndent, indentWidths]
  rfl

theorem statementLines_length (source : Text) :
    (statementLines source).length = (Text.lines (Text.trim source)).length - 2 := by
  rw [statementLines, List.length_dropLast, List.length_tail]
  omega

theorem newline_not_mem_of_mem_statementLines (h : line ∈ statementLines source) : '\n' ∉ line :=
  Text.not_mem_of_mem_lines (List.mem_of_mem_tail (List.dropLast_subset _ h))

theorem ofSource_parts (h : Handler.ofSource source = .ok handler) :
    ∃ first rest parameters statements, Text.lines (Text.trim source) = first :: rest ∧
      Parameters.parse first = .ok parameters ∧
      Handler.parseLines 2 (statementLines source) = .ok statements ∧
      handler = ⟨parameters, body statements⟩ := by
  rw [Handler.ofSource] at h
  split at h
  · cases h
  next first rest hlines =>
  split at h
  · cases h
  next parameters hparameters =>
  split at h
  · cases h
  next statements hstatements =>
  cases h
  rw [statementLines, hlines]
  exact ⟨first, rest, parameters, statements, rfl, hparameters, hstatements, rfl⟩

theorem ofSource_cases (h : Handler.ofSource source = .ok handler) :
    ∃ statements, Handler.parseLines 2 (statementLines source) = .ok statements ∧
      handler.body = body statements := by
  obtain ⟨first, rest, parameters, statements, -, -, hstatements, rfl⟩ := ofSource_parts h
  exact ⟨statements, hstatements, rfl⟩

/-- The lines of a body are one for each statement and the return: no statement holds a line break. -/
theorem splitOn_body (h : Handler.parseLines n lines = .ok statements)
    (hlines : ∀ line ∈ lines, '\n' ∉ line) :
    Text.splitOn '\n' (body statements) = bodyLines statements := by
  obtain ⟨hlength, hall⟩ := parseLines_getElem? h
  refine Text.splitOn_join (fun part hpart => ?_) (by simp [bodyLines])
  rcases List.mem_append.1 hpart with hpart | hpart
  · obtain ⟨s, hs, rfl⟩ := List.mem_map.1 hpart
    obtain ⟨i, hi, rfl⟩ := List.mem_iff_getElem.1 hs
    have hline := List.getElem?_eq_getElem (hlength ▸ hi)
    obtain ⟨s, hs, hparse⟩ := hall i _ hline
    rw [List.getElem?_eq_getElem hi, Option.some.injEq] at hs
    rw [hs]
    exact Statement.newline_not_mem_emit hparse (hlines _ (List.getElem_mem _))
  · rw [List.mem_singleton.1 hpart]
    decide

/-- The body of a handler has a line for each line of its source between the first and the last, in
their order, and one more that returns. A line that is not blank loses the indentation that all of
them share, and no more than that. -/
theorem ofSource_body (h : Handler.ofSource source = .ok handler) :
    ∃ emitted,
      Text.splitOn '\n' handler.body = emitted ++ [successReturn] ∧
      (Text.splitOn '\n' handler.body).length = (Text.lines (Text.trim source)).length - 2 + 1 ∧
      emitted.length = (statementLines source).length ∧
      (∀ i line, (statementLines source)[i]? = some line →
        ∃ out, emitted[i]? = some out ∧
          Emission (leastIndent (statementLines source)) (i + 2) line out) ∧
      (∀ line ∈ statementLines source, line.all Text.isBlank = false →
        leastIndent (statementLines source) ≤ (indentOf line).length) ∧
      ((∃ line ∈ statementLines source, line.all Text.isBlank = false) →
        ∃ line ∈ statementLines source, line.all Text.isBlank = false ∧
          (indentOf line).length = leastIndent (statementLines source)) := by
  obtain ⟨statements, hparse, hbody⟩ := ofSource_cases h
  obtain ⟨hlength, hall⟩ := parseLines_getElem? hparse
  have hsplit := splitOn_body hparse fun line hl => newline_not_mem_of_mem_statementLines hl
  have hcommon := commonIndent_parseLines hparse
  refine ⟨statements.map (Statement.emit (leastIndent (statementLines source))), ?_, ?_, ?_, ?_,
    fun line hl hb => leastIndent_le hl hb, fun ⟨line, hl, hb⟩ => exists_leastIndent hl hb⟩
  · rw [hbody, hsplit, bodyLines, hcommon]
  · rw [hbody, hsplit, bodyLines, List.length_append, List.length_map, hlength,
      statementLines_length, List.length_singleton]
  · rw [List.length_map, hlength]
  · intro i line hi
    obtain ⟨s, hs, hparse⟩ := hall i line hi
    refine ⟨s.emit (leastIndent (statementLines source)), ?_, ?_⟩
    · rw [List.getElem?_map, hs]
      rfl
    · rw [Nat.add_comm i 2]
      exact Statement.emission hparse _

theorem ofSource_body_greeting :
    Handler.ofSource
        "(s, c, l, a) => \x7b\n  let hi = 'hi';\n\n    s.sendMessage(hi)\n\x7d" =
      .ok ⟨⟨"s", "c", "l", "a"⟩, "String hi=\"hi\";\n\n  s.sendMessage(hi);\nreturn true;"⟩ ∧
    ∃ emitted,
      Text.splitOn '\n' "String hi=\"hi\";\n\n  s.sendMessage(hi);\nreturn true;" =
        emitted ++ [successReturn] ∧
      emitted.length = 3 ∧
      ∃ out, emitted[2]? = some out ∧ Emission 2 4 "    s.sendMessage(hi)" out := by
  have h : Handler.ofSource
        "(s, c, l, a) => \x7b\n  let hi = 'hi';\n\n    s.sendMessage(hi)\n\x7d" =
      .ok ⟨⟨"s", "c", "l", "a"⟩, "String hi=\"hi\";\n\n  s.sendMessage(hi);\nreturn true;"⟩ := by
    rfl
  obtain ⟨emitted, hsplit, -, hlength, hall, -, -⟩ := ofSource_body h
  exact ⟨h, emitted, hsplit, hlength.trans (by decide), hall 2 _ (by decide)⟩

end PluginForge.Callback
