import PluginForge.Proofs.Callback.Lines
import PluginForge.Proofs.Text.Lines

namespace PluginForge.Callback

variable {a b line w : Text} {lines tails : List Text} {n : Nat}

theorem isNormal_of_all_isBlank (hw : w.all Text.isBlank) : IsNormal w := by
  have hmark {x : Char} (hx : Text.isBlank x = false) : x ∉ w := Text.not_mem_of_all hw hx
  exact ⟨hmark (by decide), isTagFree_of_dot_not_mem (hmark (by decide))⟩

theorem normalize_append_blank (hw : w.all Text.isBlank) (line : Text) :
    Statement.normalize (line ++ w) = Statement.normalize line ++ w := by
  cases w with
  | nil => rw [List.append_nil, List.append_nil]
  | cons c w =>
    rw [List.all_cons, Bool.and_eq_true] at hw
    have hquote : c ≠ '\'' := by
      rintro rfl
      exact absurd hw.1 (by decide)
    rw [normalize_append_cons (breaksTags_of_isBlank hw.1) hquote,
      (isNormal_of_all_isBlank hw.2).normalize]

theorem textOf_append_blank (hw : w.all Text.isBlank) (hline : line.all Text.isBlank = false) :
    textOf (line ++ w) = textOf line := by
  have hne : ((Statement.normalize line).dropWhile Statement.isIndent).isEmpty = false := by
    rw [List.isEmpty_eq_false_iff]
    intro hnil
    rw [← all_dropWhile_normalize, hnil] at hline
    cases hline
  rw [textOf, normalize_append_blank hw, List.dropWhile_append, hne, if_neg Bool.false_ne_true,
    Text.trimEnd_append_blank hw]
  rfl

theorem indentOf_append (hline : line.all Text.isBlank = false) (w : Text) :
    indentOf (line ++ w) = indentOf line := by
  rw [indentOf, List.takeWhile_append, if_neg]
  · rfl
  · intro hlength
    have hall : line.takeWhile Statement.isIndent = line :=
      (List.takeWhile_prefix _).eq_of_length hlength
    rw [Bool.eq_false_iff, ne_eq, List.all_eq_true] at hline
    exact hline fun c hc => isBlank_of_isIndent (List.takeWhile_eq_self_iff.1 hall c hc)

theorem Statement.parse_append_blank (hw : w.all Text.isBlank) (n : Nat) (line : Text) :
    Statement.parse n (line ++ w) = Statement.parse n line := by
  cases hline : line.all Text.isBlank with
  | true =>
    rw [Statement.parse_eq, Statement.parse_eq, List.all_append, hline, hw, Bool.and_self, if_pos rfl,
      if_pos rfl]
  | false =>
    rw [Statement.parse_eq, Statement.parse_eq, List.all_append, hline, Bool.false_and,
      textOf_append_blank hw hline, indentOf_append hline]

theorem Parameters.parse_append_blank (hw : w.all Text.isBlank) (line : Text) :
    Parameters.parse (line ++ w) = Parameters.parse line := by
  have hmark {x : Char} (hx : Text.isBlank x = false) : ∀ c ∈ w, (c == x) = false := by
    intro c hc
    rw [beq_eq_false_iff_ne]
    rintro rfl
    exact Text.not_mem_of_all hw hx hc
  rw [Parameters.parse, Parameters.parse, Text.cut?_append (hmark (by decide)),
    Text.trim_append_blank hw]
  cases Text.cut? (· == '(') line with
  | none => rfl
  | some parts =>
    rw [Option.map_some]
    simp only
    rw [Text.cut?_append (hmark (by decide))]
    cases Text.cut? (· == ')') parts.2 <;> rfl

theorem eq_trimEnd_append (t : Text) : ∃ w : Text, t = Text.trimEnd t ++ w ∧ w.all Text.isBlank :=
  ⟨t.rtakeWhile Text.isBlank, List.rdropWhile_append_rtakeWhile.symm,
    List.all_eq_true.2 fun _ hc => List.mem_rtakeWhile_imp hc⟩

theorem Statement.parse_trimEnd (n : Nat) (line : Text) :
    Statement.parse n (Text.trimEnd line) = Statement.parse n line := by
  obtain ⟨w, hline, hw⟩ := eq_trimEnd_append line
  rw [← Statement.parse_append_blank hw n (Text.trimEnd line), ← hline]

theorem Parameters.parse_trimEnd (line : Text) :
    Parameters.parse (Text.trimEnd line) = Parameters.parse line := by
  obtain ⟨w, hline, hw⟩ := eq_trimEnd_append line
  rw [← Parameters.parse_append_blank hw (Text.trimEnd line), ← hline]

theorem parseLines_trimEnd (n : Nat) (lines : List Text) :
    Handler.parseLines n (lines.map Text.trimEnd) = Handler.parseLines n lines := by
  induction lines generalizing n with
  | nil => rfl
  | cons line lines ih =>
    rw [List.map_cons, Handler.parseLines, Handler.parseLines, Statement.parse_trimEnd, ih]

/-- A handler goes by the lines of its source up to the blanks at their ends. -/
theorem ofSource_congr (h : (Text.lines (Text.trim a)).map Text.trimEnd =
    (Text.lines (Text.trim b)).map Text.trimEnd) : Handler.ofSource a = Handler.ofSource b := by
  rw [Handler.ofSource, Handler.ofSource]
  cases ha : Text.lines (Text.trim a) with
  | nil =>
    rw [ha, List.map_nil, eq_comm, List.map_eq_nil_iff] at h
    rw [h]
  | cons first rest =>
    cases hb : Text.lines (Text.trim b) with
    | nil =>
      rw [ha, hb] at h
      cases h
    | cons first' rest' =>
      rw [ha, hb, List.map_cons, List.map_cons, List.cons_eq_cons] at h
      have hparameters : Parameters.parse first = Parameters.parse first' := by
        rw [← Parameters.parse_trimEnd first, h.1, Parameters.parse_trimEnd]
      have hstatements : Handler.parseLines 2 rest.dropLast = Handler.parseLines 2 rest'.dropLast := by
        rw [← parseLines_trimEnd 2 rest.dropLast, List.map_dropLast, h.2, ← List.map_dropLast,
          parseLines_trimEnd]
      simp only [hparameters, hstatements]

theorem ofSource_append_blank (hw : w.all Text.isBlank) (hn : '\n' ∉ w) (a b : Text) :
    Handler.ofSource (a ++ w ++ '\n' :: b) = Handler.ofSource (a ++ '\n' :: b) :=
  ofSource_congr (Text.lines_trim_append_blank hw hn a b)

/-- A piece of white space that goes behind a line. -/
def IsTail (w : Text) : Prop :=
  w.all Text.isBlank ∧ '\n' ∉ w

/-- Behind a text that is left as it is, the lines can be changed at their ends one after another. -/
theorem ofSource_tails (hlength : tails.length = lines.length) (htails : ∀ tail ∈ tails, IsTail tail)
    (front : Text) :
    Handler.ofSource (front ++ Text.join "\n" (List.zipWith (· ++ ·) lines tails)) =
      Handler.ofSource (front ++ Text.join "\n" lines) := by
  induction lines generalizing front tails with
  | nil => rfl
  | cons line lines ih =>
    obtain ⟨tail, tails, rfl⟩ := List.exists_cons_of_length_eq_add_one hlength
    rw [List.forall_mem_cons] at htails
    obtain ⟨⟨hblank, hfeed⟩, htails⟩ := htails
    rw [List.length_cons, List.length_cons, Nat.add_right_cancel_iff] at hlength
    cases lines with
    | nil =>
      rw [List.length_nil, List.length_eq_zero_iff] at hlength
      subst hlength
      apply ofSource_congr
      simp only [List.zipWith_cons_cons, List.zipWith_nil_left, Text.join,
        List.intercalate_singleton]
      rw [← List.append_assoc, Text.trim_append_blank hblank]
    | cons next lines =>
      obtain ⟨tail', tails, rfl⟩ := List.exists_cons_of_length_eq_add_one hlength
      have hrest := ih hlength htails (front ++ line ++ ['\n'])
      have hone := ofSource_append_blank hblank hfeed (front ++ line)
        (Text.join "\n" (List.zipWith (· ++ ·) (next :: lines) (tail' :: tails)))
      rw [List.zipWith_cons_cons, List.zipWith_cons_cons, Text.join_cons_cons, Text.join_cons_cons,
        ← List.zipWith_cons_cons]
      simp only [List.append_assoc, List.cons_append, List.nil_append] at hrest hone ⊢
      exact hone.trans hrest

theorem ofSource_trimEnd (source : Text) :
    Handler.ofSource (Text.join "\n" ((Text.splitOn '\n' source).map Text.trimEnd)) =
      Handler.ofSource source := by
  let lines := Text.splitOn '\n' source
  let blanks (line : Text) : Text := line.rtakeWhile Text.isBlank
  have htails : ∀ tail ∈ lines.map blanks, IsTail tail := by
    intro tail htail
    obtain ⟨line, hline, rfl⟩ := List.mem_map.1 htail
    refine ⟨List.all_eq_true.2 fun _ hc => List.mem_rtakeWhile_imp hc, fun hm => ?_⟩
    exact Text.not_mem_of_mem_splitOn hline ((List.rtakeWhile_suffix _ _).subset hm)
  have hjoin : List.zipWith (· ++ ·) (lines.map Text.trimEnd) (lines.map blanks) = lines := by
    rw [List.zipWith_map, List.zipWith_self]
    refine (List.map_congr_left fun line _ => ?_).trans (List.map_id lines)
    exact List.rdropWhile_append_rtakeWhile
  have hlength : (lines.map blanks).length = (lines.map Text.trimEnd).length := by
    rw [List.length_map, List.length_map]
  have hsame := ofSource_tails hlength htails []
  rw [hjoin] at hsame
  rw [← List.nil_append (Text.join _ _), ← hsame]
  exact congrArg Handler.ofSource (Text.join_splitOn '\n' source)

/-- White space behind its lines does not change what a source is taken for, be it a handler or a fault: it
can be put there, and sources whose lines differ by it are taken for the same. -/
theorem ofSource_line_ends (source : Text) :
    (∀ tails : List Text, tails.length = (Text.splitOn '\n' source).length →
      (∀ tail ∈ tails, IsTail tail) →
        Handler.ofSource
            (Text.join "\n" (List.zipWith (· ++ ·) (Text.splitOn '\n' source) tails)) =
          Handler.ofSource source) ∧
      ∀ other, (Text.splitOn '\n' other).map Text.trimEnd =
          (Text.splitOn '\n' source).map Text.trimEnd →
        Handler.ofSource other = Handler.ofSource source := by
  constructor
  · intro tails hlength htails
    have h := ofSource_tails hlength htails []
    rw [List.nil_append, List.nil_append] at h
    exact h.trans (congrArg Handler.ofSource (Text.join_splitOn '\n' source))
  · intro other h
    rw [← ofSource_trimEnd other, h, ofSource_trimEnd]

/-- With carriage returns, tabs and other blanks behind its lines, a source has the same handler, or the same
fault on the same line. -/
theorem ofSource_line_ends_returns :
    let source : Text := "\n(s, c, l, a) => \x7b\n\n  s.say('hi')\n\x7d\n"
    let tails : List Text := ["\t", "\r\r", "\u3000", " \r", "\x0b", "\r"]
    let handler : Handler := ⟨⟨"s", "c", "l", "a"⟩, "\ns.say(\"hi\");\nreturn true;"⟩
    let wrong : Text := "(s, c, l, a) => \x7b\r\n\r\n  let x = s;\r\n\x7d"
    (∀ tail ∈ tails, IsTail tail) ∧ Handler.ofSource source = .ok handler ∧
      Handler.ofSource
          "\t\n(s, c, l, a) => \x7b\r\r\n\u3000\n  s.say('hi') \r\n\x7d\x0b\n\r" =
        .ok handler ∧
      Handler.ofSource wrong = .error (.notLiteral 3 "s") ∧
      Handler.ofSource "(s, c, l, a) => \x7b \n\n  let x = s;\u2028\n\x7d" =
        .error (.notLiteral 3 "s") := by
  intro source tails handler wrong
  have htails : ∀ tail ∈ tails, tail.all Text.isBlank ∧ '\n' ∉ tail := by decide
  have hsource : Handler.ofSource source = .ok handler := by rfl
  have hwrong : Handler.ofSource wrong = .error (.notLiteral 3 "s") := by rfl
  refine ⟨htails, hsource, ?_, hwrong, ?_⟩
  · have hsame := (ofSource_line_ends source).1 tails (by decide) htails
    have hjoin : Text.join "\n" (List.zipWith (· ++ ·) (Text.splitOn '\n' source) tails) =
        "\t\n(s, c, l, a) => \x7b\r\r\n\u3000\n  s.say('hi') \r\n\x7d\x0b\n\r".toList := by
      decide
    rw [hjoin, hsource] at hsame
    exact hsame
  · rw [← hwrong]
    exact (ofSource_line_ends wrong).2 _ (by decide)

end PluginForge.Callback
