import PluginForge.Proofs.Callback.Declaration
import PluginForge.Proofs.Text.Lines

namespace PluginForge.Callback

variable {behind front left line name right segment text value : Text} {n : Nat} {type : Java.Ty}
  {s : Statement}

/-- A text begins by declaring a name with a type and a value. Behind a list there is at most a semicolon;
behind any other value there is nothing, or whatever goes on with a semicolon. -/
inductive Declares : (front behind : Text) → Java.Ty → (name value : Text) → Prop where
  | list {left name gap segment behind : Text} {element : Java.Scalar} (hleft : '=' ∉ left)
      (htarget : Statement.arrayTarget? left = some (element, name)) (hgap : gap.all Text.isBlank)
      (hsegment : ']' ∉ segment) (hbehind : IsTerminator behind) :
      Declares (left ++ '=' :: (gap ++ '[' :: (segment ++ [']']))) behind (.array element) name
        (Statement.arrayValue element segment)
  | literal {left name source behind : Text} {literal : Literal} {type : Java.Ty} (hleft : '=' ∉ left)
      (htarget : Statement.keywordTarget? left = some name) (hsource : ';' ∉ source)
      (hbehind : ∀ c ∈ behind.head?, c = ';') (hliteral : Literal.parse? source = some literal)
      (htype : literal.type? = some type) :
      Declares (left ++ '=' :: source) behind type name (literal.java type)

theorem declares_of_declaration? (h : Statement.declaration? n text = .ok (some (type, name, value))) :
    ∃ front behind, text = front ++ behind ∧ Declares front behind type name value := by
  rw [Statement.declaration?] at h
  split at h
  · cases h
  next left right hcut =>
  obtain ⟨rfl, hleft⟩ := Text.cut?_char_iff.1 hcut
  split at h
  · next element name' htarget =>
    obtain ⟨segment, hsegment, he⟩ := Option.map_eq_some_iff.1 (Except.ok.inj h)
    cases he
    obtain ⟨gap, behind, rfl, hgap, hclose, hbehind⟩ := bracketed?_eq_some_iff.1 hsegment
    exact ⟨_, behind, by simp, .list hleft htarget hgap hclose hbehind⟩
  split at h
  · cases h
  next name' htarget =>
  simp only [parse?_trim] at h
  split at h
  · cases h
  next literal hliteral =>
  split at h
  · cases h
  next type' htype =>
  cases h
  refine ⟨left ++ '=' :: right.takeWhile (· != ';'), right.dropWhile (· != ';'), ?_,
    .literal hleft htarget (fun hmem => ?_) (fun c hc => ?_) hliteral htype⟩
  · rw [List.append_assoc, List.cons_append, List.takeWhile_append_dropWhile]
  · exact absurd (List.mem_takeWhile_imp hmem) (by decide)
  · have hstop := List.head?_dropWhile_not (· != ';') right
    rw [Option.mem_def.1 hc] at hstop
    simpa using hstop

theorem Declares.declaration? (h : Declares front behind type name value) (n : Nat) :
    Statement.declaration? n (front ++ behind) = .ok (some (type, name, value)) := by
  have hequals {left : Text} (hleft : '=' ∉ left) (right : Text) :
      Text.cut? (· == '=') (left ++ '=' :: right) = some (left, right) :=
    Text.cut?_char_iff.2 ⟨rfl, hleft⟩
  cases h with
  | @list left name gap segment behind element hleft htarget hgap hsegment hbehind =>
    have hlist := bracketed?_eq_some_iff.2 ⟨gap, behind, rfl, hgap, hsegment, hbehind⟩
    have htext : left ++ '=' :: (gap ++ '[' :: (segment ++ [']'])) ++ behind =
        left ++ '=' :: (gap ++ '[' :: (segment ++ ']' :: behind)) := by
      simp
    rw [Statement.declaration?, htext, hequals hleft]
    simp only [htarget, hlist]
    rfl
  | @literal left name source behind literal type hleft htarget hsource hbehind hliteral htype =>
    have hkeep : ∀ c ∈ source, (c != ';') = true := by
      intro c hc
      rw [bne_iff_ne]
      rintro rfl
      exact hsource hc
    have htake : (source ++ behind).takeWhile (· != ';') = source := by
      rw [List.takeWhile_append_of_pos hkeep]
      cases behind with
      | nil => rw [List.takeWhile_nil, List.append_nil]
      | cons c behind =>
        rw [hbehind c rfl, List.takeWhile_cons, bne_self_eq_false, if_neg Bool.false_ne_true,
          List.append_nil]
    rw [Statement.declaration?, List.append_assoc, List.cons_append, hequals hleft]
    simp only [arrayTarget?_of_keywordTarget? htarget, htarget, htake, parse?_trim, hliteral, htype]

/-- Behind a value that is no list, anything can stand behind a semicolon. -/
theorem Declares.replace (h : Declares front behind type name value) (hbehind : ¬IsTerminator behind)
    (other : Text) : Declares front (';' :: other) type name value := by
  cases h with
  | list hleft htarget hgap hsegment hterminator => exact absurd hterminator hbehind
  | literal hleft htarget hsource hstop hliteral htype =>
    exact .literal hleft htarget hsource (fun c hc => (Option.some.inj hc).symm) hliteral htype

theorem Declares.lost (h : Declares front behind type name value) (hbehind : ¬IsTerminator behind) :
    ∃ lost, behind = ';' :: lost ∧ lost.all Text.isBlank = false := by
  cases h with
  | list hleft htarget hgap hsegment hterminator => exact absurd hterminator hbehind
  | literal hleft htarget hsource hstop hliteral htype =>
    cases behind with
    | nil => exact absurd (.inl rfl) hbehind
    | cons c lost =>
      rw [hstop c rfl] at hbehind ⊢
      rw [isTerminator_semicolon, Bool.not_eq_true] at hbehind
      exact ⟨lost, rfl, hbehind⟩

/-- A line is passed on whole or declares a name. Behind what it declares there is at most a semicolon, or
there is more behind the semicolon of a declaration by keyword: then this is lost, and the line would be
read the same with anything else in its place. -/
theorem parse_behind_value (h : Statement.parse n line = .ok s) :
    match s with
    | .blank => line.all Text.isBlank = true
    | .raw indent text => indent ++ text = Text.trimEnd (Statement.normalize line)
    | .declaration indent type name value =>
      indent = indentOf line ∧
        ∃ front behind, textOf line = front ++ behind ∧ Declares front behind type name value ∧
          (IsTerminator behind ∨
            ∃ lost, behind = ';' :: lost ∧ lost.all Text.isBlank = false ∧
              ∀ other line', line'.all Text.isBlank = false → indentOf line' = indentOf line →
                textOf line' = front ++ ';' :: other → Statement.parse n line' = .ok s) := by
  rcases Statement.parse_cases h with ⟨hb, rfl⟩ | ⟨hb, rfl⟩ | ⟨hb, type, name, value, hd, rfl⟩
  · exact hb
  · exact indentOf_append_textOf hb
  · obtain ⟨front, behind, htext, hdeclares⟩ := declares_of_declaration? hd
    refine ⟨rfl, front, behind, htext, hdeclares, ?_⟩
    by_cases hterminator : IsTerminator behind
    · exact .inl hterminator
    · obtain ⟨lost, hlost, hblank⟩ := hdeclares.lost hterminator
      refine .inr ⟨lost, hlost, hblank, fun other line' hb' hindent htext' => ?_⟩
      rw [Statement.parse_eq, hb', htext', (hdeclares.replace hterminator other).declaration?, hindent]
      rfl

theorem parse_behind_value_call :
    Statement.parse 1 "let n = 5; s.stop();" = .ok (.declaration [] (.scalar .int) "n" "5") ∧
      ∃ front behind, textOf "let n = 5; s.stop();" = front ++ behind ∧
        Declares front behind (.scalar .int) "n" "5" ∧
        (IsTerminator behind ∨
          ∃ lost, behind = ';' :: lost ∧ lost.all Text.isBlank = false ∧
            ∀ other line', line'.all Text.isBlank = false →
              indentOf line' = indentOf "let n = 5; s.stop();" → textOf line' = front ++ ';' :: other →
              Statement.parse 1 line' = .ok (.declaration [] (.scalar .int) "n" "5")) := by
  have hparse : Statement.parse 1 "let n = 5; s.stop();" =
      .ok (.declaration [] (.scalar .int) "n" "5") := by
    decide +kernel
  exact ⟨hparse, (parse_behind_value hparse).2⟩

/-- A call behind a declared number is dropped. Behind a tagged number and behind a tagged list the line is
passed on with its call. -/
theorem parse_behind_value_differs :
    Statement.parse 1 "let n = 5; s.stop();" = .ok (.declaration [] (.scalar .int) "n" "5") ∧
      textOf "let n = 5; s.stop();" = "let n = 5".toList ++ "; s.stop();".toList ∧
      ¬IsTerminator "; s.stop();" ∧
      Statement.parse 1 "java.int.n = 5; s.stop();" = .ok (.raw [] "int n = 5; s.stop();") ∧
      Statement.parse 1 "java.Array.int.n = [5]; s.stop();" =
        .ok (.raw [] "int[] n = [5]; s.stop();") := by
  refine ⟨?_, ?_, ?_, ?_, ?_⟩
  · decide +kernel
  · decide
  · decide
  · rfl
  · rfl

end PluginForge.Callback
