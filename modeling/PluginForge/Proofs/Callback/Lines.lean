import PluginForge.Proofs.Callback.Brackets
import PluginForge.Proofs.Callback.Breaks
import PluginForge.Proofs.Callback.Tags

namespace PluginForge.Callback

variable {indent left line name segment text value : Text} {n k : Nat} {s : Statement}

theorem isBlank_of_isIndent {c : Char} (h : Statement.isIndent c) : Text.isBlank c := by
  rw [Statement.isIndent, Bool.or_eq_true, beq_iff_eq, beq_iff_eq] at h
  rcases h with rfl | rfl <;> decide

theorem isIndent_eq_false {c : Char} (h : Text.isBlank c = false) : Statement.isIndent c = false := by
  rw [Bool.eq_false_iff] at h ⊢
  exact mt isBlank_of_isIndent h

def indentOf (line : Text) : Text :=
  line.takeWhile Statement.isIndent

/-- A line with Java's quotes and types, without its indentation and the blanks at its end. -/
def textOf (line : Text) : Text :=
  Text.trimEnd ((Statement.normalize line).dropWhile Statement.isIndent)

theorem indentOf_normalizeQuotes (line : Text) : indentOf (normalizeQuotes line) = indentOf line := by
  induction line with
  | nil => rfl
  | cons c line ih =>
    rw [normalizeQuotes, List.map_cons, indentOf, indentOf, List.takeWhile_cons, List.takeWhile_cons]
    by_cases hc : c = '\''
    · rw [if_pos hc, hc]
      rfl
    · rw [if_neg hc]
      split
      · exact congrArg (c :: ·) ih
      · rfl

theorem all_normalizeQuotes (line : Text) :
    (normalizeQuotes line).all Text.isBlank = line.all Text.isBlank := by
  induction line with
  | nil => rfl
  | cons c line ih =>
    rw [normalizeQuotes, List.map_cons, List.all_cons, List.all_cons]
    by_cases hc : c = '\''
    · rw [if_pos hc, hc]
      rfl
    · rw [if_neg hc]
      exact congrArg (Text.isBlank c && ·) ih

def IsMark (t : Text) : Prop :=
  ∃ c rest, t = c :: rest ∧ Text.isBlank c = false

theorem IsMark.append {a : Text} (h : IsMark a) (b : Text) : IsMark (a ++ b) := by
  obtain ⟨c, rest, rfl, hc⟩ := h
  exact ⟨c, rest ++ b, rfl, hc⟩

theorem isMark_type (type : Java.Scalar) : IsMark type.name := by
  cases type <;> exact ⟨_, _, rfl, by decide⟩

theorem isMark_scalarTag (type : Java.Scalar) : IsMark (scalarTag type) := by
  have hjava : IsMark ("java." : Text) := ⟨_, _, rfl, by decide⟩
  exact (hjava.append type.name).append ".".toList

theorem isMark_arrayTag (type : Java.Scalar) : IsMark (arrayTag type) := by
  have hjava : IsMark ("java.Array." : Text) := ⟨_, _, rfl, by decide⟩
  exact (hjava.append type.name).append ".".toList

theorem indentOf_replaceAll {old new : Text} (ho : IsMark old) (hn : IsMark new) (t : Text) :
    indentOf (Text.replaceAll old new t) = indentOf t := by
  obtain ⟨o, old, rfl, ho⟩ := ho
  obtain ⟨n, new, rfl, hn⟩ := hn
  exact Text.takeWhile_replaceAll (isIndent_eq_false ho) (isIndent_eq_false hn) old new t

theorem all_replaceAll {old new : Text} (ho : IsMark old) (hn : IsMark new) (t : Text) :
    (Text.replaceAll old new t).all Text.isBlank = t.all Text.isBlank := by
  obtain ⟨o, old, rfl, ho⟩ := ho
  obtain ⟨n, new, rfl, hn⟩ := hn
  apply Text.all_replaceAll
  · rw [List.all_cons, ho, Bool.false_and]
  · rw [List.all_cons, hn, Bool.false_and]

theorem indentOf_replaceTagsOf (line : Text) (type : Java.Scalar) :
    indentOf (replaceTagsOf line type) = indentOf line := by
  rw [replaceTagsOf, indentOf_replaceAll (isMark_scalarTag type) ((isMark_type type).append _),
    indentOf_replaceAll (isMark_arrayTag type) ((isMark_type type).append _)]

theorem all_replaceTagsOf (line : Text) (type : Java.Scalar) :
    (replaceTagsOf line type).all Text.isBlank = line.all Text.isBlank := by
  rw [replaceTagsOf, all_replaceAll (isMark_scalarTag type) ((isMark_type type).append _),
    all_replaceAll (isMark_arrayTag type) ((isMark_type type).append _)]

theorem indentOf_normalize (line : Text) : indentOf (Statement.normalize line) = indentOf line := by
  apply normalize_induction (fun t => indentOf t = indentOf line) (indentOf_normalizeQuotes line)
  intro t type ht
  exact (indentOf_replaceTagsOf t type).trans ht

theorem all_normalize (line : Text) :
    (Statement.normalize line).all Text.isBlank = line.all Text.isBlank := by
  apply normalize_induction (fun t => t.all Text.isBlank = line.all Text.isBlank)
    (all_normalizeQuotes line)
  intro t type ht
  exact (all_replaceTagsOf t type).trans ht

theorem newline_not_mem_normalize (h : '\n' ∉ line) : '\n' ∉ Statement.normalize line :=
  not_mem_normalize (by decide) (fun type => by cases type <;> decide) h

theorem all_dropWhile_normalize (line : Text) :
    ((Statement.normalize line).dropWhile Statement.isIndent).all Text.isBlank =
      line.all Text.isBlank := by
  have hindent : ((Statement.normalize line).takeWhile Statement.isIndent).all Text.isBlank :=
    List.all_eq_true.2 fun c hc => isBlank_of_isIndent (List.mem_takeWhile_imp hc)
  have hsplit := List.takeWhile_append_dropWhile (p := Statement.isIndent)
    (l := Statement.normalize line)
  rw [← all_normalize line, ← congrArg (List.all · Text.isBlank) hsplit, List.all_append, hindent,
    Bool.true_and]

theorem newline_not_mem_indentOf (h : '\n' ∉ line) : '\n' ∉ indentOf line := fun hm =>
  h ((List.takeWhile_prefix Statement.isIndent).subset hm)

theorem newline_not_mem_textOf (h : '\n' ∉ line) : '\n' ∉ textOf line := fun hm =>
  newline_not_mem_normalize h
    ((List.dropWhile_sublist Statement.isIndent).subset (Text.trimEnd_subset _ hm))

theorem all_textOf (h : line.all Text.isBlank = false) : (textOf line).all Text.isBlank = false := by
  rw [← Bool.not_eq_true, ← Text.trim_eq_nil_iff, textOf, Text.trim_trimEnd, Text.trim_eq_nil_iff,
    all_dropWhile_normalize, h]
  exact Bool.false_ne_true

theorem trimEnd_textOf (line : Text) : Text.trimEnd (textOf line) = textOf line :=
  List.rdropWhile_idempotent Text.isBlank _

theorem isIndent_head_textOf (line : Text) : ∀ c ∈ (textOf line).head?, Statement.isIndent c = false :=
  Text.head?_dropEndWhile_dropWhile Statement.isIndent Text.isBlank (Statement.normalize line)

theorem indentOf_append_textOf (h : line.all Text.isBlank = false) :
    indentOf line ++ textOf line = Text.trimEnd (Statement.normalize line) := by
  rw [← all_dropWhile_normalize line] at h
  rw [textOf, Text.trimEnd, ← Text.dropEndWhile_append h, ← indentOf_normalize line, indentOf,
    List.takeWhile_append_dropWhile, Text.trimEnd]

/-- What a line is read as depends on its indentation and its text alone, unless it is blank. -/
theorem Statement.parse_eq (n : Nat) (line : Text) :
    Statement.parse n line =
      if line.all Text.isBlank then .ok .blank
      else
        match Statement.declaration? n (textOf line) with
        | .error fault => .error fault
        | .ok none => .ok (.raw (indentOf line) (textOf line))
        | .ok (some (type, name, value)) => .ok (.declaration (indentOf line) type name value) := by
  have hindent : (Statement.normalize line).takeWhile Statement.isIndent = indentOf line :=
    indentOf_normalize line
  have htext : Text.trimEnd ((Statement.normalize line).dropWhile Statement.isIndent) = textOf line :=
    rfl
  rcases hdeclared : Statement.declaration? n (textOf line) with fault | _ | ⟨type, name, value⟩ <;>
    simp only [Statement.parse, all_dropWhile_normalize, hindent, htext, hdeclared]

theorem Statement.parse_normal (hindent : indent.all Statement.isIndent)
    (hhead : ∀ c ∈ text.head?, Statement.isIndent c = false) (hblank : text.all Text.isBlank = false)
    (hnormal : IsNormal (indent ++ text)) (n : Nat) :
    Statement.parse n (indent ++ text) =
      match Statement.declaration? n (Text.trimEnd text) with
      | .error fault => .error fault
      | .ok none => .ok (.raw indent (Text.trimEnd text))
      | .ok (some (type, name, value)) => .ok (.declaration indent type name value) := by
  have hindent := List.all_eq_true.1 hindent
  have hstop : text.takeWhile Statement.isIndent = [] ∧ text.dropWhile Statement.isIndent = text := by
    cases text with
    | nil => exact ⟨rfl, rfl⟩
    | cons c text =>
      rw [List.takeWhile_cons, List.dropWhile_cons, hhead c rfl]
      exact ⟨rfl, rfl⟩
  have hindentOf : indentOf (indent ++ text) = indent := by
    rw [indentOf, List.takeWhile_append_of_pos hindent, hstop.1, List.append_nil]
  have htextOf : textOf (indent ++ text) = Text.trimEnd text := by
    rw [textOf, hnormal.normalize, List.dropWhile_append_of_pos hindent, hstop.2]
  have hall : (indent ++ text).all Text.isBlank = false := by
    rw [List.all_append, hblank, Bool.and_false]
  rw [Statement.parse_eq, hall, hindentOf, htextOf]
  rfl

/-- A line is blank, is taken as it is, or declares a name; its indentation is that of the source. -/
theorem Statement.parse_cases (h : Statement.parse n line = .ok s) :
    (line.all Text.isBlank = true ∧ s = .blank) ∨
      (line.all Text.isBlank = false ∧ s = .raw (indentOf line) (textOf line)) ∨
      (line.all Text.isBlank = false ∧ ∃ type name value,
        declaration? n (textOf line) = .ok (some (type, name, value)) ∧
          s = .declaration (indentOf line) type name value) := by
  rw [Statement.parse_eq] at h
  split at h
  · next hb =>
    cases h
    exact .inl ⟨hb, rfl⟩
  · next hb =>
    have hb := Bool.eq_false_iff.2 hb
    split at h
    · cases h
    · cases h
      exact .inr (.inl ⟨hb, rfl⟩)
    · next hd =>
      cases h
      exact .inr (.inr ⟨hb, _, _, _, hd, rfl⟩)

theorem newline_not_mem_identifier (h : Java.isIdentifier name) : '\n' ∉ name := fun hm =>
  absurd (List.all_eq_true.1 (Java.all_isIdentifierChar h) _ hm) (by decide)

theorem isIdentifier_of_arrayTarget? {element : Java.Scalar}
    (h : Statement.arrayTarget? left = some (element, name)) : Java.isIdentifier name := by
  simp only [Statement.arrayTarget?, Option.bind_eq_bind, Option.bind_eq_some_iff,
    Option.guard_eq_some', Option.pure_def, Option.some.injEq, Prod.mk.injEq] at h
  obtain ⟨_, _, _, _, _, _, _, hname, _, rfl⟩ := h
  exact hname

theorem isIdentifier_of_keywordTarget? (h : Statement.keywordTarget? left = some name) :
    Java.isIdentifier name := by
  simp only [Statement.keywordTarget?, Option.bind_eq_bind, Option.bind_eq_some_iff,
    Option.guard_eq_some', Option.pure_def, Option.some.injEq] at h
  obtain ⟨_, _, _, _, _, hname, rfl⟩ := h
  exact hname

theorem newline_not_mem_arrayValue (element : Java.Scalar) (h : '\n' ∉ segment) :
    '\n' ∉ Statement.arrayValue element segment := by
  apply newline_not_mem_newArray element
  split
  · refine newline_not_mem_join (by decide) fun part hpart => ?_
    obtain ⟨item, hitem, rfl⟩ := List.mem_map.1 hpart
    obtain ⟨piece, hpiece, rfl⟩ := List.mem_map.1 (List.mem_filter.1 hitem).1
    refine newline_not_mem_append (newline_not_mem_append (by decide) fun hm => ?_) (by decide)
    have hm := (List.dropWhile_sublist _).subset (Text.dropEndWhile_subset _ _ hm)
    exact h (Text.mem_of_mem_splitOn hpiece (Text.trim_subset piece hm))
  · exact fun hm => h (Text.trim_subset segment hm)

theorem newline_not_mem_declaration? {type : Java.Ty}
    (h : Statement.declaration? n text = .ok (some (type, name, value))) (ht : '\n' ∉ text) :
    '\n' ∉ name ∧ '\n' ∉ value := by
  rw [Statement.declaration?] at h
  split at h
  · cases h
  next left right hcut =>
  have hright : '\n' ∉ right := fun hm => ht ((Text.subset_of_cut? hcut).2 hm)
  split at h
  · next element name' harray =>
    obtain ⟨segment, hsegment, he⟩ := Option.map_eq_some_iff.1 (Except.ok.inj h)
    cases he
    exact ⟨newline_not_mem_identifier (isIdentifier_of_arrayTarget? harray),
      newline_not_mem_arrayValue element fun hm => hright (subset_of_bracketed? hsegment hm)⟩
  split at h
  · cases h
  next name' hkeyword =>
  simp only at h
  split at h
  · cases h
  next literal hliteral =>
  split at h
  · cases h
  cases h
  refine ⟨newline_not_mem_identifier (isIdentifier_of_keywordTarget? hkeyword),
    newline_not_mem_literal hliteral (fun hm => hright ?_) type⟩
  exact (List.takeWhile_prefix _).subset (Text.trim_subset _ hm)

theorem Statement.newline_not_mem_emit (h : Statement.parse n line = .ok s) (hl : '\n' ∉ line) :
    '\n' ∉ s.emit k := by
  have hindent : '\n' ∉ (indentOf line).drop k := fun hm =>
    newline_not_mem_indentOf hl (List.mem_of_mem_drop hm)
  rcases Statement.parse_cases h with ⟨-, rfl⟩ | ⟨-, rfl⟩ | ⟨-, type, name, value, hd, rfl⟩
  · exact List.not_mem_nil
  · apply newline_not_mem_append (newline_not_mem_append hindent (newline_not_mem_textOf hl))
    split <;> decide
  · obtain ⟨hname, hvalue⟩ := newline_not_mem_declaration? hd (newline_not_mem_textOf hl)
    exact newline_not_mem_append (newline_not_mem_append (newline_not_mem_append
      (newline_not_mem_append (newline_not_mem_append (newline_not_mem_append hindent
        (newline_not_mem_ty type)) (by decide)) hname) (by decide)) hvalue) (by decide)

end PluginForge.Callback
