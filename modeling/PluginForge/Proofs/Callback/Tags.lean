import PluginForge.Callback.Statement
import PluginForge.Proofs.Text.Scanning

namespace PluginForge.Callback

open Text (Independent Replacement replaceEach)

variable {a b line s t : Text} {c : Char} {type : Java.Scalar}

/-- No tag holds the character. -/
def breaksTags (c : Char) : Bool :=
  Java.Scalar.all.all fun type => !(arrayTag type).contains c

theorem scalarTag_subset (type : Java.Scalar) : scalarTag type ⊆ arrayTag type := by
  cases type <;> decide

theorem not_mem_tag (hc : breaksTags c) (type : Java.Scalar) :
    c ∉ scalarTag type ∧ c ∉ arrayTag type := by
  have htype : type ∈ Java.Scalar.all := by
    cases type <;> decide
  have harray : c ∉ arrayTag type := by
    simpa using List.all_eq_true.1 hc type htype
  exact ⟨fun h => harray (scalarTag_subset type h), harray⟩

theorem breaksTags_of_isBlank (hc : Text.isBlank c) : breaksTags c := by
  rw [breaksTags, List.all_eq_true]
  intro type _
  have hmarks : (arrayTag type).any Text.isBlank = false := by
    cases type <;> decide
  rw [Bool.not_eq_true', Bool.eq_false_iff, ne_eq, List.contains_iff_mem]
  exact fun hmem => List.any_eq_false.1 hmarks c hmem hc

theorem tags_end (type : Java.Scalar) :
    (∃ s, scalarTag type = s ++ ['.']) ∧ ∃ s, arrayTag type = s ++ ['.'] := by
  cases type <;> exact ⟨⟨_, rfl⟩, _, rfl⟩

theorem tags_ne_nil (type : Java.Scalar) : scalarTag type ≠ [] ∧ arrayTag type ≠ [] := by
  cases type <;> decide

/-- A text holds no tag that declares a name with a type. -/
def IsTagFree (t : Text) : Prop :=
  ∀ type, ¬scalarTag type <:+: t ∧ ¬arrayTag type <:+: t

theorem IsTagFree.mono (h : IsTagFree t) (hs : s <:+: t) : IsTagFree s := by
  intro type
  exact ⟨fun htag => (h type).1 (htag.trans hs), fun htag => (h type).2 (htag.trans hs)⟩

theorem isTagFree_of_not_mem (hc : ∀ type, c ∈ scalarTag type) (h : c ∉ t) : IsTagFree t := by
  intro type
  exact ⟨fun htag => h (htag.subset (hc type)),
    fun htag => h (htag.subset (scalarTag_subset type (hc type)))⟩

theorem isTagFree_of_dot_not_mem (h : '.' ∉ t) : IsTagFree t :=
  isTagFree_of_not_mem (fun type => by cases type <;> decide) h

theorem IsTagFree.append_cons (ha : IsTagFree a) (hb : IsTagFree b) (hc : breaksTags c) :
    IsTagFree (a ++ c :: b) := by
  intro type
  obtain ⟨hscalar, harray⟩ := not_mem_tag hc type
  constructor
  · intro h
    exact (Text.infix_of_infix_append_cons hscalar h).elim (ha type).1 (hb type).1
  · intro h
    exact (Text.infix_of_infix_append_cons harray h).elim (ha type).2 (hb type).2

theorem isTagFree_join {parts : List Text} (h : ∀ part ∈ parts, IsTagFree part) :
    IsTagFree (Text.join ", " parts) := by
  have hnil : IsTagFree [] := isTagFree_of_dot_not_mem List.not_mem_nil
  induction parts with
  | nil => exact hnil
  | cons first parts ih =>
    rw [List.forall_mem_cons] at h
    cases parts with
    | nil =>
      rw [Text.join, List.intercalate_singleton]
      exact h.1
    | cons next parts =>
      have hbehind := hnil.append_cons (c := ' ') (ih h.2) (by decide)
      rw [Text.join_cons_cons, List.append_assoc]
      exact h.1.append_cons (c := ',') hbehind (by decide)

theorem replaceTagsOf_eq_self (h : ¬scalarTag type <:+: t ∧ ¬arrayTag type <:+: t) :
    replaceTagsOf t type = t := by
  rw [replaceTagsOf, Text.replaceAll_eq_self _ h.2, Text.replaceAll_eq_self _ h.1]

theorem foldl_replaceTagsOf (h : IsTagFree t) (types : List Java.Scalar) :
    types.foldl replaceTagsOf t = t := by
  induction types with
  | nil => rfl
  | cons type types ih => rw [List.foldl_cons, replaceTagsOf_eq_self (h type), ih]

theorem replaceTypeTags_of_isTagFree (h : IsTagFree t) : replaceTypeTags t = t :=
  foldl_replaceTagsOf h Java.Scalar.all

theorem replaceTagsOf_append_cons (hc : breaksTags c) (a b : Text) (type : Java.Scalar) :
    replaceTagsOf (a ++ c :: b) type = replaceTagsOf a type ++ c :: replaceTagsOf b type := by
  obtain ⟨hscalar, harray⟩ := not_mem_tag hc type
  obtain ⟨hne, hne'⟩ := tags_ne_nil type
  rw [replaceTagsOf, Text.replaceAll_append_cons hne' harray, Text.replaceAll_append_cons hne hscalar]
  rfl

theorem replaceTypeTags_append_cons (hc : breaksTags c) (a b : Text) :
    replaceTypeTags (a ++ c :: b) = replaceTypeTags a ++ c :: replaceTypeTags b := by
  unfold replaceTypeTags
  induction Java.Scalar.all generalizing a b with
  | nil => rfl
  | cons type types ih =>
    rw [List.foldl_cons, replaceTagsOf_append_cons hc]
    exact ih _ _

def tagsOf (type : Java.Scalar) : List Replacement :=
  [⟨arrayTag type, type.name ++ "[] "⟩, ⟨scalarTag type, type.name ++ " "⟩]

def tags : List Replacement :=
  Java.Scalar.all.flatMap tagsOf

theorem foldl_tags (line : Text) : tags.foldl Replacement.apply line = replaceTypeTags line := by
  rw [tags, List.foldl_flatMap]
  rfl

theorem independent_tags : Independent 'j' '.' ' ' tags where
  begins := by decide
  ends := by decide
  puts := by decide
  clear := by decide
  apart := by decide

theorem isTagFree_iff : IsTagFree t ↔ ∀ rule ∈ tags, ¬rule.old <:+: t := by
  constructor
  · intro h rule hrule
    obtain ⟨type, -, hrule⟩ := List.mem_flatMap.1 hrule
    rcases List.mem_pair.1 hrule with rfl | rfl
    · exact (h type).2
    · exact (h type).1
  · intro h type
    have htype : tagsOf type ⊆ tags := by
      cases type <;> decide
    exact ⟨h _ (htype (List.mem_cons_of_mem _ List.mem_cons_self)), h _ (htype List.mem_cons_self)⟩

theorem isTagFree_replaceTypeTags (t : Text) : IsTagFree (replaceTypeTags t) := by
  rw [isTagFree_iff, ← foldl_tags]
  exact fun rule hrule => independent_tags.not_infix_foldl (fun _ => id) hrule (.inl hrule)

theorem ignores_quotes : ∀ rule ∈ tags, rule.Ignores fun c => if c = '\'' then '"' else c := by
  have hold : ∀ rule ∈ tags, '\'' ∉ rule.old ∧ '"' ∉ rule.old := by decide
  have hnew : ∀ rule ∈ tags, (rule.new.map fun c => if c = '\'' then '"' else c) = rule.new := by decide
  refine fun rule hrule => ⟨fun c hc => ?_, hnew rule hrule⟩
  split at hc
  · next hquote =>
    rw [if_pos hquote, hquote]
    exact hold rule hrule
  · exact absurd rfl hc

/-- The tags of a line are replaced as by one scan from left to right, and none is left or has arisen. So a
second time replaces nothing, the tags can be replaced in any order, and before the quotes or behind them. -/
theorem replaceTypeTags_scan (line : Text) :
    replaceTypeTags line = replaceEach tags line ∧
      IsTagFree (replaceTypeTags line) ∧
      replaceTypeTags (replaceTypeTags line) = replaceTypeTags line ∧
      (∀ order : List Replacement, order.Perm tags →
        order.foldl Replacement.apply line = replaceTypeTags line) ∧
      replaceTypeTags (normalizeQuotes line) = normalizeQuotes (replaceTypeTags line) := by
  have hfree := isTagFree_replaceTypeTags line
  refine ⟨?_, hfree, replaceTypeTags_of_isTagFree hfree, fun order horder => ?_, ?_⟩
  · rw [← foldl_tags, independent_tags.foldl_eq_replaceEach (.refl tags)]
  · rw [← foldl_tags, independent_tags.foldl_eq_replaceEach (.refl tags),
      independent_tags.foldl_eq_replaceEach horder]
  · rw [← foldl_tags, ← foldl_tags]
    exact Text.foldl_map_of_ignores ignores_quotes line

/-- Tags within tags, a tag that is cut off, and one that would be there without its neighbour. -/
example : replaceEach tags "java.java.int.x java.Array.java.long.int. java.Array.String.y java.String" =
    "java.int x java.Array.long int. String[] y java.String" := by
  decide

theorem quote_not_mem_normalizeQuotes (t : Text) : '\'' ∉ normalizeQuotes t := by
  intro h
  obtain ⟨c, -, hc⟩ := List.mem_map.1 h
  split at hc
  · cases hc
  · next hne => exact hne hc

theorem not_mem_replaceTagsOf (hc : c ∉ type.name ++ "[] ".toList) (h : c ∉ t) :
    c ∉ replaceTagsOf t type := by
  intro hm
  rcases Text.mem_of_mem_replaceAll hm with hm | hm
  · refine hc ?_
    rw [List.mem_append] at hm ⊢
    exact hm.imp_right fun hm => by rw [List.mem_singleton.1 hm]; decide
  · exact (Text.mem_of_mem_replaceAll hm).elim hc h

theorem normalizeQuotes_of_not_mem (h : '\'' ∉ t) : normalizeQuotes t = t := by
  induction t with
  | nil => rfl
  | cons c t ih =>
    rw [List.mem_cons, not_or] at h
    rw [normalizeQuotes, List.map_cons, if_neg (Ne.symm h.1)]
    exact congrArg (c :: ·) (ih h.2)

theorem normalize_eq_self (hquote : '\'' ∉ t) (htags : IsTagFree t) : Statement.normalize t = t := by
  rw [Statement.normalize, normalizeQuotes_of_not_mem hquote, replaceTypeTags_of_isTagFree htags]

/-- What holds behind the quotes of Java and outlasts the tags of every type holds of a normal line. -/
theorem normalize_induction (P : Text → Prop) (hquotes : P (normalizeQuotes line))
    (htags : ∀ t type, P t → P (replaceTagsOf t type)) : P (Statement.normalize line) := by
  rw [Statement.normalize, replaceTypeTags]
  exact List.foldlRecOn _ _ hquotes fun t ht type _ => htags t type ht

theorem not_mem_normalize (hquote : c ≠ '"') (hc : ∀ type : Java.Scalar, c ∉ type.name ++ "[] ".toList)
    (h : c ∉ line) : c ∉ Statement.normalize line := by
  apply normalize_induction (fun t => c ∉ t)
  · intro hm
    obtain ⟨x, hx, he⟩ := List.mem_map.1 hm
    split at he
    · exact hquote he.symm
    · exact h (he ▸ hx)
  · exact fun t type ht => not_mem_replaceTagsOf (hc type) ht

/-- A text in which there is nothing to replace by the quotes and the types of Java. -/
def IsNormal (t : Text) : Prop :=
  '\'' ∉ t ∧ IsTagFree t

theorem isNormal_normalize (line : Text) : IsNormal (Statement.normalize line) := by
  refine ⟨?_, isTagFree_replaceTypeTags _⟩
  exact normalize_induction (fun t => '\'' ∉ t) (quote_not_mem_normalizeQuotes line)
    fun t type ht => not_mem_replaceTagsOf (by cases type <;> decide) ht

namespace IsNormal

theorem normalize (h : IsNormal t) : Statement.normalize t = t :=
  normalize_eq_self h.1 h.2

theorem mono (h : IsNormal t) (hs : s <:+: t) : IsNormal s :=
  ⟨fun hm => h.1 (hs.subset hm), h.2.mono hs⟩

theorem append_cons (ha : IsNormal a) (hb : IsNormal b) (hc : breaksTags c) (hquote : c ≠ '\'') :
    IsNormal (a ++ c :: b) := by
  refine ⟨?_, ha.2.append_cons hb.2 hc⟩
  rw [List.mem_append, List.mem_cons, not_or, not_or]
  exact ⟨ha.1, Ne.symm hquote, hb.1⟩

end IsNormal

theorem normalize_append_cons (hc : breaksTags c) (hquote : c ≠ '\'') (a b : Text) :
    Statement.normalize (a ++ c :: b) = Statement.normalize a ++ c :: Statement.normalize b := by
  rw [Statement.normalize, normalizeQuotes, List.map_append, List.map_cons, if_neg hquote,
    replaceTypeTags_append_cons hc]
  rfl

end PluginForge.Callback
