import PluginForge.Proofs.Callback.Declaration

namespace PluginForge.Callback

variable {element type : Java.Scalar} {line : Nat} {name rest segment t : Text}

theorem not_infix_arrayTag (type element : Java.Scalar) :
    ¬scalarTag type <:+: arrayTag element ∧ (type ≠ element → ¬arrayTag type <:+: arrayTag element) := by
  cases type <;> cases element <;> decide +kernel

/-- Behind a name without dots and a space, what ends with a dot stands in front of the name or behind the
space. -/
theorem infix_of_infix_name {tag front : Text} (hspace : ' ' ∉ tag) (hend : ∃ s, tag = s ++ ['.'])
    (hname : '.' ∉ name) (hrest : ¬tag <:+: rest) (h : tag <:+: front ++ (name ++ ' ' :: rest)) :
    tag <:+: front := by
  obtain ⟨s, rfl⟩ := hend
  rw [← List.append_assoc] at h
  exact Text.infix_of_infix_append hname ((Text.infix_of_infix_append_cons hspace h).resolve_right hrest)

theorem not_infix_tagged (hname : '.' ∉ name) (hrest : IsTagFree rest) (type element : Java.Scalar) :
    ¬scalarTag type <:+: arrayTag element ++ (name ++ ' ' :: rest) ∧
      (type ≠ element → ¬arrayTag type <:+: arrayTag element ++ (name ++ ' ' :: rest)) := by
  obtain ⟨hscalar, harray⟩ := not_infix_arrayTag type element
  obtain ⟨hspace, hspace'⟩ := not_mem_tag (c := ' ') (by decide) type
  obtain ⟨hend, hend'⟩ := tags_end type
  constructor
  · exact mt (infix_of_infix_name hspace hend hname (hrest type).1) hscalar
  · exact fun hne => mt (infix_of_infix_name hspace' hend' hname (hrest type).2) (harray hne)

theorem isTagFree_typed (hname : '.' ∉ name) (hrest : IsTagFree rest) (element : Java.Scalar) :
    IsTagFree (element.name ++ "[] " ++ (name ++ ' ' :: rest)) := by
  have hspace : breaksTags ' ' := by decide
  have hfront : '.' ∉ element.name ++ "[]".toList := by
    cases element <;> decide
  have hfree := (isTagFree_of_dot_not_mem hfront).append_cons
    ((isTagFree_of_dot_not_mem hname).append_cons hrest hspace) hspace
  have hline : element.name ++ "[] ".toList ++ (name ++ ' ' :: rest) =
      element.name ++ "[]".toList ++ ' ' :: (name ++ ' ' :: rest) := by
    simp
  rwa [hline]

theorem replaceTypeTags_arrayTag (hname : '.' ∉ name) (hrest : IsTagFree rest) (element : Java.Scalar) :
    replaceTypeTags (arrayTag element ++ (name ++ ' ' :: rest)) =
      element.name ++ "[] " ++ (name ++ ' ' :: rest) := by
  have hbehind : IsTagFree (name ++ ' ' :: rest) :=
    (isTagFree_of_dot_not_mem hname).append_cons hrest (by decide)
  have htyped := isTagFree_typed hname hrest element
  have hfold : ∀ types : List Java.Scalar, element ∈ types →
      types.foldl replaceTagsOf (arrayTag element ++ (name ++ ' ' :: rest)) =
        element.name ++ "[] " ++ (name ++ ' ' :: rest) := by
    intro types helement
    induction types with
    | nil => cases helement
    | cons type types ih =>
      rw [List.foldl_cons]
      by_cases htype : type = element
      · subst htype
        have hne : arrayTag type ≠ [] := nofun
        have hreplace := Text.replaceAll_append_self hne (type.name ++ "[] ") (name ++ ' ' :: rest)
        rw [Text.replaceAll_eq_self _ (hbehind type).2] at hreplace
        rw [replaceTagsOf, hreplace, Text.replaceAll_eq_self _ (htyped type).1]
        exact foldl_replaceTagsOf htyped types
      · obtain ⟨hscalar, harray⟩ := not_infix_tagged hname hrest type element
        rw [replaceTagsOf_eq_self ⟨hscalar, harray htype⟩]
        exact ih ((List.mem_cons.1 helement).resolve_left (Ne.symm htype))
  exact hfold _ (by cases element <;> decide)

/-- What stands behind the name in a declaration with a bracketed list. -/
def arrayRight (segment : Text) : Text :=
  '=' :: ' ' :: '[' :: (segment ++ [']', ';'])

/-- A declaration with a tag in front of the name and a bracketed list behind the equals sign. -/
def arrayLine (element : Java.Scalar) (name segment : Text) : Text :=
  arrayTag element ++ (name ++ ' ' :: arrayRight segment)

theorem isTagFree_arrayRight (h : IsTagFree segment) : IsTagFree (arrayRight segment) := by
  have hend := h.append_cons (c := ']') (isTagFree_of_dot_not_mem (t := [';']) (by decide)) (by decide)
  have hlist := (isTagFree_of_dot_not_mem List.not_mem_nil).append_cons (c := '[') hend (by decide)
  exact (isTagFree_of_dot_not_mem (t := ['=']) (by decide)).append_cons (c := ' ') hlist (by decide)

theorem arrayTarget?_typed (hname : Java.isIdentifier name) (element : Java.Scalar) :
    Statement.arrayTarget? (element.name ++ "[] " ++ name ++ [' ']) = some (element, name) := by
  have hsplit : element.name ++ "[] ".toList ++ name = element.name ++ "[]".toList ++ ' ' :: name := by
    simp
  have hne : element.name ++ "[]".toList ≠ [] := ty_ne_nil (.array element)
  have hword : ∀ c ∈ element.name ++ "[]".toList, Text.isBlank c = false :=
    fun c hc => isBlank_of_mem_ty (.array element) hc
  have hcut := Text.cut?_append_cons hword (c := ' ') (b := name) rfl
  have hends : Text.endsWith (element.name ++ "[]") "[]" := by
    cases element <;> decide
  have htype : Java.Scalar.ofName? ((element.name ++ "[]".toList).take
      ((element.name ++ "[]".toList).length - 2)) = some element := by
    cases element <;> decide
  have htrim : Text.trim name = name := by
    have hblank := fun c => isBlank_of_mem_name (c := c) (Java.all_isIdentifierChar hname)
    apply Text.trim_eq_self
    · exact fun c hc => hblank c (List.mem_of_mem_head? hc)
    · exact fun c hc => hblank c (List.mem_of_getLast? hc)
  rw [Statement.arrayTarget?, Text.trim_append_blank (by decide), hsplit, trim_word hne hword hname, hcut]
  simp only [Option.bind_eq_bind, Option.bind_some, hends, htype, htrim, hname]
  rfl

theorem bracketed?_list (h : ']' ∉ segment) :
    Statement.bracketed? (' ' :: '[' :: (segment ++ [']', ';'])) = some segment :=
  bracketed?_eq_some_iff.2 ⟨[' '], [';'], rfl, rfl, h, .inr rfl⟩

def typedLine (element : Java.Scalar) (name segment : Text) : Text :=
  element.name ++ "[] " ++ (name ++ ' ' :: arrayRight segment)

theorem normalize_arrayLine (hname : Java.isIdentifier name) (hquote : '\'' ∉ segment)
    (htags : IsTagFree segment) (element : Java.Scalar) :
    Statement.normalize (arrayLine element name segment) = typedLine element name segment := by
  have hword := Java.all_isIdentifierChar hname
  have hdot : '.' ∉ name := Java.not_mem_of_all_isIdentifierChar hword (by decide)
  have hmiddle : '\'' ∉ name := Java.not_mem_of_all_isIdentifierChar hword (by decide)
  have htag : '\'' ∉ arrayTag element := by
    cases element <;> decide
  have hline : '\'' ∉ arrayLine element name segment := by
    simp [arrayLine, arrayRight, htag, hmiddle, hquote]
  rw [Statement.normalize, normalizeQuotes_of_not_mem hline]
  exact replaceTypeTags_arrayTag hdot (isTagFree_arrayRight htags) element

theorem declaration?_typedLine (hname : Java.isIdentifier name) (hclose : ']' ∉ segment)
    (element : Java.Scalar) (line : Nat) :
    Statement.declaration? line (typedLine element name segment) =
      .ok (some (.array element, name, Statement.arrayValue element segment)) := by
  have hsplit : typedLine element name segment =
      element.name ++ "[] " ++ name ++ [' '] ++ '=' :: ' ' :: '[' :: (segment ++ [']', ';']) := by
    simp [typedLine, arrayRight]
  have hequals : '=' ∉ element.name ++ "[] ".toList ++ name ++ [' '] := by
    have htype : '=' ∉ element.name ++ "[] ".toList := by
      cases element <;> decide
    have hmiddle := Java.not_mem_of_all_isIdentifierChar (c := '=') (Java.all_isIdentifierChar hname)
      (by decide)
    simp only [List.mem_append, List.mem_singleton, not_or] at htype ⊢
    exact ⟨⟨htype, hmiddle⟩, by decide⟩
  rw [Statement.declaration?, hsplit, Text.cut?_char_iff.2 ⟨rfl, hequals⟩]
  simp only [arrayTarget?_typed hname, bracketed?_list hclose]
  rfl

theorem trimEnd_typedLine (element : Java.Scalar) (name segment : Text) :
    Text.trimEnd (typedLine element name segment) = typedLine element name segment := by
  have hsplit : typedLine element name segment =
      element.name ++ "[] " ++ (name ++ ' ' :: '=' :: ' ' :: '[' :: (segment ++ [']'])) ++ [';'] := by
    simp [typedLine, arrayRight]
  rw [hsplit]
  exact Text.dropEndWhile_append rfl

theorem parse_arrayLine (hname : Java.isIdentifier name) (hclose : ']' ∉ segment) (hquote : '\'' ∉ segment)
    (htags : IsTagFree segment) (element : Java.Scalar) (line : Nat) :
    Statement.parse line (arrayLine element name segment) =
      .ok (.declaration [] (.array element) name (Statement.arrayValue element segment)) := by
  have hstart : (typedLine element name segment).takeWhile Statement.isIndent = [] ∧
      (typedLine element name segment).dropWhile Statement.isIndent = typedLine element name segment ∧
      (typedLine element name segment).all Text.isBlank = false := by
    cases element <;> exact ⟨rfl, rfl, rfl⟩
  obtain ⟨htake, hdrop, hall⟩ := hstart
  simp only [Statement.parse, normalize_arrayLine hname hquote htags, htake, hdrop, hall,
    trimEnd_typedLine, declaration?_typedLine hname hclose]
  rfl

end PluginForge.Callback
