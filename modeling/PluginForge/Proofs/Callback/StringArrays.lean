import PluginForge.Proofs.Callback.ArrayLine
import PluginForge.Proofs.Callback.Initializer

namespace PluginForge.Callback

open Json (SpellsText)

variable {c : Char} {keyword name s t : Text} {line : Nat} {strings : List Text}

def quoted (quote : Char) (s : Text) : Text :=
  quote :: s ++ [quote]

/-- What stands between the brackets of a list of quoted strings. -/
def listText (quote : Char) (strings : List Text) : Text :=
  Text.join ", " (strings.map (quoted quote))

/-- A string that stands for itself between quotes, in one line and without a type tag or a bracket that
closes the list around it. -/
def IsPlain (s : Text) : Prop :=
  (∀ c ∈ s, 0x20 ≤ c.toNat ∧ c ∉ ['\'', '"', '\\', ']']) ∧ IsTagFree s

theorem IsPlain.not_mem (h : IsPlain s) (hc : c ∈ ['\'', '"', '\\', ']']) : c ∉ s :=
  fun hm => (h.1 c hm).2 hc

theorem mem_listText {quote : Char} (h : c ∈ listText quote strings) :
    c ∈ [',', ' ', quote] ∨ ∃ s ∈ strings, c ∈ s := by
  rcases Text.mem_of_mem_join h with h | ⟨part, hpart, h⟩
  · have hseparator : c ∈ [',', ' '] := h
    simp only [List.mem_cons, List.not_mem_nil, or_false] at hseparator ⊢
    rcases hseparator with h | h <;> simp [h]
  · obtain ⟨s, hs, rfl⟩ := List.mem_map.1 hpart
    simp only [quoted, List.mem_append, List.mem_cons, List.not_mem_nil, or_false] at h ⊢
    rcases h with (h | h) | h
    · exact .inl (.inr (.inr h))
    · exact .inr ⟨s, hs, h⟩
    · exact .inl (.inr (.inr h))

theorem not_mem_listText (h : ∀ s ∈ strings, IsPlain s) (hc : c ∈ ['\'', '\\', ']']) :
    c ∉ listText '"' strings := by
  have hchars : c ∈ ['\'', '"', '\\', ']'] ∧ c ∉ [',', ' ', '"'] := by
    simp only [List.mem_cons, List.not_mem_nil, or_false] at hc
    rcases hc with rfl | rfl | rfl <;> decide
  obtain ⟨hstop, hseparator⟩ := hchars
  intro hm
  obtain ⟨s, hs, hm⟩ := (mem_listText hm).resolve_left hseparator
  exact (h s hs).not_mem hstop hm

theorem semicolon_mem_listText : ';' ∈ listText '"' strings ↔ ∃ s ∈ strings, ';' ∈ s := by
  constructor
  · intro h
    exact (mem_listText h).resolve_left (by decide)
  · rintro ⟨s, hs, hm⟩
    apply Text.mem_join_of_mem (List.mem_map_of_mem hs)
    exact List.mem_append_left _ (List.mem_cons_of_mem _ hm)

theorem isTagFree_listText (h : ∀ s ∈ strings, IsTagFree s) : IsTagFree (listText '"' strings) := by
  have hempty : IsTagFree [] := isTagFree_of_dot_not_mem List.not_mem_nil
  apply isTagFree_join
  intro part hpart
  obtain ⟨s, hs, rfl⟩ := List.mem_map.1 hpart
  exact hempty.append_cons (c := '"') ((h s hs).append_cons (c := '"') hempty (by decide)) (by decide)

theorem normalizeQuotes_listText (h : ∀ s ∈ strings, IsPlain s) :
    normalizeQuotes (listText '\'' strings) = listText '"' strings := by
  rw [listText, normalizeQuotes, Text.map_join, List.map_map]
  apply congrArg
  apply List.map_congr_left
  intro s hs
  have hkeep := normalizeQuotes_of_not_mem ((h s hs).not_mem (by decide))
  rw [Function.comp_apply, quoted, List.map_append, List.map_cons, ← normalizeQuotes, hkeep]
  rfl

theorem spellsText_self (h : IsPlain s) : SpellsText s s := by
  obtain ⟨hchars, -⟩ := h
  induction s with
  | nil => exact .nil
  | cons c s ih =>
    obtain ⟨⟨hcontrol, hstop⟩, hrest⟩ := List.forall_mem_cons.1 hchars
    simp only [List.mem_cons, List.not_mem_nil, or_false, not_or] at hstop
    exact (ih hrest).cons (.plain hcontrol hstop.2.1 hstop.2.2.1)

theorem writeString_eq_quoted (h : IsPlain s) : Json.writeString s = quoted '"' s := by
  apply Json.writeString_eq_self
  intro c hc
  obtain ⟨hcontrol, hstop⟩ := h.1 c hc
  simp only [List.mem_cons, List.not_mem_nil, or_false, not_or] at hstop
  exact ⟨hcontrol, hstop.2.1, hstop.2.2.1⟩

theorem join_gap (part : Text) (parts : List Text) :
    Text.join ", " (part :: parts) = Text.join "," (part :: parts.map (' ' :: ·)) := by
  rw [Text.join_cons, Text.join_cons, List.flatMap_map]
  rfl

theorem spellsParts_strings {first : Text} (h : ∀ s ∈ first :: strings, IsPlain s) :
    SpellsParts (quoted '"' first :: (strings.map (quoted '"')).map (' ' :: ·))
      ((first :: strings).map Scalar.string) := by
  rw [List.forall_mem_cons] at h
  apply List.Forall₂.cons ⟨_, .refl _, .string (spellsText_self h.1)⟩
  rw [List.map_map, List.forall₂_map_left_iff, List.forall₂_map_right_iff, List.forall₂_same]
  intro s hs
  have hpadded := Json.Padded.mk (t := quoted '"' s) (b := [' ']) (d := []) (by decide) .nil
  rw [List.append_nil] at hpadded
  exact ⟨_, hpadded, .string (spellsText_self (h.2 s hs))⟩

theorem parse?_listText (hne : strings ≠ []) (h : ∀ s ∈ strings, IsPlain s) :
    Literal.parse? ('[' :: listText '"' strings ++ [']']) =
      some (.array (strings.map fun s => ⟨.string s, quoted '"' s⟩)) := by
  have htrim := Text.trim_between (x := '[') (y := ']') rfl rfl (listText '"' strings)
  have hitems : (strings.map Scalar.string).map (fun value => Atom.mk value value.write) =
      strings.map fun s => ⟨.string s, quoted '"' s⟩ := by
    rw [List.map_map]
    apply List.map_congr_left
    intro s hs
    exact congrArg (Atom.mk (.string s)) (writeString_eq_quoted (h s hs))
  obtain ⟨first, rest, rfl⟩ := List.exists_cons_of_ne_nil hne
  rw [← hitems]
  apply parse?_list (spellsParts_strings h)
  rw [htrim, listText, List.map_cons, join_gap]

theorem type?_strings (hne : strings ≠ []) :
    (Literal.array (strings.map fun s => ⟨.string s, quoted '"' s⟩)).type? = some (.array .string) := by
  obtain ⟨first, strings, rfl⟩ := List.exists_cons_of_ne_nil hne
  change (List.foldlM (fun type item => widen? type item.type) Java.Scalar.string
    (strings.map fun s => Atom.mk (.string s) (quoted '"' s))).map Java.Ty.array = _
  induction strings with
  | nil => rfl
  | cons s strings ih => exact ih (List.cons_ne_nil _ _)

theorem java_strings (strings : List Text) :
    (Literal.array (strings.map fun s => ⟨.string s, quoted '"' s⟩)).java (.array .string) =
      Java.newArray .string (listText '"' strings) := by
  rw [Literal.java, List.map_map]
  rfl

/-- The strings that a list is taken for where its text is cut at every comma. -/
def cutList (segment : Text) : List Text :=
  (((Text.splitOn ',' segment).map Text.trim).filter fun item => !item.isEmpty).map Statement.dropQuotes

theorem arrayValue_string (segment : Text) :
    Statement.arrayValue .string segment = Java.newArray .string (listText '"' (cutList segment)) := by
  rw [listText, cutList, List.map_map]
  rfl

theorem cutList_append (a b : Text) : cutList (a ++ ',' :: b) = cutList a ++ cutList b := by
  simp only [cutList, Text.splitOn_append_cons, List.map_append, List.filter_append]

theorem cutList_blank (t : Text) : cutList (' ' :: t) = cutList t := by
  have hsplit : (Text.splitOn ',' (' ' :: t)).map Text.trim = (Text.splitOn ',' t).map Text.trim := by
    rw [Text.splitOn, if_neg (by decide)]
    cases h : Text.splitOn ',' t with
    | nil => exact absurd h (Text.splitOn_ne_nil ',' t)
    | cons piece pieces =>
      have htrim : Text.trim (' ' :: piece) = Text.trim piece :=
        Text.trim_blank_append (a := [' ']) rfl piece
      simp only [List.map_cons, htrim]
  rw [cutList, cutList, hsplit]

theorem cutList_listText (hne : strings ≠ []) :
    cutList (listText '"' strings) = strings.flatMap fun s => cutList (quoted '"' s) := by
  induction strings with
  | nil => exact absurd rfl hne
  | cons s strings ih =>
    cases strings with
    | nil =>
      rw [listText, List.map_singleton, Text.join, List.intercalate_singleton, List.flatMap_singleton]
    | cons next strings =>
      rw [listText, List.map_cons, List.map_cons, Text.join_cons_cons, List.append_assoc]
      change cutList (quoted '"' s ++ ',' :: ' ' :: listText '"' (next :: strings)) = _
      rw [cutList_append, cutList_blank, ih (List.cons_ne_nil _ _)]
      rfl

theorem dropQuotes_quoted (hquote : '"' ∉ s) : Statement.dropQuotes (quoted '"' s) = s := by
  have hstart : (quoted '"' s).dropWhile (· == '"') = s ++ ['"'] ∨ s = [] := by
    cases s with
    | nil => exact .inr rfl
    | cons c s =>
      have hc : (c == '"') = false := beq_eq_false_iff_ne.2 (Ne.symm (List.ne_of_not_mem_cons hquote))
      left
      change List.dropWhile (· == '"') (c :: (s ++ ['"'])) = _
      rw [List.dropWhile_cons, hc, if_neg Bool.false_ne_true]
      rfl
  rcases hstart with hstart | rfl
  · rw [Statement.dropQuotes, hstart, Text.dropEndWhile_eq_rdropWhile,
      List.rdropWhile_concat_pos _ _ _ rfl, ← Text.dropEndWhile_eq_rdropWhile]
    exact Text.dropEndWhile_of_not_mem hquote
  · rfl

theorem cutList_quoted (hquote : '"' ∉ s) (hcomma : ',' ∉ s) : cutList (quoted '"' s) = [s] := by
  have hsplit : Text.splitOn ',' (quoted '"' s) = [quoted '"' s] := by
    have hpieces : ∀ piece ∈ [quoted '"' s], ',' ∉ piece := by
      simp [quoted, hcomma]
    have hjoin := Text.splitOn_join hpieces (List.cons_ne_nil _ _)
    rwa [Text.join, List.intercalate_singleton] at hjoin
  have htrim : Text.trim (quoted '"' s) = quoted '"' s := Text.trim_between rfl rfl s
  rw [cutList, hsplit, List.map_singleton, htrim]
  exact congrArg (fun t => [t]) (dropQuotes_quoted hquote)

theorem cutList_ne_nil (h : '"' ∈ t) : cutList t ≠ [] := by
  rw [← Text.join_splitOn ',' t] at h
  obtain ⟨piece, hpiece, hm⟩ := (Text.mem_of_mem_join h).resolve_left (by decide)
  have hkept : (Text.trim piece).isEmpty = false := by
    obtain ⟨front, back, hsplit, hfront, hback⟩ := Text.eq_trim_append piece
    rw [hsplit, List.mem_append, List.mem_append] at hm
    rw [List.isEmpty_eq_false_iff_exists_mem]
    rcases hm with (hm | hm) | hm
    · exact absurd (List.all_eq_true.1 hfront _ hm) (by decide)
    · exact ⟨_, hm⟩
    · exact absurd (List.all_eq_true.1 hback _ hm) (by decide)
  have hitem : Text.trim piece ∈
      ((Text.splitOn ',' t).map Text.trim).filter fun item => !item.isEmpty := by
    rw [List.mem_filter, hkept]
    exact ⟨List.mem_map_of_mem hpiece, rfl⟩
  exact List.ne_nil_of_mem (List.mem_map_of_mem hitem)

theorem two_le_cutList (hcomma : ',' ∈ s) : 2 ≤ (cutList (quoted '"' s)).length := by
  obtain ⟨a, b, rfl⟩ := List.append_of_mem hcomma
  have hsplit : quoted '"' (a ++ ',' :: b) = '"' :: a ++ ',' :: (b ++ ['"']) := by
    simp [quoted]
  have ha := List.length_pos_iff.2 (cutList_ne_nil (t := '"' :: a) List.mem_cons_self)
  have hb := List.length_pos_iff.2 (cutList_ne_nil (t := b ++ ['"']) (by simp))
  rw [hsplit, cutList_append, List.length_append]
  omega

theorem count_listText (strings : List Text) :
    (listText '"' strings).count '"' = 2 * strings.length + strings.flatten.count '"' := by
  rw [listText, Text.count_join (by decide)]
  induction strings with
  | nil => rfl
  | cons s strings ih =>
    have hs : (quoted '"' s).count '"' = s.count '"' + 2 := by
      rw [quoted, List.count_append, List.count_cons_self, List.count_singleton_self]
    rw [List.map_cons, List.flatten_cons, List.count_append, ih, hs, List.flatten_cons,
      List.count_append, List.length_cons]
    omega

theorem length_cutLists (hquote : ∀ s ∈ strings, '"' ∉ s) :
    strings.length ≤ (strings.flatMap fun s => cutList (quoted '"' s)).length ∧
      ((strings.flatMap fun s => cutList (quoted '"' s)).length ≤ strings.length →
        ∀ s ∈ strings, ',' ∉ s) := by
  induction strings with
  | nil => exact ⟨Nat.le_refl 0, fun _ => nofun⟩
  | cons s strings ih =>
    rw [List.forall_mem_cons] at hquote
    obtain ⟨hle, hback⟩ := ih hquote.2
    rw [List.flatMap_cons, List.length_append, List.length_cons, List.forall_mem_cons]
    by_cases hcomma : ',' ∈ s
    · have := two_le_cutList hcomma
      exact ⟨by omega, fun h => absurd h (by omega)⟩
    · rw [cutList_quoted hquote.1 hcomma, List.length_singleton]
      exact ⟨by omega, fun h => ⟨hcomma, hback (by omega)⟩⟩

/-- Cutting a list at its commas keeps its text exactly if there are none in its strings. -/
theorem listText_cutLists_iff (hquote : ∀ s ∈ strings, '"' ∉ s) :
    listText '"' (strings.flatMap fun s => cutList (quoted '"' s)) = listText '"' strings ↔
      ∀ s ∈ strings, ',' ∉ s := by
  constructor
  · intro h
    have hcount := congrArg (List.count '"') h
    have hzero : strings.flatten.count '"' = 0 := by
      apply List.count_eq_zero_of_not_mem
      intro hm
      obtain ⟨s, hs, hm⟩ := List.mem_flatten.1 hm
      exact hquote s hs hm
    rw [count_listText, count_listText, hzero] at hcount
    exact (length_cutLists hquote).2 (by omega)
  · intro hcomma
    have hitems : (strings.flatMap fun s => cutList (quoted '"' s)) = strings.flatMap ([·]) :=
      List.flatMap_congr fun s hs => cutList_quoted (hquote s hs) (hcomma s hs)
    rw [hitems, List.flatMap_singleton']

theorem parse_normalizeQuotes (line : Nat) (t : Text) :
    Statement.parse line (normalizeQuotes t) = Statement.parse line t := by
  have hquote : '\'' ∉ normalizeQuotes t := by
    intro hm
    obtain ⟨c, -, hc⟩ := List.mem_map.1 hm
    split at hc
    · cases hc
    · next hne => exact hne hc
  have hnormal : Statement.normalize (normalizeQuotes t) = Statement.normalize t := by
    rw [Statement.normalize, normalizeQuotes_of_not_mem hquote]
    rfl
  simp only [Statement.parse, hnormal]

theorem normalizeQuotes_around {a b : Text} (ha : '\'' ∉ a) (hb : '\'' ∉ b) (h : ∀ s ∈ strings, IsPlain s) :
    normalizeQuotes (a ++ (listText '\'' strings ++ b)) = a ++ (listText '"' strings ++ b) := by
  have hlist := normalizeQuotes_listText h
  have ha := normalizeQuotes_of_not_mem ha
  have hb := normalizeQuotes_of_not_mem hb
  rw [normalizeQuotes] at hlist ha hb ⊢
  rw [List.map_append, List.map_append, ha, hlist, hb]

/-- A list behind a tag is cut at its commas. -/
theorem parse_tagged_list (hname : Java.isIdentifier name) (hne : strings ≠ [])
    (h : ∀ s ∈ strings, IsPlain s) (line : Nat) :
    Statement.parse line (arrayLine .string name (listText '\'' strings)) =
      .ok (.declaration [] (.array .string) name (Java.newArray .string
        (listText '"' (strings.flatMap fun s => cutList (quoted '"' s))))) := by
  have hword := Java.not_mem_of_all_isIdentifierChar (c := '\'') (Java.all_isIdentifierChar hname)
    (by decide)
  have hfront : '\'' ∉ arrayTag .string ++ (name ++ " = [") := by
    have htag : '\'' ∉ arrayTag .string := by decide
    simp [htag, hword]
  have hline (quote : Char) : arrayLine .string name (listText quote strings) =
      arrayTag .string ++ (name ++ " = [") ++ (listText quote strings ++ "];") := by
    simp [arrayLine, arrayRight]
  have hnormal := normalizeQuotes_around hfront (b := "];") (by decide) h
  rw [← hline, ← hline] at hnormal
  rw [← parse_normalizeQuotes, hnormal, parse_arrayLine hname (not_mem_listText h (by decide))
    (not_mem_listText h (by decide)) (isTagFree_listText fun s hs => (h s hs).2), arrayValue_string,
    cutList_listText hne]

def listLiteral (strings : List Text) : Text :=
  '[' :: listText '"' strings ++ [']']

theorem not_mem_listLiteral (h : ∀ s ∈ strings, IsPlain s) (hc : c ∈ ['\'', '\\']) :
    c ∉ listLiteral strings := by
  have hchars : c ∈ ['\'', '\\', ']'] ∧ c ≠ '[' ∧ c ≠ ']' := by
    simp only [List.mem_cons, List.not_mem_nil, or_false] at hc
    rcases hc with rfl | rfl <;> decide
  obtain ⟨hstop, hopen, hclose⟩ := hchars
  have hlist := not_mem_listText h hstop
  simp [listLiteral, hlist, hopen, hclose]

theorem isTagFree_listLiteral (h : ∀ s ∈ strings, IsPlain s) : IsTagFree (listLiteral strings) := by
  have hempty : IsTagFree [] := isTagFree_of_dot_not_mem List.not_mem_nil
  have hlist := isTagFree_listText fun s hs => (h s hs).2
  exact hempty.append_cons (c := '[') (hlist.append_cons (c := ']') hempty (by decide)) (by decide)

theorem parse_keyword_list (hkeyword : keyword ∈ Statement.keywords) (hname : Java.isIdentifier name)
    (hne : strings ≠ []) (h : ∀ s ∈ strings, IsPlain s) (line : Nat) :
    Statement.parse line (keywordLine keyword name ('[' :: listText '\'' strings ++ "];")) =
      if ∃ s ∈ strings, ';' ∈ s then
        .error (.notLiteral line (Text.trim ((listLiteral strings).takeWhile (· != ';'))))
      else .ok (.declaration [] (.array .string) name (Java.newArray .string (listText '"' strings))) := by
  obtain ⟨-, hletters, -⟩ := keyword_facts hkeyword
  have hfront : '\'' ∉ keyword ++ ' ' :: (name ++ " = [") := by
    have hword := Java.not_mem_of_all_isIdentifierChar (c := '\'') hletters (by decide)
    have hmiddle := Java.not_mem_of_all_isIdentifierChar (c := '\'') (Java.all_isIdentifierChar hname)
      (by decide)
    simp [hword, hmiddle]
  have hline (quote : Char) : keywordLine keyword name ('[' :: listText quote strings ++ "];") =
      keyword ++ ' ' :: (name ++ " = [") ++ (listText quote strings ++ "];") := by
    simp [keywordLine]
  have hnormal := normalizeQuotes_around hfront (b := "];") (by decide) h
  rw [← hline, ← hline] at hnormal
  have hsource : keywordLine keyword name ('[' :: listText '"' strings ++ "];") =
      [] ++ keywordLine keyword name (listLiteral strings ++ [';']) := by
    simp [listLiteral]
  have hliteral := parse?_listText hne h
  rw [← listLiteral] at hliteral
  rw [← parse_normalizeQuotes, hnormal, hsource, parse_keywordLine_terminated hkeyword hname rfl
    (not_mem_listLiteral h (by decide)) (isTagFree_listLiteral h) (.inr rfl)]
  have hmem : ';' ∈ listLiteral strings ↔ ∃ s ∈ strings, ';' ∈ s := by
    simp [listLiteral, semicolon_mem_listText]
  by_cases hsemicolon : ∃ s ∈ strings, ';' ∈ s
  · have hcut := parse?_takeWhile_semicolon (not_mem_listLiteral h (by decide)) hliteral
      (hmem.2 hsemicolon)
    simp only [if_pos hsemicolon, parse?_trim, hcut]
  · have htake : (listLiteral strings).takeWhile (· != ';') = listLiteral strings := by
      rw [List.takeWhile_eq_self_iff]
      exact fun c hc => bne_iff_ne.2 fun he => hsemicolon (hmem.1 (he ▸ hc))
    simp only [if_neg hsemicolon, htake, parse?_trim, hliteral, type?_strings hne, java_strings]

theorem newArray_inj {element : Java.Scalar} {a b : Text} :
    Java.newArray element a = Java.newArray element b ↔ a = b := by
  constructor
  · exact fun h => List.append_cancel_left (List.append_cancel_right h)
  · rintro rfl
    rfl

theorem parse_lists_eq_iff (hkeyword : keyword ∈ Statement.keywords) (hname : Java.isIdentifier name)
    (hne : strings ≠ []) (h : ∀ s ∈ strings, IsPlain s) (line : Nat) :
    Statement.parse line (arrayLine .string name (listText '\'' strings)) =
        Statement.parse line (keywordLine keyword name ('[' :: listText '\'' strings ++ "];")) ↔
      ∀ s ∈ strings, ',' ∉ s ∧ ';' ∉ s := by
  rw [parse_tagged_list hname hne h, parse_keyword_list hkeyword hname hne h]
  by_cases hsemicolon : ∃ s ∈ strings, ';' ∈ s
  · obtain ⟨s, hs, hm⟩ := hsemicolon
    rw [if_pos ⟨s, hs, hm⟩]
    exact iff_of_false nofun fun hall => (hall s hs).2 hm
  · have hfree : ∀ s ∈ strings, ';' ∉ s := fun s hs hm => hsemicolon ⟨s, hs, hm⟩
    have hcut := listText_cutLists_iff fun s hs => (h s hs).not_mem (c := '"') (by decide)
    rw [if_neg hsemicolon, Except.ok.injEq, Statement.declaration.injEq, newArray_inj, hcut]
    simp only [true_and]
    exact ⟨fun hcomma s hs => ⟨hcomma s hs, hfree s hs⟩, fun hall s hs => (hall s hs).1⟩

/-- A list behind a tag and behind a keyword declare the same exactly if no string has a comma, at which
the first is cut, or a semicolon, at which the second ends. -/
theorem string_array_lines (hkeyword : keyword ∈ Statement.keywords) (hname : Java.isIdentifier name)
    (hne : strings ≠ []) (h : ∀ s ∈ strings, IsPlain s) (line : Nat) :
    let tagged := Statement.parse line (arrayLine .string name (listText '\'' strings))
    let untagged := Statement.parse line (keywordLine keyword name ('[' :: listText '\'' strings ++ "];"))
    let declared (strings : List Text) : Statement :=
      .declaration [] (.array .string) name (Java.newArray .string (listText '"' strings))
    tagged = .ok (declared (strings.flatMap fun s => cutList (quoted '"' s))) ∧
    untagged = (if ∃ s ∈ strings, ';' ∈ s
      then .error (.notLiteral line (Text.trim ((listLiteral strings).takeWhile (· != ';'))))
      else .ok (declared strings)) ∧
    (∀ s ∈ strings, Java.constant? (quoted '"' s) = some (.string (Text.units s))) ∧
    (tagged = untagged ↔ ∀ s ∈ strings, ',' ∉ s ∧ ';' ∉ s) := by
  refine ⟨parse_tagged_list hname hne h line, parse_keyword_list hkeyword hname hne h line, ?_,
    parse_lists_eq_iff hkeyword hname hne h line⟩
  intro s hs
  rw [← writeString_eq_quoted (h s hs)]
  exact constant?_writeString s

theorem string_array_lines_words :
    Statement.parse 1 "java.Array.String.words = ['a=b', '', ' [c'];" =
      Statement.parse 1 "let words = ['a=b', '', ' [c'];" := by
  have hplain : ∀ s ∈ (["a=b", [], " [c"] : List Text), IsPlain s := by
    have hchars : ∀ s ∈ (["a=b", [], " [c"] : List Text),
        (s.all fun c => 0x20 ≤ c.toNat ∧ c ∉ ['\'', '"', '\\', ']']) ∧ '.' ∉ s := by decide
    intro s hs
    obtain ⟨hall, hdot⟩ := hchars s hs
    exact ⟨by simpa using hall, isTagFree_of_dot_not_mem hdot⟩
  have hkeyword : ("let" : Text) ∈ Statement.keywords := by decide
  have hname : Java.isIdentifier "words" := rfl
  have hlines := string_array_lines hkeyword hname (List.cons_ne_nil _ _) hplain 1
  exact hlines.2.2.2.2 (by decide)

/-- A comma in a string cuts it in two, and a semicolon ends the right side within the string. -/
theorem string_array_lines_differ :
    (Statement.parse 1 "java.Array.String.x = ['a,b'];" =
        .ok (.declaration [] (.array .string) "x" "new String[]\x7b\"a\", \"b\"\x7d") ∧
      Statement.parse 1 "let x = ['a,b'];" =
        .ok (.declaration [] (.array .string) "x" "new String[]\x7b\"a,b\"\x7d")) ∧
    Statement.parse 1 "java.Array.String.x = ['a;b'];" =
        .ok (.declaration [] (.array .string) "x" "new String[]\x7b\"a;b\"\x7d") ∧
      Statement.parse 1 "let x = ['a;b'];" = .error (.notLiteral 1 "[\"a") := by
  refine ⟨⟨?_, ?_⟩, ?_, ?_⟩
  · rfl
  · rfl
  · rfl
  · rfl

end PluginForge.Callback
