import PluginForge.Json.Value

namespace PluginForge.Json

/-- A text that may stand between the parts of a document. -/
def IsGap (b : Text) : Prop :=
  ∀ c ∈ b, Cursor.isBlank c

instance : DecidablePred IsGap :=
  fun b => decidable_of_iff (b.all Cursor.isBlank) List.all_eq_true

/-- Behind a gap, and behind a comma too unless what follows is the first of its bracket, a text goes on
with another one. -/
inductive Follows : Bool → Text → Text → Prop where
  | first {b t : Text} (hb : IsGap b) : Follows true (b ++ t) t
  | next {b c t : Text} (hb : IsGap b) (hc : IsGap c) : Follows false (b ++ ',' :: (c ++ t)) t

mutual

/-- A text begins with a value, and goes on with another text behind it. -/
inductive Spells : Value → Text → Text → Prop where
  | string {b s r : Text} (hb : IsGap b) : Spells (.string s) (b ++ (writeString s ++ r)) r
  | list {items : List Value} {b t r : Text} (hb : IsGap b) (h : SpellsItems true items t r) :
      Spells (.list items) (b ++ '[' :: t) r
  | object {members : List (Text × Value)} {b t r : Text} (hb : IsGap b)
      (h : SpellsMembers true members t r) : Spells (.object members) (b ++ '\x7b' :: t) r

/-- A text begins with the items of a list and its closing bracket. -/
inductive SpellsItems : Bool → List Value → Text → Text → Prop where
  | close {first : Bool} {b r : Text} (hb : IsGap b) : SpellsItems first [] (b ++ ']' :: r) r
  | item {first : Bool} {v : Value} {items : List Value} {s t u r : Text} (hf : Follows first s t)
      (hv : Spells v t u) (h : SpellsItems false items u r) : SpellsItems first (v :: items) s r

/-- A text begins with the members of an object and its closing brace. -/
inductive SpellsMembers : Bool → List (Text × Value) → Text → Text → Prop where
  | close {first : Bool} {b r : Text} (hb : IsGap b) : SpellsMembers first [] (b ++ '\x7d' :: r) r
  | member {first : Bool} {key : Text} {v : Value} {members : List (Text × Value)}
      {b s t u r : Text} (hb : IsGap b) (hf : Follows first s (writeString key ++ (b ++ ':' :: t)))
      (hv : Spells v t u) (h : SpellsMembers false members u r) :
      SpellsMembers first ((key, v) :: members) s r

end

variable {b r s t u : Text} {first : Bool} {items : List Value} {members : List (Text × Value)}
  {v : Value} {depth : Nat}

theorem IsGap.nil : IsGap [] := by
  intro c hc
  cases hc

theorem IsGap.append (h : IsGap s) (h' : IsGap t) : IsGap (s ++ t) := by
  intro c hc
  rcases List.mem_append.1 hc with hc | hc
  · exact h c hc
  · exact h' c hc

theorem isGap_newLine (depth : Nat) : IsGap (Value.newLine depth) := by
  intro c hc
  rcases List.mem_cons.1 hc with rfl | hc
  · decide
  · rw [List.eq_of_mem_replicate hc]
    decide

theorem Spells.gap (h : Spells v t r) (hb : IsGap b) : Spells v (b ++ t) r := by
  cases h with
  | string hgap =>
    rw [← List.append_assoc]
    exact .string (hb.append hgap)
  | list hgap h =>
    rw [← List.append_assoc]
    exact .list (hb.append hgap) h
  | object hgap h =>
    rw [← List.append_assoc]
    exact .object (hb.append hgap) h

theorem Spells.empty_list (r : Text) : Spells (.list []) ('[' :: ']' :: r) r :=
  .list (b := []) .nil (.close (b := []) .nil)

theorem Spells.empty_object (r : Text) : Spells (.object []) ('\x7b' :: '\x7d' :: r) r :=
  .object (b := []) .nil (.close (b := []) .nil)

theorem Follows.gap (h : Follows first s (b ++ t)) (hb : IsGap b) : Follows first s t := by
  cases h with
  | first hgap =>
    rw [← List.append_assoc]
    exact .first (hgap.append hb)
  | next hgap hgap' =>
    rw [← List.append_assoc]
    exact .next hgap (hgap'.append hb)

theorem Follows.comma (t : Text) : Follows false (',' :: t) t :=
  .next (b := []) (c := []) .nil .nil

theorem spellsItems_join {write : Value → Text} (hne : items ≠ [])
    (hw : ∀ v ∈ items, ∀ r, Spells v (write v ++ r) r) (hb : IsGap b)
    (hf : Follows first s (Text.join "," (items.map write) ++ (b ++ ']' :: r))) :
    SpellsItems first items s r := by
  induction items generalizing first s with
  | nil => exact absurd rfl hne
  | cons v items ih =>
    have hv := hw v List.mem_cons_self
    cases items with
    | nil =>
      rw [List.map_singleton, Text.join, List.intercalate_singleton] at hf
      exact .item hf (hv _) (.close hb)
    | cons next items =>
      rw [List.map_cons, List.map_cons, Text.join_cons_cons, List.append_assoc, List.append_assoc]
        at hf
      apply SpellsItems.item hf (hv _)
      apply ih (List.cons_ne_nil next items)
      · intro other hother
        exact hw other (List.mem_cons_of_mem v hother)
      · exact .comma _

theorem spellsMembers_join {gap : Text} (write : Value → Text) (hne : members ≠ [])
    (hw : ∀ m ∈ members, ∀ r, Spells m.2 (write m.2 ++ r) r) (hgap : IsGap gap) (hb : IsGap b)
    (hf : Follows first s
      (Text.join "," (members.map fun m => gap ++ (writeString m.1 ++ ':' :: write m.2)) ++
        (b ++ '\x7d' :: r))) :
    SpellsMembers first members s r := by
  induction members generalizing first s with
  | nil => exact absurd rfl hne
  | cons m members ih =>
    obtain ⟨key, v⟩ := m
    have hv := hw _ List.mem_cons_self
    cases members with
    | nil =>
      rw [List.map_singleton, Text.join, List.intercalate_singleton, List.append_assoc,
        List.append_assoc, List.cons_append] at hf
      exact .member (b := []) .nil (hf.gap hgap) (hv _) (.close hb)
    | cons next members =>
      rw [List.map_cons, List.map_cons, Text.join_cons_cons, List.append_assoc, List.append_assoc,
        List.append_assoc, List.append_assoc, List.cons_append] at hf
      apply SpellsMembers.member (b := []) .nil (hf.gap hgap) (hv _)
      apply ih (List.cons_ne_nil next members)
      · intro other hother
        exact hw other (List.mem_cons_of_mem _ hother)
      · exact .comma _

namespace Value

/-- What holds of a list or an object as soon as it holds of all that is in it holds of every value. -/
theorem induction {P : Value → Prop} (string : ∀ text, P (.string text))
    (list : ∀ items, (∀ v ∈ items, P v) → P (.list items))
    (object : ∀ members : List (Text × Value), (∀ m ∈ members, P m.2) → P (.object members))
    (v : Value) : P v := by
  refine @Value.rec P (fun items => ∀ v ∈ items, P v) (fun members => ∀ m ∈ members, P m.2)
    (fun m => P m.2) string list object ?_ ?_ ?_ ?_ ?_ v
  · intro v hv
    cases hv
  · intro v items hv hitems other hother
    rcases List.mem_cons.1 hother with rfl | hother
    · exact hv
    · exact hitems other hother
  · intro m hm
    cases hm
  · intro m members hm hmembers other hother
    rcases List.mem_cons.1 hother with rfl | hother
    · exact hm
    · exact hmembers other hother
  · intro key v hv
    exact hv

theorem compactItems_eq (items : List Value) :
    compactItems items = Text.join "," (items.map compact) := by
  induction items with
  | nil => rfl
  | cons v items ih =>
    cases items with
    | nil =>
      rw [compactItems, List.map_singleton, Text.join, List.intercalate_singleton]
    | cons next items =>
      rw [compactItems, ih]
      · exact (Text.join_cons_cons _ _ _ _).symm
      · exact List.cons_ne_nil next items

theorem compactMembers_eq (members : List (Text × Value)) :
    compactMembers members =
      Text.join "," (members.map fun m => [] ++ (writeString m.1 ++ ':' :: m.2.compact)) := by
  induction members with
  | nil => rfl
  | cons m members ih =>
    obtain ⟨key, v⟩ := m
    cases members with
    | nil =>
      rw [compactMembers, List.map_singleton, Text.join, List.intercalate_singleton,
        List.append_assoc]
      rfl
    | cons next members =>
      rw [compactMembers, ih]
      · simp only [List.map_cons, Text.join_cons_cons, List.append_assoc, List.nil_append,
          List.cons_append]
        rfl
      · exact List.cons_ne_nil next members

theorem prettyItems_eq (depth : Nat) (items : List Value) :
    prettyItems depth items =
      Text.join "," (items.map fun v => newLine depth ++ v.pretty depth) := by
  induction items with
  | nil => rfl
  | cons v items ih =>
    cases items with
    | nil => rw [prettyItems, List.map_singleton, Text.join, List.intercalate_singleton]
    | cons next items =>
      rw [prettyItems, ih]
      · exact (Text.join_cons_cons _ _ _ _).symm
      · exact List.cons_ne_nil next items

theorem prettyMembers_eq (depth : Nat) (members : List (Text × Value)) :
    prettyMembers depth members =
      Text.join "," (members.map fun m =>
        newLine depth ++ (writeString m.1 ++ ':' :: ([' '] ++ m.2.pretty depth))) := by
  induction members with
  | nil => rfl
  | cons m members ih =>
    obtain ⟨key, v⟩ := m
    cases members with
    | nil =>
      rw [prettyMembers, List.map_singleton, Text.join, List.intercalate_singleton]
      simp only [List.append_assoc]
      rfl
    | cons next members =>
      rw [prettyMembers, ih]
      · simp only [List.map_cons, Text.join_cons_cons, List.append_assoc, List.cons_append]
        rfl
      · exact List.cons_ne_nil next members

theorem compact_spells (v : Value) (r : Text) : Spells v (v.compact ++ r) r := by
  induction v using Value.induction generalizing r with
  | string text =>
    rw [compact]
    exact .string (b := []) .nil
  | list items ih =>
    rw [compact, compactItems_eq, List.append_assoc, List.append_assoc]
    apply Spells.list (b := []) .nil
    cases items with
    | nil => exact .close (b := []) .nil
    | cons v items =>
      exact spellsItems_join (b := []) (List.cons_ne_nil v items) ih .nil (.first (b := []) .nil)
  | object members ih =>
    rw [compact, compactMembers_eq, List.append_assoc, List.append_assoc]
    apply Spells.object (b := []) .nil
    cases members with
    | nil => exact .close (b := []) .nil
    | cons m members =>
      exact spellsMembers_join (b := []) compact (List.cons_ne_nil m members) ih .nil .nil
        (.first (b := []) .nil)

theorem pretty_spells (v : Value) (depth : Nat) (r : Text) : Spells v (v.pretty depth ++ r) r := by
  induction v using Value.induction generalizing depth r with
  | string text =>
    rw [pretty]
    exact .string (b := []) .nil
  | list items ih =>
    cases items with
    | nil => exact .empty_list r
    | cons v items =>
      rw [pretty, prettyItems_eq, List.append_assoc, List.append_assoc, List.append_assoc]
      · apply Spells.list (b := []) .nil
        apply spellsItems_join (List.cons_ne_nil v items) _ (isGap_newLine depth)
          (.first (b := []) .nil)
        intro v hv r
        rw [List.append_assoc]
        exact (ih v hv _ r).gap (isGap_newLine _)
      · exact List.cons_ne_nil v items
  | object members ih =>
    cases members with
    | nil => exact .empty_object r
    | cons m members =>
      rw [pretty, prettyMembers_eq, List.append_assoc, List.append_assoc, List.append_assoc]
      · have hw : ∀ other ∈ m :: members, ∀ r,
            Spells other.2 (([' '] ++ other.2.pretty (depth + 1)) ++ r) r := by
          intro other hother r
          rw [List.append_assoc]
          apply (ih other hother _ r).gap
          intro c hc
          rw [List.mem_singleton.1 hc]
          rfl
        apply Spells.object (b := []) .nil
        exact spellsMembers_join (fun v => [' '] ++ v.pretty (depth + 1)) (List.cons_ne_nil m members)
          hw (isGap_newLine _) (isGap_newLine depth) (.first (b := []) .nil)
      · exact List.cons_ne_nil m members

end Value

end PluginForge.Json
