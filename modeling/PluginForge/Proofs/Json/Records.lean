import PluginForge.Proofs.Json.Forms
import PluginForge.Proofs.Json.Grammar

namespace PluginForge.Json

variable {α ρ : Type} {a : α} {done fields : List (Field ρ)} {field : Field ρ} {first : Bool}
  {form : Form} {fuel : Nat} {given : List (Text × Form)} {key name : Text}
  {members : List (Text × Value)} {put : ρ → α → ρ} {r s : Text} {read : Reader α}
  {record record' : ρ} {seen : List Text} {shape : Shape ρ} {v : Value}

theorem find?_field (hfields : shape.fields = done ++ field :: fields)
    (hnodup : (shape.fields.map Field.name).Nodup) :
    (shape.fields.find? fun other => other.name == field.name) = some field := by
  rw [hfields] at hnodup ⊢
  rw [List.map_append, List.map_cons, List.nodup_append] at hnodup
  have hdone : (done.find? fun other => other.name == field.name) = none := by
    rw [List.find?_eq_none]
    intro other hother heq
    exact hnodup.2.2 _ (List.mem_map_of_mem hother) _ List.mem_cons_self (beq_iff_eq.1 heq)
  rw [List.find?_append, hdone, Option.none_or, List.find?_cons, beq_self_eq_true]

theorem find?_unknown (h : key ∉ shape.fields.map Field.name) :
    (shape.fields.find? fun field => field.name == key) = none := by
  rw [List.find?_eq_none]
  intro field hfield he
  rw [← beq_iff_eq.1 he] at h
  exact h (List.mem_map_of_mem hfield)

/-- The members of an object make one record of another: each gives the value of a field, or is passed
over as its key is no field's. -/
inductive Makes (shape : Shape ρ) : List (Text × Form) → ρ → ρ → Prop where
  | nil {record : ρ} : Makes shape [] record record
  | field {field : Field ρ} {form : Form} {given : List (Text × Form)} {record record' record'' : ρ}
      (hfield : field ∈ shape.fields) (hread : ReadsForm (field.read record) form record')
      (h : Makes shape given record' record'') :
      Makes shape ((field.name, form) :: given) record record''
  | unknown {key : Text} {given : List (Text × Form)} {record record' : ρ}
      (hkey : key ∉ shape.fields.map Field.name) (h : Makes shape given record record') :
      Makes shape ((key, AnyValue) :: given) record record'

theorem Makes.length_le (h : Makes shape given record record') :
    ∀ m ∈ given, ∀ {t r : Text}, m.2 t r → r.length ≤ t.length := by
  induction h with
  | nil => exact nofun
  | field _ hread _ ih => exact List.forall_mem_cons.2 ⟨hread.length_le, ih⟩
  | unknown _ _ ih => exact List.forall_mem_cons.2 ⟨AnyValue.length_le, ih⟩

/-- While an object is read, the members that are left give no field that has been seen, and none twice;
every field that must be there has been seen or is left. -/
structure Remains (shape : Shape ρ) (seen : List Text) (given : List (Text × Form)) : Prop where
  distinct : given.Pairwise fun m m' => m.1 = m'.1 → m.1 ∉ shape.fields.map Field.name
  fresh : ∀ m ∈ given, m.1 ∉ seen
  required : ∀ field ∈ shape.fields, field.inObject →
    field.name ∈ seen ∨ field.name ∈ given.map Prod.fst

namespace Remains

theorem known (h : Remains shape seen ((field.name, form) :: given)) (hfield : field ∈ shape.fields) :
    Remains shape (field.name :: seen) given where
  distinct := (List.pairwise_cons.1 h.distinct).2
  fresh := by
    intro m hm hseen
    rcases List.mem_cons.1 hseen with he | hseen
    · exact (List.pairwise_cons.1 h.distinct).1 m hm he.symm (List.mem_map_of_mem hfield)
    · exact h.fresh m (List.mem_cons_of_mem _ hm) hseen
  required := by
    intro other hother hin
    rcases h.required other hother hin with hseen | hmem
    · exact .inl (List.mem_cons_of_mem _ hseen)
    · rcases List.mem_cons.1 hmem with he | hmem
      · exact .inl (List.mem_cons.2 (.inl he))
      · exact .inr hmem

theorem unknown {m : Text × Form} (h : Remains shape seen (m :: given))
    (hm : m.1 ∉ shape.fields.map Field.name) :
    Remains shape seen given where
  distinct := (List.pairwise_cons.1 h.distinct).2
  fresh := by
    intro other hother
    exact h.fresh other (List.mem_cons_of_mem m hother)
  required := by
    intro field hfield hin
    refine (h.required field hfield hin).imp_right fun hmem => ?_
    refine (List.mem_cons.1 hmem).resolve_left fun he => hm ?_
    rw [← he]
    exact List.mem_map_of_mem hfield

end Remains

theorem Shape.members_made (hnodup : (shape.fields.map Field.name).Nodup)
    (hmakes : Makes shape given record record') (h : Form.members first given s r)
    (hremains : Remains shape seen given) (hfuel : given.length < fuel) (p : Position) :
    ∃ q, shape.members fuel first seen record ⟨p, s⟩ = .ok (record', ⟨q, '\x7d' :: r⟩) := by
  induction hmakes generalizing first s fuel seen p with
  | nil =>
    obtain ⟨fuel, rfl⟩ := Nat.exists_eq_add_one_of_ne_zero (Nat.ne_zero_of_lt hfuel)
    cases h with
    | close hb =>
      obtain ⟨q, hq⟩ := seekKey_close p first hb r
      have hmissing : (shape.fields.find? fun field => field.inObject && !seen.contains field.name) =
          none := by
        rw [List.find?_eq_none]
        intro field hfield hmissing
        rw [Bool.and_eq_true, Bool.not_eq_true', List.contains_eq_mem, decide_eq_false_iff_not]
          at hmissing
        have hseen := hremains.required field hfield hmissing.1
        exact hmissing.2 (hseen.resolve_right List.not_mem_nil)
      refine ⟨q, ?_⟩
      rw [Shape.members, hq]
      simp only [Cursor.placed, Except.bind, bind, Bool.false_eq_true, if_false, hmissing]
      rfl
  | @field field _ _ _ _ _ hfield hread _ ih =>
    obtain ⟨fuel, rfl⟩ := Nat.exists_eq_add_one_of_ne_zero (Nat.ne_zero_of_lt hfuel)
    cases h with
    | member hkey hb hf hv h =>
      obtain ⟨d, d', q, hseek, hstring, hcolon⟩ := seekKey_spelled hkey hb hf p
      obtain ⟨before, after, hfields⟩ := List.append_of_mem hfield
      have hfind := find?_field hfields hnodup
      have hfresh : seen.contains field.name = false := by
        rw [List.contains_eq_mem, decide_eq_false_iff_not]
        exact hremains.fresh _ List.mem_cons_self
      obtain ⟨q', hq'⟩ := hread.reads hv q
      obtain ⟨q'', hq''⟩ := ih h (hremains.known hfield) (Nat.lt_of_succ_lt_succ hfuel) q'
      refine ⟨q'', ?_⟩
      rw [Shape.members, hseek]
      simp only [Cursor.placed, Except.bind, bind, if_true, hstring, hfind, hfresh, Bool.false_eq_true,
        if_false, hcolon, hq', hq'']
  | unknown hunknown _ ih =>
    obtain ⟨fuel, rfl⟩ := Nat.exists_eq_add_one_of_ne_zero (Nat.ne_zero_of_lt hfuel)
    cases h with
    | member hkey hb hf hv h =>
      obtain ⟨d, d', q, hseek, hstring, hcolon⟩ := seekKey_spelled hkey hb hf p
      have hfind := find?_unknown hunknown
      obtain ⟨q', hq'⟩ := hv.skipValue q
      obtain ⟨q'', hq''⟩ := ih h (hremains.unknown hunknown) (Nat.lt_of_succ_lt_succ hfuel) q'
      refine ⟨q'', ?_⟩
      rw [Shape.members, hseek]
      simp only [Cursor.placed, Except.bind, bind, if_true, hstring, hfind, hcolon, hq', hq'']

theorem Makes.readsForm (hmakes : Makes shape given shape.initial record)
    (hnodup : (shape.fields.map Field.name).Nodup) (hremains : Remains shape [] given) :
    ReadsForm shape.read (.object given) record := by
  refine ⟨?_, ?_⟩
  · intro s r h
    cases h with
    | mk hb h =>
      have := h.length_le hmakes.length_le
      simp only [List.length_append, List.length_cons]
      omega
  · intro s r h p
    cases h with
    | @mk b t _ hb h =>
      obtain ⟨q, hq⟩ := skipBlanks_gap (r := t) (x := '\x7b') p hb rfl
      have hfuel : given.length < ('\x7b' :: t).length + 1 := by
        have := h.length_le hmakes.length_le
        rw [List.length_cons]
        omega
      obtain ⟨q', hq'⟩ := Shape.members_made hnodup hmakes h hremains hfuel (q.after '\x7b')
      refine ⟨q'.after '\x7d', ?_⟩
      rw [Shape.read, hq]
      change (place _ (shape.members _ true [] shape.initial ⟨q.after '\x7b', t⟩) >>= _) = _
      rw [hq']
      rfl

theorem ReadsForm.into_field (h : ReadsForm read form a) (name : Text) (put : ρ → α → ρ) (record : ρ) :
    ReadsForm ((Field.optional name read put).read record) form (put record a) where
  length_le := h.length_le
  reads := by
    intro t r ht p
    obtain ⟨q, hq⟩ := h.reads ht p
    refine ⟨q, ?_⟩
    change (read ⟨p, t⟩).map _ = _
    rw [hq]
    rfl

/-- Members give the values of a record's fields in their order, and leave some of them out. -/
inductive Fills : List (Field ρ) → List (Text × Value) → ρ → ρ → Prop where
  | nil {record : ρ} : Fills [] [] record record
  | absent {field : Field ρ} {fields : List (Field ρ)} {members : List (Text × Value)} {record record' : ρ}
      (hfree : field.inObject = false) (h : Fills fields members record record') :
      Fills (field :: fields) members record record'
  | member {field : Field ρ} {fields : List (Field ρ)} {members : List (Text × Value)} {v : Value}
      {record record' record'' : ρ} (hread : Reads (field.read record) v record')
      (h : Fills fields members record' record'') :
      Fills (field :: fields) ((field.name, v) :: members) record record''

namespace Fills

theorem makes (h : Fills fields members record record') (hfields : fields ⊆ shape.fields) :
    Makes shape (spelled members) record record' := by
  induction h with
  | nil => exact .nil
  | absent _ _ ih => exact ih (List.cons_subset.1 hfields).2
  | member hread _ ih =>
    obtain ⟨hfield, hfields⟩ := List.cons_subset.1 hfields
    exact .field hfield (reads_iff.1 hread) (ih hfields)

theorem names_sublist (h : Fills fields members record record') :
    ((spelled members).map Prod.fst).Sublist (fields.map Field.name) := by
  induction h with
  | nil => exact .slnil
  | absent _ _ ih => exact ih.cons _
  | member _ _ ih => exact ih.cons_cons _

theorem mem_names (h : Fills fields members record record') :
    ∀ field ∈ fields, field.inObject → field.name ∈ (spelled members).map Prod.fst := by
  induction h with
  | nil => exact nofun
  | absent hfree _ ih =>
    refine List.forall_mem_cons.2 ⟨fun hin => ?_, ih⟩
    rw [hfree] at hin
    cases hin
  | member _ _ ih =>
    refine List.forall_mem_cons.2 ⟨fun _ => List.mem_cons_self, ?_⟩
    exact fun field hfield hin => List.mem_cons_of_mem _ (ih field hfield hin)

variable (shape) in
/-- An object that fills the fields of a record is read as the record they make. -/
theorem reads (h : Fills shape.fields members shape.initial record)
    (hnodup : (shape.fields.map Field.name).Nodup) : Reads shape.read (.object members) record := by
  have hremains : Remains shape [] (spelled members) := by
    refine ⟨?_, fun _ _ => List.not_mem_nil, fun field hfield hin => .inr (h.mem_names field hfield hin)⟩
    exact (List.pairwise_map.1 (hnodup.sublist h.names_sublist)).imp fun hne he => absurd he hne
  intro p s r hv
  cases hv with
  | object hb hs =>
    exact ((h.makes (List.Subset.refl _)).readsForm hnodup hremains).reads (.mk hb hs.toForm) p

end Fills

theorem Reads.into_field (h : Reads read v a) (name : Text) (put : ρ → α → ρ) (record : ρ) :
    Reads ((Field.optional name read put).read record) v (put record a) :=
  reads_iff.2 ((reads_iff.1 h).into_field name put record)

namespace Fills

theorem optional (hread : Reads read v a) (h : Fills fields members (put record a) record') :
    Fills (.optional name read put :: fields) ((name, v) :: members) record record' :=
  .member (hread.into_field name put record) h

theorem required (hread : Reads read v a) (h : Fills fields members (put record a) record') :
    Fills (.required name read put :: fields) ((name, v) :: members) record record' :=
  .member (hread.into_field name put record) h

end Fills

end PluginForge.Json
