import Mathlib.Data.List.Perm.Basic
import Mathlib.Data.Option.Basic
import Mathlib.Logic.Function.Conjugate
import PluginForge.Proofs.Json.Records

namespace PluginForge.Json

variable {α ρ : Type} {a : α} {form : Form} {read : Reader α} {shape : Shape ρ}
  {updates : List (ρ → ρ)}

namespace Form

def given (fields : List (Text × Option Form)) : List (Text × Form) :=
  fields.filterMap fun field => field.2.map (field.1, ·)

/-- An object with a member for each field that has a form, and with any values under any keys that are
no field's, all in any order. -/
def record (fields : List (Text × Option Form)) : Form := fun t r =>
  ∃ (unknown : List Text) (all : List (Text × Form)), (∀ key ∈ unknown, key ∉ fields.map Prod.fst) ∧
    all.Perm (given fields ++ unknown.map (·, AnyValue)) ∧ object all t r

theorem keys_given (fields : List (Text × Option Form)) :
    ((given fields).map Prod.fst).Sublist (fields.map Prod.fst) := by
  induction fields with
  | nil => exact .slnil
  | cons field fields ih =>
    obtain ⟨name, _ | form⟩ := field
    · exact ih.cons name
    · exact ih.cons_cons name

end Form

/-- What a member does to any record that is read: it gives the value of a field, or is passed over as its
key is no field's. -/
inductive Takes (shape : Shape ρ) : Text × Form → (ρ → ρ) → Prop where
  | field {field : Field ρ} {form : Form} {update : ρ → ρ} (hfield : field ∈ shape.fields)
      (hread : ∀ record, ReadsForm (field.read record) form (update record)) :
      Takes shape (field.name, form) update
  | unknown {key : Text} (hkey : key ∉ shape.fields.map Field.name) : Takes shape (key, AnyValue) id

theorem Takes.makes {given : List (Text × Form)} (h : List.Forall₂ (Takes shape) given updates)
    (record : ρ) : Makes shape given record
      (updates.foldl (fun record update => update record) record) := by
  induction h generalizing record with
  | nil => exact .nil
  | cons hm _ ih =>
    cases hm with
    | field hfield hread => exact .field hfield (hread record) (ih _)
    | unknown hkey => exact .unknown hkey (ih record)

/-- What a document gives for a field, if anything, and what the field's reader does to a record then. -/
structure Entry (ρ : Type) where
  field : Field ρ
  form? : Option Form
  update : ρ → ρ
  reads : ∀ form ∈ form?, ∀ record, ReadsForm (field.read record) form (update record)
  absent : form? = none → field.inObject = false ∧ update = id

namespace Entry

variable {entries : List (Entry ρ)}

def member (e : Entry ρ) : Text × Option Form :=
  (e.field.name, e.form?)

theorem exists_updates (hfields : ∀ e ∈ entries, e.field ∈ shape.fields) :
    ∃ updates, List.Forall₂ (Takes shape) (Form.given (entries.map member)) updates ∧
      (∀ update ∈ updates, ∃ e ∈ entries, e.update = update) ∧
      ∀ record, updates.foldl (fun record update => update record) record =
        entries.foldl (fun record e => e.update record) record := by
  induction entries with
  | nil => exact ⟨[], .nil, nofun, fun _ => rfl⟩
  | cons e entries ih =>
    obtain ⟨updates, htakes, hmem, hfold⟩ :=
      ih fun other hother => hfields other (List.mem_cons_of_mem e hother)
    have hmem' : ∀ update ∈ updates, ∃ other ∈ e :: entries, other.update = update := by
      intro update hupdate
      obtain ⟨other, hother, hupdate⟩ := hmem update hupdate
      exact ⟨other, List.mem_cons_of_mem e hother, hupdate⟩
    cases hform : e.form? with
    | none =>
      refine ⟨updates, ?_, hmem', fun record => ?_⟩
      · simpa only [Form.given, List.map_cons, member, List.filterMap_cons, hform, Option.map_none]
          using htakes
      · rw [List.foldl_cons, (e.absent hform).2, id_eq, hfold]
    | some form =>
      refine ⟨e.update :: updates, ?_, List.forall_mem_cons.2 ⟨⟨e, List.mem_cons_self, rfl⟩, hmem'⟩,
        fun record => hfold (e.update record)⟩
      simp only [Form.given, List.map_cons, member, List.filterMap_cons, hform, Option.map_some]
      exact .cons (.field (hfields e List.mem_cons_self) (e.reads form hform)) htakes

theorem names_member (hfields : entries.map field = shape.fields) :
    (entries.map member).map Prod.fst = shape.fields.map Field.name := by
  rw [← hfields, List.map_map, List.map_map]
  rfl

theorem remains {all : List (Text × Form)} {unknown : List Text}
    (hfields : entries.map field = shape.fields)
    (hnodup : (shape.fields.map Field.name).Nodup)
    (hunknown : ∀ key ∈ unknown, key ∉ shape.fields.map Field.name)
    (hall : all.Perm (Form.given (entries.map member) ++ unknown.map (·, AnyValue))) :
    Remains shape [] all := by
  have hkeys := Form.keys_given (entries.map member)
  rw [names_member hfields] at hkeys
  refine ⟨?_, fun _ _ => List.not_mem_nil, ?_⟩
  · have hsymm : ∀ {m m' : Text × Form}, (m.1 = m'.1 → m.1 ∉ shape.fields.map Field.name) →
        m'.1 = m.1 → m'.1 ∉ shape.fields.map Field.name := by
      intro m m' h he
      rw [he]
      exact h he.symm
    rw [hall.pairwise_iff hsymm, List.pairwise_append]
    refine ⟨?_, ?_, ?_⟩
    · exact (List.pairwise_map.1 (hnodup.sublist hkeys)).imp fun hne he => absurd he hne
    · rw [List.pairwise_map]
      exact List.pairwise_of_forall_mem_list fun key hkey _ _ _ => hunknown key hkey
    · intro m _ m' hm' he
      obtain ⟨key, hkey, rfl⟩ := List.mem_map.1 hm'
      rw [he]
      exact hunknown key hkey
  · intro field hfield hin
    rw [← hfields] at hfield
    obtain ⟨e, he, rfl⟩ := List.mem_map.1 hfield
    obtain ⟨form, hform⟩ : ∃ form, e.form? = some form := by
      rw [← Option.ne_none_iff_exists']
      intro hform
      rw [(e.absent hform).1] at hin
      cases hin
    have hmem : (e.field.name, form) ∈ Form.given (entries.map member) := by
      refine List.mem_filterMap.2 ⟨e.member, List.mem_map_of_mem he, ?_⟩
      rw [member, hform]
      rfl
    exact .inr (List.mem_map_of_mem (hall.mem_iff.2 (List.mem_append_left _ hmem)))

/-- The order of updates that commute does not matter. -/
theorem foldl_perm {updates' : List (ρ → ρ)} {unknown : List Text}
    (hcomm : entries.Pairwise fun e e' => Function.Commute e.update e'.update)
    (hfrom : ∀ update ∈ updates, ∃ e ∈ entries, e.update = update)
    (hperm : updates'.Perm (updates ++ unknown.map fun _ => id)) (record : ρ) :
    updates'.foldl (fun record update => update record) record =
      updates.foldl (fun record update => update record) record := by
  have hall : ∀ e ∈ entries, ∀ e' ∈ entries, Function.Commute e.update e'.update :=
    hcomm.forall_of_forall_of_flip (fun e _ => .refl e.update) (hcomm.imp fun h => h.symm)
  have hcases : ∀ update ∈ updates', update = id ∨ ∃ e ∈ entries, e.update = update := by
    intro update hupdate
    rcases List.mem_append.1 (hperm.mem_iff.1 hupdate) with hupdate | hupdate
    · exact .inr (hfrom update hupdate)
    · exact .inl (List.eq_of_mem_map_const hupdate)
  have hswap : ∀ f ∈ updates', ∀ g ∈ updates', ∀ record, g (f record) = f (g record) := by
    intro f hf g hg record
    obtain rfl | ⟨e, he, rfl⟩ := hcases f hf
    · rfl
    · obtain rfl | ⟨e', he', rfl⟩ := hcases g hg
      · rfl
      · exact hall e' he' e he record
  rw [hperm.foldl_eq' hswap, List.foldl_append, List.foldl_map]
  exact List.foldl_fixed unknown

/-- An object is read as the record that the values given for its fields make, whichever order its
members come in and whatever else it holds. -/
theorem readsForm (hfields : entries.map field = shape.fields)
    (hnodup : (shape.fields.map Field.name).Nodup)
    (hcomm : entries.Pairwise fun e e' => Function.Commute e.update e'.update) :
    ReadsForm shape.read (.record (entries.map member))
      (entries.foldl (fun record e => e.update record) shape.initial) := by
  apply ReadsForm.of_form
  rintro t r ⟨unknown, all, hunknown, hall, hobject⟩
  have hmem : ∀ e ∈ entries, e.field ∈ shape.fields := by
    intro e he
    rw [← hfields]
    exact List.mem_map_of_mem he
  rw [names_member hfields] at hunknown
  obtain ⟨updates, htakes, hfrom, hfold⟩ := exists_updates hmem
  have hpass : List.Forall₂ (Takes shape) (unknown.map (·, AnyValue)) (unknown.map fun _ => id) := by
    rw [List.forall₂_map_left_iff, List.forall₂_map_right_iff, List.forall₂_same]
    exact fun key hkey => .unknown (hunknown key hkey)
  obtain ⟨updates', htakes', hupdates⟩ := List.perm_comp_forall₂ hall (List.rel_append htakes hpass)
  have hresult : updates'.foldl (fun record update => update record) shape.initial =
      entries.foldl (fun record e => e.update record) shape.initial := by
    rw [foldl_perm hcomm hfrom hupdates, hfold]
  rw [← hresult]
  exact ⟨_, (Takes.makes htakes' _).readsForm hnodup (remains hfields hnodup hunknown hall), hobject⟩

variable {form? : Option Form} {a? : Option α}

/-- A field that may be left out, given how its value is got from a record. -/
def optional (name : Text) (get : ρ → α) (put : ρ → α → ρ) (h : Option.Rel (ReadsForm read) form? a?)
    (hput : ∀ record, put record (get record) = record) : Entry ρ where
  field := .optional name read put
  form? := form?
  update := fun record => put record (a?.getD (get record))
  reads := by
    rintro form rfl record
    cases h with
    | some h => exact h.into_field name put record
  absent := by
    rintro rfl
    cases h
    exact ⟨rfl, funext hput⟩

def required (name : Text) (put : ρ → α → ρ) (h : ReadsForm read form a) : Entry ρ where
  field := .required name read put
  form? := some form
  update := fun record => put record a
  reads := by
    intro other hother record
    cases hother
    exact h.into_field name put record
  absent := nofun

end Entry

end PluginForge.Json
