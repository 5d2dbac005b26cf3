import PluginForge.KeyOrder

namespace PluginForge

/-- Entries come in the order of their keys, no two of which are the same. -/
def Ascending {κ α : Type} [KeyOrder κ] (entries : List (κ × α)) : Prop :=
  entries.Pairwise fun a b => KeyOrder.before a.1 b.1

/-- A finite map, kept as the list of its entries in the order of their keys. -/
structure Table (κ α : Type) [KeyOrder κ] where
  entries : List (κ × α)
  ascending : Ascending entries

namespace Table

variable {κ α : Type} [DecidableEq κ]

theorem lookup_entry (key k : κ) (value : α) (rest : List (κ × α)) :
    ((k, value) :: rest).lookup key = if key = k then some value else rest.lookup key := by
  change (match key == k with | true => some value | false => rest.lookup key) = _
  by_cases h : key = k
  · rw [if_pos h, beq_iff_eq.2 h]
  · rw [if_neg h, beq_eq_false_iff_ne.2 h]

theorem lookup_filter (p : κ → Bool) (entries : List (κ × α)) (key : κ) :
    (entries.filter fun entry => p entry.1).lookup key =
      if p key then entries.lookup key else none := by
  induction entries with
  | nil => exact (ite_self none).symm
  | cons entry rest ih =>
    obtain ⟨k, v⟩ := entry
    rw [List.filter_cons]
    by_cases hk : key = k
    · subst hk
      by_cases hp : p key <;> simp [hp, ih]
    · by_cases hp : p k
      · simp only [hp, if_true, lookup_entry, if_neg hk, ih]
      · simpa only [hp, Bool.false_eq_true, if_false, lookup_entry, if_neg hk] using ih

variable [KeyOrder κ]

/-- Puts a value under a key into sorted entries, in place of an earlier one. -/
def insertEntry (key : κ) (value : α) : List (κ × α) → List (κ × α)
  | [] => [(key, value)]
  | entry :: rest =>
    if key = entry.1 then (key, value) :: rest
    else if KeyOrder.before key entry.1 then (key, value) :: entry :: rest
    else entry :: insertEntry key value rest

theorem mem_insertEntry {key : κ} {value : α} {e : κ × α} {entries : List (κ × α)}
    (h : e ∈ insertEntry key value entries) : e = (key, value) ∨ e ∈ entries := by
  induction entries with
  | nil => exact .inl (List.mem_singleton.1 h)
  | cons entry rest ih =>
    rw [insertEntry] at h
    split at h
    · rcases List.mem_cons.1 h with h | h
      · exact .inl h
      · exact .inr (List.mem_cons_of_mem _ h)
    · split at h
      · exact List.mem_cons.1 h
      · rcases List.mem_cons.1 h with h | h
        · exact .inr (h ▸ List.mem_cons_self)
        · exact (ih h).imp_right (List.mem_cons_of_mem _)

theorem ascending_insertEntry {key : κ} {value : α} {entries : List (κ × α)}
    (h : Ascending entries) : Ascending (insertEntry key value entries) := by
  induction entries with
  | nil => exact List.pairwise_singleton _ _
  | cons entry rest ih =>
    obtain ⟨first, rest'⟩ := List.pairwise_cons.1 h
    rw [insertEntry]
    split
    · next heq => exact List.pairwise_cons.2 ⟨fun e he => heq ▸ first e he, rest'⟩
    · next hne =>
      split
      · next hlt =>
        refine List.pairwise_cons.2 ⟨fun e he => ?_, h⟩
        rcases List.mem_cons.1 he with rfl | he
        · exact hlt
        · exact KeyOrder.trans hlt (first e he)
      · next hlt =>
        refine List.pairwise_cons.2 ⟨fun e he => ?_, ih rest'⟩
        rcases mem_insertEntry he with rfl | he
        · exact KeyOrder.total hne hlt
        · exact first e he

theorem lookup_insertEntry (key : κ) (value : α) (entries : List (κ × α)) (other : κ) :
    (insertEntry key value entries).lookup other =
      if other = key then some value else entries.lookup other := by
  induction entries with
  | nil => exact lookup_entry other key value []
  | cons entry rest ih =>
    obtain ⟨k, v⟩ := entry
    rw [insertEntry]
    split
    · next heq =>
      subst heq
      rw [lookup_entry, lookup_entry]
      split <;> rfl
    · next hne =>
      split
      · exact lookup_entry other key value _
      · rw [lookup_entry, lookup_entry, ih]
        by_cases ho : other = k
        · rw [if_pos ho, if_pos ho, if_neg fun h => hne (h.symm.trans ho)]
        · rw [if_neg ho, if_neg ho]

def empty : Table κ α :=
  ⟨[], .nil⟩

def insert (key : κ) (value : α) (t : Table κ α) : Table κ α :=
  ⟨insertEntry key value t.entries, ascending_insertEntry t.ascending⟩

def get? (t : Table κ α) (key : κ) : Option α :=
  t.entries.lookup key

def keys (t : Table κ α) : List κ :=
  t.entries.map Prod.fst

def keep (p : κ → Bool) (t : Table κ α) : Table κ α :=
  ⟨t.entries.filter fun entry => p entry.1, t.ascending.filter _⟩

/-- Puts all entries of a list into a table, one after another. -/
def insertAll (t : Table κ α) (entries : List (κ × α)) : Table κ α :=
  entries.foldl (fun t entry => t.insert entry.1 entry.2) t

@[simp] theorem get?_empty (key : κ) : (empty : Table κ α).get? key = none :=
  rfl

theorem get?_insert (key : κ) (value : α) (t : Table κ α) (other : κ) :
    (t.insert key value).get? other = if other = key then some value else t.get? other :=
  lookup_insertEntry key value t.entries other

theorem get?_keep (p : κ → Bool) (t : Table κ α) (key : κ) :
    (t.keep p).get? key = if p key then t.get? key else none :=
  lookup_filter p t.entries key

end Table

end PluginForge
