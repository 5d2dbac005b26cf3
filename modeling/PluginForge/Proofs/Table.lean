import Mathlib.Data.List.Perm.Basic
import Mathlib.Data.List.Sort
import PluginForge.Table

namespace PluginForge.Table

variable {κ α : Type} [KeyOrder κ] {entries before after : List (κ × α)} {key key' : κ}
  {t t' : Table κ α} {value value' : α}

theorem ext (h : t.entries = t'.entries) : t = t' := by
  cases t
  cases t'
  cases h
  rfl

theorem nodup_keys (t : Table κ α) : t.keys.Nodup := by
  refine List.pairwise_map.2 (t.ascending.imp fun hbefore he => ?_)
  rw [he] at hbefore
  exact KeyOrder.irrefl _ hbefore

variable [DecidableEq κ]

theorem get?_of_mem (h : (key, value) ∈ t.entries) : (t.get? key).isSome := by
  rw [get?, List.lookup_isSome_iff]
  exact ⟨_, h, beq_self_eq_true key⟩

theorem get?_eq_some : t.get? key = some value ↔ (key, value) ∈ t.entries := by
  have mem {value : α} (h : t.get? key = some value) : (key, value) ∈ t.entries := by
    obtain ⟨before, after, he, -⟩ := List.lookup_eq_some_iff.1 h
    rw [he]
    exact List.mem_append_right _ List.mem_cons_self
  refine ⟨mem, fun h => ?_⟩
  obtain ⟨found, hfound⟩ := Option.isSome_iff_exists.1 (get?_of_mem h)
  have hsame := List.inj_on_of_nodup_map t.nodup_keys (mem hfound) h rfl
  rw [hfound, (Prod.mk.inj hsame).2]

theorem mem_keys : key ∈ t.keys ↔ (t.get? key).isSome := by
  rw [keys, List.mem_map, Option.isSome_iff_exists]
  constructor
  · rintro ⟨⟨_, value⟩, h, rfl⟩
    exact ⟨value, get?_eq_some.2 h⟩
  · rintro ⟨value, h⟩
    exact ⟨(key, value), get?_eq_some.1 h, rfl⟩

theorem ext_get? (h : ∀ key, t.get? key = t'.get? key) : t = t' := by
  have : Std.Irrefl fun a b : κ × α => KeyOrder.before a.1 b.1 = true := ⟨fun a => KeyOrder.irrefl a.1⟩
  have : Std.Antisymm fun a b : κ × α => KeyOrder.before a.1 b.1 = true :=
    ⟨fun a _ hab hba => absurd (KeyOrder.trans hab hba) (KeyOrder.irrefl a.1)⟩
  apply ext
  apply t.ascending.eq_of_mem_iff t'.ascending
  rintro ⟨key, value⟩
  rw [← get?_eq_some, h, get?_eq_some]

theorem insertEntry_last (h : ∀ e ∈ entries, KeyOrder.before e.1 key) (value : α) :
    insertEntry key value entries = entries ++ [(key, value)] := by
  induction entries with
  | nil => rfl
  | cons e entries ih =>
    have hbefore := h e List.mem_cons_self
    have hne : key ≠ e.1 := by
      intro heq
      rw [heq] at hbefore
      exact KeyOrder.irrefl _ hbefore
    have hnot : ¬KeyOrder.before key e.1 := by
      intro hafter
      exact KeyOrder.irrefl _ (KeyOrder.trans hafter hbefore)
    rw [insertEntry, if_neg hne, if_neg hnot, List.cons_append,
      ih fun other hother => h other (List.mem_cons_of_mem e hother)]

theorem entries_insertAll (hbefore : t.entries = before) (hasc : Ascending (before ++ after)) :
    (t.insertAll after).entries = before ++ after := by
  induction after generalizing before t with
  | nil => rw [List.append_nil, ← hbefore, insertAll, List.foldl_nil]
  | cons e after ih =>
    have hlast : ∀ other ∈ before, KeyOrder.before other.1 e.1 := by
      intro other hother
      exact (List.pairwise_append.1 hasc).2.2 other hother e List.mem_cons_self
    rw [List.append_cons] at hasc ⊢
    rw [insertAll, List.foldl_cons]
    apply ih _ hasc
    rw [← hbefore] at hlast ⊢
    exact insertEntry_last hlast e.2

theorem insertAll_entries (t : Table κ α) : empty.insertAll t.entries = t :=
  ext (entries_insertAll rfl t.ascending)

theorem insert_comm (h : key ≠ key') (t : Table κ α) :
    (t.insert key value).insert key' value' = (t.insert key' value').insert key value := by
  apply ext_get?
  intro other
  simp only [get?_insert]
  split
  · next hother =>
    rw [if_neg]
    rw [hother]
    exact h.symm
  · rfl

/-- The order in which the entries of a table are put into an empty one does not matter. -/
theorem insertAll_perm (h : entries.Perm t.entries) : empty.insertAll entries = t := by
  have hswap : ∀ e ∈ entries, ∀ e' ∈ entries, ∀ t : Table κ α,
      (t.insert e.1 e.2).insert e'.1 e'.2 = (t.insert e'.1 e'.2).insert e.1 e.2 := by
    intro e he e' he' other
    by_cases hkey : e.1 = e'.1
    · rw [List.inj_on_of_nodup_map t.nodup_keys (h.mem_iff.1 he) (h.mem_iff.1 he') hkey]
    · exact insert_comm hkey other
  rw [insertAll, h.foldl_eq' hswap]
  exact insertAll_entries t

theorem get?_insertAll (hnodup : (entries.map Prod.fst).Nodup) (t : Table κ α) (key : κ) :
    (t.insertAll entries).get? key = (entries.lookup key).or (t.get? key) := by
  induction entries generalizing t with
  | nil => rfl
  | cons e entries ih =>
    obtain ⟨k, value⟩ := e
    obtain ⟨hfresh, hnodup⟩ := List.nodup_cons.1 hnodup
    change ((t.insert k value).insertAll entries).get? key = _
    rw [ih hnodup, get?_insert, lookup_entry]
    split
    · next he =>
      have hnone : entries.lookup key = none := by
        rw [List.lookup_eq_none_iff]
        intro e hmem
        rw [he, bne_iff_ne]
        rintro rfl
        exact hfresh (List.mem_map.2 ⟨e, hmem, rfl⟩)
      rw [hnone]
      rfl
    · rfl

end PluginForge.Table
