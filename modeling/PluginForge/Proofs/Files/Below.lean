import PluginForge.Files.Tree
import PluginForge.Proofs.Table

namespace PluginForge

namespace Files

variable {above at' key names : Location} {name : Text} {node : Node} {t : Tree}

namespace Tree

theorem relative?_eq_some : relative? above key = some names ↔ key = above ++ names := by
  induction above generalizing key with
  | nil => exact Option.some_inj
  | cons a above ih =>
    cases key with
    | nil => simp [relative?]
    | cons k key =>
      rw [relative?, List.cons_append, List.cons.injEq]
      by_cases h : a = k
      · rw [if_pos h, ih, and_iff_right h.symm]
      · rw [if_neg h]
        exact ⟨nofun, fun he => absurd he.1.symm h⟩

theorem ne_nil_of_mem_entries (h : (at', node) ∈ t.nodes.entries) : at' ≠ [] := by
  obtain ⟨parent, name, rfl, -⟩ := t.rooted at' (Table.get?_of_mem h)
  exact List.append_ne_nil_of_right_ne_nil parent (List.cons_ne_nil name [])

theorem mem_entries (h : at' ≠ []) :
    (at', node) ∈ t.nodes.entries ↔ t.node? at' = some node := by
  rw [node?, nodeIn_eq_get? h, Table.get?_eq_some]

theorem mem_listed : (at', node) ∈ t.listed ↔ t.node? at' = some node := by
  rw [listed, List.mem_cons]
  by_cases h : at' = []
  · subst h
    have hroot : ([], node) ∉ t.nodes.entries := fun hmem => ne_nil_of_mem_entries hmem rfl
    rw [or_iff_left hroot, Prod.mk.injEq, and_iff_right rfl, node?_root, Option.some.injEq, eq_comm]
  · rw [mem_entries h]
    exact or_iff_right fun he => h (Prod.mk.inj he).1

theorem mem_below : (names, node) ∈ t.below at' ↔ t.node? (at' ++ names) = some node := by
  rw [below, List.mem_filterMap]
  constructor
  · rintro ⟨⟨key, found⟩, hlisted, he⟩
    obtain ⟨names', hrelative, he⟩ := Option.map_eq_some_iff.1 he
    cases he
    have hkey : key = at' ++ names := relative?_eq_some.1 hrelative
    rw [hkey] at hlisted
    exact mem_listed.1 hlisted
  · exact fun hnode => ⟨_, mem_listed.2 hnode, by rw [relative?_eq_some.2 rfl]; rfl⟩

/-- What lies below a place is listed in the order of the places. -/
def ListedBefore (at' : Location) (a b : Location × Node) : Prop :=
  KeyOrder.before (at' ++ a.1) (at' ++ b.1)

instance : Std.Irrefl (ListedBefore at') where
  irrefl _ := KeyOrder.irrefl _

instance : Std.Antisymm (ListedBefore at') where
  antisymm _ _ h h' := absurd (KeyOrder.trans h h') (KeyOrder.irrefl _)

theorem ascending_listed (t : Tree) : Ascending t.listed := by
  refine List.pairwise_cons.2 ⟨?_, t.nodes.ascending⟩
  rintro ⟨key, node⟩ hmem
  obtain ⟨name, key, rfl⟩ := List.exists_cons_of_ne_nil (ne_nil_of_mem_entries hmem)
  rfl

theorem not_listedBefore_root {entry : Location × Node} {node : Node} :
    ¬ListedBefore at' entry ([], node) := by
  obtain ⟨names, other⟩ := entry
  intro hbefore
  rw [ListedBefore, KeyOrder.before_append] at hbefore
  cases names <;> cases hbefore

theorem pairwise_below (t : Tree) (at' : Location) : (t.below at').Pairwise (ListedBefore at') := by
  apply List.pairwise_filterMap.2
  apply t.ascending_listed.imp
  intro a b hbefore entry hentry entry' hentry'
  obtain ⟨names, hnames, rfl⟩ := Option.map_eq_some_iff.1 hentry
  obtain ⟨names', hnames', rfl⟩ := Option.map_eq_some_iff.1 hentry'
  rw [relative?_eq_some.1 hnames, relative?_eq_some.1 hnames'] at hbefore
  exact hbefore

theorem nodup_below (t : Tree) (at' : Location) : ((t.below at').map Prod.fst).Nodup := by
  apply List.pairwise_map.2
  apply (t.pairwise_below at').imp
  intro a b hbefore he
  rw [ListedBefore, he] at hbefore
  exact KeyOrder.irrefl _ hbefore

/-- What counts of the entries below a place is listed alike wherever the same nodes count. -/
theorem filter_below_congr (counts : Location → Node → Bool) {t' : Tree}
    (h : ∀ names, (t.node? (at' ++ names)).filter (counts names) =
      (t'.node? (at' ++ names)).filter (counts names)) :
    (t.below at').filter (fun entry => counts entry.1 entry.2) =
      (t'.below at').filter fun entry => counts entry.1 entry.2 := by
  have listed {t t' : Tree} {entry : Location × Node}
      (h : ∀ names, (t.node? (at' ++ names)).filter (counts names) =
        (t'.node? (at' ++ names)).filter (counts names))
      (hentry : entry ∈ (t.below at').filter fun entry => counts entry.1 entry.2) :
      entry ∈ (t'.below at').filter fun entry => counts entry.1 entry.2 := by
    obtain ⟨hbelow, hcounts⟩ := List.mem_filter.1 hentry
    have hnode : (t.node? (at' ++ entry.1)).filter (counts entry.1) = some entry.2 :=
      Option.filter_eq_some_iff.2 ⟨mem_below.1 hbelow, hcounts⟩
    rw [h, Option.filter_eq_some_iff] at hnode
    exact List.mem_filter.2 ⟨mem_below.2 hnode.1, hcounts⟩
  apply ((t.pairwise_below at').filter _).eq_of_mem_iff ((t'.pairwise_below at').filter _)
  intro entry
  exact ⟨listed h, listed fun names => (h names).symm⟩

theorem below_congr {t' : Tree} (h : ∀ names, t.node? (at' ++ names) = t'.node? (at' ++ names)) :
    t.below at' = t'.below at' := by
  have hsame : (t.below at').filter (fun _ => true) = (t'.below at').filter fun _ => true :=
    filter_below_congr (fun _ _ => true) fun names => by rw [h names]
  rwa [List.filter_true, List.filter_true] at hsame

/-- Two states are the same if the same stands everywhere. -/
theorem ext_node? {t' : Tree} (h : ∀ at', t.node? at' = t'.node? at') : t = t' := by
  have hbelow : t.below [] = t'.below [] := Tree.below_congr h
  have hlisted (t : Tree) : t.below [] = t.listed := by
    simp only [Tree.below, Tree.relative?, Option.map_some, Prod.eta]
    exact List.filterMap_some
  rw [hlisted, hlisted, Tree.listed, Tree.listed] at hbelow
  obtain ⟨⟨entries, _⟩, _⟩ := t
  obtain ⟨⟨entries', _⟩, _⟩ := t'
  cases (List.cons.inj hbelow).2
  rfl

theorem isEntryName_of_mem_key (h : (t.nodes.get? key).isSome) (hn : name ∈ key) :
    isEntryName name := by
  induction hl : key.length generalizing key with
  | zero =>
    rw [List.length_eq_zero_iff.1 hl] at hn
    exact absurd hn List.not_mem_nil
  | succ n ih =>
    obtain ⟨parent, last, rfl, hlast, hd⟩ := t.rooted key h
    rw [List.length_append, List.length_singleton] at hl
    rcases List.mem_append.1 hn with hn | hn
    · refine ih ?_ hn (Nat.succ.inj hl)
      rw [nodeIn_eq_get? (List.ne_nil_of_mem hn)] at hd
      rw [hd]
      rfl
    · rwa [List.mem_singleton.1 hn]

theorem isEntryName_of_mem_below (h : (names, node) ∈ t.below at') (hn : name ∈ names) :
    isEntryName name := by
  have hne : at' ++ names ≠ [] := List.append_ne_nil_of_right_ne_nil at' (List.ne_nil_of_mem hn)
  have hentry := (mem_entries hne).2 (mem_below.1 h)
  exact isEntryName_of_mem_key (Table.get?_of_mem hentry) (List.mem_append_right at' hn)

end Tree

end Files

end PluginForge
