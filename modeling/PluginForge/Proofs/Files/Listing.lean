import Mathlib.Algebra.Order.BigOperators.Group.List
import Mathlib.Algebra.Order.Group.Nat
import PluginForge.Proofs.Files.Changes
import PluginForge.Proofs.Text.ByteOrder

namespace PluginForge.Files

/-- What can be read of a place and of all that is below it, with the entries of each directory in the
order in which they happen to be listed. -/
inductive Listing where
  | file (content : ByteArray)
  | directory (entries : List (Text × Listing))

namespace Listing

/-- A visit to something in the directory's entry of a name, seen from the directory. -/
def under (name : Text) (visit : Location × Node) : Location × Node :=
  (name :: visit.1, visit.2)

mutual

/-- All that is listed, a directory before what it holds. -/
def visits : Listing → List (Location × Node)
  | .file content => [([], .file content)]
  | .directory entries => ([], .directory) :: visitsOf entries

def visitsOf : List (Text × Listing) → List (Location × Node)
  | [] => []
  | (name, listing) :: entries => (visits listing).map (under name) ++ visitsOf entries

end

/-- An entry's name does not come behind another one's in the order of bytes. -/
def isSorted (a b : Text × Listing) : Bool :=
  Text.utf8 a.1 ≤ Text.utf8 b.1

mutual

/-- The listing with the entries of each directory in the order of the bytes of their names. -/
def sorted : Listing → Listing
  | .file content => .file content
  | .directory entries => .directory ((sortedOf entries).mergeSort isSorted)

def sortedOf : List (Text × Listing) → List (Text × Listing)
  | [] => []
  | (name, listing) :: entries => (name, sorted listing) :: sortedOf entries

end

theorem visitsOf_eq (entries : List (Text × Listing)) :
    visitsOf entries = entries.flatMap fun entry => entry.2.visits.map (under entry.1) := by
  induction entries with
  | nil => rfl
  | cons entry entries ih => rw [visitsOf, ih, List.flatMap_cons]

theorem sortedOf_eq (entries : List (Text × Listing)) :
    sortedOf entries = entries.map fun entry => (entry.1, entry.2.sorted) := by
  induction entries with
  | nil => rfl
  | cons entry entries ih => rw [sortedOf, ih, List.map_cons]

end Listing

/-- A listing tells what stands at and below a place: every directory has each of its entries once. -/
inductive Lists (t : Tree) : Location → Listing → Prop where
  | file {at' : Location} {content : ByteArray} (node : t.node? at' = some (.file content)) :
      Lists t at' (.file content)
  | directory {at' : Location} {entries : List (Text × Listing)}
      (node : t.node? at' = some .directory)
      (distinct : (entries.map Prod.fst).Nodup)
      (complete : ∀ name, (t.node? (at' ++ [name])).isSome → name ∈ entries.map Prod.fst)
      (each : ∀ entry ∈ entries, Lists t (at' ++ [entry.1]) entry.2) :
      Lists t at' (.directory entries)

namespace Lists

open Listing (under isSorted)

variable {at' names : Location} {entries : List (Text × Listing)} {l : Listing} {name : Text}
  {node : Node} {t : Tree}

theorem mem_visitsOf :
    (names, node) ∈ Listing.visitsOf entries ↔
      ∃ entry ∈ entries, ∃ below, names = entry.1 :: below ∧ (below, node) ∈ entry.2.visits := by
  rw [Listing.visitsOf_eq, List.mem_flatMap]
  refine exists_congr fun entry => and_congr_right fun _ => ?_
  rw [List.mem_map]
  constructor
  · rintro ⟨⟨below, found⟩, hvisit, he⟩
    cases he
    exact ⟨below, rfl, hvisit⟩
  · rintro ⟨below, rfl, hvisit⟩
    exact ⟨(below, node), hvisit, rfl⟩

theorem mem_visits (h : Lists t at' l) :
    (names, node) ∈ l.visits ↔ t.node? (at' ++ names) = some node := by
  induction h generalizing names with
  | @file at' content hnode =>
    rw [Listing.visits, List.mem_singleton, Prod.mk.injEq]
    by_cases hnames : names = []
    · rw [hnames, List.append_nil, hnode, Option.some.injEq, eq_comm (a := node)]
      exact and_iff_right rfl
    · have hnone : t.node? (at' ++ names) = none := by
        apply Tree.node?_eq_none _ (List.prefix_append at' names)
        · exact fun he => hnames (List.self_eq_append_right.1 he)
        · rw [hnode]
          exact nofun
      rw [hnone]
      exact iff_of_false (fun he => hnames he.1) nofun
  | @directory at' entries hnode distinct complete each ih =>
    rw [Listing.visits, List.mem_cons, mem_visitsOf]
    cases names with
    | nil =>
      rw [List.append_nil, hnode]
      constructor
      · rintro (he | ⟨_, -, _, he, -⟩)
        · cases he
          rfl
        · cases he
      · intro he
        cases he
        exact .inl rfl
    | cons name names =>
      have hplace : at' ++ name :: names = at' ++ [name] ++ names :=
        List.append_cons at' name names
      rw [hplace]
      constructor
      · rintro (he | ⟨entry, hentry, below, he, hvisit⟩)
        · cases he
        · cases he
          exact (ih entry hentry).1 hvisit
      · intro hfound
        have hsome : (t.node? (at' ++ [name])).isSome := by
          by_cases hnil : names = []
          · rw [hnil, List.append_nil] at hfound
            exact Option.isSome_of_eq_some hfound
          · exact Option.isSome_of_eq_some (Tree.node?_of_below (Option.isSome_of_eq_some hfound) hnil)
        obtain ⟨entry, hentry, rfl⟩ := List.mem_map.1 (complete name hsome)
        exact .inr ⟨entry, hentry, names, rfl, (ih entry hentry).2 hfound⟩

theorem sorted (h : Lists t at' l) : Lists t at' l.sorted := by
  induction h with
  | file hnode => exact .file hnode
  | @directory at' entries hnode distinct complete each ih =>
    rw [Listing.sorted]
    have hperm : (Listing.sortedOf entries).mergeSort isSorted |>.Perm (Listing.sortedOf entries) :=
      List.mergeSort_perm _ _
    have hnames : (Listing.sortedOf entries).map Prod.fst = entries.map Prod.fst := by
      rw [Listing.sortedOf_eq, List.map_map]
      rfl
    have hpermNames := hperm.map Prod.fst
    rw [hnames] at hpermNames
    refine .directory hnode (hpermNames.nodup_iff.2 distinct) (fun name hname => ?_) fun entry hentry => ?_
    · exact hpermNames.mem_iff.2 (complete name hname)
    · rw [hperm.mem_iff, Listing.sortedOf_eq] at hentry
      obtain ⟨original, horiginal, rfl⟩ := List.mem_map.1 hentry
      exact ih original horiginal

theorem pairwise_sorted (hdistinct : (entries.map Prod.fst).Nodup) :
    (entries.mergeSort isSorted).Pairwise fun a b => KeyOrder.before a.1 b.1 := by
  have hsorted : (entries.mergeSort isSorted).Pairwise fun a b => isSorted a b := by
    apply List.pairwise_mergeSort
    · intro a b c hab hbc
      rw [isSorted, decide_eq_true_eq] at hab hbc ⊢
      exact List.le_trans hab hbc
    · intro a b
      rw [Bool.or_eq_true, isSorted, isSorted, decide_eq_true_eq, decide_eq_true_eq]
      exact List.le_total _ _
  have hne : (entries.mergeSort isSorted).Pairwise fun a b => a.1 ≠ b.1 :=
    List.pairwise_map.1 (((List.mergeSort_perm entries isSorted).map Prod.fst).nodup_iff.2 hdistinct)
  refine (hsorted.and hne).imp fun {a b} ⟨hle, hne⟩ => ?_
  rw [isSorted, decide_eq_true_eq] at hle
  by_contra hnot
  exact absurd ((Text.before_iff_utf8_lt b.1 a.1).1 (KeyOrder.total hne hnot)) (List.not_lt.2 hle)

theorem pairwise_visits (h : Lists t at' l) :
    l.sorted.visits.Pairwise fun a b => KeyOrder.before a.1 b.1 := by
  induction h with
  | file => exact List.pairwise_singleton _ _
  | @directory at' entries hnode distinct complete each ih =>
    rw [Listing.sorted, Listing.visits]
    refine List.pairwise_cons.2 ⟨?_, ?_⟩
    · rintro ⟨names, node⟩ hvisit
      obtain ⟨_, -, below, rfl, -⟩ := mem_visitsOf.1 hvisit
      rfl
    rw [Listing.visitsOf_eq]
    refine List.pairwise_flatMap.2 ⟨fun entry hentry => ?_, ?_⟩
    · rw [List.mem_mergeSort, Listing.sortedOf_eq] at hentry
      obtain ⟨original, horiginal, rfl⟩ := List.mem_map.1 hentry
      refine List.pairwise_map.2 ((ih original horiginal).imp fun {a b} hbefore => ?_)
      exact (KeyOrder.before_append [original.1] a.1 b.1).trans hbefore
    · have hdistinct : ((Listing.sortedOf entries).map Prod.fst).Nodup := by
        rw [Listing.sortedOf_eq, List.map_map]
        exact distinct
      refine (pairwise_sorted hdistinct).imp fun {a b} hbefore => ?_
      intro x hx y hy
      obtain ⟨x', -, rfl⟩ := List.mem_map.1 hx
      obtain ⟨y', -, rfl⟩ := List.mem_map.1 hy
      exact KeyOrder.before_cons_of_before hbefore x'.1 y'.1

/-- What stands at and below a place is what any listing visits once it is sorted. -/
theorem below_eq (h : Lists t at' l) : t.below at' = l.sorted.visits := by
  have hvisits : l.sorted.visits.Pairwise (Tree.ListedBefore at') :=
    h.pairwise_visits.imp fun {a b} hbefore => (KeyOrder.before_append at' a.1 b.1).trans hbefore
  apply (t.pairwise_below at').eq_of_mem_iff hvisits
  rintro ⟨names, node⟩
  rw [Tree.mem_below, h.sorted.mem_visits]

theorem perm_below (h : Lists t at' l) : l.visits.Perm (t.below at') := by
  rw [h.below_eq]
  induction h with
  | file => exact .refl _
  | @directory at' entries hnode distinct complete each ih =>
    rw [Listing.sorted, Listing.visits, Listing.visits, Listing.visitsOf_eq, Listing.visitsOf_eq]
    refine .cons _ (.symm ?_)
    apply ((List.mergeSort_perm _ _).flatMap_right _).trans
    rw [Listing.sortedOf_eq, List.flatMap_map]
    exact .flatMap_left _ fun entry hentry => ((ih entry hentry).map _).symm

end Lists

theorem Tree.exists_depth (t : Tree) : ∃ n, ∀ at', (t.node? at').isSome → at'.length < n := by
  refine ⟨(t.listed.map fun entry => entry.1.length).sum + 1, fun at' hnode => ?_⟩
  obtain ⟨node, hnode⟩ := Option.isSome_iff_exists.1 hnode
  have hmem : at'.length ∈ t.listed.map fun entry => entry.1.length :=
    List.mem_map.2 ⟨_, Tree.mem_listed.2 hnode, rfl⟩
  exact Nat.lt_succ_of_le (List.le_sum_of_mem hmem)

def Tree.entryNames (t : Tree) (at' : Location) : List Text :=
  ((t.below at').map Prod.fst).filterMap fun names =>
    match names with
    | [name] => some name
    | _ => none

theorem Tree.mem_entryNames {t : Tree} {at' : Location} {name : Text} :
    name ∈ t.entryNames at' ↔ (t.node? (at' ++ [name])).isSome := by
  rw [entryNames, List.mem_filterMap, Option.isSome_iff_exists]
  constructor
  · rintro ⟨names, hnames, he⟩
    obtain ⟨⟨_, node⟩, hbelow, rfl⟩ := List.mem_map.1 hnames
    split at he
    · next hone =>
      cases he
      exact ⟨node, Tree.mem_below.1 (hone ▸ hbelow)⟩
    · cases he
  · exact fun ⟨_, hnode⟩ => ⟨[name], List.mem_map.2 ⟨_, Tree.mem_below.2 hnode, rfl⟩, rfl⟩

theorem Tree.nodup_entryNames (t : Tree) (at' : Location) : (t.entryNames at').Nodup := by
  refine (t.nodup_below at').filterMap fun names names' name hname hname' => ?_
  rw [Option.mem_def] at hname hname'
  split at hname
  · split at hname'
    · cases hname
      cases hname'
      rfl
    · cases hname'
  · cases hname

/-- Whatever stands somewhere can be listed. -/
theorem exists_lists {t : Tree} {at' : Location} (h : (t.node? at').isSome) : ∃ l, Lists t at' l := by
  obtain ⟨depth, hdepth⟩ := t.exists_depth
  -- The listings of the entries come first: the induction is on the depth that is left.
  induction hleft : depth - at'.length generalizing at' with
  | zero => exact absurd (hdepth at' h) (by omega)
  | succ left ih =>
    obtain ⟨node, hnode⟩ := Option.isSome_iff_exists.1 h
    cases node with
    | file content => exact ⟨_, .file hnode⟩
    | directory =>
      have hentry (name : Text) (hname : name ∈ t.entryNames at') :
          ∃ l, Lists t (at' ++ [name]) l := by
        apply ih (Tree.mem_entryNames.1 hname)
        rw [List.length_append, List.length_singleton]
        omega
      choose listing hlisting using hentry
      let entries := (t.entryNames at').attach.map fun name => (name.1, listing name.1 name.2)
      have hnames : entries.map Prod.fst = t.entryNames at' := by
        rw [List.map_map]
        exact List.attach_map_subtype_val _
      refine ⟨.directory entries, .directory hnode ?_ (fun name hname => ?_) fun entry hentry => ?_⟩
      · rw [hnames]
        exact t.nodup_entryNames at'
      · rw [hnames]
        exact Tree.mem_entryNames.2 hname
      · obtain ⟨name, -, rfl⟩ := List.mem_map.1 hentry
        exact hlisting name.1 name.2

end PluginForge.Files
