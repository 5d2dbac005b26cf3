import PluginForge.Proofs.Files.Listing
import PluginForge.Proofs.Text.Trimming

namespace PluginForge.Files

variable {at' place : Location} {extension name : Text} {n : Nat} {node : Node} {root : Path}
  {t t' : Tree} {visits visits' : List (Location × Node)}

/-- An extension stands behind the last dot of a name, in front of which there is something else. -/
def HasExtension (name extension : Text) : Prop :=
  ∃ stem, stem ≠ [] ∧ name = stem ++ '.' :: extension ∧ '.' ∉ extension

theorem splitName_snd : (Path.splitName name).2 = some extension ↔ HasExtension name extension := by
  rw [Path.splitName]
  constructor
  · intro h
    split at h
    · cases h
    next behind before hcut =>
    split at h
    · cases h
    next hbefore =>
    cases h
    obtain ⟨hname, hdot⟩ := Text.cut?_char_iff.1 hcut
    refine ⟨before.reverse, by simpa using hbefore, ?_, by simpa using hdot⟩
    rw [← List.reverse_inj, hname]
    simp
  · rintro ⟨stem, hstem, rfl, hdot⟩
    have hcut : Text.cut? (· == '.') (stem ++ '.' :: extension).reverse =
        some (extension.reverse, stem.reverse) := by
      rw [Text.cut?_char_iff]
      exact ⟨by simp, by simpa using hdot⟩
    have hne : stem.reverse.isEmpty = false := by simpa using hstem
    simp only [hcut, hne, Bool.false_eq_true, if_false, List.reverse_reverse]

theorem isFileWith_iff :
    isFileWith extension at' node ↔
      ∃ name content, at'.getLast? = some name ∧ HasExtension name extension ∧
        node = .file content := by
  cases node with
  | directory => exact iff_of_false Bool.false_ne_true (by rintro ⟨_, _, -, -, h⟩; cases h)
  | file content =>
    rw [isFileWith, Option.any_eq_true]
    simp only [decide_eq_true_eq, splitName_snd]
    constructor
    · rintro ⟨name, hname, hextension⟩
      exact ⟨name, content, hname, hextension, rfl⟩
    · rintro ⟨name, _, hname, hextension, -⟩
      exact ⟨name, hname, hextension⟩

def hits (place : Location) (extension : Text) (visits : List (Location × Node)) : List Location :=
  visits.filterMap fun visit =>
    if isFileWith extension (place ++ visit.1) visit.2 then some (place ++ visit.1) else none

theorem hits_below (t : Tree) (place : Location) (extension : Text) :
    hits place extension (t.below place) = withExtension t place extension := by
  apply List.filterMap_congr
  rintro ⟨names, node⟩ -
  cases node with
  | directory => rfl
  | file content => cases hname : (place ++ names).getLast? <;> simp [isFileWith, hname]

theorem nodup_withExtension (t : Tree) (place : Location) (extension : Text) :
    (withExtension t place extension).Nodup := by
  rw [← hits_below]
  apply List.pairwise_filterMap.2
  apply (List.pairwise_map.1 (t.nodup_below place)).imp
  intro a b hne x hx y hy he
  cases (Option.ite_none_right_eq_some.1 hx).2
  cases (Option.ite_none_right_eq_some.1 hy).2
  exact hne (List.append_cancel_left he)

/-- Deletes the files with an extension as they are visited, and counts them. -/
def sweep (place : Location) (extension : Text) : List (Location × Node) → Nat × Tree → Nat × Tree
  | [], state => state
  | visit :: visits, (n, t) =>
    if isFileWith extension (place ++ visit.1) visit.2 then
      sweep place extension visits (n + 1, t.remove (place ++ visit.1))
    else sweep place extension visits (n, t)

theorem sweep_eq :
    sweep place extension visits (n, t) =
      (n + (hits place extension visits).length, (hits place extension visits).foldl Tree.remove t) := by
  induction visits generalizing n t with
  | nil => rfl
  | cons visit visits ih =>
    rw [sweep, hits, List.filterMap_cons]
    split
    · rw [ih, List.length_cons, List.foldl_cons, Nat.add_right_comm, Nat.add_assoc]
      rfl
    · exact ih

/-- The order in which files are visited makes no difference to what is deleted. -/
theorem sweep_visits {l : Listing} (h : Lists t place l) (extension : Text) :
    sweep place extension l.visits (0, t) =
      ((withExtension t place extension).length, (withExtension t place extension).foldl Tree.remove t) := by
  have hperm : (hits place extension l.visits).Perm (withExtension t place extension) := by
    rw [← hits_below]
    exact h.perm_below.filterMap _
  have hroot : [] ∉ withExtension t place extension := root_not_mem_withExtension
  rw [sweep_eq, Nat.zero_add, hperm.length_eq]
  refine congrArg (Prod.mk _) (Tree.ext_node? fun at' => ?_)
  rw [node?_foldl_remove (hperm.mem_iff.not.2 hroot), node?_foldl_remove hroot]
  simp only [hperm.mem_iff]

/-- A file with an extension stands where a path leads to or below. -/
def FileBelow (t : Tree) (root : Path) (extension : Text) (at' : Location) : Prop :=
  ∃ place found name content, t.find root = .ok (place, found) ∧ place <+: at' ∧
    at'.getLast? = some name ∧ HasExtension name extension ∧ t.node? at' = some (.file content)

theorem fileBelow_iff {found : Node} (h : t.find root = .ok (place, found)) :
    FileBelow t root extension at' ↔ at' ∈ withExtension t place extension := by
  rw [mem_withExtension]
  constructor
  · rintro ⟨_, _, name, content, hfind, ⟨names, rfl⟩, hname, hextension, hnode⟩
    cases hfind.symm.trans h
    exact ⟨names, _, Tree.mem_below.2 hnode, rfl,
      isFileWith_iff.2 ⟨name, content, hname, hextension, rfl⟩⟩
  · rintro ⟨names, node, hbelow, rfl, hfile⟩
    obtain ⟨name, content, hname, hextension, rfl⟩ := isFileWith_iff.1 hfile
    exact ⟨place, found, name, content, h, List.prefix_append place names, hname, hextension,
      Tree.mem_below.1 hbelow⟩

theorem removeWithExtension_none (h : ∀ at', ¬FileBelow t root extension at') :
    removeWithExtension root extension t = (.ok 0, t) := by
  rw [removeWithExtension]
  split
  · rfl
  · next place found hfind =>
    have hnone : withExtension t place extension = [] :=
      List.eq_nil_iff_forall_not_mem.2 fun at' hmem => h at' ((fileBelow_iff hfind).2 hmem)
    rw [hnone]
    rfl

/-- Deleting the files with an extension takes away exactly the regular files where the path leads to or
below whose names have it, and counts them; everything else stays. Doing it again finds nothing. It makes
no difference in which order the entries of the directories are listed, while they are gone through. -/
theorem removeWithExtension_exact (root : Path) (extension : Text) (t : Tree) :
    ∃ (deleted : List Location) (t' : Tree),
      removeWithExtension root extension t = (.ok deleted.length, t') ∧
      deleted.Nodup ∧ (∀ at', at' ∈ deleted ↔ FileBelow t root extension at') ∧
      (∀ at', t'.node? at' = if at' ∈ deleted then none else t.node? at') ∧
      removeWithExtension root extension t' = (.ok 0, t') ∧
      ∀ place found l, t.find root = .ok (place, found) → Lists t place l →
        sweep place extension l.visits (0, t) = (deleted.length, t') := by
  cases hfind : t.find root with
  | error e =>
    have hnone (at' : Location) : ¬FileBelow t root extension at' := by
      rintro ⟨_, _, _, _, hfound, -⟩
      cases hfind.symm.trans hfound
    have hremove := removeWithExtension_none hnone
    refine ⟨[], t, hremove, List.nodup_nil, fun at' => ?_, fun at' => rfl, hremove, nofun⟩
    exact iff_of_false List.not_mem_nil (hnone at')
  | ok result =>
    obtain ⟨place, found⟩ := result
    have hnode := node?_foldl_withExtension t place extension
    refine ⟨withExtension t place extension, _, ?_, nodup_withExtension t place extension,
      fun at' => (fileBelow_iff hfind).symm, hnode, removeWithExtension_none ?_, ?_⟩
    · rw [removeWithExtension, hfind]
    · rintro at' ⟨place', found', name, content, hfind', hstart, hname, hextension, hfile⟩
      rw [hnode] at hfile
      split at hfile
      · cases hfile
      · next hkept =>
        have hplace : place' = place := by
          rw [Tree.target_eq_names (Tree.find_eq_ok.1 hfind').1,
            Tree.target_eq_names (Tree.find_eq_ok.1 hfind).1]
        exact hkept ((fileBelow_iff hfind).1
          ⟨place, found, name, content, hfind, hplace ▸ hstart, hname, hextension, hfile⟩)
    · intro place' found' l hfind' hl
      cases hfind'
      exact sweep_visits hl extension

end PluginForge.Files
