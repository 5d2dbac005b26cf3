import Mathlib.Data.List.Induction
import PluginForge.Proofs.Files.Below
import PluginForge.Proofs.Files.Way
import PluginForge.Proofs.Files.Writes

namespace PluginForge.Files

variable {above at' place source target : Location} {below : Location} {node : Node}
  {name extension : Text} {p s : Path} {t t' t'' : Tree} {entries : List (Location × Node)}

theorem ensureDirectory_made (p : Path) (t : Tree) :
    Tree.Made (OnWay p) t (ensureDirectory p t).2 :=
  (createAll_made p.ancestors t).mono fun _ ⟨_, hq, hat⟩ =>
    hat ▸ onWay_names (steps_of_mem_ancestors hq)

namespace Tree

/-- Whatever is not at or below a place is as it was. -/
def SameOutside (place : Location) (t t' : Tree) : Prop :=
  ∀ at', ¬place <+: at' → t'.node? at' = t.node? at'

namespace SameOutside

theorem refl (place : Location) (t : Tree) : SameOutside place t t := fun _ _ => rfl

theorem trans (h : SameOutside place t t') (h' : SameOutside place t' t'') :
    SameOutside place t t'' := fun at' hp => (h' at' hp).trans (h at' hp)

theorem mono (h : SameOutside place t t') (hp : above <+: place) : SameOutside above t t' :=
  fun at' hat => h at' fun hplace => hat (hp.trans hplace)

end SameOutside

theorem Written.sameOutside {content : ByteArray} (h : Written t p content t')
    (hp : place <+: p.names) : SameOutside place t t' := by
  intro at' hat
  have hne : at' ≠ p.names := fun he => hat (he ▸ hp)
  rw [h.node, if_neg hne]

theorem makeDirectory_sameOutside (h : t.makeDirectory p = .ok t') (hp : place <+: p.names) :
    SameOutside place t t' := by
  intro at' hat
  have hne : at' ≠ p.names := fun he => hat (he ▸ hp)
  rw [(makeDirectory_ok h).2.1, if_neg hne]

theorem node?_of_below (h : (t.node? (at' ++ below)).isSome) (hne : below ≠ []) :
    t.node? at' = some .directory := by
  induction below using List.reverseRecOn with
  | nil => exact absurd rfl hne
  | append_singleton below name ih =>
    rw [← List.append_assoc] at h
    rw [node?, nodeIn_eq_get? (by simp)] at h
    obtain ⟨parent, last, hkey, -, hd⟩ := t.rooted _ h
    rw [← (List.append_inj' hkey rfl).1] at hd
    by_cases hbelow : below = []
    · rwa [hbelow, List.append_nil] at hd
    · exact ih (Option.isSome_of_eq_some hd) hbelow

theorem node?_above (h : (t.node? at').isSome) (hp : place <+: at') (hne : place ≠ at') :
    t.node? place = some .directory := by
  obtain ⟨below, rfl⟩ := hp
  exact node?_of_below h fun he => hne (by rw [he, List.append_nil])

theorem node?_eq_none (h : t.node? place ≠ some .directory) (hp : place <+: at')
    (hne : place ≠ at') : t.node? at' = none := by
  rw [← Option.not_isSome_iff_eq_none]
  exact fun hat => h (node?_above hat hp hne)

section Moving

theorem node?_put_of_ne (t : Tree) (node : Node) (h : at' ≠ place) :
    (t.put place node).node? at' = t.node? at' := by
  by_cases hhold : t.CanHold place node
  · rw [node?_put hhold, if_neg h]
  · rw [put, dif_neg hhold]

def putAll (target : Location) (entries : List (Location × Node)) (t : Tree) : Tree :=
  entries.foldl (fun t entry => t.put (target ++ entry.1) entry.2) t

theorem move_eq (t : Tree) (source target : Location) :
    t.move source target = putAll target (t.below source) (t.remove source) :=
  rfl

/-- Some of what stands at and below one place stands at and below another one, and whatever is not there
is as it was. -/
structure Copied (target : Location) (done : List (Location × Node)) (t t' : Tree) : Prop where
  outside : SameOutside target t t'
  node : ∀ names node, t'.node? (target ++ names) = some node ↔ (names, node) ∈ done

namespace Copied

variable {done rest : List (Location × Node)} {names : Location}

theorem node?_eq (h : Copied target (t.below at') t' t'') (names : Location) :
    t''.node? (target ++ names) = t.node? (at' ++ names) := by
  apply Option.ext
  intro node
  rw [h.node, mem_below]

theorem root (hhold : t.CanHold target node)
    (hfree : ∀ names, names ≠ [] → t.node? (target ++ names) = none) :
    Copied target [([], node)] t (t.put target node) := by
  constructor
  · intro at' hat
    rw [node?_put hhold, if_neg]
    rintro rfl
    exact hat List.prefix_rfl
  · intro names found
    rw [node?_put hhold, List.mem_singleton, Prod.mk.injEq]
    by_cases hnames : names = []
    · rw [if_pos (by rw [hnames, List.append_nil]), Option.some.injEq, eq_comm (a := node)]
      exact (and_iff_right hnames).symm
    · rw [if_neg fun he => hnames (List.append_right_eq_self.1 he), hfree names hnames]
      exact iff_of_false nofun fun he => hnames he.1

theorem put (h : Copied target done t t') (hhold : t'.CanHold (target ++ names) node)
    (hfree : t'.node? (target ++ names) = none) :
    Copied target (done ++ [(names, node)]) t (t'.put (target ++ names) node) := by
  constructor
  · intro at' hat
    have hne : at' ≠ target ++ names := by
      rintro rfl
      exact hat (List.prefix_append target names)
    rw [node?_put hhold, if_neg hne]
    exact h.outside at' hat
  · intro other found
    rw [node?_put hhold, List.mem_append, List.mem_singleton, Prod.mk.injEq]
    by_cases hother : other = names
    · subst hother
      rw [if_pos rfl, Option.some.injEq, eq_comm (a := node), and_iff_right rfl]
      refine (or_iff_right fun hmem => ?_).symm
      cases hfree.symm.trans ((h.node _ _).2 hmem)
    · rw [if_neg fun he => hother (List.append_cancel_left he), h.node]
      exact (or_iff_left fun he => hother he.1).symm

theorem canHold (h : Copied target done t' t'') (hdone : done ≠ [])
    (hbelow : t.below at' = done ++ (names, node) :: rest) :
    t''.CanHold (target ++ names) node ∧ t''.node? (target ++ names) = none := by
  have hmem : (names, node) ∈ t.below at' := by
    rw [hbelow]
    exact List.mem_append_right _ List.mem_cons_self
  have hpairwise := t.pairwise_below at'
  rw [hbelow, List.pairwise_append, List.pairwise_cons] at hpairwise
  obtain ⟨-, ⟨hafter, -⟩, hbefore⟩ := hpairwise
  have hfree : t''.node? (target ++ names) = none := by
    rw [← Option.not_isSome_iff_eq_none, Option.isSome_iff_exists]
    rintro ⟨other, hother⟩
    have hself : ListedBefore at' (names, other) (names, node) :=
      hbefore _ ((h.node names other).1 hother) _ List.mem_cons_self
    exact KeyOrder.irrefl _ hself
  refine ⟨?_, hfree⟩
  rcases List.eq_nil_or_concat names with rfl | ⟨parent, name, rfl⟩
  · obtain ⟨first, hfirst⟩ := List.exists_mem_of_ne_nil done hdone
    exact absurd (hbefore first hfirst _ List.mem_cons_self) not_listedBefore_root
  rw [List.concat_eq_append] at *
  have hparent : (parent, Node.directory) ∈ t.below at' := by
    rw [mem_below] at hmem ⊢
    rw [← List.append_assoc] at hmem
    exact node?_of_below (Option.isSome_of_eq_some hmem) (List.cons_ne_nil name [])
  have hcopied : (parent, Node.directory) ∈ done := by
    rw [hbelow, List.mem_append, List.mem_cons] at hparent
    have hshorter : KeyOrder.before (at' ++ parent) (at' ++ (parent ++ [name])) := by
      rw [KeyOrder.before_append]
      nth_rewrite 1 [← List.append_nil parent]
      rw [KeyOrder.before_append]
      rfl
    rcases hparent with hparent | he | hparent
    · exact hparent
    · exact absurd (Prod.mk.inj he).1 (by simp)
    · exact absurd (KeyOrder.trans hshorter (hafter _ hparent)) (KeyOrder.irrefl _)
  have hname : isEntryName name := isEntryName_of_mem_below hmem (by simp)
  rw [← List.append_assoc, CanHold, List.getLast?_concat, List.dropLast_concat]
  refine ⟨hname, Node.isDirectory_iff.2 ((h.node parent _).2 hcopied), fun hd => ?_⟩
  rw [List.append_assoc, hfree] at hd
  cases hd

/-- Everything can be put at its place one after another. -/
theorem foldlM {step : Tree → Location × Node → Option Tree}
    (hstep : ∀ t' names node, (names, node) ∈ t.below at' → t'.CanHold (target ++ names) node →
      t'.node? (target ++ names) = none → step t' (names, node) = some (t'.put (target ++ names) node))
    (h : Copied target done t' t'') (hdone : done ≠ []) (hbelow : t.below at' = done ++ rest) :
    ∃ all, rest.foldlM step t'' = some all ∧ Copied target (t.below at') t' all := by
  induction rest generalizing done t'' with
  | nil =>
    rw [List.append_nil] at hbelow
    exact ⟨t'', rfl, hbelow ▸ h⟩
  | cons entry rest ih =>
    obtain ⟨names, node⟩ := entry
    obtain ⟨hhold, hfree⟩ := h.canHold hdone hbelow
    have hmem : (names, node) ∈ t.below at' := by
      rw [hbelow]
      exact List.mem_append_right _ List.mem_cons_self
    rw [List.foldlM_cons, hstep t'' names node hmem hhold hfree]
    apply ih (h.put hhold hfree) (by simp)
    rw [hbelow, List.append_assoc]
    rfl

end Copied

theorem below_eq_cons (h : t.node? at' = some node) : ∃ rest, t.below at' = ([], node) :: rest := by
  have hmem : ([], node) ∈ t.below at' := mem_below.2 (by rwa [List.append_nil])
  obtain ⟨⟨names, other⟩, rest, hbelow⟩ := List.exists_cons_of_ne_nil (List.ne_nil_of_mem hmem)
  rw [hbelow, List.mem_cons] at hmem
  rcases hmem with he | hmem
  · exact ⟨rest, by rw [hbelow, he]⟩
  · have hpairwise := t.pairwise_below at'
    rw [hbelow] at hpairwise
    exact absurd ((List.pairwise_cons.1 hpairwise).1 _ hmem) not_listedBefore_root

theorem copied_putAll (hnode : t.node? at' = some node) (hhold : t'.CanHold target node)
    (hfree : ∀ names, names ≠ [] → t'.node? (target ++ names) = none) :
    Copied target (t.below at') t' (putAll target (t.below at') t') := by
  obtain ⟨rest, hbelow⟩ := below_eq_cons hnode
  have hroot := Copied.root hhold hfree
  let place (t : Tree) (entry : Location × Node) : Option Tree :=
    some (t.put (target ++ entry.1) entry.2)
  have hplace (t' : Tree) (names : Location) (node : Node) (_ : (names, node) ∈ t.below at')
      (_ : t'.CanHold (target ++ names) node) (_ : t'.node? (target ++ names) = none) :
      place t' (names, node) = some (t'.put (target ++ names) node) := rfl
  obtain ⟨all, hall, hcopied⟩ := hroot.foldlM hplace (List.cons_ne_nil _ _) hbelow
  have hputAll : putAll target (t.below at') t' = all := by
    rw [hbelow, putAll, List.foldl_cons, List.append_nil]
    exact Option.some.inj ((List.foldlM_pure (m := Option)).symm.trans hall)
  rwa [hputAll]

end Moving

/-- What renaming a directory leads to: it stands with all that is below it at its new place, is gone from
the old one, and nothing else has changed. -/
structure Renamed (t : Tree) (source target : Location) (t' : Tree) : Prop where
  moved : t.node? source = some .directory
  outside : ∀ at', ¬source <+: at' → ¬target <+: at' → t'.node? at' = t.node? at'
  gone : ∀ at', source <+: at' → ¬target <+: at' → t'.node? at' = none
  contents : ∀ names, t'.node? (target ++ names) = t.node? (source ++ names)
  free : t.node? target = some .directory → t.isEmptyDirectory target

theorem Renamed.there (h : Renamed t source target t') : t'.node? target = some .directory := by
  have hroot := h.contents []
  rwa [List.append_nil, List.append_nil, h.moved] at hroot

theorem eq_nil_of_isEmptyDirectory (h : t.isEmptyDirectory place)
    (hnode : (t.node? (place ++ below)).isSome) : below = [] := by
  by_contra hne
  obtain ⟨node, hnode⟩ := Option.isSome_iff_exists.1 hnode
  exact hne (List.isEmpty_iff.1 (List.all_eq_true.1 h _ (mem_below.2 hnode)))

theorem Renamed.not_prefix_source (h : Renamed t source target t') (hd : t.node? target = some .directory)
    (hne : source ≠ target) : ¬target <+: source := by
  rintro ⟨below, rfl⟩
  have hbelow := eq_nil_of_isEmptyDirectory (h.free hd) (Option.isSome_of_eq_some h.moved)
  rw [hbelow, List.append_nil] at hne
  exact hne rfl

theorem node?_remove_eq (h : place ≠ []) (t : Tree) (at' : Location) :
    (t.remove place).node? at' = if place <+: at' then none else t.node? at' := by
  by_cases hroot : at' = []
  · have hroot' : ¬place <+: at' := fun hp => h (List.prefix_nil.1 (hroot ▸ hp))
    rw [if_neg hroot', hroot]
    rfl
  · rw [node?_remove t place hroot]
    simp only [List.isPrefixOf_iff_prefix]

theorem move_renamed (hd : t.node? source = some .directory) (hp : ¬source <+: target)
    (hparent : t.node? target.dropLast = some .directory) (hname : target.getLast? = some name)
    (hn : isEntryName name) (hfree : t.node? target = some .directory → t.isEmptyDirectory target) :
    Renamed t source target (t.move source target) := by
  have hsource : source ≠ [] := by
    rintro rfl
    exact hp List.nil_prefix
  have hremove := node?_remove_eq hsource t
  have hparent' : ¬source <+: target.dropLast := fun h =>
    hp (h.trans (List.dropLast_prefix target))
  have hhold : (t.remove source).CanHold target .directory := by
    rw [CanHold, hname]
    exact ⟨hn, Node.isDirectory_iff.2 (by rwa [hremove, if_neg hparent']), fun _ => rfl⟩
  have hempty (names : Location) (hnames : names ≠ []) :
      (t.remove source).node? (target ++ names) = none := by
    rw [hremove]
    split
    · rfl
    · rw [← Option.not_isSome_iff_eq_none]
      intro hsome
      exact hnames (eq_nil_of_isEmptyDirectory (hfree (node?_of_below hsome hnames)) hsome)
  have hcopied := copied_putAll hd hhold hempty
  rw [move_eq]
  refine ⟨hd, fun at' hs ht => ?_, fun at' hs ht => ?_, hcopied.node?_eq, hfree⟩
  · rw [hcopied.outside at' ht, hremove, if_neg hs]
  · rw [hcopied.outside at' ht, hremove, if_pos hs]

/-- Renaming a directory moves it, unless it stays where it is; it never takes the place of a file. -/
theorem rename_directory (h : t.rename s p = .ok t') (hd : t.node? s.names = some .directory) :
    (s.names = p.names ∧ t' = t ∨ s.names ≠ p.names ∧ Renamed t s.names p.names t') ∧
      (∀ content, t.node? p.names ≠ some (.file content)) ∧ s.text.contains '\x00' = false ∧
      ∃ at' name, t.holder p = .ok (some (at', name)) ∧ isName name := by
  rw [rename, checked_eq_ok] at h
  obtain ⟨hnul, h⟩ := h
  split at h
  · cases h
  next from? hfrom =>
  split at h
  · cases h
  next to? hto =>
  split at h
  · next sourceAt sourceName targetAt targetName =>
    split at h
    · cases h
    next hnames =>
    simp only [Bool.or_eq_true, Bool.not_eq_true', not_or, Bool.not_eq_false] at hnames
    obtain ⟨hsourceName, htargetName⟩ := hnames
    obtain ⟨-, hsteps, hwalk, -, -⟩ := holder_eq_some hfrom
    obtain ⟨-, hsteps', hwalk', hd', -⟩ := holder_eq_some hto
    have hs := names_of_steps hsteps hwalk hsourceName
    have hp := names_of_steps hsteps' hwalk' htargetName
    simp only [← hs, ← hp, hd] at h
    split at h
    · cases h
    · next hnode _ => cases hnode
    · next hnode _ => cases hnode
    · cases h
    · next hnode hfile =>
      refine ⟨?_, hfile, hnul, targetAt, targetName, hto,
        htargetName⟩
      split at h
      · next hsame =>
        cases h
        exact .inl ⟨hsame, rfl⟩
      next hne =>
      split at h
      · cases h
      next hstart =>
      split at h
      · cases h
      next hfree =>
      cases h
      rw [List.isPrefixOf_iff_prefix] at hstart
      have hlast : targetName ∈ p.steps := by
        rw [hsteps']
        exact List.mem_append_right _ (List.mem_singleton_self targetName)
      have hstep := mem_steps hlast
      refine .inr ⟨hne, move_renamed hd hstart ?_ ?_ (isEntryName_iff.2 ⟨htargetName, hstep⟩)
        fun hd => ?_⟩
      · rw [hp, List.dropLast_concat]
        exact hd'
      · rw [hp, List.getLast?_concat]
      · simpa [hd] using hfree
  · cases h

theorem rename_renamed (h : t.rename s p = .ok t') (hd : t.node? s.names = some .directory)
    (hne : s.names ≠ p.names) :
    Renamed t s.names p.names t' ∧ s.text.contains '\x00' = false ∧
      ∃ at' name, t.holder p = .ok (some (at', name)) ∧ isName name := by
  obtain ⟨hmoved, -, hnul, hto⟩ := rename_directory h hd
  rcases hmoved with ⟨he, -⟩ | ⟨-, hrenamed⟩
  · exact absurd he hne
  · exact ⟨hrenamed, hnul, hto⟩

theorem rename_keeps (h : t.rename s p = .ok t') (hd : t.node? s.names = some .directory)
    (hat : ¬s.names <+: at') (hnode : (t.node? at').isSome) : t'.node? at' = t.node? at' := by
  obtain ⟨⟨-, rfl⟩ | ⟨-, hrenamed⟩, hfile, -⟩ := rename_directory h hd
  · rfl
  by_cases hp : p.names <+: at'
  · -- Only an empty directory can be replaced, so there is nothing below the new place.
    have hplace : at' = p.names := by
      by_contra hne
      have hempty := hrenamed.free (node?_above hnode hp (Ne.symm hne))
      obtain ⟨below, rfl⟩ := hp
      apply hne
      rw [eq_nil_of_isEmptyDirectory hempty hnode, List.append_nil]
    subst hplace
    obtain ⟨node, hnode⟩ := Option.isSome_iff_exists.1 hnode
    cases node with
    | directory => rw [hrenamed.there, hnode]
    | file content => exact absurd hnode (hfile content)
  · exact hrenamed.outside at' hat hp

section Removing

theorem sameOutside_clear (place : Location) (t : Tree) : SameOutside place t (t.clear place) := by
  intro at' h
  by_cases hroot : at' = []
  · rw [hroot]
    rfl
  · simp only [node?, nodeIn_eq_get? hroot]
    refine (Table.get?_keep _ t.nodes at').trans (if_pos ?_)
    rw [Bool.or_eq_true, Bool.not_eq_true', Bool.eq_false_iff, ne_eq, List.isPrefixOf_iff_prefix]
    exact .inl h

theorem sameOutside_remove (place : Location) (t : Tree) : SameOutside place t (t.remove place) := by
  intro at' h
  by_cases hroot : at' = []
  · rw [hroot]
    rfl
  · rw [node?_remove t place hroot, if_neg]
    rwa [List.isPrefixOf_iff_prefix]

theorem sameOutside_removeAll (p : Path) (t : Tree) : SameOutside p.names t (t.removeAll p).2 := by
  rw [removeAll]
  split
  · exact .refl _ t
  · next place _ hfind =>
    rw [← target_eq_names (find_eq_ok.1 hfind).1]
    exact sameOutside_remove place t
  · next place hfind =>
    rw [← target_eq_names (find_eq_ok.1 hfind).1]
    split
    · exact sameOutside_clear place t
    · split
      · exact sameOutside_clear place t
      · split
        · exact sameOutside_clear place t
        · exact sameOutside_remove place t

end Removing

end Tree

/-- Deleting a path changes nothing but what it leads to and what is below. -/
theorem sameOutside_removePath (p : Path) (t : Tree) :
    Tree.SameOutside p.names t (removePath p t).2 := by
  rw [removePath]
  split
  · exact Tree.sameOutside_removeAll p t
  · split
    · exact .refl _ t
    · next place _ hfind =>
      rw [← Tree.target_eq_names (Tree.find_eq_ok.1 hfind).1]
      exact Tree.sameOutside_remove place t

theorem removeAll_directory (hfind : t.find p = .ok (place, .directory))
    (hsteps : p.steps.getLast? = some name) (hn : isName name) :
    t.removeAll p = (.ok (t.remove place), t.remove place) := by
  simp only [isName, Bool.and_eq_true, bne_iff_ne, ne_eq] at hn
  simp only [Tree.removeAll, hfind, hsteps, if_neg hn.1, if_neg hn.2]

theorem removePath_gone (ht : t.target p = .ok p.names) (hd : t.node? p.names = some .directory)
    (hsteps : p.steps.getLast? = some name) (hn : isName name) (hroot : p.names ≠ [])
    (h : p.names <+: at') : (removePath p t).2.node? at' = none := by
  have hfind : t.find p = .ok (p.names, .directory) := Tree.find_eq_ok.2 ⟨ht, hd⟩
  have hdirectory : t.isDirectory p := by
    rw [Tree.isDirectory, hfind]
  have hat : at' ≠ [] := fun he => hroot (List.prefix_nil.1 (he ▸ h))
  rw [removePath, if_pos hdirectory, removeAll_directory hfind hsteps hn]
  refine (Tree.node?_remove t p.names hat).trans (if_pos ?_)
  rwa [List.isPrefixOf_iff_prefix]

theorem exists_removePath_join (hn : isEntryName name) (p : Path) (t : Tree) :
    ∃ t', removePath (p.join name) t = (.ok (), t') := by
  have hlast : (p.join name).steps.getLast? = some name := by
    rw [steps_join hn, List.getLast?_concat]
  rw [removePath]
  split
  · next hd =>
    obtain ⟨htarget, hd⟩ := Tree.isDirectory_iff.1 hd
    rw [removeAll_directory (Tree.find_eq_ok.2 ⟨htarget, hd⟩) hlast (isEntryName_iff.1 hn).1]
    exact ⟨_, rfl⟩
  · split <;> exact ⟨_, rfl⟩

theorem removePath_join (hn : isEntryName name) (h : t.isDirectory (p.join name)) (at' : Location) :
    (removePath (p.join name) t).2.node? at' =
      if (p.join name).names <+: at' then none else t.node? at' := by
  obtain ⟨htarget, hd⟩ := Tree.isDirectory_iff.1 h
  have hlast : (p.join name).steps.getLast? = some name := by
    rw [steps_join hn, List.getLast?_concat]
  have hroot : (p.join name).names ≠ [] := by
    rw [names_join hn]
    exact List.append_ne_nil_of_right_ne_nil _ (List.cons_ne_nil _ _)
  split
  · next hat => exact removePath_gone htarget hd hlast (isEntryName_iff.1 hn).1 hroot hat
  · next hat => exact sameOutside_removePath (p.join name) t at' hat

section Extensions

def isFileWith (extension : Text) (at' : Location) : Node → Bool
  | .directory => false
  | .file _ => at'.getLast?.any fun name => (Path.splitName name).2 = some extension

theorem mem_withExtension :
    at' ∈ withExtension t place extension ↔
      ∃ names node, (names, node) ∈ t.below place ∧ at' = place ++ names ∧
        isFileWith extension at' node := by
  rw [withExtension, List.mem_filterMap]
  constructor
  · rintro ⟨⟨names, node⟩, hmem, h⟩
    cases node with
    | directory => cases h
    | file content =>
      simp only at h
      split at h
      · cases h
      · next name hname =>
        split at h
        · next hext =>
          cases h
          refine ⟨names, _, hmem, rfl, ?_⟩
          simpa [isFileWith, hname] using hext
        · cases h
  · rintro ⟨names, node, hmem, rfl, h⟩
    refine ⟨_, hmem, ?_⟩
    cases node with
    | directory => cases h
    | file content =>
      rw [isFileWith] at h
      simp only
      cases hname : (place ++ names).getLast? with
      | none =>
        rw [hname] at h
        cases h
      | some name =>
        rw [hname] at h
        exact if_pos (by simpa using h)

theorem node?_foldl_remove {locations : List Location} (h : [] ∉ locations) (t : Tree)
    (at' : Location) :
    (locations.foldl Tree.remove t).node? at' =
      if ∃ location ∈ locations, location <+: at' then none else t.node? at' := by
  induction locations generalizing t with
  | nil => simp
  | cons first locations ih =>
    obtain ⟨hfirst, hrest⟩ := not_or.1 (List.mem_cons.not.1 h)
    rw [List.foldl_cons, ih hrest, Tree.node?_remove_eq (Ne.symm hfirst)]
    simp only [List.mem_cons, exists_eq_or_imp]
    by_cases hp : first <+: at' <;> simp [hp]

theorem root_not_mem_withExtension : [] ∉ withExtension t place extension := by
  intro hmem
  obtain ⟨_, node, -, -, hfile⟩ := mem_withExtension.1 hmem
  cases node <;> cases hfile

theorem node?_foldl_withExtension (t : Tree) (place : Location) (extension : Text) (at' : Location) :
    ((withExtension t place extension).foldl Tree.remove t).node? at' =
      if at' ∈ withExtension t place extension then none else t.node? at' := by
  rw [node?_foldl_remove root_not_mem_withExtension]
  by_cases hmem : at' ∈ withExtension t place extension
  · rw [if_pos ⟨at', hmem, List.prefix_rfl⟩, if_pos hmem]
  rw [if_neg hmem]
  split
  · next hbelow =>
    obtain ⟨location, hlocation, hstart⟩ := hbelow
    obtain ⟨names, node, hfound, rfl, hfile⟩ := mem_withExtension.1 hlocation
    refine (Tree.node?_eq_none (fun hd => ?_) hstart fun he => hmem (he ▸ hlocation)).symm
    rw [Tree.mem_below.1 hfound] at hd
    cases hd
    cases hfile
  · rfl

theorem mem_withExtension_iff (h : t.node? at' = some node) :
    at' ∈ withExtension t place extension ↔ place.isPrefixOf at' && isFileWith extension at' node := by
  rw [mem_withExtension, Bool.and_eq_true, List.isPrefixOf_iff_prefix]
  constructor
  · rintro ⟨names, found, hfound, rfl, hfile⟩
    cases h.symm.trans (Tree.mem_below.1 hfound)
    exact ⟨List.prefix_append place names, hfile⟩
  · rintro ⟨⟨names, rfl⟩, hfile⟩
    exact ⟨names, node, Tree.mem_below.2 h, rfl, hfile⟩

theorem node?_withoutExtension (t : Tree) (place : Location) (extension : Text) (at' : Location) :
    ((withExtension t place extension).foldl Tree.remove t).node? at' =
      (t.node? at').filter fun node => !(place.isPrefixOf at' && isFileWith extension at' node) := by
  rw [node?_foldl_withExtension]
  cases hnode : t.node? at' with
  | none => exact ite_self none
  | some node =>
    rw [Option.filter_some]
    simp only [mem_withExtension_iff hnode]
    cases place.isPrefixOf at' && isFileWith extension at' node <;> rfl

/-- The entries below a place after files with an extension have been deleted below another one. -/
theorem below_foldl_remove (t : Tree) (place above : Location) (extension : Text) :
    ((withExtension t place extension).foldl Tree.remove t).below above =
      (t.below above).filter fun entry =>
        !(place.isPrefixOf (above ++ entry.1) && isFileWith extension (above ++ entry.1) entry.2) := by
  apply (Tree.pairwise_below _ above).eq_of_mem_iff ((t.pairwise_below above).filter _)
  rintro ⟨names, node⟩
  rw [Tree.mem_below, node?_withoutExtension, Option.filter_eq_some_iff, List.mem_filter,
    Tree.mem_below]

theorem removeWithExtension_found {node : Node} (h : t.find p = .ok (p.names, node)) :
    (removeWithExtension p extension t).2 =
      (withExtension t p.names extension).foldl Tree.remove t := by
  rw [removeWithExtension, h]

theorem sameOutside_foldl_remove {locations : List Location}
    (h : ∀ location ∈ locations, place <+: location) (t : Tree) :
    Tree.SameOutside place t (locations.foldl Tree.remove t) := by
  induction locations generalizing t with
  | nil => exact .refl _ t
  | cons location locations ih =>
    have hfirst := (Tree.sameOutside_remove location t).mono (h location List.mem_cons_self)
    exact hfirst.trans (ih (fun other hother => h other (List.mem_cons_of_mem _ hother)) _)

theorem sameOutside_removeWithExtension (p : Path) (extension : Text) (t : Tree) :
    Tree.SameOutside p.names t (removeWithExtension p extension t).2 := by
  rw [removeWithExtension]
  split
  · exact .refl _ t
  · next place _ hfind =>
    rw [← Tree.target_eq_names (Tree.find_eq_ok.1 hfind).1]
    refine sameOutside_foldl_remove (fun location hlocation => ?_) t
    obtain ⟨names, _, -, rfl, -⟩ := mem_withExtension.1 hlocation
    exact List.prefix_append place names

end Extensions

end PluginForge.Files
