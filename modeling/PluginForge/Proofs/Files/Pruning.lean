import PluginForge.Proofs.Action
import PluginForge.Proofs.Files.Exchange

namespace PluginForge.Files

variable {at' place : Location} {node : Node} {p q : Path} {t t' : Tree} {text : Text}
  {texts : List Text}

/-- The last step of a path is a name, and not one that stays or goes up. -/
def endsInName (p : Path) : Bool :=
  p.steps.getLast?.any isName

/-- Deleting a path takes away what stands at a place: the path leads there, or to a directory above. A
directory that is not given by its name is only emptied. -/
def Deletes (p : Path) (t : Tree) (at' : Location) : Prop :=
  ∃ place node, t.find p = .ok (place, node) ∧ place <+: at' ∧
    (place = at' → node = .directory → endsInName p)

theorem Tree.node?_clear (t : Tree) (place at' : Location) :
    (t.clear place).node? at' = if place <+: at' ∧ place ≠ at' then none else t.node? at' := by
  by_cases hroot : at' = []
  · have hnot : ¬(place <+: at' ∧ place ≠ at') := by
      rintro ⟨hp, hne⟩
      rw [hroot] at hp hne
      exact hne (List.prefix_nil.1 hp)
    rw [if_neg hnot, hroot]
    rfl
  · simp only [node?, nodeIn_eq_get? hroot]
    refine (Table.get?_keep _ t.nodes at').trans ?_
    by_cases hp : place <+: at' <;> by_cases he : place = at' <;> simp [hp, he, @eq_comm _ at']

theorem removePath_missing {e : Error} (h : t.find p = .error e) : removePath p t = (.ok (), t) := by
  rw [removePath, Tree.isDirectory, h]
  rfl

theorem removePath_file {content : ByteArray} (h : t.find p = .ok (place, .file content)) :
    removePath p t = (.ok (), t.remove place) := by
  rw [removePath, Tree.isDirectory, h]
  rfl

theorem removePath_directory (h : t.find p = .ok (place, .directory)) :
    (removePath p t).2 = (if endsInName p then t.remove place else t.clear place) ∧
      (endsInName p = false → p.steps.getLast? ≠ some ['.', '.'] →
        ∃ e, (removePath p t).1 = .error e) := by
  have hremove : removePath p t = ((t.removeAll p).1.map fun _ => (), (t.removeAll p).2) := by
    rw [removePath, Tree.isDirectory, h]
    rfl
  rw [hremove, Tree.removeAll, h, endsInName]
  simp only
  split
  · next hlast =>
    rw [hlast]
    exact ⟨rfl, fun _ _ => ⟨_, rfl⟩⟩
  next name hlast =>
  rw [hlast]
  split
  · next hname =>
    subst hname
    exact ⟨rfl, fun _ _ => ⟨_, rfl⟩⟩
  split
  · next hname =>
    subst hname
    exact ⟨rfl, fun _ hne => absurd rfl hne⟩
  · next hdot hdots =>
    have hname : isName name := by simp [isName, hdot, hdots]
    rw [Option.any_some, hname]
    refine ⟨rfl, fun hnot => ?_⟩
    cases hnot

theorem names_ne_nil (h : endsInName p) : p.names ≠ [] := by
  rw [endsInName, Option.any_eq_true] at h
  obtain ⟨name, hlast, hname⟩ := h
  obtain ⟨init, hsteps⟩ := List.getLast?_eq_some_iff.1 hlast
  rw [names_eq_follow, hsteps, follow_append, follow_name hname]
  exact List.append_ne_nil_of_right_ne_nil _ (List.cons_ne_nil _ _)

theorem node?_removePath (p : Path) (t : Tree) (at' : Location) :
    (Deletes p t at' → (removePath p t).2.node? at' = none) ∧
      (¬Deletes p t at' → (removePath p t).2.node? at' = t.node? at') := by
  cases hfind : t.find p with
  | error e =>
    rw [removePath_missing hfind]
    refine ⟨?_, fun _ => rfl⟩
    rintro ⟨_, _, hfound, -⟩
    cases hfind.symm.trans hfound
  | ok found =>
    obtain ⟨place, node⟩ := found
    have hdeletes : Deletes p t at' ↔
        place <+: at' ∧ (place = at' → node = .directory → endsInName p) := by
      constructor
      · rintro ⟨_, _, hfound, hrest⟩
        cases hfind.symm.trans hfound
        exact hrest
      · exact fun hrest => ⟨place, node, hfind, hrest⟩
    rw [hdeletes]
    have hnode := (Tree.find_eq_ok.1 hfind).2
    cases node with
    | file content =>
      have hplace : place ≠ [] := by
        rintro rfl
        cases hnode
      rw [removePath_file hfind, Tree.node?_remove_eq hplace]
      exact ⟨fun hp => if_pos hp.1, fun hp => if_neg fun hstart => hp ⟨hstart, nofun⟩⟩
    | directory =>
      rw [(removePath_directory hfind).1]
      cases hname : endsInName p with
      | true =>
        have hplace : place ≠ [] := by
          rw [Tree.target_eq_names (Tree.find_eq_ok.1 hfind).1]
          exact names_ne_nil hname
        rw [if_pos rfl, Tree.node?_remove_eq hplace]
        exact ⟨fun hp => if_pos hp.1, fun hp => if_neg fun hstart => hp ⟨hstart, fun _ _ => rfl⟩⟩
      | false =>
        rw [if_neg Bool.false_ne_true, Tree.node?_clear]
        constructor
        · rintro ⟨hstart, hdot⟩
          refine if_pos ⟨hstart, fun he => ?_⟩
          cases hdot he rfl
        · intro hp
          exact if_neg fun ⟨hstart, hne⟩ => hp ⟨hstart, fun he => absurd he hne⟩

theorem node?_of_removePath (h : (removePath p t).2.node? at' = some node) : t.node? at' = some node := by
  obtain ⟨hgone, hkept⟩ := node?_removePath p t at'
  by_cases hdeletes : Deletes p t at'
  · cases (hgone hdeletes).symm.trans h
  · rwa [hkept hdeletes] at h

/-- Deletes what texts lead to from a path, up to the first that fails. -/
def prune (p : Path) (texts : List Text) : Action Unit :=
  texts.forM fun text => removePath (p.join text)

/-- Deleting what some texts lead to takes away what stands at a place: one of them does, once all in front
of it have succeeded. -/
inductive Prunes (p : Path) (at' : Location) : List Text → Tree → Prop where
  | here {text : Text} {texts : List Text} {t : Tree} (deletes : Deletes (p.join text) t at') :
      Prunes p at' (text :: texts) t
  | later {text : Text} {texts : List Text} {t t' : Tree}
      (first : removePath (p.join text) t = (.ok (), t')) (rest : Prunes p at' texts t') :
      Prunes p at' (text :: texts) t

theorem prune_cons_ok (h : removePath (p.join text) t = (.ok (), t')) :
    prune p (text :: texts) t = prune p texts t' :=
  bind_of_ok h

theorem prune_cons_error {e : Error} (h : removePath (p.join text) t = (.error e, t')) :
    prune p (text :: texts) t = (.error e, t') :=
  bind_of_error h

theorem node?_prune (p : Path) (texts : List Text) (t : Tree) (at' : Location) :
    (Prunes p at' texts t → (prune p texts t).2.node? at' = none) ∧
      (¬Prunes p at' texts t → (prune p texts t).2.node? at' = t.node? at') := by
  induction texts generalizing t with
  | nil => exact ⟨nofun, fun _ => rfl⟩
  | cons text texts ih =>
    obtain ⟨hgone, hkept⟩ := node?_removePath (p.join text) t at'
    cases hfirst : removePath (p.join text) t with
    | mk result t' =>
      rw [hfirst] at hgone hkept
      cases result with
      | error e =>
        rw [prune_cons_error hfirst]
        refine ⟨fun hp => ?_, fun hp => hkept fun hdeletes => hp (.here hdeletes)⟩
        cases hp with
        | here hdeletes => exact hgone hdeletes
        | later hok => cases hfirst.symm.trans hok
      | ok _ =>
        rw [prune_cons_ok hfirst]
        obtain ⟨hrest, hsame⟩ := ih t'
        by_cases hlater : Prunes p at' texts t'
        · exact ⟨fun _ => hrest hlater, fun hp => absurd (.later hfirst hlater) hp⟩
        rw [hsame hlater]
        refine ⟨fun hp => ?_, fun hp => hkept fun hdeletes => hp (.here hdeletes)⟩
        cases hp with
        | here hdeletes => exact hgone hdeletes
        | later hok hrest =>
          cases hfirst.symm.trans hok
          exact absurd hrest hlater

section Inside

theorem Prunes.inside (h : Prunes p at' texts t) (hn : ∀ text ∈ texts, staysInside text) :
    p.names <+: at' := by
  induction h with
  | here hdeletes =>
    obtain ⟨place, node, hfind, hstart, -⟩ := hdeletes
    rw [Tree.target_eq_names (Tree.find_eq_ok.1 hfind).1] at hstart
    exact (prefix_names_join (hn _ List.mem_cons_self) p).trans hstart
  | later _ _ ih => exact ih fun text htext => hn text (List.mem_cons_of_mem _ htext)

theorem sameOutside_prune (hn : ∀ text ∈ texts, staysInside text) (t : Tree) :
    t.SameOutside p.names (prune p texts t).2 := by
  intro at' hat
  exact (node?_prune p texts t at').2 fun hprunes => hat (hprunes.inside hn)

/-- A path leads to a place or to a directory above it. -/
def Reaches (p : Path) (t : Tree) (at' : Location) : Prop :=
  ∃ place node, t.find p = .ok (place, node) ∧ place <+: at'

theorem Reaches.of_removePath {result : Except Error Unit} (h : Reaches p t' at')
    (hfirst : Files.removePath q t = (result, t')) : Reaches p t at' := by
  have hbefore (at'' : Location) (node : Node) (hnode : t'.node? at'' = some node) :
      t.node? at'' = some node := by
    apply node?_of_removePath (p := q)
    rwa [hfirst]
  obtain ⟨place, node, hfind, hstart⟩ := h
  obtain ⟨htarget, hnode⟩ := Tree.find_eq_ok.1 hfind
  refine ⟨place, node, Tree.find_eq_ok.2 ⟨?_, hbefore place node hnode⟩, hstart⟩
  exact Tree.target_keep (fun at'' => hbefore at'' _) htarget

theorem deletes_iff (h : removePath p t = (.ok (), t')) (hlast : p.steps.getLast? ≠ some ['.', '.']) :
    Deletes p t at' ↔ Reaches p t at' := by
  constructor
  · exact fun ⟨place, node, hfind, hstart, _⟩ => ⟨place, node, hfind, hstart⟩
  · rintro ⟨place, node, hfind, hstart⟩
    refine ⟨place, node, hfind, hstart, fun _ hd => ?_⟩
    subst hd
    rw [← Bool.not_eq_false]
    intro hname
    obtain ⟨e, he⟩ := (removePath_directory hfind).2 hname hlast
    rw [h] at he
    cases he

theorem getLast?_steps_join (hp : endsInName p) (h : staysInside text) :
    (p.join text).steps.getLast? ≠ some ['.', '.'] := by
  obtain ⟨hrelative, hsteps⟩ := staysInside_iff.1 h
  rw [steps_join_of_relative hrelative, List.getLast?_append]
  intro hlast
  rcases Option.or_eq_some_iff.1 hlast with hlast | ⟨-, hlast⟩
  · exact hsteps (List.mem_of_getLast? hlast)
  · rw [endsInName, hlast] at hp
    cases hp

theorem stepsOf_join_of_staysInside (h : staysInside text) (p : Path) :
    ∃ more, Tree.stepsOf (p.join text) = p.steps ++ more ∧ ['.', '.'] ∉ more := by
  obtain ⟨hrelative, hsteps⟩ := staysInside_iff.1 h
  rw [Tree.stepsOf, steps_join_of_relative hrelative]
  split
  · refine ⟨(Path.mk text).steps ++ [['.']], List.append_assoc _ _ _, ?_⟩
    rw [List.mem_append, List.mem_singleton]
    exact not_or.2 ⟨hsteps, by decide⟩
  · exact ⟨(Path.mk text).steps, rfl, hsteps⟩

variable (hp : endsInName p) (hway : ∀ at', OnWay p at' → p.names <+: at' → at' = p.names)

include hway

/-- Where a path leads to that is followed to the end of another one and then on inside, no place on the way
is below one inside unless the end is. -/
theorem prefix_of_prefix_way {other : Text} {way : List Text} (htext : staysInside text)
    (hother : staysInside other) (hsteps : way <+: Tree.stepsOf (p.join text))
    (hstart : (p.join other).names <+: follow [] way) :
    (p.join other).names <+: follow [] (Tree.stepsOf (p.join text)) := by
  obtain ⟨more, hmore, hup⟩ := stepsOf_join_of_staysInside htext p
  have hend : p.names <+: follow [] (Tree.stepsOf (p.join text)) := by
    rw [hmore, follow_append]
    exact prefix_follow hup _
  rw [hmore] at hsteps
  rcases List.prefix_or_prefix_of_prefix hsteps (List.prefix_append p.steps more) with hon | ⟨rest, rfl⟩
  · have hinside : p.names <+: follow [] way := (prefix_names_join hother p).trans hstart
    rw [hway _ ⟨way, hon, rfl⟩ hinside] at hstart
    exact hstart.trans hend
  · obtain ⟨last, hlast⟩ := (List.prefix_append_right_inj _).1 hsteps
    rw [hmore, ← hlast, ← List.append_assoc, follow_append]
    refine hstart.trans (prefix_follow (fun hmem => hup ?_) _)
    rw [← hlast]
    exact List.mem_append_right rest hmem

theorem Reaches.removePath {other : Text} (h : Reaches (p.join text) t at') (htext : staysInside text)
    (hother : staysInside other) (hfirst : removePath (p.join other) t = (.ok (), t'))
    (hkept : ¬Reaches (p.join other) t at') : Reaches (p.join text) t' at' := by
  obtain ⟨place, node, hfind, hstart⟩ := h
  obtain ⟨htarget, hnode⟩ := Tree.find_eq_ok.1 hfind
  obtain ⟨hnul, hempty, hwalk⟩ := Tree.target_eq_ok.1 htarget
  have hsame {at'' : Location} (hat : (p.join other).names <+: at'' → (p.join other).names <+: place) :
      t'.node? at'' = t.node? at'' := by
    have hremoved := (node?_removePath (p.join other) t at'').2
    rw [hfirst] at hremoved
    refine hremoved fun hdeletes => hkept ?_
    obtain ⟨gone, found, hgone, hinside, -⟩ := hdeletes
    rw [Tree.target_eq_names (Tree.find_eq_ok.1 hgone).1] at hinside
    refine ⟨gone, found, hgone, ?_⟩
    rw [Tree.target_eq_names (Tree.find_eq_ok.1 hgone).1]
    exact (hat hinside).trans hstart
  have hplace := Tree.walk_eq_follow hwalk
  refine ⟨place, node, Tree.find_eq_ok.2 ⟨Tree.target_eq_ok.2 ⟨hnul, hempty, ?_⟩, ?_⟩, hstart⟩
  · refine Tree.walk_congr hwalk fun way hsteps hne => ?_
    rw [hsame]
    · exact Tree.node?_of_walk hwalk hsteps hne
    · rw [hplace]
      exact prefix_of_prefix_way hway htext hother hsteps
  · rw [hsame id, hnode]

include hp

/-- If everything that is not wanted could be deleted, exactly that is gone to which some text leads, as the
files were in the beginning. -/
theorem prunes_iff (hn : ∀ text ∈ texts, staysInside text) (h : prune p texts t = (.ok (), t')) :
    Prunes p at' texts t ↔ ∃ text ∈ texts, Reaches (p.join text) t at' := by
  induction texts generalizing t with
  | nil => exact iff_of_false nofun (by rintro ⟨_, hmem, -⟩; cases hmem)
  | cons first texts ih =>
    obtain ⟨hinside, hrest⟩ := List.forall_mem_cons.1 hn
    cases hfirst : removePath (p.join first) t with
    | mk result t₁ =>
      cases result with
      | error e => cases h.symm.trans (prune_cons_error hfirst)
      | ok _ =>
        rw [prune_cons_ok hfirst] at h
        have hdeletes : Deletes (p.join first) t at' ↔ Reaches (p.join first) t at' :=
          deletes_iff hfirst (getLast?_steps_join hp hinside)
        constructor
        · intro hprunes
          cases hprunes with
          | here hd => exact ⟨first, List.mem_cons_self, hdeletes.1 hd⟩
          | later hok hlater =>
            cases hfirst.symm.trans hok
            obtain ⟨text, hmem, hreaches⟩ := (ih hrest h).1 hlater
            exact ⟨text, List.mem_cons_of_mem first hmem, hreaches.of_removePath hfirst⟩
        · rintro ⟨text, hmem, hreaches⟩
          by_cases hd : Reaches (p.join first) t at'
          · exact .here (hdeletes.2 hd)
          rcases List.mem_cons.1 hmem with rfl | hmem
          · exact absurd hreaches hd
          · refine .later hfirst ((ih hrest h).2 ⟨text, hmem, ?_⟩)
            exact hreaches.removePath hway (hrest text hmem) hinside hfirst hd

end Inside

end PluginForge.Files
