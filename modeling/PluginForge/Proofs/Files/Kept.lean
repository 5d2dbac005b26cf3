import PluginForge.Proofs.Files.Exchange

namespace PluginForge.Files

variable {at' place : Location} {content : ByteArray} {name : Text} {p q : Path} {t t' t'' : Tree}
  {a b : List Text}

namespace Tree

/-- Whatever is at or below a place is as it was. -/
def SameBelow (place : Location) (t t' : Tree) : Prop :=
  ∀ at', place <+: at' → t'.node? at' = t.node? at'

theorem SameBelow.refl (place : Location) (t : Tree) : SameBelow place t t := fun _ _ => rfl

theorem SameBelow.trans (h : SameBelow place t t') (h' : SameBelow place t' t'') :
    SameBelow place t t'' := fun at' hp => (h' at' hp).trans (h at' hp)

theorem SameOutside.sameBelow {other : Location} (h : SameOutside other t t')
    (hother : ∀ below, ¬other <+: place ++ below) : SameBelow place t t' := by
  rintro at' ⟨below, rfl⟩
  exact h _ (hother below)

theorem Made.sameBelow {places : Location → Prop} (h : Made places t t')
    (hd : ∀ at', place <+: at' → places at' → t.node? at' = some .directory) :
    SameBelow place t t' := by
  intro at' hat
  rcases h at' with hsame | ⟨hplace, hnone, -⟩
  · exact hsame
  · cases (hd at' hat hplace).symm.trans hnone

theorem Written.sameBelow (h : Written t p content t') (hp : ¬place <+: p.names) :
    SameBelow place t t' := by
  intro at' hat
  have hne : at' ≠ p.names := by
    rintro rfl
    exact hp hat
  rw [h.node, if_neg hne]

theorem walk_of_append (h : t.walk at' (a ++ b) = .ok place) : t.walk at' a = .ok (follow at' a) := by
  rw [walk_append] at h
  cases hwalk : t.walk at' a with
  | error e =>
    rw [hwalk] at h
    cases h
  | ok between => rw [walk_eq_follow hwalk]

theorem length_of_walk_name (hd : t.node? at' = some .directory) (hn : isName name)
    (h : t.walk at' [name] = .ok place) : Text.utf8Length name ≤ nameLimit := by
  simp only [isName, Bool.and_eq_true, bne_iff_ne, ne_eq] at hn
  rw [walk, hd] at h
  simp only [if_neg hn.1, if_neg hn.2] at h
  split at h
  · cases h
  · next hl => exact Nat.not_lt.1 hl

/-- The way to something that lies deeper leads to the directory that it starts from. -/
theorem walk_of_target {steps : List Text} (h : t.target p = .ok place)
    (hsteps : stepsOf p = q.steps ++ steps) (hne : steps ≠ []) :
    t.walk [] q.steps = .ok q.names ∧ t.node? q.names = some .directory := by
  have hwalk := (target_eq_ok.1 h).2.2
  rw [hsteps] at hwalk
  refine ⟨walk_of_append hwalk, node?_of_walk hwalk (List.prefix_append q.steps steps) ?_⟩
  intro he
  exact hne (List.self_eq_append_right.1 he)

end Tree

theorem orThere_ok {result : Except Error Tree} (hn : isEntryName name)
    (hmade : ∀ made, result = .ok made → t.makeDirectory (q.join name) = .ok made)
    (h : orThere (q.join name) t result = (.ok (), t')) : t'.isDirectory (q.join name) := by
  cases result with
  | ok made =>
    cases h
    have hmade := hmade t' rfl
    have hnode := (Tree.makeDirectory_ok hmade).2.1 (q.join name).names
    rw [if_pos rfl] at hnode
    exact Tree.isDirectory_iff.2 ⟨(Tree.target_makeDirectory_join hn hmade).2.2, hnode⟩
  | error e =>
    rw [orThere] at h
    split at h
    · next hd =>
      cases h
      exact hd
    · cases h

theorem ensureDirectory_ok (hn : isEntryName name)
    (h : ensureDirectory (q.join name) t = (.ok (), t')) : t'.isDirectory (q.join name) := by
  rw [ensureDirectory, Path.ancestors, createAll, isEmpty_text_join hn] at h
  simp only [Bool.false_eq_true, if_false] at h
  split at h
  · split at h
    · cases h
    · exact orThere_ok hn (fun _ h => h) h
  · exact orThere_ok hn (fun _ h => h) h

end PluginForge.Files
