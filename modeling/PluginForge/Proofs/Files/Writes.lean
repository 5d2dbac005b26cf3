import PluginForge.Proofs.Files.Frame

namespace PluginForge.Files

/-- Files are written one after another, and nothing but directories is created in between. -/
inductive Writes (t : Tree) : List (Path × ByteArray) → Tree → Prop where
  | nil : Writes t [] t
  | grown {log : List (Path × ByteArray)} {t' t'' : Tree} (h : Writes t log t')
      (hg : t'.Grown t'') : Writes t log t''
  | write {log : List (Path × ByteArray)} {t' t'' : Tree} {p : Path} {content : ByteArray}
      (h : Writes t log t') (hw : t'.write p content = .ok t'') :
      Writes t (log ++ [(p, content)]) t''

variable {content : ByteArray} {p : Path} {t t' t'' : Tree} {log log' : List (Path × ByteArray)}

theorem orThere_made {places : Location → Prop} (h : Tree.Made places t t') (p : Path)
    {result : Except Error Tree} (hr : ∀ made, result = .ok made → Tree.Made places t' made) :
    Tree.Made places t (orThere p t' result).2 := by
  cases result with
  | ok made => exact h.trans (hr made rfl)
  | error e =>
    rw [orThere]
    split <;> exact h

theorem createAll_made (ps : List Path) (t : Tree) :
    Tree.Made (fun at' => ∃ p ∈ ps, at' = p.names) t (createAll ps t).2 := by
  induction ps generalizing t with
  | nil => exact .refl t
  | cons p parents ih =>
    have hfirst (t made : Tree) (h : t.makeDirectory p = .ok made) :
        Tree.Made (fun at' => ∃ q ∈ p :: parents, at' = q.names) t made :=
      (Tree.makeDirectory_made h).mono fun _ hat => ⟨p, List.mem_cons_self, hat⟩
    rw [createAll]
    split
    · exact .refl t
    simp only
    split
    · have hparents := (ih t).mono fun _ ⟨q, hq, hat⟩ =>
        (⟨q, List.mem_cons_of_mem p hq, hat⟩ : ∃ q ∈ p :: parents, _ = q.names)
      cases hmade : createAll parents t with
      | mk result made =>
        rw [hmade] at hparents
        cases result with
        | error e => exact hparents
        | ok _ => exact orThere_made hparents p (hfirst _)
    · exact orThere_made (.refl t) p (hfirst _)

theorem ensureDirectory_grown (p : Path) (t : Tree) : t.Grown (ensureDirectory p t).2 :=
  (createAll_made p.ancestors t).grown

namespace Writes

theorem append (h : Writes t log t') (h' : Writes t' log' t'') : Writes t (log ++ log') t'' := by
  induction h' with
  | nil => rwa [List.append_nil]
  | grown _ hg ih => exact ih.grown hg
  | write _ hw ih =>
    rw [← List.append_assoc]
    exact ih.write hw

theorem file?_eq (h : Writes t log t') {at' : Location}
    (hn : ∀ entry ∈ log, entry.1.names ≠ at') : t'.file? at' = t.file? at' := by
  induction h with
  | nil => rfl
  | grown _ hg ih => exact (hg.file at').trans (ih hn)
  | write _ hw ih =>
    have hne := hn _ (List.mem_append_right _ (List.mem_singleton_self _))
    rw [(Tree.write_written hw).file?, if_neg hne.symm]
    exact ih fun entry he => hn entry (List.mem_append_left _ he)

/-- What has been written can be read if no two of the paths lead to the same place. -/
theorem read (h : Writes t log t') (hd : (log.map fun entry => entry.1.names).Nodup)
    (hm : (p, content) ∈ log) : t'.read p = .ok content := by
  induction h with
  | nil => cases hm
  | grown _ hg ih => exact Tree.read_keep hg.keepsDirectories (ih hd hm) (hg.file _)
  | write _ hw ih =>
    have hw := Tree.write_written hw
    rw [List.map_append, List.map_singleton, List.nodup_append] at hd
    obtain ⟨hd, -, hnew⟩ := hd
    rcases List.mem_append.1 hm with hm | hm
    · have hne := hnew _ (List.mem_map.2 ⟨_, hm, rfl⟩) _ (List.mem_singleton_self _)
      apply Tree.read_keep hw.keepsDirectories (ih hd hm)
      rw [hw.file?, if_neg hne]
    · cases List.mem_singleton.1 hm
      exact hw.read

end Writes

theorem change_ok {f : Tree → Except Error Tree} (h : Action.change f t = (.ok (), t')) :
    f t = .ok t' := by
  rw [Action.change] at h
  split at h
  · cases h
  · next hf =>
    cases h
    exact hf

theorem write_ok (h : write p content t = (.ok (), t')) : t.write p content = .ok t' :=
  change_ok h

theorem writeText_ok {text : Text} (h : writeText p text t = (.ok (), t')) :
    t.write p (Text.toUtf8 text) = .ok t' :=
  write_ok h

theorem write_cases (p : Path) (content : ByteArray) (t : Tree) :
    (write p content t).2 = t ∨ t.Written p content (write p content t).2 := by
  cases hwritten : t.write p content with
  | error e =>
    left
    rw [write, Action.change, hwritten]
  | ok written =>
    right
    rw [write, Action.change, hwritten]
    exact Tree.write_written hwritten

end PluginForge.Files
