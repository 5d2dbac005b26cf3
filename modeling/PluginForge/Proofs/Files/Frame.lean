import PluginForge.Files.Action
import PluginForge.Proofs.Files.Path

namespace PluginForge.Files

variable {at' place : Location} {content : ByteArray} {name : Text} {steps a b : List Text}
  {node : Node} {p q : Path} {t t' t'' : Tree}

def Node.content? : Node → Option ByteArray
  | .directory => none
  | .file content => some content

namespace Tree

def file? (t : Tree) (at' : Location) : Option ByteArray :=
  (t.node? at').bind Node.content?

theorem file?_eq_some : t.file? at' = some content ↔ t.node? at' = some (.file content) := by
  rw [file?, Option.bind_eq_some_iff]
  constructor
  · rintro ⟨found, hfound, hcontent⟩
    cases found with
    | directory => cases hcontent
    | file found =>
      cases hcontent
      exact hfound
  · exact fun h => ⟨_, h, rfl⟩

/-- Every directory of one state is one of another. -/
def KeepsDirectories (t t' : Tree) : Prop :=
  ∀ at', t.node? at' = some .directory → t'.node? at' = some .directory

theorem walk_eq_follow (h : t.walk at' steps = .ok place) : place = follow at' steps := by
  induction steps generalizing at' with
  | nil =>
    cases h
    rfl
  | cons step steps ih =>
    rw [walk] at h
    rw [follow, List.foldl_cons]
    split at h
    · cases h
    · cases h
    split at h
    · next hs =>
      rw [if_pos hs]
      exact ih h
    next hs =>
    rw [if_neg hs]
    split at h
    · next hs =>
      rw [if_pos hs]
      exact ih h
    next hs =>
    rw [if_neg hs]
    split at h
    · cases h
    · exact ih h

theorem walk_append :
    t.walk at' (a ++ b) = (t.walk at' a).bind fun between => t.walk between b := by
  induction a generalizing at' with
  | nil => rfl
  | cons step a ih =>
    rw [List.cons_append, walk, walk]
    split
    · rfl
    · rfl
    · split
      · exact ih
      split
      · exact ih
      split
      · rfl
      · exact ih

theorem walk_name (hd : t.node? at' = some .directory) (hn : isName name)
    (hl : Text.utf8Length name ≤ nameLimit) : t.walk at' [name] = .ok (at' ++ [name]) := by
  simp only [isName, Bool.and_eq_true, bne_iff_ne, ne_eq] at hn
  rw [walk, hd]
  simp only [if_neg hn.1, if_neg hn.2, if_neg (Nat.not_lt.2 hl), walk]

theorem walk_keep (hk : KeepsDirectories t t') (h : t.walk at' steps = .ok place) :
    t'.walk at' steps = .ok place := by
  induction steps generalizing at' with
  | nil => exact h
  | cons step steps ih =>
    rw [walk] at h
    split at h
    · cases h
    · cases h
    next hd =>
    rw [walk, hk at' hd]
    simp only
    split at h
    · next hs =>
      rw [if_pos hs]
      exact ih h
    next hs =>
    rw [if_neg hs]
    split at h
    · next hs =>
      rw [if_pos hs]
      exact ih h
    next hs =>
    rw [if_neg hs]
    split at h
    · cases h
    next hl =>
    rw [if_neg hl]
    exact ih h

theorem checked_eq_ok {α : Type} {result : Except Refusal α} {value : α} :
    checked p result = .ok value ↔ p.text.contains '\x00' = false ∧ result = .ok value := by
  rw [checked]
  cases p.text.contains '\x00' with
  | true => simp
  | false =>
    cases result with
    | error e => simp [Except.mapError]
    | ok found => simp [Except.mapError]

theorem target_eq_ok :
    t.target p = .ok place ↔
      p.text.contains '\x00' = false ∧ p.text.isEmpty = false ∧ t.walk [] (stepsOf p) = .ok place := by
  rw [target, checked_eq_ok]
  cases p.text.isEmpty <;> simp

theorem find_eq_ok :
    t.find p = .ok (place, node) ↔ t.target p = .ok place ∧ t.node? place = some node := by
  rw [find]
  cases t.target p with
  | error e => simp
  | ok found =>
    simp only
    cases hn : t.node? found with
    | none =>
      simp only [reduceCtorEq, false_iff, not_and, Except.ok.injEq]
      rintro rfl
      rw [hn]
      exact nofun
    | some node' =>
      simp only [Except.ok.injEq, Prod.mk.injEq]
      constructor
      · rintro ⟨rfl, rfl⟩
        exact ⟨rfl, hn⟩
      · rintro ⟨rfl, hn'⟩
        exact ⟨rfl, Option.some.inj (hn.symm.trans hn')⟩

/-- A path leads to the place that its names tell, if it leads anywhere. -/
theorem target_eq_names (h : t.target p = .ok place) : place = p.names := by
  rw [walk_eq_follow (target_eq_ok.1 h).2.2, stepsOf, names_eq_follow]
  split
  · rw [follow_append]
    rfl
  · rfl

theorem target_keep (hk : KeepsDirectories t t') (h : t.target p = .ok place) :
    t'.target p = .ok place := by
  rw [target_eq_ok] at h ⊢
  exact ⟨h.1, h.2.1, walk_keep hk h.2.2⟩

theorem read_eq_ok :
    t.read p = .ok content ↔ t.target p = .ok p.names ∧ t.file? p.names = some content := by
  rw [file?_eq_some, read]
  constructor
  · intro h
    split at h
    · cases h
    · cases h
    next place found hfind =>
    cases h
    obtain ⟨htarget, hnode⟩ := find_eq_ok.1 hfind
    rw [← target_eq_names htarget]
    exact ⟨htarget, hnode⟩
  · rintro ⟨htarget, hnode⟩
    rw [find_eq_ok.2 ⟨htarget, hnode⟩]

/-- What has been read can be read again as long as neither the file nor the way to it changes. -/
theorem read_keep (hk : KeepsDirectories t t') (h : t.read p = .ok content)
    (hf : t'.file? p.names = t.file? p.names) : t'.read p = .ok content := by
  rw [read_eq_ok] at h ⊢
  exact ⟨target_keep hk h.1, hf.trans h.2⟩

theorem holder_eq_some (h : t.holder p = .ok (some (at', name))) :
    p.text.isEmpty = false ∧ p.steps = p.steps.dropLast ++ [name] ∧
      t.walk [] p.steps.dropLast = .ok at' ∧ t.node? at' = some .directory ∧
      Text.utf8Length name ≤ nameLimit := by
  rw [holder] at h
  split at h
  · cases h
  next hempty =>
  split at h
  · cases h
  next last hlast =>
  split at h
  · cases h
  next found hwalk =>
  split at h
  · cases h
  · cases h
  next hd =>
  split at h
  · cases h
  next hl =>
  cases h
  refine ⟨Bool.eq_false_iff.2 hempty, ?_, hwalk, hd, Nat.not_lt.1 hl⟩
  obtain ⟨init, hinit⟩ := List.getLast?_eq_some_iff.1 hlast
  rw [hinit, List.dropLast_concat]

theorem canHold_concat (hsteps : name ∈ p.steps) (hn : isName name)
    (hd : t.node? at' = some .directory)
    (hnode : Node.isDirectory (t.node? (at' ++ [name])) → Node.isDirectory (some node)) :
    t.CanHold (at' ++ [name]) node := by
  obtain ⟨hne, hslash⟩ := mem_steps hsteps
  rw [CanHold, List.getLast?_concat, List.dropLast_concat]
  exact ⟨isEntryName_iff.2 ⟨hn, hne, hslash⟩, Node.isDirectory_iff.2 hd, hnode⟩

theorem names_of_steps (hsteps : p.steps = p.steps.dropLast ++ [name])
    (hwalk : t.walk [] p.steps.dropLast = .ok at') (hn : isName name) :
    p.names = at' ++ [name] := by
  rw [names_eq_follow, hsteps, follow_append, follow_name hn, ← walk_eq_follow hwalk]

/-- What one written file changes: its place holds it, and no other place is touched. -/
structure Written (t : Tree) (p : Path) (content : ByteArray) (t' : Tree) : Prop where
  node : ∀ at', t'.node? at' = if at' = p.names then some (.file content) else t.node? at'
  wasFile : t.node? p.names ≠ some .directory
  target : t'.target p = .ok p.names

/-- Whether a file can be written does not depend on what is written. -/
theorem exists_write (h : t.write p content = .ok t') (content' : ByteArray) :
    ∃ t'', t.write p content' = .ok t'' := by
  simp only [write, checked_eq_ok] at h ⊢
  obtain ⟨hnul, h⟩ := h
  split at h
  · cases h
  · cases h
  · split at h
    · cases h
    · next hplain =>
      rw [if_neg hplain]
      exact ⟨_, hnul, rfl⟩

theorem write_written (h : t.write p content = .ok t') : Written t p content t' := by
  rw [write, checked_eq_ok] at h
  obtain ⟨hnul, h⟩ := h
  split at h
  · cases h
  · cases h
  next at' name hholder =>
  obtain ⟨hempty, hsteps, hwalk, hd, hl⟩ := holder_eq_some hholder
  split at h
  · cases h
  next hplain =>
  simp only [Bool.or_eq_true, not_or, Bool.not_eq_true, Bool.not_eq_false'] at hplain
  obtain ⟨⟨hslash, hn⟩, hfile⟩ := hplain
  have hname : name ∈ p.steps := by
    rw [hsteps]
    exact List.mem_append_right _ (List.mem_singleton_self name)
  have hhold : t.CanHold (at' ++ [name]) (.file content) :=
    canHold_concat hname hn hd fun hdir => absurd (hdir.symm.trans hfile) (by decide)
  have hnames := names_of_steps hsteps hwalk hn
  cases h
  have hnode (place : Location) :
      (t.put (at' ++ [name]) (.file content)).node? place =
        if place = p.names then some (.file content) else t.node? place := by
    rw [hnames]
    exact node?_put hhold place
  have hwas : t.node? p.names ≠ some .directory := by
    rw [hnames]
    exact fun he => absurd ((Node.isDirectory_iff.2 he).symm.trans hfile) (by decide)
  have hkeep : KeepsDirectories t (t.put (at' ++ [name]) (.file content)) := fun place hplace => by
    have hne : place ≠ p.names := fun he => hwas (he ▸ hplace)
    rw [hnode, if_neg hne, hplace]
  refine ⟨hnode, hwas, target_eq_ok.2 ⟨hnul, hempty, ?_⟩⟩
  rw [stepsOf, hslash, hnames, if_neg Bool.false_ne_true, hsteps, walk_append,
    walk_keep hkeep hwalk]
  exact walk_name (hkeep at' hd) hn hl

namespace Written

theorem keepsDirectories (h : Written t p content t') : KeepsDirectories t t' := fun at' hd => by
  have hne : at' ≠ p.names := fun he => h.wasFile (he ▸ hd)
  rw [h.node, if_neg hne, hd]

theorem file? (h : Written t p content t') (at' : Location) :
    t'.file? at' = if at' = p.names then some content else t.file? at' := by
  rw [Tree.file?, h.node]
  split
  · rfl
  · rfl

theorem read (h : Written t p content t') : t'.read p = .ok content :=
  read_eq_ok.2 ⟨h.target, by rw [h.file?, if_pos rfl]⟩

end Written

theorem canHold_of_file {old : ByteArray} (h : t.node? at' = some (.file old)) (content : ByteArray) :
    t.CanHold at' (.file content) := by
  have hne : at' ≠ [] := by
    rintro rfl
    cases h
  have hget : (t.nodes.get? at').isSome := by
    rw [← nodeIn_eq_get? hne]
    exact Option.isSome_of_eq_some h
  obtain ⟨parent, name, rfl, hname, hparent⟩ := t.rooted at' hget
  rw [CanHold, List.getLast?_concat, List.dropLast_concat]
  refine ⟨hname, Node.isDirectory_iff.2 hparent, fun hd => ?_⟩
  rw [h] at hd
  cases hd

theorem append_written (h : t.append p content = .ok t') :
    ∃ old, t.read p = .ok old ∧ Written t p (old ++ content) t' := by
  rw [append] at h
  split at h
  · cases h
  · cases h
  next place old hfind =>
  cases h
  obtain ⟨htarget, hnode⟩ := find_eq_ok.1 hfind
  have hplace := target_eq_names htarget
  rw [hplace] at htarget hnode ⊢
  have hhold := canHold_of_file hnode (old ++ content)
  refine ⟨old, read_eq_ok.2 ⟨htarget, file?_eq_some.2 hnode⟩, node?_put hhold, ?_, ?_⟩
  · rw [hnode]
    exact nofun
  · refine target_keep (fun place hd => ?_) htarget
    rw [node?_put hhold, if_neg, hd]
    rintro rfl
    cases hd.symm.trans hnode

/-- Directories stay and may be added; the files are the same. -/
structure Grown (t t' : Tree) : Prop where
  keepsDirectories : KeepsDirectories t t'
  file : ∀ at', t'.file? at' = t.file? at'

/-- What stands at a place is as it was, or a directory was created there, where that is allowed. -/
def MadeIf (allowed : Prop) (before after : Option Node) : Prop :=
  after = before ∨ allowed ∧ before = none ∧ after = some .directory

theorem MadeIf.trans {allowed : Prop} {first second third : Option Node}
    (h : MadeIf allowed first second) (h' : MadeIf allowed second third) :
    MadeIf allowed first third := by
  rcases h with h | ⟨hallowed, hnone, hd⟩
  · rwa [h] at h'
  · rcases h' with h' | ⟨-, hnone', -⟩
    · exact .inr ⟨hallowed, hnone, h'.trans hd⟩
    · cases hd.symm.trans hnone'

theorem MadeIf.mono {allowed allowed' : Prop} {before after : Option Node}
    (h : MadeIf allowed before after) (ha : allowed → allowed') : MadeIf allowed' before after :=
  h.imp_right fun ⟨hallowed, hnodes⟩ => ⟨ha hallowed, hnodes⟩

/-- Directories are created at some places where nothing stood before, and all else is as it was. -/
def Made (places : Location → Prop) (t t' : Tree) : Prop :=
  ∀ at', MadeIf (places at') (t.node? at') (t'.node? at')

namespace Made

variable {places places' : Location → Prop}

theorem refl (t : Tree) : Made places t t := fun _ => .inl rfl

theorem trans (h : Made places t t') (h' : Made places t' t'') : Made places t t'' :=
  fun at' => (h at').trans (h' at')

theorem mono (h : Made places t t') (hplaces : ∀ at', places at' → places' at') :
    Made places' t t' :=
  fun at' => (h at').mono (hplaces at')

theorem grown (h : Made places t t') : Grown t t' where
  keepsDirectories at' hd := by
    rcases h at' with h | ⟨-, hnone, -⟩
    · exact h.trans hd
    · cases hd.symm.trans hnone
  file at' := by
    rcases h at' with h | ⟨-, hnone, hd⟩
    · rw [Tree.file?, h, Tree.file?]
    · rw [Tree.file?, hd, Tree.file?, hnone]
      rfl

end Made

theorem makeDirectory_ok (h : t.makeDirectory p = .ok t') :
    t.node? p.names = none ∧
      (∀ at', t'.node? at' = if at' = p.names then some .directory else t.node? at') ∧
      ∃ at' name, t.holder p = .ok (some (at', name)) ∧ isName name ∧
        p.text.contains '\x00' = false := by
  rw [makeDirectory, checked_eq_ok] at h
  obtain ⟨hnul, h⟩ := h
  split at h
  · cases h
  · cases h
  next at' name hholder =>
  obtain ⟨-, hsteps, hwalk, hd, -⟩ := holder_eq_some hholder
  split at h
  · cases h
  next hnew =>
  simp only [Bool.or_eq_true, not_or, Bool.not_eq_true, Bool.not_eq_false',
    Option.isSome_eq_false_iff, Option.isNone_iff_eq_none] at hnew
  obtain ⟨hn, hnone⟩ := hnew
  have hname : name ∈ p.steps := by
    rw [hsteps]
    exact List.mem_append_right _ (List.mem_singleton_self name)
  have hhold : t.CanHold (at' ++ [name]) .directory := canHold_concat hname hn hd fun _ => rfl
  cases h
  rw [names_of_steps hsteps hwalk hn]
  exact ⟨hnone, node?_put hhold, at', name, hholder, hn, hnul⟩

theorem makeDirectory_made (h : t.makeDirectory p = .ok t') : Made (· = p.names) t t' := by
  obtain ⟨hnone, hnode, -⟩ := makeDirectory_ok h
  intro at'
  rw [hnode]
  split
  · next hat => exact .inr ⟨hat, hat ▸ hnone, rfl⟩
  · exact .inl rfl

end Tree

end PluginForge.Files
