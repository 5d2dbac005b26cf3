import PluginForge.Proofs.Files.Frame

namespace PluginForge.Files

variable {a b : List Text} {at' place : Location} {p q : Path} {steps way : List Text} {t : Tree}

theorem steps_anchor (p : Path) : (Path.mk p.anchor).steps <+: p.steps := by
  obtain ⟨text⟩ := p
  rw [Path.anchor]
  split
  · exact List.nil_prefix
  · next rest h =>
    rw [show text = '.' :: '/' :: rest from h]
    exact ⟨(Path.mk rest).steps, (steps_slash ['.'] rest).symm⟩
  · next h =>
    have htext : text = ['.'] := h
    subst htext
    exact List.prefix_rfl
  · exact List.nil_prefix

theorem steps_parent? (h : p.parent? = some q) : q.steps <+: p.steps := by
  rw [Path.parent?] at h
  split at h
  · split at h
    · cases h
      exact List.nil_prefix
    · cases h
  next last rest hpieces =>
  cases h
  let pieces := Text.splitOn '/' (p.text.drop p.anchor.length)
  obtain ⟨idle, hidle⟩ := List.dropWhile_suffix Path.isIdle (l := pieces.reverse)
  obtain ⟨more, hmore⟩ := List.dropWhile_suffix Path.isIdle (l := rest)
  rw [show pieces.reverse.dropWhile Path.isIdle = last :: rest from hpieces, ← hmore] at hidle
  have hpieces : pieces = (rest.dropWhile Path.isIdle).reverse ++
      (more.reverse ++ last :: idle.reverse) := by
    rw [← List.reverse_inj, ← hidle]
    simp
  have htext : p.text = p.anchor ++ Text.join ['/'] pieces := by
    rw [Text.join_splitOn, Path.text_eq]
  cases hkept : (rest.dropWhile Path.isIdle).reverse with
  | nil =>
    rw [show Text.join "/" [] = [] from rfl, List.append_nil]
    exact steps_anchor p
  | cons first kept =>
    rw [hkept] at hpieces
    rw [hpieces, Text.join_append (List.cons_ne_nil _ _) (by simp), List.append_assoc,
      ← List.append_assoc] at htext
    have hsteps : p.steps = _ := congrArg (fun text => (Path.mk text).steps) htext
    rw [hsteps]
    exact ⟨_, (steps_slash _ _).symm⟩

theorem steps_of_mem_ancestors (h : q ∈ p.ancestors) : q.steps <+: p.steps := by
  -- There is no constructor to follow: the induction is on the text, which a parent makes shorter.
  induction hl : p.text.length using Nat.strongRecOn generalizing p with
  | ind n ih =>
    rw [Path.ancestors] at h
    rcases List.mem_cons.1 h with rfl | h
    · exact List.prefix_rfl
    split at h
    · cases h
    · next parent hparent =>
      have hlength := Path.length_parent? hparent
      exact (ih _ (hl ▸ hlength) h rfl).trans (steps_parent? hparent)

theorem follow_eq_append (h : ['.', '.'] ∉ steps) (at' : Location) :
    follow at' steps = at' ++ follow [] steps := by
  induction steps generalizing at' with
  | nil => exact (List.append_nil at').symm
  | cons step steps ih =>
    obtain ⟨hstep, hsteps⟩ := not_or.1 (List.mem_cons.not.1 h)
    have hfollow (at' : Location) : follow at' (step :: steps) =
        follow (if step = ['.'] then at' else at' ++ [step]) steps := by
      rw [follow, List.foldl_cons, if_neg (Ne.symm hstep)]
      rfl
    rw [hfollow, hfollow]
    split
    · exact ih hsteps at'
    · rw [ih hsteps, ih hsteps ([] ++ [step]), List.nil_append, List.append_assoc]

theorem prefix_follow (h : ['.', '.'] ∉ steps) (at' : Location) : at' <+: follow at' steps := by
  rw [follow_eq_append h]
  exact List.prefix_append _ _

/-- A relative path that takes no step upwards. -/
def staysInside (text : Text) : Bool :=
  text.head? != some '/' && !(Path.mk text).steps.contains ['.', '.']

theorem staysInside_iff {text : Text} :
    staysInside text ↔ text.head? ≠ some '/' ∧ ['.', '.'] ∉ (Path.mk text).steps := by
  rw [staysInside, Bool.and_eq_true, bne_iff_ne, Bool.not_eq_true', ← Bool.not_eq_true,
    List.contains_iff_mem]

theorem prefix_names_join {text : Text} (h : staysInside text) (p : Path) :
    p.names <+: (p.join text).names := by
  obtain ⟨hrelative, hsteps⟩ := staysInside_iff.1 h
  rw [names_eq_follow, names_eq_follow, steps_join_of_relative hrelative, follow_append]
  exact prefix_follow hsteps _

theorem prefix_siblings {a b : Text} {rest : List Text} {above : Location} :
    above ++ [a] <+: above ++ b :: rest ↔ a = b := by
  rw [List.prefix_append_right_inj, List.cons_prefix_cons]
  exact and_iff_left List.nil_prefix

/-- From wherever two paths are followed, the first one leads deeper into the directory of the second. -/
def LiesBelow (p q : Path) : Prop :=
  ∃ below, below ≠ [] ∧ ∀ at', follow at' p.steps = follow at' q.steps ++ below

namespace LiesBelow

variable {name : Text} {names : List Text} {r : Path}

theorem of_steps (hsteps : p.steps = q.steps ++ names) (hnames : ∀ name ∈ names, isEntryName name)
    (hne : names ≠ []) : LiesBelow p q := by
  refine ⟨names, hne, ?_⟩
  intro at'
  rw [hsteps, follow_append, follow_names hnames]

theorem join (hn : isEntryName name) : LiesBelow (p.join name) p := by
  apply of_steps (steps_join hn) _ (List.cons_ne_nil _ _)
  intro other hother
  rw [List.mem_singleton.1 hother]
  exact hn

theorem trans (h : LiesBelow p q) (h' : LiesBelow q r) : LiesBelow p r := by
  obtain ⟨below, hne, hbelow⟩ := h
  obtain ⟨between, -, hbetween⟩ := h'
  refine ⟨between ++ below, List.append_ne_nil_of_right_ne_nil between hne, ?_⟩
  intro at'
  rw [hbelow, hbetween, List.append_assoc]

end LiesBelow

/-- A place that following a path passes through. -/
def OnWay (p : Path) (at' : Location) : Prop :=
  ∃ way, way <+: p.steps ∧ at' = follow [] way

theorem onWay_names (h : q.steps <+: p.steps) : OnWay p q.names :=
  ⟨q.steps, h, rfl⟩

/-- The way of a longer path passes through the way of a shorter one, or below its end. -/
theorem OnWay.of_append {names : List Text} (h : OnWay p at') (hsteps : p.steps = q.steps ++ names)
    (hnames : ['.', '.'] ∉ names) : OnWay q at' ∨ q.names <+: at' := by
  obtain ⟨way, hway, rfl⟩ := h
  rw [hsteps] at hway
  rcases List.prefix_or_prefix_of_prefix hway (List.prefix_append q.steps names) with h | ⟨more, rfl⟩
  · exact .inl ⟨way, h, rfl⟩
  · right
    have hmore : more ⊆ names := ((List.prefix_append_right_inj _).1 hway).subset
    rw [follow_append]
    exact prefix_follow (fun h => hnames (hmore h)) _

theorem OnWay.mono (h : OnWay p at') (hsteps : p.steps <+: q.steps) : OnWay q at' := by
  obtain ⟨way, hway, hat⟩ := h
  exact ⟨way, hway.trans hsteps, hat⟩

theorem OnWay.of_join {name : Text} {names : List Text} (h : OnWay p at') (hn : isEntryName name)
    (hsteps : p.steps = (q.join name).steps ++ names) (hnames : ['.', '.'] ∉ names) :
    OnWay q at' ∨ (q.join name).names <+: at' := by
  rcases h.of_append hsteps hnames with ⟨way, hway, rfl⟩ | h
  · rw [steps_join hn, List.prefix_concat_iff] at hway
    rcases hway with rfl | hway
    · rw [names_eq_follow, steps_join hn]
      exact .inr List.prefix_rfl
    · exact .inl ⟨way, hway, rfl⟩
  · exact .inr h

namespace Tree

/-- A path can only be followed through directories. -/
theorem node?_of_walk (h : t.walk at' steps = .ok place) (hway : way <+: steps)
    (hne : way ≠ steps) : t.node? (follow at' way) = some .directory := by
  obtain ⟨rest, rfl⟩ := hway
  rw [walk_append] at h
  cases hfirst : t.walk at' way with
  | error e =>
    rw [hfirst] at h
    cases h
  | ok between =>
    rw [hfirst] at h
    rw [← walk_eq_follow hfirst]
    cases rest with
    | nil => exact absurd (List.append_nil way).symm hne
    | cons step rest =>
      replace h : t.walk between (step :: rest) = .ok place := h
      rw [walk] at h
      split at h
      · cases h
      · cases h
      · assumption

theorem walk_congr {t' : Tree} (h : t.walk at' steps = .ok place)
    (hd : ∀ way, way <+: steps → way ≠ steps → t'.node? (follow at' way) = some .directory) :
    t'.walk at' steps = .ok place := by
  induction steps generalizing at' with
  | nil => exact h
  | cons step steps ih =>
    have hnext (way : List Text) (hway : way <+: steps) (hne : way ≠ steps) :
        t'.node? (follow (follow at' [step]) way) = some .directory := by
      rw [← follow_append]
      apply hd
      · exact List.cons_prefix_cons.2 ⟨rfl, hway⟩
      · exact fun he => hne (List.cons.inj he).2
    have hhere : t'.node? at' = some .directory :=
      hd [] List.nil_prefix (List.cons_ne_nil step steps).symm
    rw [walk] at h
    split at h
    · cases h
    · cases h
    rw [walk, hhere]
    rw [follow, List.foldl_cons, List.foldl_nil] at hnext
    simp only
    split at h
    · next hs =>
      rw [if_pos hs] at hnext ⊢
      exact ih h hnext
    next hs =>
    rw [if_neg hs] at hnext ⊢
    split at h
    · next hs =>
      rw [if_pos hs] at hnext ⊢
      exact ih h hnext
    next hs =>
    rw [if_neg hs] at hnext ⊢
    split at h
    · cases h
    next hl =>
    rw [if_neg hl]
    exact ih h hnext

theorem node?_onWay (h : t.walk [] p.steps = .ok p.names) (hd : t.node? p.names = some .directory)
    (hway : OnWay p at') : t.node? at' = some .directory := by
  obtain ⟨way, hway, rfl⟩ := hway
  by_cases he : way = p.steps
  · rw [he]
    exact hd
  · exact node?_of_walk h hway he

theorem stepsOf_join {name : Text} (hn : isEntryName name) :
    stepsOf (p.join name) = p.steps ++ [name] := by
  rw [stepsOf, endsInSlash_join hn, if_neg Bool.false_ne_true, steps_join hn]

/-- A name can be looked up in a directory that a path leads to. -/
theorem target_join {name : Text} (hwalk : t.walk [] p.steps = .ok p.names)
    (hd : t.node? p.names = some .directory) (hn : isEntryName name)
    (hl : Text.utf8Length name ≤ nameLimit) (hnul : (p.join name).text.contains '\x00' = false) :
    t.target (p.join name) = .ok (p.join name).names := by
  refine target_eq_ok.2 ⟨hnul, isEmpty_text_join hn, ?_⟩
  rw [stepsOf_join hn, walk_append, hwalk, names_join hn]
  exact walk_name hd (isEntryName_iff.1 hn).1 hl

theorem walk_of_target_join {name : Text} (hn : isEntryName name)
    (h : t.target (p.join name) = .ok place) :
    t.walk [] p.steps = .ok p.names ∧ t.node? p.names = some .directory := by
  obtain ⟨-, -, h⟩ := target_eq_ok.1 h
  rw [stepsOf_join hn] at h
  have hd := node?_of_walk h (List.prefix_append p.steps [name]) (by simp)
  rw [walk_append] at h
  cases hwalk : t.walk [] p.steps with
  | error e =>
    rw [hwalk] at h
    cases h
  | ok between =>
    rw [walk_eq_follow hwalk]
    exact ⟨rfl, hd⟩

theorem target_of_join {name inner : Text} (hn : isEntryName name) (hinner : isEntryName inner)
    (h : t.target ((p.join name).join inner) = .ok place) :
    t.target (p.join name) = .ok (p.join name).names ∧
      t.node? (p.join name).names = some .directory := by
  obtain ⟨hwalk, hd⟩ := walk_of_target_join hinner h
  have hnul := (target_eq_ok.1 h).1
  rw [← Bool.not_eq_true, List.contains_iff_mem] at hnul
  refine ⟨target_eq_ok.2 ⟨?_, isEmpty_text_join hn, ?_⟩, hd⟩
  · rw [← Bool.not_eq_true, List.contains_iff_mem]
    exact fun hmem => hnul (mem_text_join hinner (.inl hmem))
  · rw [stepsOf_join hn, ← steps_join hn]
    exact hwalk

theorem isDirectory_iff :
    t.isDirectory p ↔ t.target p = .ok p.names ∧ t.node? p.names = some .directory := by
  rw [isDirectory]
  constructor
  · intro h
    split at h
    · next place hfind =>
      obtain ⟨htarget, hnode⟩ := find_eq_ok.1 hfind
      rw [← target_eq_names htarget]
      exact ⟨htarget, hnode⟩
    · cases h
  · intro h
    rw [find_eq_ok.2 h]

theorem node?_of_isDirectory {name : Text} (hn : isEntryName name) (h : t.isDirectory (p.join name))
    (hway : OnWay (p.join name) at') : t.node? at' = some .directory := by
  obtain ⟨htarget, hd⟩ := isDirectory_iff.1 h
  have hwalk := (target_eq_ok.1 htarget).2.2
  rw [stepsOf_join hn, ← steps_join hn] at hwalk
  exact node?_onWay hwalk hd hway

end Tree

end PluginForge.Files
