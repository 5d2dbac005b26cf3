import PluginForge.Proofs.Files.Changes

namespace PluginForge

open Files (Location Node Path Tree isEntryName isName)

variable {at' : Location} {dir name : Text} {root : Path} {t t' t₀ t₁ t₂ t₃ : Tree}

namespace Files

theorem isEntryName_scratchName (n : Nat) : isEntryName (scratchName n) := by
  have hlength : 3 ≤ (scratchName n).length := by
    rw [scratchName, List.length_append, List.length_append]
    exact Nat.le_trans (by decide : 3 ≤ scratchPrefix.length) (by omega)
  have hne {short : Text} (hs : short.length < 3) : scratchName n ≠ short := fun he =>
    absurd (he ▸ hlength) (Nat.not_le.2 hs)
  refine isEntryName_iff.2 ⟨?_, hne (by decide), fun h => ?_⟩
  · rw [isName, bne_iff_ne.2 (hne (by decide)), bne_iff_ne.2 (hne (by decide))]
    rfl
  · rw [scratchName, List.mem_append, List.mem_append] at h
    rcases h with (h | h) | h
    · exact absurd h (by decide)
    · exact absurd (List.eq_of_mem_replicate h) (by decide)
    · exact absurd (Nat.isDigit_of_mem_toDigits (by decide) (by decide) h) (by decide)

theorem makeScratch_ok {p : Path} (h : makeScratch root t = (.ok p, t')) :
    ∃ n, p = root.join (scratchName n) ∧ t.makeDirectory p = .ok t' := by
  rw [makeScratch] at h
  split at h
  · cases h
  · next hmade =>
    cases h
    exact ⟨_, rfl, hmade⟩

theorem Tree.holder_join (hn : isEntryName name)
    (h : t.holder (root.join name) = .ok (some (at', dir))) :
    dir = name ∧ at' = root.names ∧ t.walk [] root.steps = .ok root.names ∧
      t.node? root.names = some .directory ∧ Text.utf8Length name ≤ nameLimit := by
  obtain ⟨-, hsteps, hwalk, hd, hl⟩ := holder_eq_some h
  rw [steps_join hn, List.dropLast_concat] at hsteps hwalk
  have hdir : name = dir := List.singleton_inj.1 (List.append_cancel_left hsteps)
  have hat : at' = root.names := walk_eq_follow hwalk
  rw [← hdir] at hl
  rw [hat] at hwalk hd
  exact ⟨hdir.symm, hat, hwalk, hd, hl⟩

namespace Tree

theorem target_makeDirectory_join (hn : isEntryName name)
    (h : t.makeDirectory (root.join name) = .ok t') :
    t.walk [] root.steps = .ok root.names ∧ t.node? root.names = some .directory ∧
      t'.target (root.join name) = .ok (root.join name).names := by
  obtain ⟨-, -, _, _, hholder, -, hnul⟩ := makeDirectory_ok h
  obtain ⟨-, -, hwalk, hd, hl⟩ := holder_join hn hholder
  have hkeep := (makeDirectory_made h).grown.keepsDirectories
  exact ⟨hwalk, hd, target_join (walk_keep hkeep hwalk) (hkeep _ hd) hn hl hnul⟩

end Tree

section Scratch

variable {scratch : Text} {steps : List Text} (hn : isEntryName scratch)
  (hmade : t₀.makeDirectory (root.join scratch) = .ok t₁)

include hn hmade

theorem node?_made (at' : Location) :
    t₁.node? at' = if at' = root.names ++ [scratch] then some .directory else t₀.node? at' := by
  rw [← names_join hn]
  exact (Tree.makeDirectory_ok hmade).2.1 at'

theorem node?_scratch (hp : root.names ++ [scratch] <+: at') : t₀.node? at' = none := by
  have hnone := (Tree.makeDirectory_ok hmade).1
  rw [names_join hn] at hnone
  by_cases he : root.names ++ [scratch] = at'
  · rw [← he]
    exact hnone
  · refine Tree.node?_eq_none ?_ hp he
    rw [hnone]
    exact nofun

theorem isDirectory_scratch (hkept : t₁.KeepsDirectories t₂) : t₂.isDirectory (root.join scratch) := by
  have htarget := Tree.target_keep hkept (Tree.target_makeDirectory_join hn hmade).2.2
  have hd := hkept _ ((node?_made hn hmade (root.join scratch).names).trans (if_pos (names_join hn)))
  exact Tree.isDirectory_iff.2 ⟨htarget, hd⟩

/-- What is worked out in a scratch directory can be undone by deleting it. -/
theorem removePath_scratch (hworked : t₁.SameOutside (root.names ++ scratch :: steps) t₂)
    (hdeep : steps ≠ []) : (removePath (root.join scratch) t₂).2 = t₀ := by
  have hnames : (root.join scratch).names = root.names ++ [scratch] := names_join hn
  have hkept : t₁.KeepsDirectories t₂ := by
    intro at' hd
    rw [hworked at' fun hp => ?_, hd]
    have hscratch : root.names ++ [scratch] <+: at' := (prefix_siblings.2 rfl).trans hp
    have hne : at' ≠ root.names ++ [scratch] := by
      rintro rfl
      have hlength := hp.length_le
      have hpositive := List.length_pos_iff.2 hdeep
      simp only [List.length_append, List.length_cons, List.length_nil] at hlength
      omega
    rw [node?_made hn hmade, if_neg hne, node?_scratch hn hmade hscratch] at hd
    cases hd
  refine Tree.ext_node? fun at' => ?_
  rw [removePath_join hn (isDirectory_scratch hn hmade hkept), hnames]
  split
  · next hp => exact (node?_scratch hn hmade hp).symm
  · next hp =>
    have hne : at' ≠ root.names ++ [scratch] := fun he => hp (he ▸ List.prefix_rfl)
    rw [hworked at' fun hdeeper => hp ((prefix_siblings.2 rfl).trans hdeeper), node?_made hn hmade,
      if_neg hne]

end Scratch

/-- Something is worked out below a new scratch directory, and a directory of it is moved to a place
beside. -/
structure Exchange (root : Path) (scratch dir : Text) (steps : List Text) (t₀ t₁ t₂ t₃ : Tree) :
    Prop where
  scratchName : isEntryName scratch
  dirName : isEntryName dir
  absent : t₀.isDirectory (root.join dir) = false
  made : t₀.makeDirectory (root.join scratch) = .ok t₁
  worked : t₁.SameOutside (root.names ++ scratch :: steps) t₂
  deep : steps ≠ []
  found : t₂.node? (root.names ++ scratch :: (steps ++ [dir])) = some .directory
  moved : ∃ s : Path, s.names = root.names ++ scratch :: (steps ++ [dir]) ∧
    ('\x00' ∈ (root.join dir).text → '\x00' ∈ s.text) ∧ t₂.rename s (root.join dir) = .ok t₃

namespace Exchange

variable {scratch : Text} {steps : List Text}

section

variable (h : Exchange root scratch dir steps t₀ t₁ t₂ t₃)

include h

theorem node?_made (at' : Location) :
    t₁.node? at' = if at' = root.names ++ [scratch] then some .directory else t₀.node? at' :=
  Files.node?_made h.scratchName h.made at'

theorem node?_scratch (hp : root.names ++ [scratch] <+: at') : t₀.node? at' = none :=
  Files.node?_scratch h.scratchName h.made hp

theorem renamed : Tree.Renamed t₂ (root.names ++ scratch :: (steps ++ [dir])) (root.names ++ [dir]) t₃ ∧
    (root.join dir).text.contains '\x00' = false ∧ Text.utf8Length dir ≤ Tree.nameLimit := by
  obtain ⟨s, hs, htext, hrename⟩ := h.moved
  have hne : s.names ≠ (root.join dir).names := fun he => by
    have hlength := congrArg List.length he
    rw [hs, names_join h.dirName] at hlength
    simp at hlength
  have hd : t₂.node? s.names = some .directory := by
    rw [hs]
    exact h.found
  obtain ⟨hrenamed, hnul, _, _, hholder, -⟩ := Tree.rename_renamed hrename hd hne
  rw [hs, names_join h.dirName] at hrenamed
  refine ⟨hrenamed, ?_, (Tree.holder_join h.dirName hholder).2.2.2.2⟩
  rw [← Bool.not_eq_true, List.contains_iff_mem] at hnul ⊢
  exact fun hc => hnul (htext hc)

theorem node?_dir : t₀.node? (root.names ++ [dir]) ≠ some .directory := by
  intro hd
  obtain ⟨-, hnul, hl⟩ := h.renamed
  obtain ⟨hwalk, hroot, -⟩ := Tree.target_makeDirectory_join h.scratchName h.made
  have htarget := Tree.target_join hwalk hroot h.dirName hl hnul
  rw [← names_join h.dirName] at hd
  exact Bool.eq_false_iff.1 h.absent (Tree.isDirectory_iff.2 ⟨htarget, hd⟩)

theorem not_prefix_scratch : ¬root.names ++ scratch :: steps <+: root.names ++ [scratch] := by
  intro hp
  have hlength := hp.length_le
  have hdeep := List.length_pos_iff.2 h.deep
  simp only [List.length_append, List.length_cons, List.length_nil] at hlength
  omega

theorem ne : scratch ≠ dir := by
  rintro rfl
  have hscratch : t₂.node? (root.names ++ [scratch]) = some .directory := by
    rw [h.worked _ h.not_prefix_scratch, h.node?_made, if_pos rfl]
  have hne : root.names ++ scratch :: (steps ++ [scratch]) ≠ root.names ++ [scratch] := by
    intro he
    have hlength := congrArg List.length he
    simp at hlength
  exact h.renamed.1.not_prefix_source hscratch hne (prefix_siblings.2 rfl)

theorem keepsDirectories : t₁.KeepsDirectories t₃ := by
  intro at' hd
  have hnode := h.node?_made at'
  rw [hd] at hnode
  have hdir : ¬root.names ++ [dir] <+: at' := by
    intro hp
    split at hnode
    · next hat =>
      rw [hat] at hp
      exact h.ne (prefix_siblings.1 hp).symm
    · by_cases he : root.names ++ [dir] = at'
      · exact h.node?_dir (he ▸ hnode.symm)
      · exact h.node?_dir (Tree.node?_above (Option.isSome_of_eq_some hnode.symm) hp he)
  have hsteps : ¬root.names ++ scratch :: steps <+: at' := by
    intro hp
    split at hnode
    · next hat =>
      rw [hat] at hp
      exact h.not_prefix_scratch hp
    · have hscratch : root.names ++ [scratch] <+: at' := (prefix_siblings.2 rfl).trans hp
      cases hnode.trans (h.node?_scratch hscratch)
  have hsource : ¬root.names ++ scratch :: (steps ++ [dir]) <+: at' := by
    intro hp
    apply hsteps
    refine List.IsPrefix.trans ?_ hp
    rw [List.prefix_append_right_inj, List.cons_prefix_cons]
    exact ⟨rfl, List.prefix_append steps [dir]⟩
  rw [h.renamed.1.outside at' hsource hdir, h.worked at' hsteps, hd]

theorem node?_removed (at' : Location) :
    (removePath (root.join scratch) t₃).2.node? at' =
      if root.names ++ [scratch] <+: at' then none else t₃.node? at' := by
  rw [removePath_join h.scratchName (isDirectory_scratch h.scratchName h.made h.keepsDirectories),
    names_join h.scratchName]

/-- After the scratch directory is deleted, the directory that was moved has what was worked out. -/
theorem contents (names : Location) :
    (removePath (root.join scratch) t₃).2.node? (root.names ++ [dir] ++ names) =
      t₂.node? (root.names ++ scratch :: (steps ++ [dir]) ++ names) := by
  rw [h.node?_removed, if_neg, h.renamed.1.contents]
  rw [List.append_assoc, List.singleton_append]
  exact fun hp => h.ne (prefix_siblings.1 hp)

/-- After the scratch directory is deleted, nothing but that place has changed. -/
theorem frame :
    (removePath (root.join scratch) t₃).2.node? (root.names ++ [dir]) = some .directory ∧
      t₀.SameOutside (root.names ++ [dir]) (removePath (root.join scratch) t₃).2 := by
  constructor
  · have hroot := h.contents []
    rwa [List.append_nil, List.append_nil, h.found] at hroot
  · intro at' hdir
    rw [h.node?_removed]
    split
    · next hp => exact (h.node?_scratch hp).symm
    · next hp =>
      have hbelow {rest : List Text} : ¬root.names ++ scratch :: rest <+: at' := fun hrest =>
        hp ((prefix_siblings.2 rfl).trans hrest)
      have hne : at' ≠ root.names ++ [scratch] := fun he => hp (he ▸ List.prefix_rfl)
      rw [h.renamed.1.outside at' hbelow hdir, h.worked at' hbelow, h.node?_made, if_neg hne]

theorem isDirectory : (removePath (root.join scratch) t₃).2.isDirectory (root.join dir) := by
  obtain ⟨hthere, hsame⟩ := h.frame
  obtain ⟨hwalk, hroot, -⟩ := Tree.target_makeDirectory_join h.scratchName h.made
  have hway {at' : Location} (hon : OnWay root at') :
      (removePath (root.join scratch) t₃).2.node? at' = some .directory := by
    have hd := Tree.node?_onWay hwalk hroot hon
    rw [hsame at' fun hp => ?_, hd]
    by_cases he : root.names ++ [dir] = at'
    · exact h.node?_dir (he ▸ hd)
    · exact h.node?_dir (Tree.node?_above (Option.isSome_of_eq_some hd) hp he)
  obtain ⟨-, hnul, hl⟩ := h.renamed
  rw [← names_join h.dirName] at hthere
  refine Tree.isDirectory_iff.2 ⟨Tree.target_join ?_ (hway (onWay_names List.prefix_rfl)) h.dirName hl hnul,
    hthere⟩
  exact Tree.walk_congr hwalk fun way hstart _ => hway ⟨way, hstart, rfl⟩

end

end Exchange

end Files

end PluginForge
