import PluginForge.Proofs.Build.Cache

namespace PluginForge

open Files (Location Path Prunes Tree names_join prune staysInside)

variable {at' : Location} {l : Layout} {p s scratch : Path} {t t' made : Tree} {texts : List Text}

namespace Files

theorem rename_none (h : t.rename s p = .ok t') (hd : t.node? s.names = some .directory)
    (hp : ¬p.names <+: at') (hnone : t.node? at' = none) : t'.node? at' = none := by
  obtain ⟨⟨-, rfl⟩ | ⟨-, hrenamed⟩, -⟩ := Tree.rename_directory h hd
  · exact hnone
  by_cases hs : s.names <+: at'
  · exact hrenamed.gone at' hs hp
  · rw [hrenamed.outside at' hs hp, hnone]

theorem node?_makeScratch {root : Path} (h : makeScratch root t = (.ok scratch, made))
    (hat : (t.node? at').isSome) : ¬scratch.names <+: at' ∧ made.node? at' = t.node? at' := by
  obtain ⟨n, -, hmade⟩ := makeScratch_ok h
  obtain ⟨hnone, hnode, -⟩ := Tree.makeDirectory_ok hmade
  have hscratch : ¬scratch.names <+: at' := by
    intro hp
    have hgone : t.node? at' = none := by
      by_cases he : scratch.names = at'
      · rw [← he, hnone]
      · exact Tree.node?_eq_none (by rw [hnone]; exact nofun) hp he
    rw [hgone] at hat
    cases hat
  refine ⟨hscratch, (hnode at').trans (if_neg ?_)⟩
  rintro rfl
  exact hscratch List.prefix_rfl

end Files

namespace Build.SupportLibrary

variable {fetched : Tree} {library : Config.Library} {result : Except Failure Unit} {tools : Toolchain}
  {w : Workshop}

/-- The library was nowhere to be found, and the tools have fetched it into a scratch directory. -/
structure CheckedOut (tools : Toolchain) (l : Layout) (library : Config.Library) (t : Tree)
    (scratch : Path) (fetched : Tree) : Prop where
  missing : Missing l t
  fetch : ∃ made, Files.makeScratch l.workingRoot t = (.ok scratch, made) ∧
    tools.fetch l library (scratch.join checkoutName) made = (.ok (), fetched)

/-- What is not wanted of a checkout leads to a place, or to a directory above it. -/
def Pruned (tools : Toolchain) (l : Layout) (library : Config.Library) (t : Tree) (at' : Location) :
    Prop :=
  ∃ scratch fetched, CheckedOut tools l library t scratch fetched ∧
    Prunes (scratch.join checkoutName) at' library.prune fetched

/-- A place lies in the library that an interrupted build has left. -/
def InStray (l : Layout) (t : Tree) (at' : Location) : Prop :=
  t.isDirectory l.cachePath = false ∧
    ∃ stray, l.strayPath = some stray ∧ t.isDirectory stray ∧ stray.names <+: at'

theorem InStray.not_cached (h : InStray l t at') : ¬t.isDirectory l.cachePath :=
  Bool.eq_false_iff.1 h.1

theorem Missing.not_inStray (h : Missing l t) : ¬InStray l t at' :=
  fun ⟨_, _, hp, hd, _⟩ => h.not_left hp hd

/-- A place lies in what is taken for the library of a checkout. -/
def InLibrary (tools : Toolchain) (l : Layout) (library : Config.Library) (t : Tree) (at' : Location) :
    Prop :=
  ∃ scratch fetched, CheckedOut tools l library t scratch fetched ∧
    ((scratch.join checkoutName).join library.directory).names <+: at'

theorem Obtains.node?_of_pruned (h : Obtains tools l library scratch t result t')
    (hfetch : tools.fetch l library (scratch.join checkoutName) t = (.ok (), fetched))
    (hprunes : Prunes (scratch.join checkoutName) at' library.prune fetched)
    (hcache : ¬l.cachePath.names <+: at') : t'.node? at' = none := by
  have hgone := (Files.node?_prune _ library.prune fetched at').1 hprunes
  cases h with
  | unfetched hfetch' => cases hfetch.symm.trans hfetch'
  | unpruned hfetch' hprune | absent hfetch' hprune | unmoved hfetch' hprune =>
    cases hfetch.symm.trans hfetch'
    rwa [hprune] at hgone
  | moved hfetch' hprune hfound hmoved =>
    cases hfetch.symm.trans hfetch'
    rw [hprune] at hgone
    exact Files.rename_none hmoved (Tree.isDirectory_iff.1 hfound).2 hcache hgone

theorem Obtains.node?_of_kept (h : Obtains tools l library scratch t result t')
    (ht : tools.FetchesBelow) (hat : (t.node? at').isSome)
    (hcheckout : ¬(scratch.join checkoutName).names <+: at')
    (hkept : ∀ fetched, tools.fetch l library (scratch.join checkoutName) t = (.ok (), fetched) →
      ¬Prunes (scratch.join checkoutName) at' library.prune fetched ∧
        ¬((scratch.join checkoutName).join library.directory).names <+: at') :
    t'.node? at' = t.node? at' := by
  have hfetched := ht l library (scratch.join checkoutName) t at' hcheckout
  cases h with
  | unfetched hfetch => rwa [hfetch] at hfetched
  | unpruned hfetch hprune | absent hfetch hprune | unmoved hfetch hprune =>
    have hpruned := (Files.node?_prune _ _ _ at').2 (hkept _ hfetch).1
    rw [hfetch] at hfetched
    rw [hprune] at hpruned
    exact hpruned.trans hfetched
  | moved hfetch hprune hfound hmoved =>
    have hpruned := (Files.node?_prune _ _ _ at').2 (hkept _ hfetch).1
    rw [hfetch] at hfetched
    rw [hprune] at hpruned
    have hsame := hpruned.trans hfetched
    rw [← hsame] at hat
    exact (Tree.rename_keeps hmoved (Tree.isDirectory_iff.1 hfound).2 (hkept _ hfetch).2 hat).trans hsame

theorem CheckedOut.outside (h : CheckedOut tools l library t scratch fetched)
    (hat : (t.node? at').isSome) : ¬(scratch.join checkoutName).names <+: at' := by
  obtain ⟨made, hmade, -⟩ := h.fetch
  intro hp
  rw [names_join (by decide)] at hp
  exact (Files.node?_makeScratch hmade hat).1 ((List.prefix_append _ _).trans hp)

theorem node?_of_pruned (hat : (w.files.node? at').isSome)
    (hpruned : Pruned tools l library w.files at') (hcache : ¬l.cachePath.names <+: at') :
    (ensure tools l library w).2.files.node? at' = none := by
  obtain ⟨scratch, fetched, ⟨hmissing, made, hmade, hfetch⟩, hprunes⟩ := hpruned
  rcases ensure_missing_cases tools library hmissing with
    ⟨e, hfailed, -⟩ | ⟨scratch, made, result, t', hmade', hobtains, hensure⟩
  · cases hmade.symm.trans hfailed
  · cases hmade.symm.trans hmade'
    rw [hensure]
    refine (Files.sameOutside_removePath scratch t' at' (Files.node?_makeScratch hmade hat).1).trans ?_
    exact hobtains.node?_of_pruned hfetch hprunes hcache

theorem node?_of_kept (ht : tools.FetchesBelow) (hat : (w.files.node? at').isSome)
    (hpruned : ¬Pruned tools l library w.files at') (hstray : ¬InStray l w.files at')
    (hlibrary : ¬InLibrary tools l library w.files at') :
    (ensure tools l library w).2.files.node? at' = w.files.node? at' := by
  rcases cached_or_strayed_or_missing l w.files with hcached | ⟨habsent, stray, hp, hd⟩ | hmissing
  · rw [ensure_of_cached hcached]
  · rw [ensure_of_stray habsent hp hd, Work.onFiles_eq, Files.rename, Files.Action.change]
    cases hmoved : w.files.rename stray l.cachePath with
    | error e => rfl
    | ok t' =>
      refine Tree.rename_keeps hmoved (Tree.isDirectory_iff.1 hd).2 (fun hinside => ?_) hat
      exact hstray ⟨habsent, stray, hp, hd, hinside⟩
  · rcases ensure_missing_cases tools library hmissing with
      ⟨e, -, hfailed⟩ | ⟨scratch, made, result, t', hmade, hobtains, hensure⟩
    · rw [hfailed]
    · obtain ⟨hscratch, hsame⟩ := Files.node?_makeScratch hmade hat
      rw [hensure]
      refine (Files.sameOutside_removePath scratch t' at' hscratch).trans (Eq.trans ?_ hsame)
      refine hobtains.node?_of_kept ht (hsame ▸ hat) (fun hp => hscratch ?_) fun fetched hfetch => ?_
      · rw [names_join (by decide)] at hp
        exact (List.prefix_append _ _).trans hp
      · have hchecked : CheckedOut tools l library w.files scratch fetched :=
          ⟨hmissing, made, hmade, hfetch⟩
        exact ⟨fun hprunes => hpruned ⟨_, _, hchecked, hprunes⟩,
          fun hinside => hlibrary ⟨_, _, hchecked, hinside⟩⟩

/-- Whatever is configured, and whether the library can be prepared or not: of what was there before, it is
exactly what the unwanted paths lead to from the checkout that is deleted; all else stays, unless it lies in
a stray library or in what is taken for the library. Paths that stay inside the checkout delete nothing that
was there before, and a library that is named inside the checkout was not there before either. -/
theorem ensure_prunes (ht : tools.FetchesBelow) (hat : (w.files.node? at').isSome) :
    (¬Pruned tools l library w.files at' → ¬InStray l w.files at' →
        ¬InLibrary tools l library w.files at' →
        (ensure tools l library w).2.files.node? at' = w.files.node? at') ∧
      (Pruned tools l library w.files at' → ¬l.cachePath.names <+: at' →
        (ensure tools l library w).2.files.node? at' = none) ∧
      ((∀ text ∈ library.prune, staysInside text) → ¬Pruned tools l library w.files at') ∧
      (staysInside library.directory → ¬InLibrary tools l library w.files at') := by
  refine ⟨node?_of_kept ht hat, node?_of_pruned hat, ?_, ?_⟩
  · rintro hn ⟨scratch, fetched, hchecked, hprunes⟩
    exact hchecked.outside hat (hprunes.inside hn)
  · rintro hn ⟨scratch, fetched, hchecked, hinside⟩
    exact hchecked.outside hat ((Files.prefix_names_join hn _).trans hinside)

def demoLayout : Layout where
  workingRoot := ⟨"./"⟩
  pluginRoot := ⟨"./Demo"⟩
  cachePath := ⟨"./org"⟩
  strayPath := some ⟨"./Demo/org"⟩

/-- A note that has nothing to do with the library. -/
def noted : Workshop :=
  .ofFiles (Tree.empty.put ["notes.txt".toList] (.file (Text.toUtf8 "keep")))

theorem not_inStray_noted (at' : Location) : ¬InStray demoLayout noted.files at' := by
  rintro ⟨-, stray, hp, hd, -⟩
  cases hp
  exact absurd hd (by decide +kernel)

theorem ensure_prunes_noted :
    (ensure Assembly.confinedTools demoLayout Config.bare.library noted).1.isOk ∧
      (ensure Assembly.confinedTools demoLayout Config.bare.library noted).2.files.node?
        ["notes.txt".toList] = some (.file (Text.toUtf8 "keep")) := by
  have hnode : noted.files.node? ["notes.txt".toList] = some (.file (Text.toUtf8 "keep")) := rfl
  have hplain : ∀ text ∈ Config.bare.library.prune, staysInside text := by decide
  have hdirectory : staysInside Config.bare.library.directory := by decide
  obtain ⟨hkept, -, hinside, hlibrary⟩ :=
    ensure_prunes Assembly.confinedTools_fetchesBelow (Option.isSome_of_eq_some hnode)
  refine ⟨by decide +kernel, Eq.trans ?_ hnode⟩
  exact hkept (hinside hplain) (not_inStray_noted _) (hlibrary hdirectory)

/-- A library of whose checkout the note beside the scratch directory is not wanted. -/
def escaping : Config.Library :=
  { Config.bare.library with prune := ["../../notes.txt".toList] }

/-- Pruning a checkout can delete what is not in it. -/
theorem ensure_prunes_outside :
    Layout.ofDetails escaping (.ofName "Demo") = .ok demoLayout ∧
      Assembly.confinedTools.FetchesBelow ∧
      noted.files.node? ["notes.txt".toList] = some (.file (Text.toUtf8 "keep")) ∧
      (ensure Assembly.confinedTools demoLayout escaping noted).1.isOk ∧
      (ensure Assembly.confinedTools demoLayout escaping noted).2.files.node?
        ["notes.txt".toList] = none := by
  refine ⟨rfl, Assembly.confinedTools_fetchesBelow, rfl, by decide +kernel, ?_⟩
  exact Option.isNone_iff_eq_none.1 (by decide +kernel)

end Build.SupportLibrary

end PluginForge
