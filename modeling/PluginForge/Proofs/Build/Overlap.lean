import PluginForge.Proofs.Build.Stages

namespace PluginForge

open Files (Location Path Tree follow isEntryName staysInside)

variable {d : Details} {library : Config.Library}

/-- One of two places is the other one, or lies below it. -/
def Files.Meets (a b : Location) : Prop :=
  a <+: b ∨ b <+: a

theorem Files.Meets.above {a b at' : Location} (h : Meets a at') (hb : b <+: at') : Meets a b := by
  rcases h with ha | ha
  · exact List.prefix_or_prefix_of_prefix ha hb
  · exact .inr (hb.trans ha)

/-- The names of the places that the directory of a library leads through, seen from where it is looked
for. -/
def Config.Library.names (library : Config.Library) : Location :=
  (Files.Path.mk library.directory).names

theorem Config.Library.names_join (h : staysInside library.directory) (p : Path) :
    (p.join library.directory).names = p.names ++ library.names := by
  rw [staysInside, Bool.and_eq_true, bne_iff_ne, Bool.not_eq_true', ← Bool.not_eq_true,
    List.contains_iff_mem] at h
  rw [Files.names_join_text, if_neg h.1, Files.follow_eq_append h.2]
  rfl

theorem Config.Library.names_of_isEntryName (h : isEntryName library.directory) :
    staysInside library.directory ∧ library.names = [library.directory] := by
  have hname := (Files.isEntryName_iff.1 h).1
  constructor
  · rw [staysInside, Bool.and_eq_true, bne_iff_ne, Files.steps_name h]
    refine ⟨Files.head?_ne_slash h, ?_⟩
    simp only [Files.isName, Bool.and_eq_true, bne_iff_ne, ne_eq] at hname
    simpa using Ne.symm hname.2
  · rw [names, Files.names_eq_follow, Files.steps_name h]
    exact Files.follow_name hname

namespace Build

variable {l : Layout} {stray : Path}

namespace Layout

/-- The library is not kept in the project, and where it is looked for, there is no directory of the
plugin's package, neither above nor below. -/
structure Apart (l : Layout) (d : Details) : Prop where
  cache : ¬d.root.names <+: l.cachePath.names
  stray : ∀ stray, l.strayPath = some stray →
    ∀ at', d.sourceRoot.names <+: at' → ¬Files.Meets stray.names at'

theorem strayPath_eq (hl : ofDetails library d = .ok l) :
    l.strayPath =
      if d.packageRoot = library.directory then none else some (d.root.join library.directory) := by
  rw [ofDetails] at hl
  split at hl
  · cases hl
  · cases hl
    rfl

theorem singleton_prefix_iff {name : Text} {names : List Text} :
    [name] <+: names ↔ names.head? = some name := by
  cases names with
  | nil => simp
  | cons first names =>
    rw [List.cons_prefix_cons, and_iff_left List.nil_prefix, List.head?_cons, Option.some_inj]
    exact eq_comm

theorem root_prefix_cache_iff (hl : ofDetails library d = .ok l) (hn : Java.isIdentifier d.name)
    (hd : staysInside library.directory) :
    d.root.names <+: l.cachePath.names ↔ library.names.head? = some d.name := by
  rw [(ofDetails_ok hl).2.2.2.1, Config.Library.names_join hd, Details.names_root hn,
    List.prefix_append_right_inj]
  exact singleton_prefix_iff

theorem stray_meets_iff (hp : Java.isQualifiedName d.package) (hd : staysInside library.directory) :
    Files.Meets (d.root.join library.directory).names d.sourceRoot.names ↔
      library.names = [] ∨ library.names.head? = some d.packageRoot := by
  rw [Files.Meets, Config.Library.names_join hd, Details.names_sourceRoot hp,
    List.prefix_append_right_inj, List.prefix_append_right_inj, singleton_prefix_iff]
  constructor
  · rintro (hshort | hhead)
    · have hcases : library.names = [] ++ [d.packageRoot] ∨ library.names <+: [] :=
        List.prefix_concat_iff.1 hshort
      rcases hcases with hsame | hnil
      · rw [hsame]
        exact .inr rfl
      · exact .inl (List.prefix_nil.1 hnil)
    · exact .inr hhead
  · rintro (hnil | hhead)
    · rw [hnil]
      exact .inl List.nil_prefix
    · exact .inr hhead

/-- What the directory of the library has to be for its places to be apart from those of the plugin. -/
theorem apart_iff (hl : ofDetails library d = .ok l) (hn : Java.isIdentifier d.name)
    (hp : Java.isQualifiedName d.package) (hd : staysInside library.directory) :
    l.Apart d ↔
      library.names.head? ≠ some d.name ∧
        (d.packageRoot = library.directory ∨
          library.names ≠ [] ∧ library.names.head? ≠ some d.packageRoot) := by
  have hstray := strayPath_eq hl
  have hmeets := (stray_meets_iff (d := d) hp hd).not
  rw [not_or] at hmeets
  constructor
  · intro h
    constructor
    · exact (root_prefix_cache_iff hl hn hd).not.1 h.cache
    · by_cases howned : d.packageRoot = library.directory
      · exact .inl howned
      · rw [if_neg howned] at hstray
        exact .inr (hmeets.1 (h.stray _ hstray _ List.prefix_rfl))
  · rintro ⟨hcache, hpackage⟩
    constructor
    · exact (root_prefix_cache_iff hl hn hd).not.2 hcache
    · intro stray hsome at' hat hmeet
      rw [hstray] at hsome
      split at hsome
      · cases hsome
      · next howned =>
        cases hsome
        exact hmeets.2 (hpackage.resolve_left howned) (hmeet.above hat)

theorem apart_of_isEntryName (hl : ofDetails library d = .ok l) (hn : Java.isIdentifier d.name)
    (hp : Java.isQualifiedName d.package) (hd : isEntryName library.directory) : l.Apart d := by
  obtain ⟨hinside, hnames⟩ := Config.Library.names_of_isEntryName hd
  apply (apart_iff hl hn hp hinside).2
  rw [hnames, List.head?_cons]
  constructor
  · intro hsame
    exact (ofDetails_ok hl).1 (Option.some.inj hsame).symm
  · by_cases howned : d.packageRoot = library.directory
    · exact .inl howned
    · refine .inr ⟨List.cons_ne_nil _ _, ?_⟩
      intro hsame
      exact howned (Option.some.inj hsame).symm

theorem Apart.restore {t t' : Tree} {at' : Location} (h : l.Apart d) (hstray : l.strayPath = some stray)
    (hd : t.isDirectory stray) (hrename : t.rename stray l.cachePath = .ok t')
    (hat : d.sourceRoot.names <+: at') (hnode : (t.node? at').isSome) :
    t'.node? at' = t.node? at' := by
  apply Tree.rename_keeps hrename (Tree.isDirectory_iff.1 hd).2 _ hnode
  intro hinside
  exact h.stray stray hstray at' hat (.inl hinside)

/-- The places of the library follow from its directory, whatever text names it: they are apart from the
project and its package if it is a name, and otherwise depending on where it leads to. Deleting the project
takes the library along exactly if that is in it, and restoring the library leaves the package alone if
they are apart. -/
theorem places_of_directory {p : Plugin} (hp : p.Reachable)
    (hl : ofDetails library p.details = .ok l) :
    l.cachePath.names = follow (if library.directory.head? = some '/' then []
      else p.details.path.names) (Files.Path.mk library.directory).steps ∧
    (∀ stray, l.strayPath = some stray →
      stray.names = follow (if library.directory.head? = some '/' then []
        else p.details.root.names) (Files.Path.mk library.directory).steps) ∧
    (isEntryName library.directory → l.Apart p.details) ∧
    (staysInside library.directory →
      (l.Apart p.details ↔
        library.names.head? ≠ some p.details.name ∧
          (p.details.packageRoot = library.directory ∨
            library.names ≠ [] ∧ library.names.head? ≠ some p.details.packageRoot))) ∧
    (∀ t : Tree, t.isDirectory l.pluginRoot → ∀ at',
      (Files.removePath l.pluginRoot t).2.node? at' =
        if p.details.root.names <+: at' then none else t.node? at') ∧
    (l.Apart p.details → ∀ stray, l.strayPath = some stray → ∀ t t' : Tree,
      t.isDirectory stray → t.rename stray l.cachePath = .ok t' → ∀ at',
        p.details.sourceRoot.names <+: at' → (t.node? at').isSome → t'.node? at' = t.node? at') := by
  have hnamed := hp.named
  obtain ⟨-, -, hroot, hcache, hstray⟩ := ofDetails_ok hl
  refine ⟨?_, ?_, apart_of_isEntryName hl hnamed.name hnamed.package,
    apart_iff hl hnamed.name hnamed.package, ?_, ?_⟩
  · rw [hcache]
    exact Files.names_join_text _ _
  · intro stray hsome
    rw [hstray stray hsome]
    exact Files.names_join_text _ _
  · intro t hd at'
    rw [hroot] at hd ⊢
    exact Files.removePath_join (isEntryName_of_isIdentifier hnamed.name) hd at'
  · intro hapart stray hsome t t' hd hrename at' hat hnode
    exact hapart.restore hsome hd hrename hat hnode

theorem places_of_directory_demo :
    ∃ l, ofDetails .default (.ofName "Demo") = .ok l ∧ l.Apart (.ofName "Demo") := by
  have hbegun : Plugin.ofDetails (.ofName "Demo") = .ok Assembly.demo.plugin := by rfl
  obtain ⟨l, hl⟩ := exists_ok_of_isOk (x := ofDetails .default (.ofName "Demo")) (by decide +kernel)
  obtain ⟨-, -, hapart, -⟩ := places_of_directory (.begun hbegun) hl
  exact ⟨l, hl, hapart (by decide)⟩

def libraryAt (directory : Text) : Config.Library :=
  { Config.Library.default with directory }

/-- A detour to the directory of the project, or of its package, passes for another name: deleting the
project takes the library along, and restoring the library takes the package away. -/
theorem places_of_directory_detour :
    Plugin.ofDetails (.ofName "Demo") = .ok Assembly.demo.plugin ∧
    (∃ l, ofDetails (libraryAt "./Demo") (.ofName "Demo") = .ok l ∧
      l.cachePath.names = (Details.ofName "Demo").root.names) ∧
    ∃ l stray, ofDetails (libraryAt "./com") (.ofName "Demo") = .ok l ∧
      l.strayPath = some stray ∧ stray.names = (Details.ofName "Demo").sourceRoot.names := by
  refine ⟨rfl, ⟨_, rfl, ?_⟩, _, _, rfl, rfl, ?_⟩
  · decide
  · decide

end Layout

end Build

end PluginForge
