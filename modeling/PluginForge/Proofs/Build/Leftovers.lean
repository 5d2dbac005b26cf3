import PluginForge.Proofs.Build.TwoRuns

namespace PluginForge.Build

open Files (Location Node OnWay Path Tree)

variable {artifact₁ artifact₂ : Artifact} {at' : Location} {config : Config} {d : Details}
  {plugin plugin₀ : Plugin} {t t' t₁ t₂ : Tree} {tools : Toolchain} {w₁ w₁' w₂ w₂' : Workshop}
  {write : Archive.Writer}

namespace Assembly

/-- What earlier builds have left in a project does not come into the archive, unless it lies in one of
the directories that are packed, is no source of the package and is not made anew by the build: where two
states of the files are the same outside the project and at such places, the commands of a plugin are
registered and its build succeeds, a reader finds the same entries in both archives. -/
theorem run_leftovers {commands : List Command} {plugin₁ plugin₂ : Plugin} {read : Archive.Reader}
    (hread : Archive.Understands read write) (hbegun : Plugin.ofDetails d = .ok plugin₀)
    (hregistered₁ : commands.forM Project.register ⟨plugin₀, t₁⟩ = (.ok (), ⟨plugin₁, w₁.files⟩))
    (hregistered₂ : commands.forM Project.register ⟨plugin₀, t₂⟩ = (.ok (), ⟨plugin₂, w₂.files⟩))
    (hlib : config.library.IsPlain) (hfetch : tools.FetchesAside)
    (hcompile : tools.CompilesSources plugin₁) (hsame : t₁.SameOutside d.root.names t₂)
    (hleft : LeftAlike plugin₁ t₁ t₂)
    (hrun₁ : run write tools config plugin₁ w₁ = (.ok artifact₁, w₁'))
    (hrun₂ : run write tools config plugin₂ w₂ = (.ok artifact₂, w₂')) :
    ∃ content₁ content₂ entries,
      w₁'.files.file? (d.path.join d.archiveName).names = some content₁ ∧
      w₂'.files.file? (d.path.join d.archiveName).names = some content₂ ∧
      read content₁ = some entries ∧ read content₂ = some entries := by
  have hplugin₂ : plugin₁ = plugin₂ := Project.forM_register_plugin hregistered₁ hregistered₂
  subst hplugin₂
  have htakes₁ := Project.takes_forM hregistered₁
  have htakes₂ := Project.takes_forM hregistered₂
  have hdetails : plugin₁.details = d :=
    htakes₁.details.trans (Project.listsCommands_begun hbegun t₁).1
  subst hdetails
  have hplugin := (htakes₁.registered (.begun hbegun)).consistent
  have ht := hcompile.keepsOutside hfetch hplugin
  obtain ⟨l, s₁, h₁⟩ := run_passed hrun₁
  obtain ⟨l', s₂, h₂⟩ := run_passed hrun₂
  have hl := Except.ok.inj (h₁.layout.symm.trans h₂.layout)
  subst hl
  obtain ⟨_, _, hdistinct₁, _⟩ := h₁.archive_entries hplugin.named
  obtain ⟨_, _, hdistinct₂, _⟩ := h₂.archive_entries hplugin.named
  refine ⟨_, _, s₁.archive.entries, h₁.cleaned_archive hplugin.named, h₂.cleaned_archive hplugin.named,
    hread.read_finish hdistinct₁ h₁.finished, ?_⟩
  rw [hread.read_finish hdistinct₂ h₂.finished]
  congr 1
  apply Eq.symm
  apply Stages.Passed.entries_congr h₁ h₂ hplugin hlib ht
    (htakes₁.listed (Project.listsCommands_begun hbegun t₁).2)
    (htakes₂.listed (Project.listsCommands_begun hbegun t₂).2)
  intro at' hpacked
  apply Stages.Passed.compiled_sameAt h₁ h₂ hplugin hcompile
  intro hclass
  apply Stages.Passed.written_sameAt h₁ h₂ hplugin hpacked
  intro hsource hmeta hmanifest
  apply Stages.Passed.prepared_sameAt h₁ h₂ hplugin hlib ht hpacked hmeta
  · exact Stages.Passed.staged_cache h₁ h₂ hplugin hlib htakes₁ htakes₂ hsame
  · apply Stages.Passed.staged_sameAt h₁ h₂ htakes₁ htakes₂ (hpacked.ne_manifest hplugin.package)
    intro hway
    apply hleft at' hpacked
    intro hrebuilt
    cases hrebuilt with
    | way h => exact hway h
    | directory => exact hmeta rfl
    | buildManifest => exact hmanifest rfl
    | source h => exact hsource h
    | compiled h => exact hclass h

/-- The files after the command of the greeting has been registered among some files. -/
def greeted (t : Tree) : Tree :=
  ([hello].forM Project.register ⟨demo.plugin, t⟩).2.files

theorem forM_register_greeting (h : ([hello].forM Project.register ⟨demo.plugin, t⟩).1.isOk) :
    [hello].forM Project.register ⟨demo.plugin, t⟩ = (.ok (), ⟨greeting.plugin, greeted t⟩) := by
  have hgreeting : (Project.register hello ⟨demo.plugin, .empty⟩).1.isOk := by decide +kernel
  obtain ⟨_, hresult⟩ := exists_ok_of_isOk h
  obtain ⟨_, hresult'⟩ := exists_ok_of_isOk hgreeting
  have hregistered : [hello].forM Project.register ⟨demo.plugin, t⟩ = (.ok (), _) :=
    Prod.ext hresult rfl
  have hregistered' : Project.register hello ⟨demo.plugin, .empty⟩ = (.ok (), greeting) :=
    Prod.ext hresult' rfl
  have honce : [hello].forM Project.register ⟨demo.plugin, .empty⟩ = (.ok (), greeting) :=
    bind_eq_ok.2 ⟨(), greeting, hregistered', rfl⟩
  rw [hregistered, ← Project.forM_register_plugin hregistered honce]
  rfl

theorem details_greeting : greeting.plugin.details = .ofName "Demo" := by decide +kernel

theorem names_root_greeting : greeting.plugin.details.root.names = ["Demo".toList] := by
  rw [details_greeting]
  decide +kernel

def greetingClasses : List Path :=
  let d := Details.ofName "Demo"
  [d.commandsDirectory.join "hello.class", d.packageDirectory.join "Plugin.class"]

/-- Tools that fetch a library of one class, and compile the greeting to a class beside each source. -/
def besideTools : Toolchain where
  fetch _ _ destination := (Files.Action.change (checkOut destination)).adapt .files
  compile _ _ := (greetingClasses.forM fun p => Files.write p ⟨#[0xCA, 0xFE, 0xBA, 0xBE]⟩).adapt .files

theorem besideTools_fetchesAside : besideTools.FetchesAside := by
  intro l library destination t t' h
  exact checkOut_sameOutside (Files.change_ok (adapt_ok h))

theorem besideTools_compilesSources : besideTools.CompilesSources greeting.plugin := by
  have hplaces : classPlaces greeting.plugin = greetingClasses.map Path.names := by decide +kernel
  refine ⟨fun _ _ => ⟨#[0xCA, 0xFE, 0xBA, 0xBE]⟩, fun l t t' h at' => ?_⟩
  rw [hplaces]
  replace h := adapt_ok h
  generalize greetingClasses = paths at h ⊢
  induction paths generalizing t with
  | nil =>
    cases h
    rfl
  | cons p paths ih =>
    rw [List.forM] at h
    obtain ⟨_, between, hfirst, hrest⟩ := bind_eq_ok.1 h
    have hwritten := Tree.write_written (Files.write_ok hfirst)
    rw [ih between hrest, hwritten.node, List.map_cons]
    simp only [List.mem_cons]
    by_cases hp : at' = p.names <;> by_cases hrest : at' ∈ paths.map Path.names <;> simp [hp, hrest]

/-- What is put into a project does not matter at places that are not packed or made anew, and neither
does a source. -/
theorem LeftAlike.put {place : Location} {node : Node} (h : LeftAlike plugin t t')
    (hplace : ¬plugin.details.IsPacked place ∨ Rebuilt plugin place ∨
      plugin.details.SameAt place t' (t'.put place node)) :
    LeftAlike plugin t (t'.put place node) := by
  intro at' hpacked hrebuilt
  apply (h at' hpacked hrebuilt).trans
  by_cases he : at' = place
  · subst he
    exact (hplace.resolve_left (not_not_intro hpacked)).resolve_left hrebuilt
  · exact Details.SameAt.of_node (Tree.node?_put_of_ne t' node he).symm

theorem sameOutside_put {place : Location} (h : t.SameOutside at' t') (hp : at' <+: place)
    (node : Node) : t.SameOutside at' (t'.put place node) := by
  apply h.trans
  intro other hother
  apply Tree.node?_put_of_ne
  rintro rfl
  exact hother hp

theorem leftAlike_greeting {place : Location} {node : Node} (h : LeftAlike greeting.plugin t t')
    (hplace : ¬(Details.ofName "Demo").IsPacked place) :
    LeftAlike greeting.plugin t (t'.put place node) := by
  rw [← details_greeting] at hplace
  exact LeftAlike.put h (.inl hplace)

/-- What an interrupted build may have left: a source of a class that is not written any more, and a file
beside what is packed. -/
def staleFiles : Tree :=
  (((Tree.empty.put ["Demo"] .directory).put ["Demo", "com"] .directory).put
    ["Demo", "com", "Old.java"] (.file ⟨#[]⟩)).put ["Demo", "notes"] (.file ⟨#[]⟩)

def archived? (w : Workshop) : Option (List Archive.Entry) :=
  (w.files.file? ["Demo.jar".toList]).bind Archive.Zip.read

theorem names_archivePath_greeting :
    ((Details.ofName "Demo").path.join (Details.ofName "Demo").archiveName).names =
      ["Demo.jar".toList] := by
  decide +kernel

theorem archived?_eq {content : ByteArray} {d : Details} (hd : d = .ofName "Demo")
    (h : w₁.files.file? (d.path.join d.archiveName).names = some content) :
    archived? w₁ = Archive.Zip.read content := by
  subst hd
  rw [names_archivePath_greeting] at h
  rw [archived?, h, Option.bind_some]

/-- The names in the archive of the greeting, if it can be registered and built. -/
def greetingNames? (tools : Toolchain) (config : Config) (t : Tree) : Option (List Text) :=
  if ([hello].forM Project.register ⟨demo.plugin, t⟩).1.isOk then
    (packNames tools config greeting.plugin (.ofFiles (greeted t))).1.toOption
  else none

theorem built_of_greetingNames? {names : List Text} (h : greetingNames? tools config t = some names) :
    [hello].forM Project.register ⟨demo.plugin, t⟩ = (.ok (), ⟨greeting.plugin, greeted t⟩) ∧
      ∃ artifact w entries,
        run Archive.Zip.write tools config greeting.plugin (.ofFiles (greeted t)) = (.ok artifact, w) ∧
        archived? w = some entries ∧ entries.map Archive.Entry.name = names := by
  rw [greetingNames?] at h
  split at h
  · next hregistered =>
    obtain ⟨artifact, w, content, entries, hrun, hfile, hread, hnames⟩ :=
      run_of_packNames Archive.Zip.understands reachable_greeting.named h
    exact ⟨forM_register_greeting hregistered, artifact, w, entries, hrun,
      (archived?_eq details_greeting hfile).trans hread, hnames⟩
  · cases h

def plainNames : List Text :=
  ["META-INF/", "META-INF/MANIFEST.MF", "plugin.yml", "com/", "com/Demo/", "com/Demo/Plugin.class",
    "com/Demo/commands/", "com/Demo/commands/hello.class"]

theorem greetingNames?_empty : greetingNames? besideTools storing .empty = some plainNames := by
  decide +kernel

theorem run_leftovers_greeting :
    ∃ artifact₁ artifact₂ w₁ w₂ entries,
      run Archive.Zip.write besideTools storing greeting.plugin (.ofFiles (greeted .empty)) =
        (.ok artifact₁, w₁) ∧
      run Archive.Zip.write besideTools storing greeting.plugin (.ofFiles (greeted staleFiles)) =
        (.ok artifact₂, w₂) ∧
      archived? w₁ = some entries ∧ archived? w₂ = some entries := by
  have hstale : greetingNames? besideTools storing staleFiles = some plainNames := by decide +kernel
  obtain ⟨hregistered₁, artifact₁, w₁, _, hrun₁, -⟩ := built_of_greetingNames? greetingNames?_empty
  obtain ⟨hregistered₂, artifact₂, w₂, _, hrun₂, -⟩ := built_of_greetingNames? hstale
  have hsame : Tree.SameOutside (Details.ofName "Demo").root.names .empty staleFiles := by
    rw [← details_greeting, names_root_greeting]
    apply sameOutside_put _ (by decide)
    apply sameOutside_put _ (by decide)
    apply sameOutside_put _ (by decide)
    exact sameOutside_put (.refl _ _) (by decide) _
  have hpackage : OnWay greeting.plugin.details.commandsDirectory ["Demo".toList, "com".toList] := by
    rw [details_greeting]
    exact ⟨_, List.take_prefix 3 _, by decide +kernel⟩
  have hleft : LeftAlike greeting.plugin .empty staleFiles := by
    apply leftAlike_greeting _ (by decide +kernel)
    apply LeftAlike.put _ (.inr (.inr ?_))
    · apply LeftAlike.put _ (.inr (.inl (.way hpackage)))
      apply leftAlike_greeting _ (by decide +kernel)
      exact fun _ _ _ => rfl
    · have hnone {a b : Option Node} (ha : a.isNone) (hb : b.isNone) : a = b := by
        rw [Option.isNone_iff_eq_none.1 ha, Option.isNone_iff_eq_none.1 hb]
      rw [details_greeting]
      exact hnone (by decide +kernel) (by decide +kernel)
  obtain ⟨content₁, content₂, entries, hfile₁, hfile₂, hread₁, hread₂⟩ :=
    run_leftovers Archive.Zip.understands begun_demo hregistered₁ hregistered₂ isPlain_storing
      besideTools_fetchesAside besideTools_compilesSources hsame hleft hrun₁ hrun₂
  exact ⟨artifact₁, artifact₂, w₁, w₂, entries, hrun₁, hrun₂,
    (archived?_eq rfl hfile₁).trans hread₁, (archived?_eq rfl hfile₂).trans hread₂⟩

/-- The archive of the greeting shows which of two states of the files it was built from, though they are
the same outside the project. -/
structure TellsApart (tools : Toolchain) (config : Config) (t₁ t₂ : Tree) : Prop where
  compiles : tools.CompilesSources greeting.plugin
  same : t₁.SameOutside greeting.plugin.details.root.names t₂
  registered₁ : [hello].forM Project.register ⟨demo.plugin, t₁⟩ =
    (.ok (), ⟨greeting.plugin, greeted t₁⟩)
  registered₂ : [hello].forM Project.register ⟨demo.plugin, t₂⟩ =
    (.ok (), ⟨greeting.plugin, greeted t₂⟩)
  built : ∃ artifact₁ artifact₂ w₁ w₂ entries₁ entries₂,
    run Archive.Zip.write tools config greeting.plugin (.ofFiles (greeted t₁)) = (.ok artifact₁, w₁) ∧
    run Archive.Zip.write tools config greeting.plugin (.ofFiles (greeted t₂)) = (.ok artifact₂, w₂) ∧
    archived? w₁ = some entries₁ ∧ archived? w₂ = some entries₂ ∧ entries₁ ≠ entries₂

theorem tellsApart_of_names {names₁ names₂ : List Text} (hcompile : tools.CompilesSources greeting.plugin)
    (hsame : t₁.SameOutside greeting.plugin.details.root.names t₂)
    (h₁ : greetingNames? tools config t₁ = some names₁)
    (h₂ : greetingNames? tools config t₂ = some names₂) (hne : names₁ ≠ names₂) :
    TellsApart tools config t₁ t₂ := by
  obtain ⟨hregistered₁, artifact₁, w₁, entries₁, hrun₁, hread₁, hnames₁⟩ := built_of_greetingNames? h₁
  obtain ⟨hregistered₂, artifact₂, w₂, entries₂, hrun₂, hread₂, hnames₂⟩ := built_of_greetingNames? h₂
  refine ⟨hcompile, hsame, hregistered₁, hregistered₂, artifact₁, artifact₂, w₁, w₂, entries₁,
    entries₂, hrun₁, hrun₂, hread₁, hread₂, fun he => hne ?_⟩
  rw [← hnames₁, ← hnames₂, he]

/-- A project in whose package a file stands that no build has written. -/
def oldClass : Tree :=
  ((Tree.empty.put ["Demo"] .directory).put ["Demo", "com"] .directory).put
    ["Demo", "com", "old.class"] (.file ⟨#[]⟩)

/-- Settings by which something is deleted of a checkout that lies in the project, on a way through a
directory of the project. -/
def pruningConfig : Config :=
  { storing with
    library := { storing.library with prune := ["../../Demo/notes/../com/old.class"] } }

/-- Settings by which the library has its place in a directory that is packed. -/
def packedConfig : Config :=
  { storing with library := { storing.library with directory := "Demo/com/lib" } }

def strayLibrary : Tree :=
  (((Tree.empty.put ["Demo"] .directory).put ["Demo", "Demo"] .directory).put
    ["Demo", "Demo", "com"] .directory).put ["Demo", "Demo", "com", "lib"] .directory

/-- Tools that leave a note in the package when they fetch, if there are notes in the project. -/
def notingTools : Toolchain where
  fetch l library destination := do
    besideTools.fetch l library destination
    if (← get).exists? ⟨"Demo/notes"⟩ then (Files.write ⟨"Demo/com/note"⟩ ⟨#[]⟩).adapt .files
  compile := besideTools.compile

/-- A file of the package that no build has written is packed. Where only what is not packed differs, the
archives can differ as well if a library is deleted, placed or fetched beyond its own directory. -/
theorem run_packs_leftovers :
    TellsApart besideTools storing .empty oldClass ∧
      (∃ t₁ t₂, LeftAlike greeting.plugin t₁ t₂ ∧ TellsApart besideTools pruningConfig t₁ t₂) ∧
      (∃ t₁ t₂, LeftAlike greeting.plugin t₁ t₂ ∧ TellsApart besideTools packedConfig t₁ t₂) ∧
      ∃ t₁ t₂, LeftAlike greeting.plugin t₁ t₂ ∧ TellsApart notingTools storing t₁ t₂ := by
  have halike {t : Tree} {place : Location} {node : Node}
      (hplace : ¬(Details.ofName "Demo").IsPacked place) :
      LeftAlike greeting.plugin t (t.put place node) := leftAlike_greeting (fun _ _ _ => rfl) hplace
  have hsame {t : Tree} {place : Location} {node : Node} (hplace : ["Demo".toList] <+: place) :
      t.SameOutside greeting.plugin.details.root.names (t.put place node) := by
    rw [names_root_greeting]
    exact sameOutside_put (.refl _ _) hplace node
  refine ⟨?_, ⟨oldClass, oldClass.put ["Demo", "notes"] .directory, halike (by decide +kernel), ?_⟩,
    ⟨strayLibrary, strayLibrary.put ["Demo", "Demo", "com", "lib", "a.class"] (.file ⟨#[]⟩),
      halike (by decide +kernel), ?_⟩,
    ⟨oldClass, oldClass.put ["Demo", "notes"] .directory, halike (by decide +kernel), ?_⟩⟩
  · have hold : greetingNames? besideTools storing oldClass =
        some (plainNames ++ ["com/old.class".toList]) := by decide +kernel
    have hclass : Tree.SameOutside greeting.plugin.details.root.names .empty oldClass := by
      rw [names_root_greeting]
      apply sameOutside_put _ (by decide)
      apply sameOutside_put _ (by decide)
      exact sameOutside_put (.refl _ _) (by decide) _
    exact tellsApart_of_names besideTools_compilesSources hclass greetingNames?_empty hold (by decide)
  · have hkept : greetingNames? besideTools pruningConfig oldClass =
        some (plainNames ++ ["com/old.class".toList]) := by decide +kernel
    have hdeleted : greetingNames? besideTools pruningConfig
        (oldClass.put ["Demo", "notes"] .directory) = some plainNames := by decide +kernel
    exact tellsApart_of_names besideTools_compilesSources (hsame (by decide)) hkept hdeleted
      (by decide)
  · have hempty : greetingNames? besideTools packedConfig strayLibrary =
        some (plainNames ++ ["com/lib/".toList]) := by decide +kernel
    have hfilled : greetingNames? besideTools packedConfig
        (strayLibrary.put ["Demo", "Demo", "com", "lib", "a.class"] (.file ⟨#[]⟩)) =
          some (plainNames ++ ["com/lib/".toList, "com/lib/a.class"]) := by decide +kernel
    exact tellsApart_of_names besideTools_compilesSources (hsame (by decide)) hempty hfilled
      (by decide)
  · have hunnoted : greetingNames? notingTools storing oldClass =
        some (plainNames ++ ["com/old.class".toList]) := by decide +kernel
    have hnoted : greetingNames? notingTools storing (oldClass.put ["Demo", "notes"] .directory) =
        some (plainNames ++ ["com/note".toList, "com/old.class"]) := by decide +kernel
    exact tellsApart_of_names besideTools_compilesSources (hsame (by decide)) hunnoted hnoted
      (by decide)

end Assembly

end PluginForge.Build
