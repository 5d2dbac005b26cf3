import PluginForge.Proofs.Build.Cache
import PluginForge.Proofs.Plugin.Registrations

namespace PluginForge

open Files (Location Node OnWay Path Tree isEntryName names_join prefix_siblings)

variable {at' : Location} {d : Details} {s s' t t' : Tree}

namespace Details

def buildManifestPlace (d : Details) : Location :=
  d.root.names ++ [BuildManifest.directory]

/-- A place in one of the two directories that are packed. -/
def IsPacked (d : Details) (at' : Location) : Prop :=
  d.buildManifestPlace <+: at' ∨ d.sourceRoot.names <+: at'

instance (d : Details) (at' : Location) : Decidable (d.IsPacked at') :=
  inferInstanceAs (Decidable (_ ∨ _))

def isSource (d : Details) (at' : Location) (node : Node) : Bool :=
  d.sourceRoot.names.isPrefixOf at' && Files.isFileWith sourceExtension at' node

/-- What stands at a place, other than a source. -/
def unlessSource (d : Details) (t : Tree) (at' : Location) : Option Node :=
  (t.node? at').filter fun node => !d.isSource at' node

/-- The same stands at a place in two states of the files, where sources do not count. -/
def SameAt (d : Details) (at' : Location) (t t' : Tree) : Prop :=
  d.unlessSource t at' = d.unlessSource t' at'

theorem sameAt_congr (h : s.node? at' = t.node? at') (h' : s'.node? at' = t'.node? at') :
    d.SameAt at' s s' ↔ d.SameAt at' t t' := by
  simp only [SameAt, unlessSource, h, h']

theorem SameAt.of_node (h : t.node? at' = t'.node? at') : d.SameAt at' t t' :=
  (sameAt_congr h rfl).2 rfl

theorem unlessSource_eq_node? (t : Tree) (hat : ¬d.sourceRoot.names <+: at') :
    d.unlessSource t at' = t.node? at' := by
  have hsource (node : Node) : d.isSource at' node = false := by
    rw [isSource, Bool.eq_false_iff.2 (List.isPrefixOf_iff_prefix.not.2 hat), Bool.false_and]
  simp only [unlessSource, hsource, Bool.not_false]
  cases t.node? at' <;> rfl

theorem SameAt.node? (h : d.SameAt at' t t') (hat : ¬d.sourceRoot.names <+: at') :
    t.node? at' = t'.node? at' := by
  rwa [SameAt, unlessSource_eq_node? t hat, unlessSource_eq_node? t' hat] at h

theorem not_sourceRoot_prefix_buildManifest {below : Location} (hp : Java.isQualifiedName d.package) :
    ¬d.sourceRoot.names <+: d.buildManifestPlace ++ below := by
  rw [buildManifestPlace, names_sourceRoot hp, List.append_assoc, List.singleton_append, prefix_siblings]
  exact Build.Assembly.packageRoot_ne hp

theorem IsPacked.prefix_root (h : d.IsPacked at') (hp : Java.isQualifiedName d.package) :
    d.root.names <+: at' := by
  rcases h with h | h
  · exact (List.prefix_append _ _).trans h
  · rw [names_sourceRoot hp] at h
    exact (List.prefix_append _ _).trans h

theorem IsPacked.ne_manifest (h : d.IsPacked at') (hp : Java.isQualifiedName d.package) :
    at' ≠ d.manifestPath.names := by
  rintro rfl
  rcases h with h | h
  · rw [buildManifestPlace, names_manifestPath, prefix_siblings] at h
    exact absurd h (by decide)
  · exact not_sourceRoot_prefix_manifest hp h

end Details

namespace Build

def classBeside (source : Location) : Location :=
  source.dropLast ++ source.getLast?.toList.map fun name => (Path.splitName name).1 ++ ".class".toList

theorem classBeside_concat (above : Location) (name : Text) :
    classBeside (above ++ [name]) = above ++ [(Path.splitName name).1 ++ ".class".toList] := by
  rw [classBeside, List.dropLast_concat, List.getLast?_concat]
  rfl

namespace Assembly

def sourcePlaces (plugin : Plugin) : List Location :=
  (registeredNames plugin).map (fun name => (plugin.details.commandPath name).names) ++
    [plugin.details.entryPointPath.names]

def classPlaces (plugin : Plugin) : List Location :=
  (sourcePlaces plugin).map classBeside

/-- A place that a build makes anew, whatever stood there before. -/
inductive Rebuilt (plugin : Plugin) : Location → Prop where
  | way {at' : Location} (h : OnWay plugin.details.commandsDirectory at') : Rebuilt plugin at'
  | directory : Rebuilt plugin plugin.details.buildManifestPlace
  | buildManifest : Rebuilt plugin (plugin.details.buildManifestPlace ++ [BuildManifest.fileName])
  | source {at' : Location} (h : at' ∈ sourcePlaces plugin) : Rebuilt plugin at'
  | compiled {at' : Location} (h : at' ∈ classPlaces plugin) : Rebuilt plugin at'

end Assembly

open Assembly

/-- Fetching changes nothing but its destination. -/
def Toolchain.FetchesAside (tools : Toolchain) : Prop :=
  ∀ l library destination t t', tools.fetch l library destination t = (.ok (), t') →
    t.SameOutside destination.names t'

/-- Compiling the sources of a plugin writes a class beside each of them, which depends on these sources
alone, and nothing else. -/
def Toolchain.CompilesSources (tools : Toolchain) (plugin : Plugin) : Prop :=
  ∃ content : List (Option ByteArray) → Location → ByteArray, ∀ l t t',
    tools.compile l plugin.details.entryPointPath t = (.ok (), t') → ∀ at',
      t'.node? at' =
        if at' ∈ classPlaces plugin then
          some (.file (content ((sourcePlaces plugin).map t.file?) at'))
        else t.node? at'

/-- Two states of the files hold the same wherever a build packs what it finds: at the places that are
packed and not made anew, where sources do not count. -/
def LeftAlike (plugin : Plugin) (t t' : Tree) : Prop :=
  ∀ at', plugin.details.IsPacked at' → ¬Rebuilt plugin at' → plugin.details.SameAt at' t t'

variable {artifact artifact₁ artifact₂ : Artifact} {config : Config} {dir : Text} {l : Layout}
  {plugin plugin₀ : Plugin} {root : Path} {s₁ s₂ : Stages} {t₁ t₂ : Tree} {tools : Toolchain}
  {w w' w₁ w₁' w₂ w₂' : Workshop} {write : Archive.Writer}

theorem prefix_classPlaces (hplugin : plugin.Consistent) :
    ∀ at' ∈ classPlaces plugin, plugin.details.sourceRoot.names <+: at' := by
  have hpackage := Details.prefix_sourceRoot_packageDirectory hplugin.name hplugin.package
  intro at' hat
  obtain ⟨source, hsource, rfl⟩ := List.mem_map.1 hat
  rcases List.mem_append.1 hsource with hsource | hsource
  · obtain ⟨name, hname, rfl⟩ := List.mem_map.1 hsource
    rw [Details.names_commandPath (isIdentifier_of_mem_registeredNames hplugin hname),
      classBeside_concat, Details.names_commandsDirectory, List.append_assoc]
    exact hpackage.trans (List.prefix_append _ _)
  · rw [List.mem_singleton.1 hsource, Details.names_entryPointPath, classBeside_concat]
    exact hpackage.trans (List.prefix_append _ _)

theorem Toolchain.CompilesSources.keepsOutside (ht : tools.CompilesSources plugin)
    (hfetch : tools.FetchesAside) (hplugin : plugin.Consistent) :
    tools.KeepsOutside plugin.details where
  fetch := hfetch
  compile := by
    obtain ⟨content, hcompile⟩ := ht
    intro l t t' h at' hat
    rw [hcompile l t t' h at', if_neg]
    intro hclass
    exact hat (prefix_classPlaces hplugin at' hclass)

theorem exists_sourceFile_iff (hl : l.pluginRoot = plugin.details.root) :
    (∃ entry ∈ sourceFiles plugin l, entry.1.names = at') ↔
      at' ∈ sourcePlaces plugin ∨
        at' = plugin.details.buildManifestPlace ++ [BuildManifest.fileName] := by
  have hplaces : (sourceFiles plugin l).map (fun entry => entry.1.names) =
      sourcePlaces plugin ++ [plugin.details.buildManifestPlace ++ [BuildManifest.fileName]] := by
    have hpaths := congrArg (List.map Path.names) (map_fst_sourceFiles plugin l)
    rw [List.map_map, List.map_append, List.map_map, List.map_cons, List.map_singleton,
      names_buildManifest hl] at hpaths
    rw [sourcePlaces, List.append_assoc, Details.buildManifestPlace, List.append_assoc]
    exact hpaths
  rw [← List.mem_map, hplaces, List.mem_append, List.mem_singleton]

theorem isDirectory_join (hd : isEntryName dir) (hwalk : t.walk [] root.steps = .ok root.names)
    (hroot : t.node? root.names = some .directory) :
    t.isDirectory (root.join dir) ↔
      Findable root dir ∧ t.node? (root.join dir).names = some .directory := by
  constructor
  · intro h
    obtain ⟨hcached, hfind⟩ := cached_of_isDirectory hd h
    exact ⟨hfind, hcached.there⟩
  · rintro ⟨hfind, hthere⟩
    exact hfind.isDirectory hd hwalk hroot hthere

theorem manifest_of_listsCommands (hlisted : Project.ListsCommands ⟨plugin, w.files⟩) {manifest : ByteArray}
    (hpacked : if plugin.hasManifest then
        w.files.file? plugin.details.manifestPath.names = some manifest
      else manifest = Text.toUtf8 plugin.details.header.text) :
    manifest = Text.toUtf8 (if plugin.hasManifest then Project.manifestText plugin
      else plugin.details.header.text) := by
  split at hpacked
  · next hm =>
    have hread := hlisted.manifest hm
    rw [(Tree.read_eq_ok.1 hread).2] at hpacked
    rw [if_pos hm, Option.some.inj hpacked]
  · next hm => rw [if_neg hm, hpacked]

theorem packageRoot_ne_of_strayPath {library : Config.Library}
    (hl : Layout.ofDetails library d = .ok l) (hstray : l.strayPath.isSome) :
    d.packageRoot ≠ library.directory := by
  rw [Layout.ofDetails] at hl
  split at hl
  · cases hl
  cases hl
  intro he
  simp only [if_pos he] at hstray
  cases hstray

theorem eq_of_prefix_siblings {above : Location} {a b : Text} (h : above ++ [a] <+: at')
    (h' : above ++ [b] <+: at') : a = b := by
  obtain ⟨below, rfl⟩ := h'
  rwa [List.append_assoc, List.singleton_append, prefix_siblings] at h

namespace Assembly.Stages.Passed

section OneRun

variable {s : Stages} (h : s.Passed write tools config plugin l artifact w w')

include h

theorem staged_isDirectory : s.staged.files.isDirectory plugin.details.commandsDirectory :=
  Files.ensureDirectory_ok (by decide) (Work.onFiles_ok h.staged).1

theorem staged_way (hway : OnWay plugin.details.commandsDirectory at') :
    s.staged.files.node? at' = some .directory :=
  Tree.node?_of_isDirectory (by decide) h.staged_isDirectory hway

theorem staged_origin (htakes : Project.Takes ⟨plugin₀, t⟩ ⟨plugin, w.files⟩)
    (hat : at' ≠ plugin.details.manifestPath.names)
    (hway : ¬OnWay plugin.details.commandsDirectory at') :
    s.staged.files.node? at' = t.node? at' := by
  have hdetails : plugin.details = plugin₀.details := htakes.details
  have hmade := htakes.made at'
  rw [← hdetails] at hmade
  rcases h.staged_node hat with hstaged | ⟨hway', -⟩
  · rcases hmade hat with hmade | ⟨hway', -⟩
    · exact hstaged.trans hmade
    · exact absurd (hway'.mono Details.steps_packageDirectory_isPrefixOf) hway
  · exact absurd hway' hway

variable (hplugin : plugin.Consistent) (hlib : config.library.IsPlain)

include hplugin hlib

/-- Whether the library has strayed shows in what stands at its place and where it may have been left. -/
theorem strayed_iff :
    SupportLibrary.Strayed l s.staged.files ↔
      ¬(Findable plugin.details.path config.library.directory ∧
        s.staged.files.node? l.cachePath.names = some .directory) ∧
      l.strayPath.isSome ∧ Findable plugin.details.root config.library.directory ∧
        s.staged.files.node? (plugin.details.root.join config.library.directory).names =
          some .directory := by
  obtain ⟨-, -, -, hcache, hstray⟩ := Layout.ofDetails_ok h.layout
  have hwalk := walk_of_commandsDirectory hplugin.named h.staged_isDirectory
  have hroot := walk_root_of_commandsDirectory hplugin.named h.staged_isDirectory
  rw [SupportLibrary.Strayed, hcache, ← Bool.not_eq_true,
    isDirectory_join hlib.directory hwalk.1 hwalk.2]
  apply and_congr_right
  intro _
  constructor
  · rintro ⟨stray, hsome, hd⟩
    rw [hstray stray hsome, isDirectory_join hlib.directory hroot.1 hroot.2] at hd
    exact ⟨Option.isSome_of_eq_some hsome, hd⟩
  · rintro ⟨hsome, hd⟩
    obtain ⟨stray, hsome⟩ := Option.isSome_iff_exists.1 hsome
    rw [← isDirectory_join hlib.directory hroot.1 hroot.2, ← hstray stray hsome] at hd
    exact ⟨stray, hsome, hd⟩

variable (ht : tools.KeepsOutside plugin.details)

include ht

/-- Of what is packed, preparing the library leaves all as it is that does not move out with it. -/
theorem prepared_kept (hpacked : plugin.details.IsPacked at')
    (hstays : SupportLibrary.Strayed l s.staged.files →
      ¬(plugin.details.root.join config.library.directory).names <+: at') :
    s.prepared.files.node? at' = s.staged.files.node? at' := by
  obtain ⟨below, rfl⟩ := hpacked.prefix_root hplugin.package
  have hcache : ¬l.cachePath.names <+: plugin.details.root.names ++ below :=
    Layout.not_cache_prefix_root h.layout hplugin.name hlib.directory
  obtain ⟨-, ⟨-, hsame⟩ | ⟨hstrayed, hrenamed⟩⟩ := SupportLibrary.ensure_ok hlib ht
    (isEntryName_of_isIdentifier hplugin.name) h.layout h.prepared
  · exact hsame _ hcache
  · exact hrenamed.outside _ (hstays hstrayed) hcache

theorem prepared_gone (hpacked : plugin.details.IsPacked at')
    (hstrayed : SupportLibrary.Strayed l s.staged.files)
    (hat : (plugin.details.root.join config.library.directory).names <+: at') :
    s.prepared.files.node? at' = none := by
  obtain ⟨below, rfl⟩ := hpacked.prefix_root hplugin.package
  obtain ⟨-, ⟨hnot, -⟩ | ⟨-, hrenamed⟩⟩ := SupportLibrary.ensure_ok hlib ht
    (isEntryName_of_isIdentifier hplugin.name) h.layout h.prepared
  · exact absurd hstrayed hnot
  · exact hrenamed.gone _ hat (Layout.not_cache_prefix_root h.layout hplugin.name hlib.directory)

theorem prepared_none (hpacked : plugin.details.IsPacked at')
    (hnone : s.staged.files.node? at' = none) : s.prepared.files.node? at' = none := by
  by_cases hmoves : SupportLibrary.Strayed l s.staged.files ∧
      (plugin.details.root.join config.library.directory).names <+: at'
  · exact h.prepared_gone hplugin hlib ht hpacked hmoves.1 hmoves.2
  · rw [h.prepared_kept hplugin hlib ht hpacked (not_and.1 hmoves), hnone]

omit hlib ht

theorem written_source {entry : Path × ByteArray} (hentry : entry ∈ sourceFiles plugin l) :
    s.written.files.node? entry.1.names = some (.file entry.2) := by
  have hdistinct := hplugin.distinct.sublist (registeredNames_sublist hplugin)
  have hread := writeSources_read hplugin.named hdistinct h.pluginRoot_eq h.written hentry
  exact Tree.file?_eq_some.1 (Tree.read_eq_ok.1 hread).2

theorem written_directory :
    s.written.files.node? plugin.details.buildManifestPlace = some .directory := by
  obtain ⟨entry, hentry, hplace⟩ := (exists_sourceFile_iff h.pluginRoot_eq).2 (.inr rfl)
  have hfile := h.written_source hplugin hentry
  rw [hplace] at hfile
  exact Tree.node?_of_below (Option.isSome_of_eq_some hfile) (List.cons_ne_nil _ _)

end OneRun

section TwoRuns

variable (h₁ : s₁.Passed write tools config plugin l artifact₁ w₁ w₁')
  (h₂ : s₂.Passed write tools config plugin l artifact₂ w₂ w₂')

include h₁ h₂

theorem staged_sameAt (htakes₁ : Project.Takes ⟨plugin₀, t₁⟩ ⟨plugin, w₁.files⟩)
    (htakes₂ : Project.Takes ⟨plugin₀, t₂⟩ ⟨plugin, w₂.files⟩)
    (hat : at' ≠ plugin.details.manifestPath.names)
    (horigin : ¬OnWay plugin.details.commandsDirectory at' → plugin.details.SameAt at' t₁ t₂) :
    plugin.details.SameAt at' s₁.staged.files s₂.staged.files := by
  by_cases hway : OnWay plugin.details.commandsDirectory at'
  · exact .of_node ((h₁.staged_way hway).trans (h₂.staged_way hway).symm)
  · rw [Details.sameAt_congr (h₁.staged_origin htakes₁ hat hway) (h₂.staged_origin htakes₂ hat hway)]
    exact horigin hway

variable (hplugin : plugin.Consistent) (hlib : config.library.IsPlain)

include hplugin hlib

theorem staged_cache (htakes₁ : Project.Takes ⟨plugin₀, t₁⟩ ⟨plugin, w₁.files⟩)
    (htakes₂ : Project.Takes ⟨plugin₀, t₂⟩ ⟨plugin, w₂.files⟩)
    (hsame : t₁.SameOutside plugin.details.root.names t₂) :
    s₁.staged.files.node? l.cachePath.names = s₂.staged.files.node? l.cachePath.names := by
  have hroot : ¬plugin.details.root.names <+: l.cachePath.names ++ [] :=
    Layout.not_root_prefix_cache h₁.layout hplugin.name hlib.directory
  rw [List.append_nil] at hroot
  have hmanifest : l.cachePath.names ≠ plugin.details.manifestPath.names := by
    intro he
    rw [he, Details.names_manifestPath] at hroot
    exact hroot (List.prefix_append _ _)
  have hcache := staged_sameAt h₁ h₂ htakes₁ htakes₂ hmanifest fun _ =>
    .of_node (hsame _ hroot).symm
  apply hcache.node?
  intro hsource
  rw [Details.names_sourceRoot hplugin.package] at hsource
  exact hroot ((List.prefix_append _ _).trans hsource)

variable (ht : tools.KeepsOutside plugin.details)

include ht

/-- A library that is named like the directory of the build manifest takes what is below it along in both
runs, if there is anything. -/
theorem prepared_node?_below (hmeta : plugin.details.buildManifestPlace <+: at')
    (hne : at' ≠ plugin.details.buildManifestPlace)
    (hstray : (plugin.details.root.join config.library.directory).names =
      plugin.details.buildManifestPlace)
    (hcache : s₁.staged.files.node? l.cachePath.names = s₂.staged.files.node? l.cachePath.names)
    (hstaged : s₁.staged.files.node? at' = s₂.staged.files.node? at') :
    s₁.prepared.files.node? at' = s₂.prepared.files.node? at' := by
  have hpacked : plugin.details.IsPacked at' := .inl hmeta
  have hinside := hstray ▸ hmeta
  cases hnode : s₁.staged.files.node? at' with
  | none =>
    rw [h₁.prepared_none hplugin hlib ht hpacked hnode,
      h₂.prepared_none hplugin hlib ht hpacked (hstaged.symm.trans hnode)]
  | some node =>
    have hd₁ := Tree.node?_above (Option.isSome_of_eq_some hnode) hmeta hne.symm
    have hd₂ := Tree.node?_above (Option.isSome_of_eq_some (hstaged.symm.trans hnode)) hmeta hne.symm
    have hiff : SupportLibrary.Strayed l s₁.staged.files ↔
        SupportLibrary.Strayed l s₂.staged.files := by
      rw [h₁.strayed_iff hplugin hlib, h₂.strayed_iff hplugin hlib, hcache, hstray, hd₁, hd₂]
    by_cases hstrayed : SupportLibrary.Strayed l s₁.staged.files
    · rw [h₁.prepared_gone hplugin hlib ht hpacked hstrayed hinside,
        h₂.prepared_gone hplugin hlib ht hpacked (hiff.1 hstrayed) hinside]
    · rw [h₁.prepared_kept hplugin hlib ht hpacked fun h => absurd h hstrayed,
        h₂.prepared_kept hplugin hlib ht hpacked fun h => absurd (hiff.2 h) hstrayed, hstaged]

theorem prepared_sameAt (hpacked : plugin.details.IsPacked at')
    (hne : at' ≠ plugin.details.buildManifestPlace)
    (hcache : s₁.staged.files.node? l.cachePath.names = s₂.staged.files.node? l.cachePath.names)
    (hstaged : plugin.details.SameAt at' s₁.staged.files s₂.staged.files) :
    plugin.details.SameAt at' s₁.prepared.files s₂.prepared.files := by
  have hstray : (plugin.details.root.join config.library.directory).names =
      plugin.details.root.names ++ [config.library.directory] := names_join hlib.directory
  by_cases hmoves : l.strayPath.isSome ∧
      (plugin.details.root.join config.library.directory).names <+: at'
  · obtain ⟨hsome, hinside⟩ := hmoves
    rw [hstray] at hinside
    rcases hpacked with hmeta | hsource
    · have hdirectory := eq_of_prefix_siblings hinside hmeta
      apply Details.SameAt.of_node
      apply prepared_node?_below h₁ h₂ hplugin hlib ht hmeta hne _ hcache
      · apply hstaged.node?
        obtain ⟨below, rfl⟩ := hmeta
        exact Details.not_sourceRoot_prefix_buildManifest hplugin.package
      · rw [hstray, hdirectory, Details.buildManifestPlace]
    · rw [Details.names_sourceRoot hplugin.package] at hsource
      exact absurd (eq_of_prefix_siblings hsource hinside) (packageRoot_ne_of_strayPath h₁.layout hsome)
  · have hstays {t : Tree} (hstrayed : SupportLibrary.Strayed l t) :
        ¬(plugin.details.root.join config.library.directory).names <+: at' := by
      obtain ⟨-, _, hsome, -⟩ := hstrayed
      exact not_and.1 hmoves (Option.isSome_of_eq_some hsome)
    rwa [Details.sameAt_congr (h₁.prepared_kept hplugin hlib ht hpacked hstays)
      (h₂.prepared_kept hplugin hlib ht hpacked hstays)]

omit hlib ht

/-- The sources are the same in both runs, and all else is as it was prepared. -/
theorem written_sameAt (hpacked : plugin.details.IsPacked at')
    (hprepared : at' ∉ sourcePlaces plugin → at' ≠ plugin.details.buildManifestPlace →
      at' ≠ plugin.details.buildManifestPlace ++ [BuildManifest.fileName] →
        plugin.details.SameAt at' s₁.prepared.files s₂.prepared.files) :
    plugin.details.SameAt at' s₁.written.files s₂.written.files := by
  have hroot := h₁.pluginRoot_eq
  by_cases hsource : ∃ entry ∈ sourceFiles plugin l, entry.1.names = at'
  · obtain ⟨entry, hentry, rfl⟩ := hsource
    exact .of_node ((h₁.written_source hplugin hentry).trans (h₂.written_source hplugin hentry).symm)
  by_cases hmeta : at' = plugin.details.buildManifestPlace
  · rw [hmeta]
    exact .of_node ((h₁.written_directory hplugin).trans (h₂.written_directory hplugin).symm)
  have hne : ∀ entry ∈ sourceFiles plugin l, entry.1.names ≠ at' := fun entry hentry he =>
    hsource ⟨entry, hentry, he⟩
  have hmeta' : at' ≠ (buildManifestDirectory l).names := by
    rwa [names_buildManifestDirectory hroot]
  rw [Details.sameAt_congr (writeSources_node hplugin.named hroot hne hmeta' h₁.written)
    (writeSources_node hplugin.named hroot hne hmeta' h₂.written)]
  rw [exists_sourceFile_iff hroot, not_or] at hsource
  exact hprepared hsource.1 hmeta hsource.2

/-- The classes are the same in both runs, since the sources are; all else is as it was written. -/
theorem compiled_sameAt (ht : tools.CompilesSources plugin)
    (hwritten : at' ∉ classPlaces plugin →
      plugin.details.SameAt at' s₁.written.files s₂.written.files) :
    plugin.details.SameAt at' s₁.compiled.files s₂.compiled.files := by
  obtain ⟨content, hcompile⟩ := ht
  have hnode₁ := hcompile l _ _ (Work.compile_ok h₁.compiled).1 at'
  have hnode₂ := hcompile l _ _ (Work.compile_ok h₂.compiled).1 at'
  by_cases hclass : at' ∈ classPlaces plugin
  · have hsources : (sourcePlaces plugin).map s₁.written.files.file? =
        (sourcePlaces plugin).map s₂.written.files.file? := by
      apply List.map_congr_left
      intro place hplace
      obtain ⟨entry, hentry, rfl⟩ := (exists_sourceFile_iff h₁.pluginRoot_eq).2 (.inl hplace)
      rw [Tree.file?, h₁.written_source hplugin hentry, Tree.file?,
        h₂.written_source hplugin hentry]
    rw [if_pos hclass, hsources] at hnode₁
    rw [if_pos hclass] at hnode₂
    exact .of_node (hnode₁.trans hnode₂.symm)
  · rw [if_neg hclass] at hnode₁ hnode₂
    rw [Details.sameAt_congr hnode₁ hnode₂]
    exact hwritten hclass

theorem entries_congr (hlib : config.library.IsPlain) (ht : tools.KeepsOutside plugin.details)
    (hlisted₁ : Project.ListsCommands ⟨plugin, w₁.files⟩)
    (hlisted₂ : Project.ListsCommands ⟨plugin, w₂.files⟩)
    (hcompiled : ∀ at', plugin.details.IsPacked at' →
      plugin.details.SameAt at' s₁.compiled.files s₂.compiled.files) :
    s₁.archive.entries = s₂.archive.entries := by
  obtain ⟨manifest₁, hread₁, -, hentries₁⟩ := h₁.archive_entries hplugin.named
  obtain ⟨manifest₂, hread₂, -, hentries₂⟩ := h₂.archive_entries hplugin.named
  have hmanifest₁ := manifest_of_listsCommands hlisted₁
    (h₁.packed_manifest hplugin.named hlib ht hread₁)
  have hmanifest₂ := manifest_of_listsCommands hlisted₂
    (h₂.packed_manifest hplugin.named hlib ht hread₂)
  have hmeta : s₁.compiled.files.below (buildManifestDirectory l).names =
      s₂.compiled.files.below (buildManifestDirectory l).names := by
    rw [names_buildManifestDirectory h₁.pluginRoot_eq]
    apply Tree.below_congr
    intro names
    apply (hcompiled _ (.inl (List.prefix_append _ names))).node?
    exact Details.not_sourceRoot_prefix_buildManifest hplugin.package
  have hclasses : classes plugin.details s₁.compiled.files =
      classes plugin.details s₂.compiled.files := by
    apply Tree.filter_below_congr fun names node =>
      !Files.isFileWith Details.sourceExtension (plugin.details.sourceRoot.names ++ names) node
    intro names
    have hsame := hcompiled _ (.inr (List.prefix_append plugin.details.sourceRoot.names names))
    simpa only [Details.SameAt, Details.unlessSource, Details.isSource,
      List.isPrefixOf_iff_prefix.2 (List.prefix_append plugin.details.sourceRoot.names names),
      Bool.true_and] using hsame
  rw [hentries₁, hentries₂, hmanifest₁, hmanifest₂, hmeta, hclasses]

end TwoRuns

end Assembly.Stages.Passed

end Build

end PluginForge
