import PluginForge.Proofs.Build.Keeps
import PluginForge.Proofs.Build.Result
import PluginForge.Proofs.Files.Kept

namespace PluginForge

open Files (Location OnWay Path Tree isEntryName names_join prefix_siblings)

namespace Build

variable {config : Config} {d : Details} {dir : Text} {l : Layout} {library : Config.Library}
  {plugin : Plugin} {root : Path} {t t' t₀ : Tree} {tools : Toolchain} {w w' : Workshop}
  {write : Archive.Writer}

/-- The tools keep to their places whatever comes of a call: fetching changes nothing but its destination
and the project, and compiling nothing but the project. -/
structure Toolchain.Confined (tools : Toolchain) : Prop where
  fetch : ∀ l library destination t at', ¬destination.names <+: at' → ¬l.pluginRoot.names <+: at' →
    (tools.fetch l library destination t).2.node? at' = t.node? at'
  compile : ∀ l entryPoint t,
    Tree.SameOutside l.pluginRoot.names t (tools.compile l entryPoint t).2

def Call.isFetch : Call → Bool
  | .fetch _ _ => true
  | .compile _ _ _ => false

def Workshop.fetches (w : Workshop) : List Call :=
  w.calls.filter Call.isFetch

/-- The support library is at its place, and so is all of it that the way to the root passes through. -/
structure Cached (root : Path) (dir : Text) (t : Tree) : Prop where
  there : t.node? (root.join dir).names = some .directory
  way : ∀ at', (root.join dir).names <+: at' → OnWay root at' → t.node? at' = some .directory

/-- The place of the library can be looked up where there is a root. -/
structure Findable (root : Path) (dir : Text) : Prop where
  noNul : (root.join dir).text.contains '\x00' = false
  short : Text.utf8Length dir ≤ Tree.nameLimit

theorem Cached.keep (h : Cached root dir t) (hsame : t.SameBelow (root.join dir).names t') :
    Cached root dir t' where
  there := (hsame _ List.prefix_rfl).trans h.there
  way := by
    intro at' hat hway
    rw [hsame at' hat]
    exact h.way at' hat hway

theorem Findable.isDirectory (h : Findable root dir) (hd : isEntryName dir)
    (hwalk : t.walk [] root.steps = .ok root.names) (hroot : t.node? root.names = some .directory)
    (hthere : t.node? (root.join dir).names = some .directory) : t.isDirectory (root.join dir) :=
  Tree.isDirectory_iff.2 ⟨Tree.target_join hwalk hroot hd h.short h.noNul, hthere⟩

theorem cached_of_isDirectory (hd : isEntryName dir) (h : t.isDirectory (root.join dir)) :
    Cached root dir t ∧ Findable root dir := by
  obtain ⟨htarget, hthere⟩ := Tree.isDirectory_iff.1 h
  obtain ⟨hwalk, hroot⟩ := Tree.walk_of_target_join hd htarget
  refine ⟨⟨hthere, fun _ _ hway => Tree.node?_onWay hwalk hroot hway⟩, ?_, ?_⟩
  · exact (Tree.target_eq_ok.1 htarget).1
  · have hlast := (Tree.target_eq_ok.1 htarget).2.2
    rw [Tree.stepsOf_join hd, Tree.walk_append, hwalk] at hlast
    exact Tree.length_of_walk_name hroot (Files.isEntryName_iff.1 hd).1 hlast

theorem cached_of_rename {s : Path} (hd : isEntryName dir)
    (habsent : t₀.isDirectory (root.join dir) = false)
    (hwalk : t₀.walk [] root.steps = .ok root.names) (hroot : t₀.node? root.names = some .directory)
    (hsame : t.node? (root.join dir).names = t₀.node? (root.join dir).names)
    (hs : t.node? s.names = some .directory) (hne : s.names ≠ (root.join dir).names)
    (hnul : '\x00' ∈ (root.join dir).text → '\x00' ∈ s.text)
    (h : t.rename s (root.join dir) = .ok t') : Cached root dir t' ∧ Findable root dir := by
  obtain ⟨hrenamed, hfree, at', name, hholder, -⟩ := Tree.rename_renamed h hs hne
  obtain ⟨-, -, hwalk', hroot', hshort⟩ := Files.Tree.holder_join hd hholder
  have hfind : Findable root dir := by
    refine ⟨?_, hshort⟩
    rw [← Bool.not_eq_true, List.contains_iff_mem] at hfree ⊢
    exact fun hmem => hfree (hnul hmem)
  refine ⟨⟨hrenamed.there, fun at' hat hway => ?_⟩, hfind⟩
  have hthere : t.node? (root.join dir).names = some .directory := by
    have hon := Tree.node?_onWay hwalk' hroot' hway
    by_cases he : (root.join dir).names = at'
    · rw [he]
      exact hon
    · exact Tree.node?_above (Option.isSome_of_eq_some hon) hat he
  rw [hsame] at hthere
  exact absurd (hfind.isDirectory hd hwalk hroot hthere) (Bool.eq_false_iff.1 habsent)

namespace SupportLibrary

/-- A library that is obtained has been worked out in the checkout and, where the tools want it, in the
project. -/
theorem obtain_confined {scratch : Path} (hlib : library.IsPlain) (ht : tools.Confined)
    (h : obtain tools l library scratch w = (.ok (), w')) :
    ∃ t : Tree, (∀ at', ¬(scratch.join checkoutName).names <+: at' → ¬l.pluginRoot.names <+: at' →
        t.node? at' = w.files.node? at') ∧
      t.isDirectory ((scratch.join checkoutName).join library.directory) ∧
      t.rename ((scratch.join checkoutName).join library.directory) l.cachePath = .ok w'.files := by
  obtain ⟨fetched, t, hfetched, hpruned, hmoved⟩ := obtain_steps hlib h
  refine ⟨t, fun at' hcheckout hproject => ?_, hmoved⟩
  have hkept := ht.fetch l library _ w.files at' hcheckout hproject
  rw [hfetched] at hkept
  exact (hpruned at' hcheckout).trans hkept

theorem cached_of_fetch (hlib : library.IsPlain) (ht : tools.Confined)
    (hn : Java.isIdentifier d.name) (hl : Layout.ofDetails library d = .ok l)
    (habsent : w.files.isDirectory (d.path.join library.directory) = false)
    (h : Work.withScratch l.workingRoot (obtain tools l library) w = (.ok (), w')) :
    Cached d.path library.directory w'.files ∧ Findable d.path library.directory := by
  obtain ⟨hother, hworking, hroot, hcache, -⟩ := Layout.ofDetails_ok hl
  obtain ⟨scratch, made, done, hmade, hobtain, hfiles⟩ := Work.withScratch_ok h
  rw [hworking] at hmade
  obtain ⟨n, rfl, hmade⟩ := Files.makeScratch_ok hmade
  have hname := Files.isEntryName_scratchName n
  have hplace : (d.path.join library.directory).names = d.path.names ++ [library.directory] :=
    names_join hlib.directory
  obtain ⟨t, hworked, hfound, hmoved⟩ := obtain_confined hlib ht hobtain
  rw [hcache] at hmoved
  have hd := (Tree.isDirectory_iff.1 hfound).2
  have hne : (((d.path.join (Files.scratchName n)).join checkoutName).join library.directory).names ≠
      (d.path.join library.directory).names := by
    intro he
    have hlength := congrArg List.length he
    rw [names_found hlib, hplace] at hlength
    simp at hlength
  have hkept : t.node? (d.path.join library.directory).names =
      made.files.node? (d.path.join library.directory).names := by
    rw [hplace]
    apply hworked
    · intro hp
      have hlength := hp.length_le
      rw [names_checkout] at hlength
      simp at hlength
    · rw [hroot, Details.names_root hn, prefix_siblings]
      exact hother
  have hmadeNode := (Tree.makeDirectory_ok hmade).2.1 (d.path.join library.directory).names
  rw [hplace, names_join hname, ← hplace] at hmadeNode
  have hscratch : Files.scratchName n ≠ library.directory := by
    intro he
    rw [hplace, he, if_pos rfl, ← hplace, ← hkept] at hmadeNode
    apply (Tree.rename_renamed hmoved hd hne).1.not_prefix_source hmadeNode hne
    rw [names_found hlib, hplace, he]
    exact prefix_siblings.2 rfl
  have hapart : (d.path.join library.directory).names ≠ d.path.names ++ [Files.scratchName n] := by
    rw [hplace]
    intro he
    exact hscratch (List.singleton_inj.1 (List.append_cancel_left he)).symm
  rw [if_neg hapart] at hmadeNode
  have hnul (hmem : '\x00' ∈ (d.path.join library.directory).text) :
      '\x00' ∈ (((d.path.join (Files.scratchName n)).join checkoutName).join
        library.directory).text := by
    apply Files.mem_text_join_join (by decide) hlib.directory (by decide)
    exact Files.mem_text_join_join hname hlib.directory (by decide) hmem
  obtain ⟨hwalk, hdirectory, -⟩ := Tree.target_makeDirectory_join hname hmade
  obtain ⟨hcached, hfind⟩ := cached_of_rename hlib.directory habsent hwalk hdirectory
    (hkept.trans hmadeNode) hd hne hnul hmoved
  refine ⟨hcached.keep ?_, hfind⟩
  rw [hfiles]
  apply (Files.sameOutside_removePath _ done.files).sameBelow
  intro below
  rw [names_join hname, hplace, List.append_assoc, List.singleton_append, prefix_siblings]
  exact hscratch

/-- Once the support library has been prepared, it is cached. -/
theorem cached_of_ensure (hlib : library.IsPlain) (ht : tools.Confined)
    (hn : Java.isIdentifier d.name) (hl : Layout.ofDetails library d = .ok l)
    (h : ensure tools l library w = (.ok (), w')) :
    Cached d.path library.directory w'.files ∧ Findable d.path library.directory := by
  obtain ⟨-, -, -, hcache, hstray⟩ := Layout.ofDetails_ok hl
  have hname := isEntryName_of_isIdentifier hn
  rcases ensure_cases h with ⟨hthere, rfl⟩ | ⟨habsent, ⟨stray, hp, hd, hmoved⟩ | ⟨-, hfetched⟩⟩
  · rw [hcache] at hthere
    exact cached_of_isDirectory hlib.directory hthere
  · rw [hstray stray hp] at hd hmoved
    rw [hcache] at habsent hmoved
    have hnode := (Tree.isDirectory_iff.1 hd).2
    have hne := names_stray_ne hlib hname
    obtain ⟨-, -, _, _, hholder, -⟩ := Tree.rename_renamed hmoved hnode hne
    obtain ⟨-, -, hwalk, hroot, -⟩ := Files.Tree.holder_join hlib.directory hholder
    refine cached_of_rename hlib.directory habsent hwalk hroot rfl hnode hne (fun hmem => ?_) hmoved
    exact Files.mem_text_join_join hname hlib.directory (by decide) hmem
  · rw [hcache] at habsent
    exact cached_of_fetch hlib ht hn hl habsent hfetched

end SupportLibrary

/-- From the time when the library is cached, nothing is fetched, and the library stays as it is. -/
def KeepsCache (root : Path) (dir : Text) (w w' : Workshop) : Prop :=
  Cached root dir w.files →
    w'.fetches = w.fetches ∧ w.files.SameBelow (root.join dir).names w'.files

instance : IsPreorder Workshop (KeepsCache root dir) where
  refl w _ := ⟨rfl, .refl _ _⟩
  trans w w' w'' h h' hcached := by
    obtain ⟨hfetches, hsame⟩ := h hcached
    obtain ⟨hfetches', hsame'⟩ := h' (hcached.keep hsame)
    exact ⟨hfetches'.trans hfetches, hsame.trans hsame'⟩

theorem keepsCache_onFiles {α : Type} {action : Files.Action α}
    (h : ∀ t, Cached root dir t → t.SameBelow (root.join dir).names (action t).2) :
    Keeps (KeepsCache root dir) (Work.onFiles action) :=
  .onFiles fun w hcached => ⟨rfl, h w.files hcached⟩

section Project

variable (hn : Java.isIdentifier d.name) (hd : isEntryName library.directory)
  (hl : Layout.ofDetails library d = .ok l)

include hn hd hl

theorem sameBelow_project (h : t.SameOutside d.root.names t') :
    t.SameBelow (d.path.join library.directory).names t' := by
  apply h.sameBelow
  intro below
  have hapart : ¬d.root.names <+: l.cachePath.names ++ below :=
    Layout.not_root_prefix_cache hl hn hd
  rwa [(Layout.ofDetails_ok hl).2.2.2.1] at hapart

theorem made_sameBelow {p : Path} (h : t.Made (OnWay p) t')
    (hp : ∀ at', OnWay p at' → OnWay d.path at' ∨ d.root.names <+: at')
    (hcached : Cached d.path library.directory t) :
    t.SameBelow (d.path.join library.directory).names t' := by
  apply h.sameBelow
  rintro at' hat hway
  rcases hp at' hway with hway | hinside
  · exact hcached.way at' hat hway
  · obtain ⟨below, rfl⟩ := hat
    have hapart : ¬d.root.names <+: l.cachePath.names ++ below :=
      Layout.not_root_prefix_cache hl hn hd
    rw [(Layout.ofDetails_ok hl).2.2.2.1] at hapart
    exact absurd hinside hapart

theorem keepsCache_ensureDirectory {p : Path}
    (hp : ∀ at', OnWay p at' → OnWay d.path at' ∨ d.root.names <+: at') :
    Keeps (KeepsCache d.path library.directory) (Work.onFiles (Files.ensureDirectory p)) :=
  keepsCache_onFiles fun t hcached =>
    made_sameBelow hn hd hl (Files.ensureDirectory_made p t) hp hcached

theorem written_sameBelow {p : Path} {content : ByteArray} (h : t.Written p content t')
    (hp : d.root.names <+: p.names) : t.SameBelow (d.path.join library.directory).names t' :=
  sameBelow_project hn hd hl (h.sameOutside hp)

theorem keepsCache_writeText {p : Path} (hp : d.root.names <+: p.names) (text : Text) :
    Keeps (KeepsCache d.path library.directory) (Work.onFiles (Files.writeText p text)) := by
  apply keepsCache_onFiles
  intro t _
  rcases Files.write_cases p (Text.toUtf8 text) t with h | h
  · rw [Files.writeText, h]
    exact .refl _ _
  · exact written_sameBelow hn hd hl h hp

end Project

namespace Assembly

section Stages

variable (hplugin : plugin.Named) (hd : isEntryName library.directory)
  (hl : Layout.ofDetails library plugin.details = .ok l)

include hplugin hd hl

theorem keepsCache_ensureProject :
    Keeps (KeepsCache plugin.details.path library.directory) (ensureProject plugin) := by
  intro w hcached
  refine ⟨rfl, ?_⟩
  have hensure : Project.ensure ⟨plugin, w.files⟩ = (_, _) := rfl
  obtain ⟨made, hmade, hfiles⟩ := Project.ensure_files hensure
  have hsame := made_sameBelow hplugin.name hd hl hmade
    (fun _ => Details.onWay_packageDirectory hplugin.name hplugin.package) hcached
  rcases hfiles with hfiles | ⟨content, hwritten⟩
  · rw [← hfiles] at hsame
    exact hsame
  · apply hsame.trans
    apply written_sameBelow hplugin.name hd hl hwritten
    rw [Details.names_manifestPath]
    exact List.prefix_append _ _

theorem keepsCache_writeSources :
    Keeps (KeepsCache plugin.details.path library.directory) (writeSources plugin l) := by
  have hroot := (Layout.ofDetails_ok hl).2.2.1
  have hmeta : isEntryName BuildManifest.directory := by decide
  have hsteps : (buildManifestDirectory l).steps =
      plugin.details.root.steps ++ [BuildManifest.directory] := by
    rw [buildManifestDirectory, hroot, Files.steps_join hmeta]
  refine keeps_writeSources hplugin hroot ?_ ?_
  · intro p text hp
    exact keepsCache_writeText hplugin.name hd hl hp text
  · intro _ _ entered _
    apply keepsCache_ensureDirectory hplugin.name hd hl
    intro at' hway
    refine Details.onWay_of_steps hplugin.name hsteps (fun name hname => ?_) hway
    rw [List.mem_singleton.1 hname]
    exact hmeta

theorem keepsCache_archive (content : ByteArray) :
    Keeps (KeepsCache plugin.details.path library.directory)
      (Work.onFiles (Files.write (l.workingRoot.join plugin.details.archiveName) content)) := by
  apply keepsCache_onFiles
  intro t hcached
  rw [(Layout.ofDetails_ok hl).2.1]
  rcases Files.write_cases (plugin.details.path.join plugin.details.archiveName) content t with h | h
  · rw [h]
    exact .refl _ _
  · apply h.sameBelow
    rw [names_join hd, Details.names_archivePath hplugin.name, prefix_siblings]
    intro he
    apply h.wasFile
    rw [Details.names_archivePath hplugin.name, ← he, ← names_join hd]
    exact hcached.there

theorem keepsCache_compile (ht : tools.Confined) (p : Path) :
    Keeps (KeepsCache plugin.details.path library.directory) (Work.compile tools l p) := by
  apply Keeps.compile
  · intro w _
    refine ⟨?_, .refl _ _⟩
    rw [Workshop.fetches, List.filter_append]
    exact List.append_nil _
  · intro w _
    refine ⟨rfl, ?_⟩
    have hcompiled := ht.compile l p w.files
    rw [(Layout.ofDetails_ok hl).2.2.1] at hcompiled
    exact sameBelow_project hplugin.name hd hl hcompiled

theorem keepsCache_removePath :
    Keeps (KeepsCache plugin.details.path library.directory)
      (Work.onFiles (Files.removePath l.pluginRoot)) := by
  apply keepsCache_onFiles
  intro t _
  rw [(Layout.ofDetails_ok hl).2.2.1]
  exact sameBelow_project hplugin.name hd hl (Files.sameOutside_removePath _ t)

theorem keepsCache_strip (extension : Text) :
    Keeps (KeepsCache plugin.details.path library.directory)
      (Work.onFiles (Files.removeWithExtension plugin.details.sourceRoot extension)) := by
  apply keepsCache_onFiles
  intro t _
  apply sameBelow_project hplugin.name hd hl
  apply (Files.sameOutside_removeWithExtension _ extension t).mono
  rw [Details.names_sourceRoot hplugin.package]
  exact List.prefix_append _ _

end Stages

/-- What a build does once it has the support library. -/
def finish (write : Archive.Writer) (tools : Toolchain) (config : Config) (plugin : Plugin)
    (l : Layout) : Work Artifact := do
  let d := plugin.details
  writeSources plugin l
  Work.compile tools l d.entryPointPath
  discard (Work.onFiles (Files.removeWithExtension d.sourceRoot Details.sourceExtension))
  let archive ← pack config.compression plugin l
  let bytes ← (archive.finish write : Except Failure ByteArray)
  let path := l.workingRoot.join d.archiveName
  Work.onFiles (Files.write path bytes)
  Work.onFiles (Files.removePath l.pluginRoot)
  cancelSchedule plugin
  return ⟨path, bytes.size, registeredNames plugin⟩

theorem run_eq_finish (write : Archive.Writer) (tools : Toolchain) (config : Config)
    (plugin : Plugin) :
    run write tools config plugin = (do
      let l ← (Layout.ofDetails config.library plugin.details : Except Failure Layout)
      ensureProject plugin
      Work.onFiles (Files.ensureDirectory plugin.details.commandsDirectory)
      SupportLibrary.ensure tools l config.library
      finish write tools config plugin l) :=
  rfl

theorem keepsCache_finish (hplugin : plugin.Named) (hd : isEntryName config.library.directory)
    (hl : Layout.ofDetails config.library plugin.details = .ok l) (ht : tools.Confined) :
    Keeps (KeepsCache plugin.details.path config.library.directory)
      (finish write tools config plugin l) := by
  have hcancel : Keeps (KeepsCache plugin.details.path config.library.directory)
      (cancelSchedule plugin) := .modify fun w _ => ⟨rfl, .refl _ _⟩
  apply (keepsCache_writeSources hplugin hd hl).bind
  intro _
  apply (keepsCache_compile hplugin hd hl ht _).bind
  intro _
  apply (keepsCache_strip hplugin hd hl _).map.bind
  intro _
  apply Keeps.bind (R := KeepsCache _ _) (.pack _ _ _)
  intro archive
  apply Keeps.bind (R := KeepsCache _ _) (.lift _)
  intro bytes
  apply (keepsCache_archive hplugin hd hl _).bind
  intro _
  apply (keepsCache_removePath hplugin hd hl).bind
  intro _
  apply hcancel.bind
  intro _
  exact .pure _

theorem walk_root_of_commandsDirectory (hplugin : plugin.Named)
    (h : t.isDirectory plugin.details.commandsDirectory) :
    t.walk [] plugin.details.root.steps = .ok plugin.details.root.names ∧
      t.node? plugin.details.root.names = some .directory := by
  have hsteps : Tree.stepsOf plugin.details.commandsDirectory = plugin.details.root.steps ++
      (plugin.details.packageSegments ++ [plugin.details.name] ++ ["commands".toList]) := by
    rw [Details.commandsDirectory, Tree.stepsOf_join (by decide),
      Details.steps_packageDirectory hplugin.name hplugin.package]
    simp only [List.append_assoc]
  exact Tree.walk_of_target (Tree.isDirectory_iff.1 h).1 hsteps (List.concat_ne_nil _ _)

theorem walk_of_commandsDirectory (hplugin : plugin.Named)
    (h : t.isDirectory plugin.details.commandsDirectory) :
    t.walk [] plugin.details.path.steps = .ok plugin.details.path.names ∧
      t.node? plugin.details.path.names = some .directory := by
  obtain ⟨hwalk, hd⟩ := walk_root_of_commandsDirectory hplugin h
  have hsteps : plugin.details.root.steps = plugin.details.path.steps ++ [plugin.details.name] := by
    rw [Details.root, Files.steps_join (isEntryName_of_isIdentifier hplugin.name)]
  rw [hsteps] at hwalk
  exact ⟨Tree.walk_of_append hwalk, Tree.node?_of_walk hwalk (List.prefix_append _ _) (by simp)⟩

/-- A build neither fetches nor touches a library that is cached, whatever comes of the build. -/
theorem keepsCache_run (hplugin : plugin.Named) (hd : isEntryName config.library.directory)
    (hfind : Findable plugin.details.path config.library.directory) (ht : tools.Confined) :
    Keeps (KeepsCache plugin.details.path config.library.directory) (run write tools config plugin) := by
  rw [run_eq_finish]
  apply Keeps.bind_of_ok (R := KeepsCache _ _) (.lift _)
  intro _ l w hlayout
  obtain ⟨hl, -⟩ := Work.liftM_ok hlayout
  apply Keeps.bind (R := KeepsCache _ _) (keepsCache_ensureProject hplugin hd hl)
  intro _
  have hway : ∀ at', OnWay plugin.details.commandsDirectory at' →
      OnWay plugin.details.path at' ∨ plugin.details.root.names <+: at' :=
    fun _ => Details.onWay_commandsDirectory hplugin.name hplugin.package
  apply Keeps.bind_of_ok (R := KeepsCache _ _) (keepsCache_ensureDirectory hplugin.name hd hl hway)
  intro _ _ staged hstaged hcached
  have hstaged := Files.ensureDirectory_ok (by decide) (Work.onFiles_ok hstaged).1
  obtain ⟨hwalk, hroot⟩ := walk_of_commandsDirectory hplugin hstaged
  have hcache : staged.files.isDirectory l.cachePath := by
    rw [(Layout.ofDetails_ok hl).2.2.2.1]
    exact hfind.isDirectory hd hwalk hroot hcached.there
  rw [bind_of_ok (SupportLibrary.ensure_of_cached hcache)]
  exact keepsCache_finish hplugin hd hl ht staged hcached

/-- A build has got past the preparation of its support library. -/
structure Prepares (tools : Toolchain) (config : Config) (plugin : Plugin) (l : Layout)
    (w prepared : Workshop) : Prop where
  layout : Layout.ofDetails config.library plugin.details = .ok l
  steps : (do
    ensureProject plugin
    Work.onFiles (Files.ensureDirectory plugin.details.commandsDirectory)
    SupportLibrary.ensure tools l config.library) w = (.ok (), prepared)

/-- Builds from one root, one after another and whatever comes of them; in between anything may happen to
the files that are not those of the support library. -/
inductive Builds (write : Archive.Writer) (tools : Toolchain) (config : Config) (root : Path) :
    Workshop → Workshop → Prop where
  | refl (w : Workshop) : Builds write tools config root w w
  | build {w w' : Workshop} (h : Builds write tools config root w w') {plugin : Plugin}
      (hplugin : plugin.Reachable) (hroot : plugin.details.path = root) :
      Builds write tools config root w (run write tools config plugin w').2
  | elsewhere {w w' : Workshop} (h : Builds write tools config root w w') {files : Tree}
      (hsame : w'.files.SameBelow (root.join config.library.directory).names files) :
      Builds write tools config root w { w' with files }

theorem Prepares.cached (h : Prepares tools config plugin l w w') (hplugin : plugin.Named)
    (hlib : config.library.IsPlain) (ht : tools.Confined) :
    Cached plugin.details.path config.library.directory w'.files ∧
      Findable plugin.details.path config.library.directory := by
  obtain ⟨_, begun, -, hsteps⟩ := bind_eq_ok.1 h.steps
  obtain ⟨_, staged, -, hensured⟩ := bind_eq_ok.1 hsteps
  exact SupportLibrary.cached_of_ensure hlib ht hplugin.name h.layout hensured

theorem Prepares.run_eq {prepared : Workshop} (h : Prepares tools config plugin l w prepared) :
    run write tools config plugin w = finish write tools config plugin l prepared := by
  obtain ⟨_, begun, hbegun, hsteps⟩ := bind_eq_ok.1 h.steps
  obtain ⟨_, staged, hstaged, hensured⟩ := bind_eq_ok.1 hsteps
  have hlayout : (liftM (Layout.ofDetails config.library plugin.details) : Work Layout) w =
      (.ok l, w) := by
    rw [h.layout]
    rfl
  rw [run_eq_finish, bind_of_ok hlayout, bind_of_ok hbegun, bind_of_ok hstaged, bind_of_ok hensured]

theorem Builds.keepsCache (hlib : config.library.IsPlain) (ht : tools.Confined)
    (hfind : Findable root config.library.directory) (h : Builds write tools config root w w') :
    KeepsCache root config.library.directory w w' := by
  induction h with
  | refl => exact refl_of _ _
  | @build between _ plugin hplugin hroot ih =>
    subst hroot
    exact trans_of _ ih (keepsCache_run hplugin.named hlib.directory hfind ht between)
  | elsewhere _ hsame ih =>
    apply trans_of _ ih
    intro _
    exact ⟨rfl, hsame⟩

/-- Once a build has got past the preparation of the support library, neither the rest of that build nor
any later one from its root fetches again, and the library stays as it was prepared, whatever comes of the
builds. -/
theorem library_settled {prepared last : Workshop} (hplugin : plugin.Reachable)
    (hlib : config.library.IsPlain) (ht : tools.Confined)
    (hprepared : Prepares tools config plugin l w prepared)
    (hbuilds : Builds write tools config plugin.details.path (run write tools config plugin w).2 last) :
    prepared.files.node? l.cachePath.names = some .directory ∧
      (run write tools config plugin w).2.fetches = prepared.fetches ∧ last.fetches = prepared.fetches ∧
      prepared.files.SameBelow l.cachePath.names (run write tools config plugin w).2.files ∧
      prepared.files.SameBelow l.cachePath.names last.files := by
  obtain ⟨hcached, hfind⟩ := hprepared.cached hplugin.named hlib ht
  have hfinished : KeepsCache plugin.details.path config.library.directory prepared
      (run write tools config plugin w).2 := by
    rw [hprepared.run_eq]
    exact keepsCache_finish hplugin.named hlib.directory hprepared.layout ht prepared
  have hlast := trans_of _ hfinished (hbuilds.keepsCache hlib ht hfind)
  obtain ⟨hfetches, hsame⟩ := hfinished hcached
  obtain ⟨hfetches', hsame'⟩ := hlast hcached
  rw [(Layout.ofDetails_ok hprepared.layout).2.2.2.1]
  exact ⟨hcached.there, hfetches, hfetches', hsame, hsame'⟩

/-- Tools that fetch a library of one class, and compile every project to one class. -/
def confinedTools : Toolchain where
  fetch _ _ destination := (Files.Action.change (checkOut destination)).adapt .files
  compile l _ :=
    (Files.write (l.pluginRoot.join "Plugin.class") ⟨#[0xCA, 0xFE, 0xBA, 0xBE]⟩).adapt .files

theorem confinedTools_fetchesBelow : confinedTools.FetchesBelow := by
  intro l library destination t
  change t.SameOutside destination.names (Files.Action.change (checkOut destination) t).2
  rw [Files.Action.change]
  cases hchecked : checkOut destination t with
  | error e => exact .refl _ t
  | ok checked => exact checkOut_sameOutside hchecked

theorem confinedTools_confined : confinedTools.Confined where
  fetch l library destination t at' hat _ := confinedTools_fetchesBelow l library destination t at' hat
  compile := by
    intro l entryPoint t
    have hinside : l.pluginRoot.names <+: (l.pluginRoot.join "Plugin.class").names := by
      rw [names_join (by decide)]
      exact List.prefix_append _ _
    rcases Files.write_cases (l.pluginRoot.join "Plugin.class") ⟨#[0xCA, 0xFE, 0xBA, 0xBE]⟩ t
      with h | h
    · intro at' _
      exact congrArg (fun t : Tree => t.node? at') h
    · exact h.sameOutside hinside

def greetingLayout : Layout where
  workingRoot := greeting.plugin.details.path
  pluginRoot := greeting.plugin.details.root
  cachePath := greeting.plugin.details.path.join Config.libraryDirectory
  strayPath := some (greeting.plugin.details.root.join Config.libraryDirectory)

theorem library_settled_greeting :
    ∃ prepared, Prepares confinedTools .bare greeting.plugin greetingLayout
        (.ofFiles greeting.files) prepared ∧
      prepared.fetches.length = 1 ∧
      (run Archive.Zip.write confinedTools .bare greeting.plugin
        (run Archive.Zip.write confinedTools .bare greeting.plugin (.ofFiles greeting.files)).2).2.fetches =
          prepared.fetches := by
  have hlayout : Layout.ofDetails Config.bare.library greeting.plugin.details =
      .ok greetingLayout := by
    obtain ⟨l, hl⟩ := exists_ok_of_isOk
      (x := Layout.ofDetails Config.bare.library greeting.plugin.details) (by decide +kernel)
    have hsome : (Layout.ofDetails Config.bare.library greeting.plugin.details).toOption =
        some greetingLayout := by decide +kernel
    rw [hl] at hsome
    rw [hl, Option.some.inj hsome]
  obtain ⟨_, hresult⟩ := exists_ok_of_isOk
    (x := ((do
      ensureProject greeting.plugin
      Work.onFiles (Files.ensureDirectory greeting.plugin.details.commandsDirectory)
      SupportLibrary.ensure confinedTools greetingLayout Config.bare.library)
        (.ofFiles greeting.files)).1) (by decide +kernel)
  have hprepared : Prepares confinedTools .bare greeting.plugin greetingLayout
      (.ofFiles greeting.files) _ := ⟨hlayout, Prod.ext hresult rfl⟩
  have hbuilds : Builds Archive.Zip.write confinedTools .bare greeting.plugin.details.path _ _ :=
    .build (.refl (run Archive.Zip.write confinedTools .bare greeting.plugin
      (.ofFiles greeting.files)).2) reachable_greeting rfl
  have hsettled := library_settled reachable_greeting isPlain_default confinedTools_confined hprepared hbuilds
  exact ⟨_, hprepared, by decide +kernel, hsettled.2.2.1⟩

end Assembly

end Build

end PluginForge
