import PluginForge.Proofs.Build.Cache
import PluginForge.Proofs.Build.Flag

namespace PluginForge

open Files (Location OnWay Path Tree isEntryName names_join prefix_siblings)

variable {at' : Location} {config : Config} {d : Details} {l : Layout} {library : Config.Library}
  {plugin : Plugin} {t : Tree} {tools : Toolchain} {w w' : Workshop}
  {write : Archive.Writer}

theorem Files.rename_node? {s p : Path} (hd : t.node? s.names = some .directory)
    (hs : ¬s.names <+: at') (hp : ¬p.names <+: at') : (rename s p t).2.node? at' = t.node? at' := by
  cases hrename : t.rename s p with
  | error e => rw [rename, Action.change, hrename]
  | ok t' =>
    rw [rename, Action.change, hrename]
    obtain ⟨⟨-, rfl⟩ | ⟨-, hrenamed⟩, -⟩ := Tree.rename_directory hrename hd
    · rfl
    · exact hrenamed.outside at' hs hp

theorem Files.makeScratch_grown (root : Path) (t : Tree) : t.Grown (makeScratch root t).2 := by
  rw [makeScratch]
  split
  · have hsame : Tree.Made (fun _ => False) t t := .refl t
    exact hsame.grown
  · next hmade => exact (Tree.makeDirectory_made hmade).grown

namespace Build

/-- The file at a place, if there is one, is the same in both workshops. -/
def SameFile (at' : Location) (w w' : Workshop) : Prop :=
  w'.files.file? at' = w.files.file? at'

instance : IsPreorder Workshop (SameFile at') where
  refl _ := rfl
  trans _ _ _ h h' := h'.trans h

theorem SameFile.of_node? (h : w'.files.node? at' = w.files.node? at') : SameFile at' w w' :=
  congrArg (Option.bind · Files.Node.content?) h

theorem keepsFile_onFiles {α : Type} {action : Files.Action α}
    (h : ∀ t, (action t).2.node? at' = t.node? at') : Keeps (SameFile at') (Work.onFiles action) :=
  .onFiles fun w => SameFile.of_node? (h w.files)

theorem keepsFile_ensureDirectory (p : Path) :
    Keeps (SameFile at') (Work.onFiles (Files.ensureDirectory p)) :=
  .onFiles fun w => (Files.ensureDirectory_grown p w.files).file at'

theorem keepsFile_ensureProject (h : ¬plugin.details.root.names <+: at') :
    Keeps (SameFile at') (Assembly.ensureProject plugin) := by
  intro w
  have hensure : Project.ensure ⟨plugin, w.files⟩ = (_, _) := rfl
  obtain ⟨made, hmade, hfiles⟩ := Project.ensure_files hensure
  have hsame := hmade.grown.file at'
  rcases hfiles with hfiles | ⟨content, hwritten⟩
  · rw [← hfiles] at hsame
    exact hsame
  · have hne : at' ≠ plugin.details.manifestPath.names := by
      rintro rfl
      rw [Details.names_manifestPath] at h
      exact h (List.prefix_append _ _)
    refine Eq.trans ?_ hsame
    exact (hwritten.file? at').trans (if_neg hne)

section Library

variable (hlib : library.IsPlain) (ht : tools.Confined) (hl : Layout.ofDetails library d = .ok l)
  (hroot : ¬d.root.names <+: at') (hcache : ¬l.cachePath.names <+: at')
  (hscratch : ∀ n, ¬d.path.names ++ [Files.scratchName n] <+: at')

include hlib ht hl hroot hcache hscratch

theorem keepsFile_obtain (n : Nat) : Keeps (SameFile at')
    (SupportLibrary.obtain tools l library (d.path.join (Files.scratchName n))) := by
  have hcheckout : ¬((d.path.join (Files.scratchName n)).join SupportLibrary.checkoutName).names <+:
      at' := by
    intro hp
    apply hscratch n
    apply List.IsPrefix.trans _ hp
    rw [SupportLibrary.names_checkout, List.prefix_append_right_inj]
    exact List.prefix_append [_] [_]
  apply Keeps.bind (R := SameFile at')
  · apply Keeps.fetch (R := SameFile at') (fun _ => rfl)
    intro w
    rw [← (Layout.ofDetails_ok hl).2.2.1] at hroot
    exact SameFile.of_node? (ht.fetch l library _ w.files at' hcheckout hroot)
  intro _
  apply Keeps.bind (R := SameFile at')
  · apply Keeps.forM
    intro name hname
    apply keepsFile_onFiles
    intro t
    apply Files.sameOutside_removePath
    exact fun hp => hcheckout ((Files.prefix_names_join (hlib.prune name hname) _).trans hp)
  intro _
  apply Keeps.bind_of_ok (R := SameFile at') (keepsFile_onFiles fun _ => rfl)
  intro _ found looked hlooked
  obtain ⟨hfound, hsame⟩ := Work.isDirectory_ok hlooked
  subst hsame
  cases found with
  | false => rfl
  | true =>
    have hd := (Tree.isDirectory_iff.1 hfound.symm).2
    have hsource : ¬(((d.path.join (Files.scratchName n)).join SupportLibrary.checkoutName).join
        library.directory).names <+: at' := by
      intro hp
      apply hcheckout
      rw [names_join hlib.directory] at hp
      exact (List.prefix_append _ _).trans hp
    exact SameFile.of_node? (Files.rename_node? hd hsource hcache)

/-- A file that is neither in the project nor in the support library nor in a scratch directory is left alone
when the library is prepared, even if that fails. -/
theorem keepsFile_library : Keeps (SameFile at') (SupportLibrary.ensure tools l library) := by
  obtain ⟨-, hworking, -, -, hstray⟩ := Layout.ofDetails_ok hl
  have hfetch : Keeps (SameFile at')
      (Work.withScratch l.workingRoot (SupportLibrary.obtain tools l library)) := by
    rw [hworking]
    apply Keeps.bind_of_ok (R := SameFile at')
    · exact .onFiles fun w => (Files.makeScratch_grown d.path w.files).file at'
    intro w scratch made hmade
    obtain ⟨n, rfl, -⟩ := Files.makeScratch_ok (Work.onFiles_ok hmade).1
    have hremoved := hscratch n
    rw [← names_join (Files.isEntryName_scratchName n)] at hremoved
    have hobtained := keepsFile_obtain hlib ht hl hroot hcache hscratch n made
    refine Eq.trans ?_ hobtained
    exact SameFile.of_node? (Files.sameOutside_removePath _ _ at' hremoved)
  intro w
  rcases SupportLibrary.cached_or_strayed_or_missing l w.files with
    hcached | ⟨habsent, stray, hp, hd⟩ | hmissing
  · rw [SupportLibrary.ensure_of_cached hcached]
    exact refl_of (SameFile at') w
  · have hsource : ¬stray.names <+: at' := by
      intro hinside
      rw [hstray stray hp, names_join hlib.directory] at hinside
      exact hroot ((List.prefix_append _ _).trans hinside)
    rw [SupportLibrary.ensure_of_stray habsent hp hd]
    have hd := (Tree.isDirectory_iff.1 hd).2
    exact SameFile.of_node? (Files.rename_node? hd hsource hcache)
  · rw [SupportLibrary.ensure_of_missing hmissing]
    exact hfetch w

end Library

theorem keepsFile_writeSources (hplugin : plugin.Named) (hl : l.pluginRoot = plugin.details.root)
    (h : ¬plugin.details.root.names <+: at') :
    Keeps (SameFile at') (Assembly.writeSources plugin l) := by
  intro w
  have hsame := Assembly.keepsOutside_writeSources hplugin hl w at' h
  exact .of_node? hsame

theorem keepsFile_compile (ht : tools.Confined) (h : ¬l.pluginRoot.names <+: at') (p : Path) :
    Keeps (SameFile at') (Work.compile tools l p) := by
  apply Keeps.compile (R := SameFile at') (fun _ => rfl)
  intro w
  exact SameFile.of_node? (ht.compile l p w.files at' h)

theorem not_scratch_prefix_archive (hn : Java.isIdentifier d.name) (n : Nat) :
    ¬d.path.names ++ [Files.scratchName n] <+: (d.path.join d.archiveName).names := by
  rw [Details.names_archivePath hn, prefix_siblings]
  intro he
  have hhead := congrArg List.head? he
  rw [Details.archiveName, List.head?_append_of_ne_nil _ (Java.isIdentifier_ne_nil hn)] at hhead
  have hdot : '.' ∈ d.name := List.mem_of_mem_head? hhead.symm
  exact Java.not_mem_of_all_isIdentifierChar (Java.all_isIdentifierChar hn) (by decide) hdot

theorem Work.compile_error {p : Path} {failure : Failure}
    (h : Work.compile tools l p w = (.error failure, w')) :
    tools.compile l p w.files = (.error failure, w'.files) := by
  change Work.act (tools.compile l p) { w with calls := w.calls ++ [.compile l p w.files] } = _ at h
  rw [Work.act] at h
  split at h
  next hcompile =>
  cases h
  exact hcompile

namespace Assembly

theorem writeProject_ok (h : writeProject tools config plugin w = (.ok l, w')) :
    ∃ prepared, Prepares tools config plugin l w prepared ∧
      writeSources plugin l prepared = (.ok (), w') := by
  rw [writeProject] at h
  obtain ⟨_, _, hlayout, h⟩ := bind_eq_ok.1 h
  obtain ⟨_, begun, hbegun, h⟩ := bind_eq_ok.1 h
  obtain ⟨_, staged, hstaged, h⟩ := bind_eq_ok.1 h
  obtain ⟨_, prepared, hprepared, h⟩ := bind_eq_ok.1 h
  obtain ⟨_, written, hwritten, h⟩ := bind_eq_ok.1 h
  cases h
  obtain ⟨hlayout, hstart⟩ := Work.liftM_ok hlayout
  rw [hstart] at hbegun
  refine ⟨prepared, ⟨hlayout, ?_⟩, hwritten⟩
  rw [bind_of_ok hbegun, bind_of_ok hstaged, hprepared]

section Archive

variable (hplugin : plugin.Named) (hlib : config.library.IsPlain) (ht : tools.Confined)
  (hname : config.library.directory ≠ plugin.details.archiveName)

include hplugin hlib ht hname

/-- Whatever comes of the steps in front of the compiler, the archive of an earlier build stays. -/
theorem keepsArchive_writeProject :
    Keeps (SameFile (plugin.details.path.join plugin.details.archiveName).names)
      (writeProject tools config plugin) := by
  have hroot := Details.not_root_prefix_archive hplugin.name
  apply Keeps.bind_of_ok (R := SameFile _) (.lift _)
  intro w l _ hlayout
  obtain ⟨hl, rfl⟩ := Work.liftM_ok hlayout
  obtain ⟨-, -, hproject, hcache, -⟩ := Layout.ofDetails_ok hl
  have hcache : ¬l.cachePath.names <+: (plugin.details.path.join plugin.details.archiveName).names := by
    rw [hcache, names_join hlib.directory, Details.names_archivePath hplugin.name, prefix_siblings]
    exact hname
  apply (keepsFile_ensureProject hroot).bind
  intro _
  apply (keepsFile_ensureDirectory _).bind
  intro _
  apply (keepsFile_library hlib ht hl hroot hcache (not_scratch_prefix_archive hplugin.name)).bind
  intro _
  apply (keepsFile_writeSources hplugin hproject hroot).bind
  intro _
  exact .pure l

theorem keepsArchive_compileProject :
    Keeps (SameFile (plugin.details.path.join plugin.details.archiveName).names)
      (compileProject tools config plugin) := by
  apply (keepsArchive_writeProject hplugin hlib ht hname).bind_of_ok
  intro w l written hwritten
  obtain ⟨_, hprepared, -⟩ := writeProject_ok hwritten
  have hroot := Details.not_root_prefix_archive hplugin.name
  rw [← (Layout.ofDetails_ok hprepared.layout).2.2.1] at hroot
  have hcompile := keepsFile_compile ht hroot plugin.details.entryPointPath
  exact (hcompile.bind fun _ => .pure l) written

end Archive

theorem writeProject_library {written : Workshop} (hplugin : plugin.Named)
    (hlib : config.library.IsPlain) (ht : tools.Confined)
    (hprepared : Prepares tools config plugin l w w')
    (hwritten : writeSources plugin l w' = (.ok (), written)) :
    Cached plugin.details.path config.library.directory written.files ∧
      w'.files.SameBelow (plugin.details.path.join config.library.directory).names written.files ∧
      written.files.isDirectory (plugin.details.path.join config.library.directory) := by
  obtain ⟨hcached, hfind⟩ := hprepared.cached hplugin hlib ht
  obtain ⟨-, hsame⟩ := keepsCache_writeSources hplugin hlib.directory hprepared.layout w' hcached
  rw [hwritten] at hsame
  refine ⟨hcached.keep hsame, hsame, ?_⟩
  have hread := (Tree.read_eq_ok.1 (writeSources_buildManifest hwritten)).1
  have hsteps : Tree.stepsOf ((buildManifestDirectory l).join BuildManifest.fileName) =
      plugin.details.path.steps ++
        [plugin.details.name, BuildManifest.directory, BuildManifest.fileName] := by
    rw [Tree.stepsOf_join (by decide), buildManifestDirectory,
      (Layout.ofDetails_ok hprepared.layout).2.2.1, Files.steps_join (by decide), Details.root,
      Files.steps_join (isEntryName_of_isIdentifier hplugin.name)]
    simp
  obtain ⟨hwalk, hroot⟩ := Tree.walk_of_target hread hsteps (List.cons_ne_nil _ _)
  exact hfind.isDirectory hlib.directory hwalk hroot (hcached.keep hsame).there

/-- A build that gets no further than the compiler keeps the archive of an earlier build and does not cancel
the deferred build of its plugin. If it was the compiler that failed, all sources have been written, and stay
where the compiler has left them, and the library is at its place as it was prepared. -/
theorem run_unfinished {failure : Failure} (hplugin : plugin.Reachable)
    (hlib : config.library.IsPlain) (ht : tools.Confined)
    (hname : config.library.directory ≠ plugin.details.archiveName)
    (h : compileProject tools config plugin w = (.error failure, w')) :
    run write tools config plugin w = (.error failure, w') ∧
      w'.files.file? (plugin.details.path.join plugin.details.archiveName).names =
        w.files.file? (plugin.details.path.join plugin.details.archiveName).names ∧
      w'.isCancelled = w.isCancelled ∧
      ∀ l written, writeProject tools config plugin w = (.ok l, written) →
        tools.compile l plugin.details.entryPointPath written.files = (.error failure, w'.files) ∧
        (∀ entry ∈ sourceFiles plugin l, written.files.read entry.1 = .ok entry.2 ∧
          (w'.files.node? entry.1.names = written.files.node? entry.1.names →
            w'.files.file? entry.1.names = some entry.2)) ∧
        written.files.isDirectory (plugin.details.path.join config.library.directory) ∧
        ∃ prepared, Prepares tools config plugin l w prepared ∧
          w'.files.node? (plugin.details.path.join config.library.directory).names = some .directory ∧
          prepared.files.SameBelow (plugin.details.path.join config.library.directory).names w'.files := by
  have hnamed := hplugin.named
  have harchive := keepsArchive_compileProject hnamed hlib ht hname w
  have hrun : run write tools config plugin w = (.error failure, w') := by
    rw [run_eq]
    exact bind_of_error h
  rw [h] at harchive
  refine ⟨hrun, harchive, ?_, ?_⟩
  · have hflag := setsFlag_run write tools config plugin w
    rw [hrun] at hflag
    exact hflag.trans (Bool.or_false _)
  intro l written hwritten
  obtain ⟨prepared, hprepared, hsources⟩ := writeProject_ok hwritten
  obtain ⟨hcached, hsame, hthere⟩ := writeProject_library hnamed hlib ht hprepared hsources
  have hcompile : Work.compile tools l plugin.details.entryPointPath written = (.error failure, w') := by
    rcases bind_eq_error.1 ((bind_of_ok hwritten).symm.trans h) with hcompile | ⟨_, _, -, hpure⟩
    · exact hcompile
    · cases hpure
  refine ⟨Work.compile_error hcompile, ?_, hthere, prepared, hprepared, ?_⟩
  · intro entry hentry
    have hread := writeSources_read hnamed hplugin.nodup_registeredNames
      (Layout.ofDetails_ok hprepared.layout).2.2.1 hsources hentry
    refine ⟨hread, fun hkept => ?_⟩
    rw [Tree.file?, hkept]
    exact (Tree.read_eq_ok.1 hread).2
  · obtain ⟨-, hcompiled⟩ := keepsCache_compile hnamed hlib.directory hprepared.layout ht
      plugin.details.entryPointPath written hcached
    rw [hcompile] at hcompiled
    exact ⟨(hcached.keep hcompiled).there, hsame.trans hcompiled⟩

/-- Tools that fetch a library of one class, and whose compiler always fails. -/
def brokenTools : Toolchain where
  fetch := confinedTools.fetch
  compile _ _ := throw (.toolFailed "javac" "exit status: 1" "error: cannot find symbol")

theorem brokenTools_confined : brokenTools.Confined where
  fetch := confinedTools_confined.fetch
  compile _ _ t := .refl _ t

/-- The files of a greeting beside the archive of an earlier build. -/
def rebuilt : Workshop :=
  .ofFiles (greeting.files.put ["Demo.jar".toList] (.file ⟨#[0x50, 0x4B]⟩))

theorem run_unfinished_greeting :
    ∃ failure w',
      run Archive.Zip.write brokenTools .bare greeting.plugin rebuilt = (.error failure, w') ∧
      w'.files.file? ["Demo.jar".toList] = some ⟨#[0x50, 0x4B]⟩ ∧
      ∃ l written, writeProject brokenTools .bare greeting.plugin rebuilt = (.ok l, written) ∧
        written.files.read greeting.plugin.details.entryPointPath =
          .ok (Text.toUtf8 (greeting.plugin.entryPoint.source ["hello"])) := by
  have hname : Config.bare.library.directory ≠ greeting.plugin.details.archiveName := by
    decide +kernel
  obtain ⟨failure, hfailed⟩ := exists_error_of_isOk
    (x := (compileProject brokenTools .bare greeting.plugin rebuilt).1) (by decide +kernel)
  obtain ⟨l, hwritten⟩ := exists_ok_of_isOk
    (x := (writeProject brokenTools .bare greeting.plugin rebuilt).1) (by decide +kernel)
  obtain ⟨hrun, harchive, -, hsources⟩ := run_unfinished reachable_greeting isPlain_default
    brokenTools_confined hname (Prod.ext hfailed rfl)
  have hwritten : writeProject brokenTools .bare greeting.plugin rebuilt = (.ok l, _) :=
    Prod.ext hwritten rfl
  obtain ⟨-, hread, -⟩ := hsources l _ hwritten
  have hplace : (greeting.plugin.details.path.join greeting.plugin.details.archiveName).names =
      ["Demo.jar".toList] := by decide +kernel
  have hearlier : rebuilt.files.file? ["Demo.jar".toList] = some ⟨#[0x50, 0x4B]⟩ := by decide +kernel
  have hnames : registeredNames greeting.plugin = ["hello".toList] := by decide +kernel
  rw [hplace] at harchive
  refine ⟨failure, _, hrun, harchive.trans hearlier, l, _, hwritten, ?_⟩
  rw [← hnames]
  exact (hread _ (List.mem_append_right _ List.mem_cons_self)).1

end Assembly

end Build

end PluginForge
