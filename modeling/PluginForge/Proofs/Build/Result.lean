import PluginForge.Proofs.Archive.Zip
import PluginForge.Proofs.Build.Stages

namespace PluginForge.Build

open Archive (Entry entryOf)
open Files (Location Node OnWay Path Tree isEntryName names_join prefix_siblings)

variable {artifact : Artifact} {at' : Location} {config : Config} {d : Details} {l : Layout}
  {plugin : Plugin} {tools : Toolchain} {w w' : Workshop} {write : Archive.Writer}

namespace Assembly

/-- What a compiler leaves of the package's tree but the files with the extension of sources. -/
def classes (d : Details) (t : Tree) : List (Location × Node) :=
  (t.below d.sourceRoot.names).filter fun entry =>
    !Files.isFileWith Details.sourceExtension (d.sourceRoot.names ++ entry.1) entry.2

theorem packageRoot_ne (hp : Java.isQualifiedName d.package) :
    d.packageRoot ≠ BuildManifest.directory := fun he => by
  have hroot := Details.isIdentifier_packageRoot hp
  rw [he] at hroot
  cases hroot

namespace Stages.Passed

variable {s : Stages} (h : s.Passed write tools config plugin l artifact w w') (hplugin : plugin.Named)

include h hplugin

/-- The archive has been packed without the sources, and from nothing but what the compiler left. -/
theorem archive_entries :
    ∃ manifest, s.stripped.files.read plugin.details.manifestPath = .ok manifest ∧
      s.archive.names.Nodup ∧
      s.archive.entries = parts config.compression plugin.details manifest
        (s.compiled.files.below (buildManifestDirectory l).names)
        (classes plugin.details s.compiled.files) := by
  obtain ⟨manifest, -, hread, -, hdistinct, hentries⟩ := pack_ok hplugin.package h.archive
  rw [h.pluginRoot_eq] at hread
  refine ⟨manifest, hread, hdistinct, ?_⟩
  have hmanifest : s.stripped.files.below (buildManifestDirectory l).names =
      s.compiled.files.below (buildManifestDirectory l).names := by
    rw [h.stripped_files hplugin, Files.below_foldl_remove]
    apply List.filter_eq_self.2
    intro entry _
    have hbeside : plugin.details.sourceRoot.names.isPrefixOf
        ((buildManifestDirectory l).names ++ entry.1) = false := by
      rw [names_buildManifestDirectory h.pluginRoot_eq, Details.names_sourceRoot hplugin.package,
        Bool.eq_false_iff, ne_eq, List.isPrefixOf_iff_prefix, List.append_assoc,
        List.singleton_append, prefix_siblings]
      exact packageRoot_ne hplugin.package
    rw [hbeside]
    rfl
  have hclasses : s.stripped.files.below plugin.details.sourceRoot.names =
      classes plugin.details s.compiled.files := by
    rw [h.stripped_files hplugin, Files.below_foldl_remove, classes]
    apply List.filter_congr
    intro entry _
    rw [List.isPrefixOf_iff_prefix.2 (List.prefix_append _ _), Bool.true_and]
  rw [hentries, hmanifest, hclasses]

theorem mem_archive_entries (ht : tools.KeepsOutside plugin.details) {manifest : ByteArray}
    (hentries : s.archive.entries = parts config.compression plugin.details manifest
      (s.compiled.files.below (buildManifestDirectory l).names)
      (classes plugin.details s.compiled.files)) :
    ⟨"META-INF/MANIFEST.MF", config.compression,
      Text.toUtf8 (BuildManifest.text plugin.details.mainClass)⟩ ∈ s.archive.entries := by
  have hread := writeSources_buildManifest h.written
  have hfile := Tree.file?_eq_some.1 (Tree.read_eq_ok.1 hread).2
  have hplace := names_buildManifest h.pluginRoot_eq
  have hbeside : ¬plugin.details.sourceRoot.names <+:
      ((buildManifestDirectory l).join BuildManifest.fileName).names := by
    rw [hplace, Details.names_sourceRoot hplugin.package, prefix_siblings]
    exact packageRoot_ne hplugin.package
  rw [← h.compiled_sameOutside ht _ hbeside, names_join (by decide)] at hfile
  have hbelow := Tree.mem_below.2 hfile
  rw [hentries, parts, List.append_assoc]
  exact List.mem_append_left _ (List.mem_map_of_mem hbelow)

variable (hlib : config.library.IsPlain) (ht : tools.KeepsOutside plugin.details)

include hlib ht

theorem packed_manifest {manifest : ByteArray}
    (hread : s.stripped.files.read plugin.details.manifestPath = .ok manifest) :
    if plugin.hasManifest then w.files.file? plugin.details.manifestPath.names = some manifest
    else manifest = Text.toUtf8 plugin.details.header.text := by
  have hfile := (Tree.read_eq_ok.1 hread).2
  have hbeside := Details.not_sourceRoot_prefix_manifest hplugin.package
  have hcompiled : s.stripped.files.file? plugin.details.manifestPath.names =
      s.written.files.file? plugin.details.manifestPath.names := by
    rw [Tree.file?, h.stripped_sameOutside _ hbeside, h.compiled_sameOutside ht _ hbeside, Tree.file?]
  rw [hcompiled, h.written_manifest hplugin, h.prepared_manifest hplugin hlib ht,
    h.staged_manifest] at hfile
  split
  · next hm => rwa [if_pos hm] at hfile
  · next hm =>
    rw [if_neg hm] at hfile
    exact (Option.some.inj hfile).symm

/-- The archive is written beside the support library, since no directory stands in its place. -/
theorem not_cache_prefix_archive :
    ¬l.cachePath.names <+: (plugin.details.path.join plugin.details.archiveName).names := by
  obtain ⟨-, -, -, hcache, -⟩ := Layout.ofDetails_ok h.layout
  have hnames := names_join (p := plugin.details.path) hlib.directory
  have hlibrary := h.prepared_library hplugin hlib ht
  rw [Details.names_archivePath hplugin.name, hcache, hnames, prefix_siblings]
  intro he
  have hfree := h.packed_written.wasFile
  rw [h.stripped_node? hplugin ht (Details.not_root_prefix_archive hplugin.name),
    Details.names_archivePath hplugin.name, ← he, ← hnames, ← hcache] at hfree
  exact hfree hlibrary

end Stages.Passed

/-- What a build that succeeds leaves, and the stages that it has gone through. The project is gone. The
archive stands at its place, and a reader of archives finds in it, with no name twice, the tree of the build
manifest, which names the class that the archive is started with, then the manifest as it was, and then all
that the compiler has left of the package's tree but the sources. The support library is as it was prepared.
Nothing else has changed, unless a directory was missing on the way that the path of the plugin takes: then it
has been created. -/
theorem run_leaves {read : Archive.Reader} (hread : Archive.Understands read write)
    (hplugin : plugin.Reachable) (hlib : config.library.IsPlain)
    (ht : tools.KeepsOutside plugin.details)
    (h : run write tools config plugin w = (.ok artifact, w')) :
    ∃ l s manifest content entries, Stages.Passed s write tools config plugin l artifact w w' ∧
      (if plugin.hasManifest then
          w.files.file? plugin.details.manifestPath.names = some manifest
        else manifest = Text.toUtf8 plugin.details.header.text) ∧
      w'.files.file? (plugin.details.path.join plugin.details.archiveName).names = some content ∧
      artifact.size = content.size ∧
      read content = some entries ∧
      (entries.map Entry.name).Nodup ∧
      entries = parts config.compression plugin.details manifest
        (s.compiled.files.below (buildManifestDirectory l).names)
        (classes plugin.details s.compiled.files) ∧
      ⟨"META-INF/MANIFEST.MF", config.compression,
        Text.toUtf8 (BuildManifest.text plugin.details.mainClass)⟩ ∈ entries ∧
      (∀ at', plugin.details.root.names <+: at' → w'.files.node? at' = none) ∧
      (∀ at', l.cachePath.names <+: at' → w'.files.node? at' = s.prepared.files.node? at') ∧
      ∀ at', ¬plugin.details.root.names <+: at' → ¬l.cachePath.names <+: at' →
        at' ≠ (plugin.details.path.join plugin.details.archiveName).names →
        Tree.MadeIf (OnWay plugin.details.path at') (w.files.node? at') (w'.files.node? at') := by
  have hnamed := hplugin.named
  obtain ⟨l, s, h⟩ := run_passed h
  obtain ⟨manifest, hmanifest, hdistinct, hentries⟩ := h.archive_entries hnamed
  refine ⟨l, s, manifest, s.bytes, s.archive.entries, h, h.packed_manifest hnamed hlib ht hmanifest,
    h.cleaned_archive hnamed, h.size, hread.read_finish hdistinct h.finished, hdistinct, hentries,
    h.mem_archive_entries hnamed ht hentries, fun at' => h.cleaned_gone hnamed, ?_, ?_⟩
  · intro at' hcache
    have hne : at' ≠ (plugin.details.path.join plugin.details.archiveName).names := fun he =>
      h.not_cache_prefix_archive hnamed hlib ht (he ▸ hcache)
    obtain ⟨below, rfl⟩ := hcache
    have hroot : ¬plugin.details.root.names <+: l.cachePath.names ++ below :=
      Layout.not_root_prefix_cache h.layout hnamed.name hlib.directory
    rw [h.cleaned_node? hnamed ht hroot, if_neg hne]
  · intro at' hroot hcache hne
    rw [h.cleaned_node? hnamed ht hroot, if_neg hne, h.prepared_node? hnamed hlib ht hroot hcache]
    exact h.staged_made hnamed hroot

/-- A writer that keeps nothing, and refuses what may not fit. -/
def fitting : Archive.Writer := fun entries =>
  if Archive.Fits entries then .ok .empty else .error []

theorem fits_of_finish {archive : Archive} {bytes : ByteArray} (h : archive.finish fitting = .ok bytes) :
    Archive.Fits archive.entries := by
  have hwritten := Archive.finish_eq_ok.1 h
  rw [fitting] at hwritten
  split at hwritten
  · assumption
  · cases hwritten

/-- A build whose archive fits succeeds with every writer that a reader understands. -/
theorem exists_run_of_fitting {read : Archive.Reader} (hread : Archive.Understands read write)
    (hplugin : plugin.Named) (h : (run fitting tools config plugin w).1.isOk) :
    ∃ artifact w', run write tools config plugin w = (.ok artifact, w') := by
  obtain ⟨_, hfitting⟩ := exists_ok_of_isOk h
  obtain ⟨l, s, h⟩ := run_passed (Prod.ext hfitting rfl)
  obtain ⟨_, _, hdistinct, _⟩ := h.archive_entries hplugin
  obtain ⟨bytes, hbytes⟩ := hread.finish_of_fits hdistinct (fits_of_finish h.finished)
  obtain ⟨packed, hpacked⟩ :=
    Tree.exists_write (Files.change_ok (Work.onFiles_ok h.packed).1) bytes
  obtain ⟨cleaned, hcleaned⟩ := Files.exists_removePath_join
    (isEntryName_of_isIdentifier hplugin.name) plugin.details.path packed
  have hfinished : (liftM (s.archive.finish write) : Work ByteArray) s.stripped =
      (.ok bytes, s.stripped) := by
    rw [hbytes]
    rfl
  have hstored : Work.onFiles (Files.write (l.workingRoot.join plugin.details.archiveName) bytes)
      s.stripped = (.ok (), { s.stripped with files := packed }) := by
    rw [Work.onFiles_eq, Files.write, Files.Action.change, hpacked]
    rfl
  have hremoved : Work.onFiles (Files.removePath l.pluginRoot) { s.stripped with files := packed } =
      (.ok (), { s.stripped with files := cleaned }) := by
    rw [Work.onFiles_eq, h.pluginRoot_eq, Details.root, hcleaned]
    rfl
  rw [run_eq, bind_of_ok h.compileProject_eq, bind_of_ok h.packProject_eq, storeArchive,
    bind_of_ok hfinished, bind_of_ok hstored, bind_of_ok hremoved]
  exact ⟨_, _, rfl⟩

/-- The names in the archive of a build that succeeds, found without the bytes of the archive. -/
def packNames (tools : Toolchain) (config : Config) (plugin : Plugin) : Work (List Text) := do
  let l ← compileProject tools config plugin
  let archive ← packProject config plugin l
  discard (storeArchive fitting plugin l archive)
  return archive.names

theorem run_of_packNames {read : Archive.Reader} {names : List Text}
    (hread : Archive.Understands read write) (hplugin : plugin.Named)
    (h : (packNames tools config plugin w).1.toOption = some names) :
    ∃ artifact w' content entries, run write tools config plugin w = (.ok artifact, w') ∧
      w'.files.file? (plugin.details.path.join plugin.details.archiveName).names = some content ∧
      read content = some entries ∧ entries.map Entry.name = names := by
  cases hresult : packNames tools config plugin w with
  | mk result w' =>
    rw [hresult] at h
    cases result with
    | error failure => cases h
    | ok found =>
      cases h
      obtain ⟨l, compiled, hcompiled, hrest⟩ := bind_eq_ok.1 hresult
      obtain ⟨archive, stripped, hpacked, hrest⟩ := bind_eq_ok.1 hrest
      obtain ⟨_, stored, hdiscarded, hnames⟩ := bind_eq_ok.1 hrest
      cases hnames
      obtain ⟨artifact, hstored, -⟩ := map_eq_ok.1 hdiscarded
      have hfitting : (run fitting tools config plugin w).1.isOk := by
        rw [run_eq, bind_of_ok hcompiled, bind_of_ok hpacked, hstored]
        rfl
      obtain ⟨artifact', w'', hrun⟩ := exists_run_of_fitting hread hplugin hfitting
      obtain ⟨l', s, hpassed⟩ := run_passed hrun
      cases hpassed.compileProject_eq.symm.trans hcompiled
      cases hpassed.packProject_eq.symm.trans hpacked
      obtain ⟨_, _, hdistinct, _⟩ := hpassed.archive_entries hplugin
      exact ⟨artifact', w'', s.bytes, s.archive.entries, hrun, hpassed.cleaned_archive hplugin,
        hread.read_finish hdistinct hpassed.finished, rfl⟩

def checkOut (destination : Path) (t : Tree) : Except Files.Error Tree :=
  let directory := destination.join Config.libraryDirectory
  (t.makeDirectory destination).bind fun t =>
    (t.makeDirectory directory).bind fun t =>
      t.write (directory.join "Util.java") (Text.toUtf8 "class Util {}")

/-- Tools that fetch a library of one class, and compile an entry point to a class beside it. -/
def plainTools (d : Details) : Toolchain where
  fetch _ _ destination := (Files.Action.change (checkOut destination)).adapt .files
  compile _ _ :=
    (Files.write (d.packageDirectory.join "Plugin.class") ⟨#[0xCA, 0xFE, 0xBA, 0xBE]⟩).adapt .files

theorem checkOut_sameOutside {destination : Path} {t t' : Tree} (h : checkOut destination t = .ok t') :
    t.SameOutside destination.names t' := by
  rw [checkOut] at h
  cases hmade : t.makeDirectory destination with
  | error e =>
    rw [hmade] at h
    cases h
  | ok made =>
    rw [hmade] at h
    cases hinner : made.makeDirectory (destination.join Config.libraryDirectory) with
    | error e =>
      rw [Except.bind, hinner] at h
      cases h
    | ok inner =>
      rw [Except.bind, hinner] at h
      have hwritten : Tree.Written inner _ _ t' := Tree.write_written h
      have hlibrary : destination.names <+: (destination.join Config.libraryDirectory).names := by
        rw [names_join (by decide)]
        exact List.prefix_append _ _
      refine ((Tree.makeDirectory_sameOutside hmade List.prefix_rfl).trans
        (Tree.makeDirectory_sameOutside hinner hlibrary)).trans (hwritten.sameOutside ?_)
      rw [names_join (by decide)]
      exact hlibrary.trans (List.prefix_append _ _)

theorem plainTools_keepsOutside (hn : Java.isIdentifier d.name)
    (hp : Java.isQualifiedName d.package) : (plainTools d).KeepsOutside d where
  fetch := by
    intro l library destination t t' h
    exact checkOut_sameOutside (Files.change_ok (adapt_ok h))
  compile := by
    intro l t t' h
    have hwritten := Tree.write_written (Files.write_ok (adapt_ok h))
    apply hwritten.sameOutside
    rw [names_join (by decide)]
    exact (Details.prefix_sourceRoot_packageDirectory hn hp).trans (List.prefix_append _ _)

/-- A plugin with one command, begun where no files are. -/
def greeting : Project :=
  (Project.register hello ⟨demo.plugin, .empty⟩).2

theorem reachable_greeting : greeting.plugin.Reachable := by
  have hregistered : Project.register hello ⟨demo.plugin, .empty⟩ =
      ((Project.register hello ⟨demo.plugin, .empty⟩).1, greeting) := rfl
  exact .registered (.begun begun_demo) hregistered

/-- Settings by which an archive keeps all content as it is. -/
def storing : Config :=
  { Config.bare with compression := .stored }

theorem isPlain_default : Config.bare.library.IsPlain :=
  ⟨by decide, by decide⟩

theorem isPlain_storing : storing.library.IsPlain :=
  isPlain_default

theorem run_leaves_greeting :
    greeting.plugin.Reachable ∧ storing.library.IsPlain ∧
      (plainTools greeting.plugin.details).KeepsOutside greeting.plugin.details ∧
      ∃ artifact w' content entries,
        run Archive.Zip.write (plainTools greeting.plugin.details) storing greeting.plugin
          (.ofFiles greeting.files) = (.ok artifact, w') ∧
        w'.files.file? ["Demo.jar".toList] = some content ∧
        Archive.Zip.read content = some entries ∧
        entries.map Entry.name =
          ["META-INF/", "META-INF/MANIFEST.MF", "plugin.yml", "com/", "com/Demo/",
            "com/Demo/Plugin.class", "com/Demo/commands/"] ∧
        w'.files.node? ["Demo".toList] = none := by
  have hnamed := reachable_greeting.named
  have ht := plainTools_keepsOutside hnamed.name hnamed.package
  have hnames : (packNames (plainTools greeting.plugin.details) storing greeting.plugin
      (.ofFiles greeting.files)).1.toOption =
        some (["META-INF/", "META-INF/MANIFEST.MF", "plugin.yml", "com/", "com/Demo/",
          "com/Demo/Plugin.class", "com/Demo/commands/"] : List Text) := by decide +kernel
  obtain ⟨artifact, w', content, entries, hrun, hfile, hentries, hnames⟩ :=
    run_of_packNames Archive.Zip.understands hnamed hnames
  obtain ⟨_, _, _, content', entries', -, -, harchive, -, hread, -, -, -, hgone, -⟩ :=
    run_leaves Archive.Zip.understands reachable_greeting isPlain_storing ht hrun
  cases hfile.symm.trans harchive
  cases hentries.symm.trans hread
  have hplace : (greeting.plugin.details.path.join greeting.plugin.details.archiveName).names =
      ["Demo.jar".toList] := by decide +kernel
  have hroot : greeting.plugin.details.root.names = ["Demo".toList] := by decide +kernel
  rw [hplace] at harchive
  exact ⟨reachable_greeting, isPlain_storing, ht, artifact, w', content, entries, hrun, harchive, hread,
    hnames, hgone _ (hroot ▸ List.prefix_rfl)⟩

/-- A plugin whose path makes a detour to the directory beside. -/
def detour : Plugin :=
  ⟨{ Details.ofName "Demo" with path := ⟨"a/../b"⟩ }, [], [], .ofPackage "com.Demo", false, false⟩

/-- The files that a detour is followed in: there is only the directory that it ends at. -/
def detourFiles : Tree :=
  Tree.empty.put ["b".toList] .directory

/-- A directory that a path passes through is created, though it holds nothing of the build. -/
theorem run_creates_way :
    detour.Reachable ∧ storing.library.IsPlain ∧
      (plainTools detour.details).KeepsOutside detour.details ∧
      ∃ artifact w', run Archive.Zip.write (plainTools detour.details) storing detour
          (.ofFiles detourFiles) = (.ok artifact, w') ∧
        detour.details.path.names = ["b".toList] ∧
        detourFiles.node? ["a".toList] = none ∧
        w'.files.node? ["a".toList] = some .directory := by
  have hbegun : Plugin.ofDetails { Details.ofName "Demo" with path := ⟨"a/../b"⟩ } = .ok detour := by
    rfl
  have hreach : detour.Reachable := .begun hbegun
  obtain ⟨artifact, hresult⟩ := exists_ok_of_isOk
    (x := (run Archive.Zip.write (plainTools detour.details) storing detour (.ofFiles detourFiles)).1)
    (by decide +kernel)
  refine ⟨hreach, isPlain_storing, plainTools_keepsOutside hreach.named.name hreach.named.package,
    artifact, _, Prod.ext hresult rfl, by decide +kernel, ?_, ?_⟩
  · exact Option.isNone_iff_eq_none.1 (by decide +kernel)
  · exact Node.isDirectory_iff.1 (by decide +kernel)

end Assembly

end PluginForge.Build
