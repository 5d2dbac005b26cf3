import PluginForge.Proofs.Build.Keeps
import PluginForge.Proofs.Build.Library
import PluginForge.Proofs.Build.Packing
import PluginForge.Proofs.Build.Registered
import PluginForge.Proofs.Plugin.Failure

namespace PluginForge

open Files (Location Node OnWay Path Tree isEntryName names_join prefix_siblings)

/-- What holds of every command with a valid name that is stamped for a plugin holds of all commands that
the plugin has taken up. -/
theorem Plugin.Reachable.forall_commands {P : Details → Command → Prop} {p : Plugin}
    (hP : ∀ d (c : Command), Java.isIdentifier c.name → P d (c.stamp d.qualifiedName)) (h : p.Reachable) :
    ∀ c ∈ p.commands, P p.details c := by
  induction h with
  | begun h =>
    rw [(ofDetails_ok h).2.2.2]
    exact nofun
  | ensured _ h ih =>
    rw [(Project.ensure_commands h).1, (Project.ensure_commands h).2]
    exact ih
  | registered _ h ih =>
    obtain ⟨hdetails, hcommands | ⟨hn, hcommands⟩⟩ := Project.register_commands h
    · rw [hdetails, hcommands]
      exact ih
    · rw [hdetails, hcommands]
      intro c hc
      rcases List.mem_append.1 hc with hc | hc
      · exact ih c hc
      · rw [List.mem_singleton.1 hc]
        exact hP _ _ hn
  | scheduled _ ih => exact ih

theorem Plugin.Reachable.details_valid {p : Plugin} (h : p.Reachable) :
    Java.isIdentifier p.details.name ∧ Java.isQualifiedName p.details.package := by
  induction h with
  | begun h =>
    obtain ⟨hname, hpackage, -, rfl⟩ := ofDetails_ok h
    exact ⟨hname, hpackage⟩
  | ensured _ h ih =>
    rw [(Project.ensure_commands h).1]
    exact ih
  | registered _ h ih =>
    rw [(Project.register_commands h).1]
    exact ih
  | scheduled _ ih => exact ih

theorem Plugin.Reachable.named {p : Plugin} (h : p.Reachable) : p.Named where
  name := h.details_valid.1
  package := h.details_valid.2
  commands := h.forall_commands (P := fun _ c => Java.isIdentifier c.name) fun _ _ hn => hn

theorem Plugin.Reachable.distinct {p : Plugin} (h : p.Reachable) :
    p.commandClasses = p.commands.map Command.name ∧ (p.commands.map Command.name).Nodup := by
  induction h with
  | begun h =>
    rw [(ofDetails_ok h).2.2.2]
    exact ⟨rfl, .nil⟩
  | @ensured p files result project _ h ih =>
    cases result with
    | error failure =>
      rw [(Project.ensure_error h).2]
      exact ih
    | ok _ =>
      rw [(Project.ensure_ok h).1]
      exact ih
  | @registered p c files result project _ h ih =>
    cases result with
    | error failure =>
      rw [Project.register_error h, Project.abandoned]
      split
      · split <;> exact ih
      · exact ih
    | ok _ =>
      obtain ⟨-, hfresh, hplugin⟩ := Project.register_ok h
      have hnew : c.name ∉ p.commands.map Command.name := by
        rw [← ih.1]
        exact hfresh
      have hname : (c.stamp p.details.qualifiedName).name = c.name := rfl
      rw [hplugin, Project.attached_commandClasses, Project.attached_commands, List.map_append,
        List.map_singleton, hname]
      constructor
      · exact congrArg (· ++ [c.name]) ih.1
      · rw [← List.concat_eq_append, List.nodup_concat]
        exact ⟨hnew, ih.2⟩
  | scheduled _ ih => exact ih

theorem Plugin.Reachable.nodup_registeredNames {p : Plugin} (h : p.Reachable) :
    (Build.Assembly.registeredNames p).Nodup :=
  h.distinct.2.sublist (List.filter_sublist.map Command.name)

theorem Plugin.Reachable.stamped {p : Plugin} (h : p.Reachable) :
    ∀ c ∈ p.commands, ∀ commandClass, c.commandClass = some commandClass →
      commandClass.package = p.details.qualifiedName ++ ".commands" := by
  apply h.forall_commands (P := fun d c => ∀ commandClass, c.commandClass = some commandClass →
    commandClass.package = d.qualifiedName ++ ".commands")
  intro d c _ commandClass hclass
  rw [commandClass_stamp] at hclass
  obtain ⟨given, -, rfl⟩ := Option.map_eq_some_iff.1 hclass
  rfl

namespace Build

section Layout

variable {d : Details} {l : Layout} {library : Config.Library} {below : Location}

theorem Layout.not_cache_prefix_root (hl : ofDetails library d = .ok l)
    (hn : Java.isIdentifier d.name) (hd : isEntryName library.directory) :
    ¬l.cachePath.names <+: d.root.names ++ below := by
  obtain ⟨hne, -, -, hcache, -⟩ := ofDetails_ok hl
  rw [hcache, names_join hd, Details.names_root hn, List.append_assoc, List.singleton_append,
    prefix_siblings]
  exact hne.symm

theorem Layout.not_root_prefix_cache (hl : ofDetails library d = .ok l)
    (hn : Java.isIdentifier d.name) (hd : isEntryName library.directory) :
    ¬d.root.names <+: l.cachePath.names ++ below := by
  obtain ⟨hne, -, -, hcache, -⟩ := ofDetails_ok hl
  rw [hcache, names_join hd, Details.names_root hn, List.append_assoc, List.singleton_append,
    prefix_siblings]
  exact hne

end Layout

variable {at' : Location} {artifact : Artifact} {config : Config} {l : Layout} {plugin : Plugin}
  {tools : Toolchain} {w w' : Workshop} {write : Archive.Writer}

theorem Work.writeText_written {p : Path} {text : Text}
    (h : Work.onFiles (Files.writeText p text) w = (.ok (), w')) :
    Tree.Written w.files p (Text.toUtf8 text) w'.files :=
  Tree.write_written (Files.writeText_ok (Work.onFiles_ok h).1)

theorem Work.ensureDirectory_made {p : Path}
    (h : Work.onFiles (Files.ensureDirectory p) w = (.ok (), w')) :
    w.files.Made (OnWay p) w'.files := by
  have hmade := Files.ensureDirectory_made p w.files
  rwa [(Work.onFiles_ok h).1] at hmade

/-- Whatever is not at or below a place in the files of a workshop is as it was. -/
def Workshop.SameOutside (place : Location) (w w' : Workshop) : Prop :=
  w.files.SameOutside place w'.files

instance {place : Location} : IsPreorder Workshop (Workshop.SameOutside place) where
  refl w := .refl place w.files
  trans _ _ _ h h' := Tree.SameOutside.trans h h'

namespace Assembly

theorem writeCommands_node (hat : ∀ entry ∈ commandFiles plugin, entry.1.names ≠ at')
    (h : writeCommands plugin w = (.ok (), w')) : w'.files.node? at' = w.files.node? at' := by
  rw [writeCommands] at h
  apply forM_preserves (R := fun w w' : Workshop => w'.files.node? at' = w.files.node? at')
    (fun _ => rfl) (fun _ _ _ h h' => h'.trans h) _ h
  intro c hc w w' hstep
  cases hclass : c.commandClass with
  | none =>
    rw [hclass] at hstep
    cases hstep
    rfl
  | some commandClass =>
    rw [hclass] at hstep
    have hne := hat _ (mem_commandFiles hc hclass)
    rw [(Work.writeText_written hstep).node, if_neg (Ne.symm hne)]

theorem buildManifestDirectory_node {content : ByteArray} {t entered made : Tree}
    (hplugin : plugin.Named) (hl : l.pluginRoot = plugin.details.root)
    (hentry : t.Written plugin.details.entryPointPath content entered)
    (hmade : entered.Made (OnWay (buildManifestDirectory l)) made)
    (hat : at' ≠ (buildManifestDirectory l).names) : made.node? at' = entered.node? at' := by
  rcases hmade at' with hsame | ⟨⟨way, hway, hplace⟩, hnone, -⟩
  · exact hsame
  rw [buildManifestDirectory, hl, Files.steps_join (by decide), List.prefix_concat_iff] at hway
  rcases hway with rfl | hway
  · rw [buildManifestDirectory, hl, Files.names_eq_follow, Files.steps_join (by decide)] at hat
    exact absurd hplace hat
  · have hsteps : plugin.details.root.steps <+: plugin.details.packageDirectory.steps := by
      rw [Details.steps_packageDirectory hplugin.name hplugin.package]
      exact List.prefix_append _ _
    obtain ⟨hwalk, hd⟩ := Tree.walk_of_target_join (by decide) hentry.target
    cases (Tree.node?_onWay hwalk hd ⟨way, hway.trans hsteps, hplace⟩).symm.trans hnone

/-- Writing the sources changes nothing but the source files, and the directory of the build manifest. -/
theorem writeSources_node (hplugin : plugin.Named) (hl : l.pluginRoot = plugin.details.root)
    (hat : ∀ entry ∈ sourceFiles plugin l, entry.1.names ≠ at')
    (hmeta : at' ≠ (buildManifestDirectory l).names)
    (h : writeSources plugin l w = (.ok (), w')) : w'.files.node? at' = w.files.node? at' := by
  rw [writeSources] at h
  obtain ⟨_, commanded, hcommands, h⟩ := bind_eq_ok.1 h
  obtain ⟨_, entered, hentry, h⟩ := bind_eq_ok.1 h
  rw [writeBuildManifest] at h
  obtain ⟨_, made, hmade, hmanifest⟩ := bind_eq_ok.1 h
  have hentry := Work.writeText_written hentry
  have hmade := Work.ensureDirectory_made hmade
  have hmanifest := Work.writeText_written hmanifest
  have hmanifestPath := hat _ (List.mem_append_right _ (List.mem_cons_of_mem _ List.mem_cons_self))
  have hentryPath := hat _ (List.mem_append_right _ List.mem_cons_self)
  have hcommands := writeCommands_node (fun entry hentry => hat entry (List.mem_append_left _ hentry))
    hcommands
  have hmade' := buildManifestDirectory_node hplugin hl hentry hmade hmeta
  rw [hmanifest.node, if_neg (Ne.symm hmanifestPath), hmade', hentry.node, if_neg (Ne.symm hentryPath),
    hcommands]

theorem keeps_writeSources {R : Workshop → Workshop → Prop} [IsPreorder Workshop R]
    (hplugin : plugin.Named) (hl : l.pluginRoot = plugin.details.root)
    (hwrite : ∀ (p : Path) text, plugin.details.root.names <+: p.names →
      Keeps R (Work.onFiles (Files.writeText p text)))
    (hmade : ∀ t content (entered : Workshop),
      Tree.Written t plugin.details.entryPointPath content entered.files →
        R entered (Work.onFiles (Files.ensureDirectory (buildManifestDirectory l)) entered).2) :
    Keeps R (writeSources plugin l) := by
  have hcommands : Keeps R (writeCommands plugin) := by
    apply Keeps.forM
    intro c hc
    split
    · exact .pure _
    · apply hwrite
      exact Details.prefix_commandPath hplugin.name hplugin.package (hplugin.commands c hc)
  have hmanifest : Keeps R (Work.onFiles
      (Files.writeText ((buildManifestDirectory l).join BuildManifest.fileName)
        (BuildManifest.text plugin.details.mainClass))) := by
    apply hwrite
    rw [names_buildManifest hl]
    exact List.prefix_append _ _
  apply hcommands.bind
  intro _
  have hentry := hwrite plugin.details.entryPointPath
    (plugin.entryPoint.source (registeredNames plugin))
    (Details.prefix_entryPointPath hplugin.name hplugin.package)
  apply hentry.bind_of_ok
  intro commanded _ entered hentered
  rw [writeBuildManifest]
  apply Keeps.bind_at
  · exact hmade _ _ entered (Work.writeText_written hentered)
  · intro _ made _
    exact hmanifest made

theorem keepsOutside_writeSources (hplugin : plugin.Named) (hl : l.pluginRoot = plugin.details.root) :
    Keeps (Workshop.SameOutside plugin.details.root.names) (writeSources plugin l) := by
  refine keeps_writeSources hplugin hl ?_ ?_
  · intro p text hp
    apply Keeps.onFiles
    intro w
    rcases Files.write_cases p (Text.toUtf8 text) w.files with h | h
    · rw [Files.writeText, h]
      exact .refl _ _
    · exact h.sameOutside hp
  · intro t content entered hentered at' hat
    have hmade := Files.ensureDirectory_made (buildManifestDirectory l) entered.files
    apply buildManifestDirectory_node hplugin hl hentered hmade
    rintro rfl
    rw [names_buildManifestDirectory hl] at hat
    exact hat (List.prefix_append _ _)

theorem writeSources_sameOutside (hplugin : plugin.Named) (hl : l.pluginRoot = plugin.details.root)
    (h : writeSources plugin l w = (.ok (), w')) :
    w.files.SameOutside plugin.details.root.names w'.files := by
  have hkeeps := keepsOutside_writeSources hplugin hl w
  rwa [h] at hkeeps

theorem writeSources_buildManifest (h : writeSources plugin l w = (.ok (), w')) :
    w'.files.read ((buildManifestDirectory l).join BuildManifest.fileName) =
      .ok (Text.toUtf8 (BuildManifest.text plugin.details.mainClass)) := by
  rw [writeSources] at h
  obtain ⟨_, _, -, h⟩ := bind_eq_ok.1 h
  obtain ⟨_, _, -, h⟩ := bind_eq_ok.1 h
  rw [writeBuildManifest] at h
  obtain ⟨_, _, -, hmanifest⟩ := bind_eq_ok.1 h
  exact (Work.writeText_written hmanifest).read

theorem names_ne_manifestPath (hplugin : plugin.Named) (hl : l.pluginRoot = plugin.details.root) :
    ∀ entry ∈ sourceFiles plugin l, entry.1.names ≠ plugin.details.manifestPath.names := by
  intro entry hmem he
  have hdepth := Details.length_packageDirectory hplugin.name hplugin.package
  have hlength := congrArg List.length he
  rw [Details.names_manifestPath, List.length_append, List.length_singleton] at hlength
  rcases List.mem_append.1 hmem with hmem | hmem
  · have hpath : entry.1 ∈ (commandFiles plugin).map Prod.fst := List.mem_map_of_mem hmem
    rw [map_fst_commandFiles] at hpath
    obtain ⟨name, hname, hpath⟩ := List.mem_map.1 hpath
    obtain ⟨c, hc, rfl⟩ := List.mem_map.1 hname
    have hidentifier := hplugin.commands c (List.mem_of_mem_filter hc)
    rw [← hpath, Details.names_commandPath hidentifier, Details.names_commandsDirectory] at hlength
    simp only [List.length_append, List.length_singleton] at hlength
    omega
  · simp only [List.mem_cons, List.not_mem_nil, or_false] at hmem
    rcases hmem with rfl | rfl
    · rw [Details.names_entryPointPath, List.length_append, List.length_singleton] at hlength
      omega
    · rw [names_buildManifest hl, List.length_append] at hlength
      simp only [List.length_cons, List.length_nil] at hlength
      omega

namespace Stages.Passed

variable {s : Stages} (h : s.Passed write tools config plugin l artifact w w')

include h

theorem begun_steps : ∃ made, w.files.Made (OnWay plugin.details.packageDirectory) made ∧
    if plugin.hasManifest then s.begun.files = made
    else made.write plugin.details.manifestPath (Text.toUtf8 plugin.details.header.text) =
      .ok s.begun.files := by
  have hbegun := h.begun
  rw [ensureProject] at hbegun
  cases hensure : Project.ensure ⟨plugin, w.files⟩ with
  | mk result project =>
    rw [hensure] at hbegun
    obtain ⟨hresult, hfiles⟩ := Prod.mk.inj hbegun
    rw [hresult] at hensure
    rw [← hfiles]
    exact (Project.ensure_steps hensure).2

theorem pluginRoot_eq : l.pluginRoot = plugin.details.root :=
  (Layout.ofDetails_ok h.layout).2.2.1

variable (hplugin : plugin.Named)

include hplugin

omit hplugin in
/-- In front of the support library, nothing changes but the manifest and the way to the classes of the
commands. -/
theorem staged_node (hat : at' ≠ plugin.details.manifestPath.names) :
    Tree.MadeIf (OnWay plugin.details.commandsDirectory at') (w.files.node? at')
      (s.staged.files.node? at') := by
  obtain ⟨made, hmade, hbegun⟩ := h.begun_steps
  have hsame : s.begun.files.node? at' = made.node? at' := by
    split at hbegun
    · rw [hbegun]
    · rw [(Tree.write_written hbegun).node, if_neg hat]
  have hfirst := (hmade at').mono fun hway => hway.mono Details.steps_packageDirectory_isPrefixOf
  have hsecond := Work.ensureDirectory_made h.staged at'
  rw [hsame] at hsecond
  exact hfirst.trans hsecond

theorem staged_made (hat : ¬plugin.details.root.names <+: at') :
    Tree.MadeIf (OnWay plugin.details.path at') (w.files.node? at') (s.staged.files.node? at') := by
  have hne : at' ≠ plugin.details.manifestPath.names := by
    rintro rfl
    rw [Details.names_manifestPath] at hat
    exact hat (List.prefix_append _ _)
  apply (h.staged_node hne).mono
  intro hway
  exact (Details.onWay_commandsDirectory hplugin.name hplugin.package hway).resolve_right hat

omit hplugin in
theorem staged_manifest :
    s.staged.files.file? plugin.details.manifestPath.names =
      if plugin.hasManifest then w.files.file? plugin.details.manifestPath.names
      else some (Text.toUtf8 plugin.details.header.text) := by
  obtain ⟨made, hmade, hbegun⟩ := h.begun_steps
  rw [(Work.ensureDirectory_made h.staged).grown.file]
  split at hbegun
  · next hm => rw [if_pos hm, hbegun, hmade.grown.file]
  · next hm => rw [if_neg hm, (Tree.write_written hbegun).file?, if_pos rfl]

section Library

variable (hlib : config.library.IsPlain) (ht : tools.KeepsOutside plugin.details)

include hlib ht

theorem prepared_library : s.prepared.files.node? l.cachePath.names = some .directory :=
  (SupportLibrary.ensure_ok hlib ht (isEntryName_of_isIdentifier hplugin.name) h.layout h.prepared).1

theorem prepared_node? (hat : ¬plugin.details.root.names <+: at')
    (hcache : ¬l.cachePath.names <+: at') :
    s.prepared.files.node? at' = s.staged.files.node? at' := by
  obtain ⟨-, ⟨-, hsame⟩ | ⟨-, hrenamed⟩⟩ := SupportLibrary.ensure_ok hlib ht
    (isEntryName_of_isIdentifier hplugin.name) h.layout h.prepared
  · exact hsame at' hcache
  · rw [names_join hlib.directory] at hrenamed
    exact hrenamed.outside at' (fun hp => hat ((List.prefix_append _ _).trans hp)) hcache

/-- The manifest is no part of a support library that is moved out of the project. -/
theorem prepared_manifest :
    s.prepared.files.file? plugin.details.manifestPath.names =
      s.staged.files.file? plugin.details.manifestPath.names := by
  have hcache : ¬l.cachePath.names <+: plugin.details.manifestPath.names := by
    rw [Details.names_manifestPath]
    exact Layout.not_cache_prefix_root h.layout hplugin.name hlib.directory
  rw [Tree.file?, Tree.file?]
  obtain ⟨-, ⟨-, hsame⟩ | ⟨-, hrenamed⟩⟩ := SupportLibrary.ensure_ok hlib ht
    (isEntryName_of_isIdentifier hplugin.name) h.layout h.prepared
  · rw [hsame _ hcache]
  · have hstray : (plugin.details.root.join config.library.directory).names =
        plugin.details.root.names ++ [config.library.directory] := names_join hlib.directory
    rw [hstray] at hrenamed
    by_cases he : config.library.directory = Manifest.fileName
    · rw [Details.names_manifestPath, ← he] at hcache ⊢
      rw [hrenamed.moved, hrenamed.gone _ List.prefix_rfl hcache]
      rfl
    · rw [hrenamed.outside _ (fun hp => he ?_) hcache]
      rwa [Details.names_manifestPath, prefix_siblings] at hp

end Library

theorem written_sameOutside :
    s.prepared.files.SameOutside plugin.details.root.names s.written.files :=
  writeSources_sameOutside hplugin h.pluginRoot_eq h.written

theorem written_manifest :
    s.written.files.file? plugin.details.manifestPath.names =
      s.prepared.files.file? plugin.details.manifestPath.names :=
  (writeSources_ok h.written).1.file?_eq (names_ne_manifestPath hplugin h.pluginRoot_eq)

omit hplugin in
theorem compiled_sameOutside (ht : tools.KeepsOutside plugin.details) :
    s.written.files.SameOutside plugin.details.sourceRoot.names s.compiled.files :=
  ht.compile _ _ _ (Work.compile_ok h.compiled).1

/-- The sources are deleted, since packing would have failed if they could not be found. -/
theorem stripped_files :
    s.stripped.files =
      (Files.withExtension s.compiled.files plugin.details.sourceRoot.names
        Details.sourceExtension).foldl Tree.remove s.compiled.files := by
  obtain ⟨-, node, -, hfind, -⟩ := pack_ok hplugin.package h.archive
  obtain ⟨count, hstripped⟩ := h.stripped
  have hfiles : (Files.removeWithExtension plugin.details.sourceRoot Details.sourceExtension
      s.compiled.files).2 = s.stripped.files := by
    rw [(Work.onFiles_ok hstripped).1]
  cases hfound : s.compiled.files.find plugin.details.sourceRoot with
  | error e =>
    rw [Files.removeWithExtension, hfound] at hfiles
    rw [← hfiles, hfound] at hfind
    cases hfind
  | ok found =>
    obtain ⟨place, node'⟩ := found
    rw [Tree.target_eq_names (Tree.find_eq_ok.1 hfound).1] at hfound
    rw [← hfiles, Files.removeWithExtension_found hfound]

omit hplugin in
theorem stripped_sameOutside :
    s.compiled.files.SameOutside plugin.details.sourceRoot.names s.stripped.files := by
  obtain ⟨count, hstripped⟩ := h.stripped
  have hsame := Files.sameOutside_removeWithExtension plugin.details.sourceRoot
    Details.sourceExtension s.compiled.files
  rwa [(Work.onFiles_ok hstripped).1] at hsame

omit hplugin in
theorem packed_written :
    Tree.Written s.stripped.files (plugin.details.path.join plugin.details.archiveName)
      s.bytes s.packed.files := by
  have hpacked := h.packed
  rw [(Layout.ofDetails_ok h.layout).2.1] at hpacked
  exact Tree.write_written (Files.write_ok (Work.onFiles_ok hpacked).1)

omit hplugin in
theorem cleaned_files :
    w'.files = (Files.removePath plugin.details.root s.packed.files).2 := by
  have hcleaned := h.cleaned
  rw [h.pluginRoot_eq] at hcleaned
  rw [h.files, (Work.onFiles_ok hcleaned).1]

theorem cleaned_gone (hat : plugin.details.root.names <+: at') : w'.files.node? at' = none := by
  obtain ⟨manifest, -, hread, -⟩ := pack_ok hplugin.package h.archive
  rw [h.pluginRoot_eq] at hread
  have hname := isEntryName_of_isIdentifier hplugin.name
  have hkeep := (h.packed_written).keepsDirectories
  obtain ⟨htarget, hd⟩ := Tree.target_of_join hname (by decide) (Tree.read_eq_ok.1 hread).1
  have hfound : s.packed.files.isDirectory plugin.details.root :=
    Tree.isDirectory_iff.2 ⟨Tree.target_keep hkeep htarget, hkeep _ hd⟩
  rw [h.cleaned_files]
  exact (Files.removePath_join hname hfound at').trans (if_pos hat)

theorem stripped_node? (ht : tools.KeepsOutside plugin.details)
    (hat : ¬plugin.details.root.names <+: at') :
    s.stripped.files.node? at' = s.prepared.files.node? at' := by
  have hsources : ¬plugin.details.sourceRoot.names <+: at' := by
    intro hp
    rw [Details.names_sourceRoot hplugin.package] at hp
    exact hat ((List.prefix_append _ _).trans hp)
  rw [h.stripped_sameOutside at' hsources, h.compiled_sameOutside ht at' hsources,
    h.written_sameOutside hplugin at' hat]

theorem cleaned_archive :
    w'.files.file? (plugin.details.path.join plugin.details.archiveName).names = some s.bytes := by
  rw [Tree.file?, h.cleaned_files, Files.sameOutside_removePath plugin.details.root s.packed.files _
    (Details.not_root_prefix_archive hplugin.name), h.packed_written.node, if_pos rfl]
  rfl

theorem cleaned_node? (ht : tools.KeepsOutside plugin.details)
    (hat : ¬plugin.details.root.names <+: at') :
    w'.files.node? at' =
      if at' = (plugin.details.path.join plugin.details.archiveName).names then
        some (.file s.bytes)
      else s.prepared.files.node? at' := by
  rw [h.cleaned_files, Files.sameOutside_removePath plugin.details.root s.packed.files at' hat,
    h.packed_written.node, h.stripped_node? hplugin ht hat]

end Stages.Passed

end Assembly

end Build

end PluginForge
