import PluginForge.Archive.Zip
import PluginForge.Proofs.Build.Obstacles

namespace PluginForge

open Files (Path Writes)

theorem Details.length_packageDirectory {d : Details} (hn : Java.isIdentifier d.name)
    (hp : Java.isQualifiedName d.package) :
    d.root.names.length + 2 ≤ d.packageDirectory.names.length := by
  have hne : 0 < d.packageSegments.length :=
    List.length_pos_iff.2 (Text.splitOn_ne_nil '.' d.package)
  rw [names_packageDirectory hn hp, List.length_append, List.length_append, List.length_singleton]
  omega

/-- The names of a plugin and of its commands are identifiers. -/
structure Plugin.Named (p : Plugin) : Prop where
  name : Java.isIdentifier p.details.name
  package : Java.isQualifiedName p.details.package
  commands : ∀ c ∈ p.commands, Java.isIdentifier c.name

theorem Plugin.Named.scheduled {p : Plugin} (h : p.Named) : { p with isScheduled := true }.Named :=
  ⟨h.name, h.package, h.commands⟩

theorem Plugin.Consistent.named {p : Plugin} (h : p.Consistent) : p.Named where
  name := h.name
  package := h.package
  commands := by
    intro c hc
    apply h.valid
    rw [h.classes]
    exact List.mem_map_of_mem hc

namespace Build

variable {c : Command} {commandClass : CommandClass} {name : Text} {d : Details} {l : Layout}
  {library : Config.Library} {plugin : Plugin}

namespace Assembly

theorem map_fst_commandFiles (plugin : Plugin) :
    (commandFiles plugin).map Prod.fst =
      (registeredNames plugin).map plugin.details.commandPath := by
  rw [commandFiles, registeredNames, Plugin.runnable]
  induction plugin.commands with
  | nil => rfl
  | cons c commands ih =>
    rw [List.filterMap_cons, List.filter_cons]
    cases c.commandClass with
    | none => exact ih
    | some commandClass => exact congrArg (plugin.details.commandPath c.name :: ·) ih

theorem map_fst_sourceFiles (plugin : Plugin) (l : Layout) :
    (sourceFiles plugin l).map Prod.fst =
      (registeredNames plugin).map plugin.details.commandPath ++
        [plugin.details.entryPointPath, (buildManifestDirectory l).join BuildManifest.fileName] := by
  rw [sourceFiles, List.map_append, map_fst_commandFiles]
  rfl

theorem mem_commandFiles (hc : c ∈ plugin.commands) (hclass : c.commandClass = some commandClass) :
    (plugin.details.commandPath c.name, Text.toUtf8 commandClass.source) ∈ commandFiles plugin :=
  List.mem_filterMap.2 ⟨c, hc, by rw [hclass]; rfl⟩

theorem registeredNames_sublist (h : plugin.Consistent) :
    (registeredNames plugin).Sublist plugin.commandClasses := by
  rw [h.classes]
  exact List.filter_sublist.map Command.name

theorem isIdentifier_of_mem_registeredNames (h : plugin.Consistent)
    (hn : name ∈ registeredNames plugin) : Java.isIdentifier name :=
  h.valid name ((registeredNames_sublist h).subset hn)

theorem names_commandFiles (h : plugin.Named) :
    (commandFiles plugin).map (fun entry => entry.1.names) =
      (registeredNames plugin).map fun name =>
        plugin.details.commandsDirectory.names ++ [Details.sourceName name] := by
  have hmap : (commandFiles plugin).map (fun entry => entry.1.names) =
      ((commandFiles plugin).map Prod.fst).map Files.Path.names := by
    rw [List.map_map]
    rfl
  rw [hmap, map_fst_commandFiles, List.map_map]
  apply List.map_congr_left
  intro name hn
  obtain ⟨c, hc, rfl⟩ := List.mem_map.1 hn
  exact Details.names_commandPath (h.commands c (List.mem_of_mem_filter hc))

theorem names_buildManifestDirectory (hl : l.pluginRoot = d.root) :
    (buildManifestDirectory l).names = d.root.names ++ [BuildManifest.directory] := by
  rw [buildManifestDirectory, hl, Files.names_join (by decide)]

theorem names_buildManifest (hl : l.pluginRoot = d.root) :
    ((buildManifestDirectory l).join BuildManifest.fileName).names =
      d.root.names ++ [BuildManifest.directory, BuildManifest.fileName] := by
  rw [Files.names_join (by decide), names_buildManifestDirectory hl, List.append_assoc]
  rfl

theorem length_names_rest (h : plugin.Named) (hl : l.pluginRoot = plugin.details.root) :
    plugin.details.entryPointPath.names.length < plugin.details.commandsDirectory.names.length + 1 ∧
      ((buildManifestDirectory l).join BuildManifest.fileName).names.length <
        plugin.details.entryPointPath.names.length := by
  have hlength := Details.length_packageDirectory h.name h.package
  rw [Details.names_commandsDirectory, Details.names_entryPointPath, names_buildManifest hl]
  simp only [List.length_append, List.length_cons, List.length_nil]
  omega

/-- The command classes lie in one directory and differ by their names; the other two files lie higher. -/
theorem nodup_names_sourceFiles (h : plugin.Named) (hd : (registeredNames plugin).Nodup)
    (hl : l.pluginRoot = plugin.details.root) :
    ((sourceFiles plugin l).map fun entry => entry.1.names).Nodup := by
  obtain ⟨hentry, hmanifest⟩ := length_names_rest h hl
  rw [sourceFiles, List.map_append, names_commandFiles h, List.nodup_append]
  refine ⟨?_, ?_, ?_⟩
  · apply List.pairwise_map.2
    apply hd.imp
    intro a b hab he
    exact hab (sourceName_injective (List.singleton_inj.1 (List.append_cancel_left he)))
  · rw [List.map_cons, List.map_singleton, List.nodup_cons, List.mem_singleton]
    exact ⟨fun he => absurd (congrArg List.length he) (Nat.ne_of_gt hmanifest),
      List.pairwise_singleton _ _⟩
  · intro a ha b hb he
    obtain ⟨name, -, rfl⟩ := List.mem_map.1 ha
    have hlength := congrArg List.length he
    rw [List.length_append, List.length_singleton] at hlength
    simp only [List.map_cons, List.map_nil, List.mem_cons, List.not_mem_nil, or_false] at hb
    rcases hb with rfl | rfl <;> omega

theorem nodup_sourceFiles (h : plugin.Consistent) (hl : l.pluginRoot = plugin.details.root) :
    ((sourceFiles plugin l).map fun entry => entry.1.names).Nodup :=
  nodup_names_sourceFiles h.named (h.distinct.sublist (registeredNames_sublist h)) hl

theorem writeSources_read {entry : Path × ByteArray} {w w' : Workshop} (h : plugin.Named)
    (hd : (registeredNames plugin).Nodup) (hl : l.pluginRoot = plugin.details.root)
    (hwritten : writeSources plugin l w = (.ok (), w')) (hentry : entry ∈ sourceFiles plugin l) :
    w'.files.read entry.1 = .ok entry.2 :=
  (writeSources_ok hwritten).1.read (nodup_names_sourceFiles h hd hl) hentry

theorem names_ne_of_mem_sourceFiles (h : plugin.Consistent)
    (hl : l.pluginRoot = plugin.details.root)
    (hn : name ∉ (registeredNames plugin).map Details.sourceName) :
    ∀ entry ∈ sourceFiles plugin l,
      entry.1.names ≠ plugin.details.commandsDirectory.names ++ [name] := by
  obtain ⟨hentry, hmanifest⟩ := length_names_rest h.named hl
  intro entry hmem he
  rw [sourceFiles] at hmem
  rcases List.mem_append.1 hmem with hmem | hmem
  · have hnames : entry.1.names ∈ (commandFiles plugin).map fun entry => entry.1.names :=
      List.mem_map.2 ⟨entry, hmem, rfl⟩
    rw [names_commandFiles h.named] at hnames
    obtain ⟨class', hclass, hname⟩ := List.mem_map.1 hnames
    have hsame := List.singleton_inj.1 (List.append_cancel_left (hname.trans he))
    exact hn (List.mem_map.2 ⟨class', hclass, hsame⟩)
  · have hlength := congrArg List.length he
    rw [List.length_append, List.length_singleton] at hlength
    simp only [List.mem_cons, List.not_mem_nil, or_false] at hmem
    rcases hmem with rfl | rfl
    · exact Nat.ne_of_lt hentry hlength
    · exact Nat.ne_of_lt (hmanifest.trans hentry) hlength

/-- Registrations and a later build agree on the command classes. What is registered has its place in
the package of the plugin and is imported. Unless the build meets an obstacle, exactly the same classes
are written for the compiler, created by the entry point and reported, all in the order of their
registration. -/
theorem registered_classes_agree (h : plugin.Registered) :
    plugin.commandClasses = plugin.commands.map Command.name ∧
    plugin.commandClasses.Nodup ∧
    (∀ name ∈ plugin.commandClasses, Java.isIdentifier name) ∧
    (∀ c ∈ plugin.commands, ∀ commandClass, c.commandClass = some commandClass →
      commandClass.package = plugin.details.qualifiedName ++ ".commands") ∧
    plugin.entryPoint.imports =
      EntryPoint.fixedImports ++ (registeredNames plugin).map (Project.importName plugin.details) ∧
    ∀ write tools config w result w', run write tools config plugin w = (result, w') →
      (∃ failure, result = .error failure ∧ Obstacle write tools config plugin.details failure) ∨
      ∃ artifact l staged prepared compiled,
        result = .ok artifact ∧
        Layout.ofDetails config.library plugin.details = .ok l ∧
        Writes w.files (Project.manifestFile plugin) staged.files ∧
        SupportLibrary.ensure tools l config.library staged = (.ok (), prepared) ∧
        Writes prepared.files (sourceFiles plugin l) compiled ∧
        (commandFiles plugin).map Prod.fst =
          (registeredNames plugin).map plugin.details.commandPath ∧
        (∀ c ∈ plugin.commands, ∀ commandClass, c.commandClass = some commandClass →
          compiled.read (plugin.details.commandPath c.name) =
            .ok (Text.toUtf8 commandClass.source)) ∧
        (∀ name, name ∉ (registeredNames plugin).map Details.sourceName →
          compiled.file? (plugin.details.commandsDirectory.names ++ [name]) =
            prepared.files.file? (plugin.details.commandsDirectory.names ++ [name])) ∧
        compiled.read plugin.details.entryPointPath =
          .ok (Text.toUtf8 (Java.unlines (plugin.entryPoint.opening ++
            (registeredNames plugin).map EntryPoint.creation ++ EntryPoint.closing))) ∧
        w'.calls = prepared.calls ++ [.compile l plugin.details.entryPointPath compiled] ∧
        artifact.registered = registeredNames plugin := by
  have hc := h.consistent
  refine ⟨hc.classes, hc.distinct, hc.valid, hc.stamped, ?_, ?_⟩
  · rw [hc.entryPoint, registeredNames, List.map_map]
    rfl
  intro write tools config w result w' hrun
  cases result with
  | error failure => exact .inl ⟨failure, rfl, obstacle_run hc.package w w' failure hrun⟩
  | ok artifact =>
    obtain ⟨l, staged, prepared, compiled, hlayout, hstaged, -, hlibrary, hsources, hcalls,
      hnames⟩ := run_ok hrun
    have hl := (Layout.ofDetails_ok hlayout).2.2.1
    have hread {p : Files.Path} {content : ByteArray} (hm : (p, content) ∈ sourceFiles plugin l) :
        compiled.read p = .ok content := hsources.read (nodup_sourceFiles hc hl) hm
    refine .inr ⟨artifact, l, staged, prepared, compiled, rfl, hlayout, hstaged, hlibrary,
      hsources, map_fst_commandFiles plugin, ?_, ?_, ?_, hcalls, hnames⟩
    · intro c hmem commandClass hclass
      exact hread (List.mem_append_left _ (mem_commandFiles hmem hclass))
    · intro name hn
      exact hsources.file?_eq (names_ne_of_mem_sourceFiles hc hl hn)
    · rw [← EntryPoint.source_eq _ fun name hn => isIdentifier_of_mem_registeredNames hc hn]
      exact hread (List.mem_append_right _ List.mem_cons_self)

def hello : Command :=
  { Command.ofName "hello" with
    sender := some "s".toList
    commandClass := some (.ofHandler "hello" ⟨[], []⟩) }

/-- A plugin without commands, in a directory that holds the support library. -/
def demo : Project where
  plugin := ⟨.ofName "Demo", [], [], .ofPackage "com.Demo", false, false⟩
  files := Files.Tree.empty.put [Config.libraryDirectory] .directory

theorem begun_demo : Plugin.ofDetails (.ofName "Demo") = .ok demo.plugin := by
  rfl

def idleTools : Toolchain :=
  ⟨fun _ _ _ => pure (), fun _ _ => pure ()⟩

def quiet : Command :=
  { Command.ofName "quiet" with aliases := some ["hush", "q:"] }

/-- A command with an empty handler, whose texts need quotes and several lines in a manifest. -/
def shout : Command :=
  { Command.ofName "shout" with
    usage := "/shout: <text>"
    description := "says it\n  aloud"
    sender := some "who".toList
    commandClass := some (.ofHandler "shout" ⟨[], []⟩) }

def demoAfter (commands : List Command) : Project :=
  demo.registerAll commands

theorem registered_classes_agree_demo :
    ∃ artifact w',
      Plugin.ofDetails (.ofName "Demo") = .ok demo.plugin ∧
      Project.register hello demo = (.ok (), demoAfter [hello]) ∧
      Project.register quiet (demoAfter [hello]) = (.ok (), demoAfter [hello, quiet]) ∧
      Project.register (.ofName "9lives") (demoAfter [hello, quiet]) =
        (.error (.invalidName "9lives"), demoAfter [hello, quiet]) ∧
      Project.register hello (demoAfter [hello, quiet]) =
        (.error (.duplicateCommand "hello"), demoAfter [hello, quiet]) ∧
      Project.register shout (demoAfter [hello, quiet]) = (.ok (), demoAfter [hello, quiet, shout]) ∧
      run Archive.Zip.write idleTools .bare (demoAfter [hello, quiet, shout]).plugin
        (.ofFiles (demoAfter [hello, quiet, shout]).files) = (.ok artifact, w') ∧
      (demoAfter [hello, quiet, shout]).plugin.commandClasses = ["hello", "quiet", "shout"] ∧
      (demoAfter [hello, quiet, shout]).plugin.entryPoint.imports = EntryPoint.fixedImports ++
        ["com.Demo.commands.hello".toList, "com.Demo.commands.shout".toList] ∧
      artifact.registered = ["hello", "shout"] := by
  have hhello : Project.register hello (demoAfter []) = (.ok (), demoAfter [hello]) :=
    Project.register_registerAll (by decide +kernel)
  have hquiet : Project.register quiet (demoAfter [hello]) = (.ok (), demoAfter [hello, quiet]) :=
    Project.register_registerAll (by decide +kernel)
  have hshout : Project.register shout (demoAfter [hello, quiet]) =
      (.ok (), demoAfter [hello, quiet, shout]) := Project.register_registerAll (by decide +kernel)
  have hinvalid : Project.register (.ofName "9lives") (demoAfter [hello, quiet]) = _ :=
    Project.register_invalidName (by decide)
  have htwice : Project.register hello (demoAfter [hello, quiet]) = _ :=
    Project.register_duplicate (by decide) (by decide +kernel)
  have hregistered : (demoAfter [hello, quiet, shout]).plugin.Registered :=
    .accepted (.rejected (.rejected (.accepted (.accepted (.begun begun_demo) hhello) hquiet) hinvalid
      (.inl rfl)) htwice (.inr rfl)) hshout
  have hnames : registeredNames (demoAfter [hello, quiet, shout]).plugin =
      ["hello".toList, "shout".toList] := by decide +kernel
  obtain ⟨artifact, hresult⟩ := exists_ok_of_isOk
    (x := (run Archive.Zip.write idleTools .bare (demoAfter [hello, quiet, shout]).plugin
      (.ofFiles (demoAfter [hello, quiet, shout]).files)).1) (by decide +kernel)
  obtain ⟨-, -, -, -, himports, hbuild⟩ := registered_classes_agree hregistered
  obtain ⟨_, hfailure, -⟩ | ⟨artifact', -, -, -, -, hsame, -, -, -, -, -, -, -, -, -, hreported⟩ :=
    hbuild Archive.Zip.write idleTools .bare _ _ _ (Prod.ext hresult rfl)
  · cases hfailure
  cases hsame
  rw [hnames] at himports hreported
  exact ⟨artifact, _, begun_demo, hhello, hquiet, hinvalid, htwice, hshout, Prod.ext hresult rfl,
    by decide +kernel, himports.trans (by decide +kernel), hreported⟩

end Assembly

end Build

end PluginForge
