import PluginForge.Proofs.Build.Stages

namespace PluginForge

open Files (LiesBelow Path Writes isEntryName)

namespace Details

variable {c name : Text} {d : Details} {names : List Text} {p : Path}

def slashed (qualified : Text) : Text :=
  qualified.map fun c => if c = '.' then '/' else c

/-- The path of a class from the directory of the default package on. -/
def sourcePath (qualified : Text) : Text :=
  sourceName (slashed qualified)

theorem dot_not_mem (h : Java.isIdentifier name) : '.' ∉ name := by
  intro hdot
  have hchar := List.all_eq_true.1 (Java.all_isIdentifierChar h) '.' hdot
  cases hchar

theorem slashed_eq (h : '.' ∉ name) : slashed name = name := by
  apply (List.map_congr_left fun c hc => ?_).trans (List.map_id name)
  apply if_neg
  rintro rfl
  exact h hc

theorem slashed_join (h : ∀ name ∈ names, '.' ∉ name) :
    slashed (Text.join "." names) = Text.join "/" names := by
  induction names with
  | nil => rfl
  | cons name names ih =>
    have hname := slashed_eq (h name List.mem_cons_self)
    have hnames := ih fun other hother => h other (List.mem_cons_of_mem name hother)
    cases names with
    | nil =>
      rw [Text.join, List.intercalate_singleton, Text.join, List.intercalate_singleton]
      exact hname
    | cons next names =>
      rw [slashed] at hname hnames
      rw [Text.join_cons_cons, Text.join_cons_cons, slashed, List.map_append, List.map_append, hname,
        hnames]
      rfl

/-- The directories of a package are the segments of its name, so the path of a class is its qualified
name with slashes for the dots. -/
theorem joinAll_sourceName (hnames : ∀ name ∈ names, Java.isIdentifier name) (hne : names ≠ [])
    (hc : Java.isIdentifier c) :
    (p.joinAll names).join (sourceName c) = p.join (sourcePath (Text.join "." (names ++ [c]))) := by
  have hentries : ∀ name ∈ names ++ [sourceName c], isEntryName name := by
    intro name hname
    rcases List.mem_append.1 hname with hname | hname
    · exact isEntryName_of_isIdentifier (hnames name hname)
    · rw [List.mem_singleton.1 hname]
      exact isEntryName_sourceName hc
  have hdots : ∀ name ∈ names ++ [c], '.' ∉ name := by
    intro name hname
    rcases List.mem_append.1 hname with hname | hname
    · exact dot_not_mem (hnames name hname)
    · rw [List.mem_singleton.1 hname]
      exact dot_not_mem hc
  have htext : Text.join "/" (names ++ [sourceName c]) = sourceName (Text.join "/" (names ++ [c])) := by
    rw [Text.join_concat hne, Text.join_concat hne]
    simp only [sourceName, List.append_assoc]
  calc (p.joinAll names).join (sourceName c)
      = p.joinAll (names ++ [sourceName c]) := (Files.joinAll_concat p names _).symm
    _ = p.join (Text.join "/" (names ++ [sourceName c])) :=
        Files.joinAll_eq_join hentries (by simp)
    _ = p.join (sourcePath (Text.join "." (names ++ [c]))) := by
        rw [htext, sourcePath, slashed_join hdots]

theorem isIdentifier_packageNames (hn : Java.isIdentifier d.name)
    (hp : Java.isQualifiedName d.package) :
    ∀ name ∈ d.packageSegments ++ [d.name], Java.isIdentifier name := by
  intro name hname
  rcases List.mem_append.1 hname with hname | hname
  · exact List.all_eq_true.1 hp name hname
  · rw [List.mem_singleton.1 hname]
    exact hn

theorem packageDirectory_eq : d.packageDirectory = d.root.joinAll (d.packageSegments ++ [d.name]) := by
  rw [packageDirectory, Files.joinAll_concat]

theorem commandsDirectory_eq :
    d.commandsDirectory = d.root.joinAll (d.packageSegments ++ [d.name] ++ ["commands".toList]) := by
  rw [commandsDirectory, packageDirectory_eq, ← Files.joinAll_concat]

theorem qualifiedName_eq : d.qualifiedName = Text.join "." (d.packageSegments ++ [d.name]) := by
  have hpackage : Text.join "." d.packageSegments = d.package := Text.join_splitOn '.' d.package
  have hne : d.packageSegments ≠ [] := Text.splitOn_ne_nil '.' d.package
  rw [Text.join_concat hne, hpackage]
  rfl

theorem entryPointPath_eq (hn : Java.isIdentifier d.name) (hp : Java.isQualifiedName d.package) :
    d.entryPointPath = d.root.join (sourcePath d.mainClass) := by
  have hmain : d.mainClass =
      Text.join "." (d.packageSegments ++ [d.name] ++ [EntryPoint.className]) := by
    rw [Text.join_concat (by simp), ← qualifiedName_eq]
    rfl
  rw [hmain, entryPointPath, packageDirectory_eq]
  exact joinAll_sourceName (isIdentifier_packageNames hn hp) (by simp) (by decide)

theorem commandPath_eq (hn : Java.isIdentifier d.name) (hp : Java.isQualifiedName d.package)
    (hc : Java.isIdentifier c) :
    d.commandPath c = d.root.join (sourcePath (d.qualifiedName ++ ".commands" ++ "." ++ c)) := by
  have hnames : ∀ name ∈ d.packageSegments ++ [d.name] ++ ["commands".toList],
      Java.isIdentifier name := by
    intro name hname
    rcases List.mem_append.1 hname with hname | hname
    · exact isIdentifier_packageNames hn hp name hname
    · rw [List.mem_singleton.1 hname]
      decide
  have hclass : d.qualifiedName ++ ".commands" ++ "." ++ c =
      Text.join "." (d.packageSegments ++ [d.name] ++ ["commands".toList] ++ [c]) := by
    rw [Text.join_concat (by simp), Text.join_concat (by simp), ← qualifiedName_eq]
    simp
  rw [hclass, commandPath, commandsDirectory_eq]
  exact joinAll_sourceName hnames (by simp) hc

theorem liesBelow_sourceRoot (hp : Java.isQualifiedName d.package) :
    LiesBelow d.sourceRoot d.root :=
  .join (isEntryName_of_isIdentifier (isIdentifier_packageRoot hp))

theorem liesBelow_packageDirectory (hn : Java.isIdentifier d.name)
    (hp : Java.isQualifiedName d.package) : LiesBelow d.packageDirectory d.sourceRoot := by
  obtain ⟨rest, hrest⟩ := List.head?_eq_some_iff.1 (Text.head?_splitOn '.' d.package)
  have hsegments : d.packageSegments = d.packageRoot :: rest := hrest
  have hroot := isEntryName_of_isIdentifier (isIdentifier_packageRoot hp)
  have hsteps : d.packageDirectory.steps = d.sourceRoot.steps ++ (rest ++ [d.name]) := by
    rw [steps_packageDirectory hn hp, hsegments, sourceRoot, Files.steps_join hroot]
    simp
  apply LiesBelow.of_steps hsteps _ (by simp)
  intro name hname
  apply isEntryName_packageNames hn hp
  rw [hsegments]
  exact List.mem_cons_of_mem _ hname

end Details

namespace Build.Assembly

variable {p : Plugin}

/-- The places of the sources follow from the qualified names of their classes, and they stay in the
directory of the package, which is cleaned and packed. These are the places that are written, besides that of
the build manifest. Whatever the plugin and its commands are called, writing the sources changes nothing
outside the project, even if it fails. -/
theorem sources_in_package (hp : p.Reachable) :
    p.details.entryPointPath = p.details.root.join (Details.sourcePath p.details.mainClass) ∧
    LiesBelow p.details.entryPointPath p.details.sourceRoot ∧
    (∀ c ∈ p.commands, ∀ commandClass, c.commandClass = some commandClass →
      p.details.commandPath c.name =
        p.details.root.join (Details.sourcePath (commandClass.package ++ "." ++ c.name)) ∧
      LiesBelow (p.details.commandPath c.name) p.details.sourceRoot) ∧
    LiesBelow p.details.sourceRoot p.details.root ∧
    p.details.root.steps = p.details.path.steps ++ [p.details.name] ∧
    (p.details.path.join p.details.archiveName).steps =
      p.details.path.steps ++ [p.details.archiveName] ∧
    p.details.archiveName ≠ p.details.name ∧
    ∀ library l, Layout.ofDetails library p.details = .ok l → ∀ w result w',
      writeSources p l w = (result, w') →
        w.files.SameOutside p.details.root.names w'.files ∧
        (result = .ok () →
          Writes w.files (sourceFiles p l) w'.files ∧
          (sourceFiles p l).map Prod.fst =
            (p.commands.filter fun c => c.commandClass.isSome).map
                (fun c => p.details.commandPath c.name) ++
              [p.details.entryPointPath,
                (p.details.root.join BuildManifest.directory).join BuildManifest.fileName] ∧
          (∀ c ∈ p.commands, ∀ commandClass, c.commandClass = some commandClass →
            w'.files.read (p.details.commandPath c.name) = .ok (Text.toUtf8 commandClass.source)) ∧
          w'.files.read p.details.entryPointPath =
            .ok (Text.toUtf8 (p.entryPoint.source (registeredNames p)))) := by
  have hnamed := hp.named
  have hpackage := Details.liesBelow_packageDirectory hnamed.name hnamed.package
  refine ⟨Details.entryPointPath_eq hnamed.name hnamed.package, ?_, ?_,
    Details.liesBelow_sourceRoot hnamed.package,
    Files.steps_join (isEntryName_of_isIdentifier hnamed.name),
    Files.steps_join (isEntryName_archiveName hnamed.name), Details.archiveName_ne_name, ?_⟩
  · exact LiesBelow.trans (.join (by decide)) hpackage
  · intro c hc commandClass hclass
    have hname := hnamed.commands c hc
    constructor
    · rw [hp.stamped c hc commandClass hclass]
      exact Details.commandPath_eq hnamed.name hnamed.package hname
    · have hdirectory : LiesBelow p.details.commandsDirectory p.details.sourceRoot :=
        .trans (.join (by decide)) hpackage
      exact .trans (.join (isEntryName_sourceName hname)) hdirectory
  · intro library l hl w result w' hwritten
    have hroot := (Layout.ofDetails_ok hl).2.2.1
    have houtside := keepsOutside_writeSources hnamed hroot w
    rw [hwritten] at houtside
    refine ⟨houtside, ?_⟩
    rintro rfl
    have hread {entry : Path × ByteArray} (hentry : entry ∈ sourceFiles p l) :
        w'.files.read entry.1 = .ok entry.2 :=
      writeSources_read hnamed hp.nodup_registeredNames hroot hwritten hentry
    have hpaths := map_fst_sourceFiles p l
    rw [registeredNames, List.map_map, buildManifestDirectory, hroot] at hpaths
    refine ⟨(writeSources_ok hwritten).1, hpaths, ?_, ?_⟩
    · intro c hc commandClass hclass
      exact hread (List.mem_append_left _ (mem_commandFiles hc hclass))
    · exact hread (List.mem_append_right _ List.mem_cons_self)

/-- The beginning of a plugin whose package has two segments. -/
def dotted : Project where
  plugin :=
    ⟨{ Details.ofName "Demo" with package := "org.example" }, [], [], .ofPackage "org.example.Demo",
      false, false⟩
  files := .empty

theorem sources_in_package_dotted :
    ∃ p : Plugin, p.Reachable ∧ ∃ c ∈ p.commands, ∃ commandClass,
      c.commandClass = some commandClass ∧
      commandClass.package = "org.example.Demo.commands".toList ∧
      p.details.commandPath c.name = p.details.root.join "org/example/Demo/commands/hello.java" ∧
      LiesBelow (p.details.commandPath c.name) p.details.sourceRoot := by
  have hbegun : Plugin.ofDetails dotted.plugin.details = .ok dotted.plugin := by rfl
  obtain ⟨_, hfirst⟩ := exists_ok_of_isOk (x := (Project.register hello dotted).1)
    (by decide +kernel)
  have hregister : Project.register hello dotted = (.ok (), (Project.register hello dotted).2) :=
    Prod.ext hfirst rfl
  have hreach : (Project.register hello dotted).2.plugin.Reachable :=
    .registered (.begun hbegun) hregister
  have hc : hello.stamp "org.example.Demo" ∈ (Project.register hello dotted).2.plugin.commands := by
    decide +kernel
  obtain ⟨-, -, hcommands, -⟩ := sources_in_package hreach
  obtain ⟨hpath, hbelow⟩ := hcommands _ hc _ rfl
  refine ⟨_, hreach, _, hc, _, rfl, ?_, hpath.trans ?_, hbelow⟩
  · decide
  · decide +kernel

end Build.Assembly

end PluginForge
