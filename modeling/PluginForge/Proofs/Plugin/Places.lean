import PluginForge.Plugin.Basic
import PluginForge.Proofs.Files.Way

namespace PluginForge

open Files (isEntryName names_join)

variable {d : Details} {name : Text}

theorem isEntryName_of_isIdentifier (h : Java.isIdentifier name) : isEntryName name := by
  have hall := List.all_eq_true.1 (Java.all_isIdentifierChar h)
  have hne := Java.isIdentifier_ne_nil h
  refine Files.isEntryName_iff.2 ⟨?_, hne, fun hs => absurd (hall _ hs) (by decide)⟩
  simp only [Files.isName, Bool.and_eq_true, bne_iff_ne, ne_eq]
  constructor <;> rintro rfl <;> exact absurd (hall '.' List.mem_cons_self) (by decide)

theorem isEntryName_append {ending : Text} (h : Java.isIdentifier name) (hl : 2 < ending.length)
    (hs : '/' ∉ ending) : isEntryName (name ++ ending) := by
  obtain ⟨-, -, hslash⟩ := Files.isEntryName_iff.1 (isEntryName_of_isIdentifier h)
  have hne {short : Text} (hshort : short.length ≤ 2) : name ++ ending ≠ short := fun he => by
    have hlength := congrArg List.length he
    rw [List.length_append] at hlength
    omega
  apply Files.isEntryName_iff.2
  refine ⟨?_, hne (by decide), fun hmem => (List.mem_append.1 hmem).elim hslash hs⟩
  rw [Files.isName, bne_iff_ne.2 (hne (by decide)), bne_iff_ne.2 (hne (by decide))]
  rfl

theorem isEntryName_sourceName (h : Java.isIdentifier name) :
    isEntryName (Details.sourceName name) := by
  rw [Details.sourceName, List.append_assoc]
  exact isEntryName_append h (by decide) (by decide)

theorem isEntryName_archiveName (h : Java.isIdentifier d.name) : isEntryName d.archiveName :=
  isEntryName_append h (by decide) (by decide)

theorem sourceName_injective {a b : Text} (h : Details.sourceName a = Details.sourceName b) :
    a = b :=
  List.append_cancel_right (List.append_cancel_right h)

namespace Details

theorem isIdentifier_packageRoot (hp : Java.isQualifiedName d.package) :
    Java.isIdentifier d.packageRoot :=
  List.all_eq_true.1 hp _ (List.mem_of_mem_head? (Text.head?_splitOn '.' d.package))

theorem isEntryName_packageSegments (hp : Java.isQualifiedName d.package) :
    ∀ segment ∈ d.packageSegments, isEntryName segment := fun segment hs =>
  isEntryName_of_isIdentifier (List.all_eq_true.1 hp segment hs)

theorem names_root (hn : Java.isIdentifier d.name) : d.root.names = d.path.names ++ [d.name] :=
  names_join (isEntryName_of_isIdentifier hn)

theorem names_manifestPath : d.manifestPath.names = d.root.names ++ [Manifest.fileName] :=
  names_join (by decide)

theorem names_archivePath (hn : Java.isIdentifier d.name) :
    (d.path.join d.archiveName).names = d.path.names ++ [d.archiveName] :=
  names_join (isEntryName_archiveName hn)

theorem archiveName_ne_name : d.archiveName ≠ d.name := by
  intro he
  have hlength := congrArg List.length he
  rw [archiveName, List.length_append] at hlength
  simp at hlength

theorem not_root_prefix_archive (hn : Java.isIdentifier d.name) :
    ¬d.root.names <+: (d.path.join d.archiveName).names := by
  rw [names_root hn, names_archivePath hn, Files.prefix_siblings]
  exact archiveName_ne_name.symm

theorem names_sourceRoot (hp : Java.isQualifiedName d.package) :
    d.sourceRoot.names = d.root.names ++ [d.packageRoot] :=
  names_join (isEntryName_of_isIdentifier (isIdentifier_packageRoot hp))

theorem steps_packageDirectory (hn : Java.isIdentifier d.name)
    (hp : Java.isQualifiedName d.package) :
    d.packageDirectory.steps = d.root.steps ++ (d.packageSegments ++ [d.name]) := by
  rw [packageDirectory, Files.steps_join (isEntryName_of_isIdentifier hn),
    Files.steps_joinAll (isEntryName_packageSegments hp), List.append_assoc]

theorem names_packageDirectory (hn : Java.isIdentifier d.name)
    (hp : Java.isQualifiedName d.package) :
    d.packageDirectory.names = d.root.names ++ d.packageSegments ++ [d.name] := by
  rw [packageDirectory, names_join (isEntryName_of_isIdentifier hn),
    Files.names_joinAll (isEntryName_packageSegments hp)]

theorem names_commandsDirectory :
    d.commandsDirectory.names = d.packageDirectory.names ++ ["commands".toList] :=
  names_join (by decide)

theorem steps_packageDirectory_isPrefixOf :
    d.packageDirectory.steps <+: d.commandsDirectory.steps := by
  rw [commandsDirectory, Files.steps_join (by decide)]
  exact List.prefix_append _ _

theorem names_entryPointPath :
    d.entryPointPath.names = d.packageDirectory.names ++ [sourceName EntryPoint.className] :=
  names_join (by decide)

theorem names_commandPath (h : Java.isIdentifier name) :
    (d.commandPath name).names = d.commandsDirectory.names ++ [sourceName name] :=
  names_join (isEntryName_sourceName h)

theorem prefix_packageDirectory (hn : Java.isIdentifier d.name)
    (hp : Java.isQualifiedName d.package) : d.root.names <+: d.packageDirectory.names := by
  rw [names_packageDirectory hn hp, List.append_assoc]
  exact List.prefix_append _ _

theorem not_sourceRoot_prefix_manifest (hp : Java.isQualifiedName d.package) :
    ¬d.sourceRoot.names <+: d.manifestPath.names := by
  rw [names_manifestPath, names_sourceRoot hp, Files.prefix_siblings]
  intro he
  have hroot := isIdentifier_packageRoot hp
  rw [he] at hroot
  cases hroot

theorem prefix_sourceRoot_packageDirectory (hn : Java.isIdentifier d.name)
    (hp : Java.isQualifiedName d.package) : d.sourceRoot.names <+: d.packageDirectory.names := by
  obtain ⟨rest, hrest⟩ := List.head?_eq_some_iff.1 (Text.head?_splitOn '.' d.package)
  have hsegments : d.packageSegments = d.packageRoot :: rest := hrest
  rw [names_packageDirectory hn hp, names_sourceRoot hp, hsegments]
  exact ⟨rest ++ [d.name], by simp⟩

theorem prefix_entryPointPath (hn : Java.isIdentifier d.name)
    (hp : Java.isQualifiedName d.package) : d.root.names <+: d.entryPointPath.names := by
  rw [names_entryPointPath]
  exact (prefix_packageDirectory hn hp).trans (List.prefix_append _ _)

theorem prefix_commandPath (hn : Java.isIdentifier d.name) (hp : Java.isQualifiedName d.package)
    (h : Java.isIdentifier name) : d.root.names <+: (d.commandPath name).names := by
  rw [names_commandPath h, names_commandsDirectory, List.append_assoc]
  exact (prefix_packageDirectory hn hp).trans (List.prefix_append _ _)

theorem onWay_of_steps {p : Files.Path} {names : List Text} {at' : Files.Location}
    (hn : Java.isIdentifier d.name) (hsteps : p.steps = d.root.steps ++ names)
    (hnames : ∀ name ∈ names, isEntryName name) (h : Files.OnWay p at') :
    Files.OnWay d.path at' ∨ d.root.names <+: at' :=
  h.of_join (isEntryName_of_isIdentifier hn) hsteps fun hdots => by cases hnames _ hdots

theorem isEntryName_packageNames (hn : Java.isIdentifier d.name)
    (hp : Java.isQualifiedName d.package) :
    ∀ name ∈ d.packageSegments ++ [d.name], isEntryName name := by
  intro name hname
  rcases List.mem_append.1 hname with hname | hname
  · exact isEntryName_packageSegments hp name hname
  · rw [List.mem_singleton.1 hname]
    exact isEntryName_of_isIdentifier hn

theorem onWay_packageDirectory {at' : Files.Location} (hn : Java.isIdentifier d.name)
    (hp : Java.isQualifiedName d.package) (h : Files.OnWay d.packageDirectory at') :
    Files.OnWay d.path at' ∨ d.root.names <+: at' :=
  onWay_of_steps hn (steps_packageDirectory hn hp) (isEntryName_packageNames hn hp) h

theorem onWay_commandsDirectory {at' : Files.Location} (hn : Java.isIdentifier d.name)
    (hp : Java.isQualifiedName d.package) (h : Files.OnWay d.commandsDirectory at') :
    Files.OnWay d.path at' ∨ d.root.names <+: at' := by
  have hsteps : d.commandsDirectory.steps =
      d.root.steps ++ (d.packageSegments ++ [d.name] ++ ["commands".toList]) := by
    rw [commandsDirectory, Files.steps_join (by decide), steps_packageDirectory hn hp,
      List.append_assoc]
  apply onWay_of_steps hn hsteps _ h
  intro name hname
  rcases List.mem_append.1 hname with hname | hname
  · exact isEntryName_packageNames hn hp name hname
  · rw [List.mem_singleton.1 hname]
    decide

end Details

end PluginForge
