import Mathlib.Logic.Relation
import PluginForge.Proofs.Manifest.File
import PluginForge.Proofs.Plugin.Registration

namespace PluginForge

variable {c : Command} {d : Details} {files : Files.Tree} {p p' : Plugin} {project project' later : Project}
  {result : Except Failure Unit}

namespace Text

theorem toUtf8_append (a b : Text) : toUtf8 (a ++ b) = toUtf8 a ++ toUtf8 b := by
  rw [toUtf8, String.ofList_append]
  exact String.toByteArray_append ..

end Text

namespace Project

/-- One call on a project, with whatever result, or a change of other files than the manifest. -/
inductive Step (project : Project) : Project → Prop where
  | ensured {result : Except Failure Unit} {project' : Project}
      (h : ensure project = (result, project')) : Step project project'
  | registered {c : Command} {result : Except Failure Unit} {project' : Project}
      (h : register c project = (result, project')) : Step project project'
  | elsewhere {files : Files.Tree}
      (h : files.read project.plugin.details.manifestPath =
        project.files.read project.plugin.details.manifestPath) :
      Step project { project with files }

def manifestText (p : Plugin) : Text :=
  p.details.header.text ++ p.commands.flatMap Manifest.commandBlock

theorem manifestText_attached (c : Command) (p : Plugin) :
    manifestText (attached c p) = manifestText p ++ Manifest.commandBlock c := by
  rw [manifestText, attached_details, attached_commands, List.flatMap_append,
    List.flatMap_singleton, ← List.append_assoc, manifestText]

/-- As soon as there is a manifest, it lists the commands of the plugin. -/
structure ListsCommands (project : Project) : Prop where
  names : ∀ c ∈ project.plugin.commands, Java.isIdentifier c.name
  absent : project.plugin.hasManifest = false → project.plugin.commands = []
  manifest : project.plugin.hasManifest →
    project.files.read project.plugin.details.manifestPath =
      .ok (Text.toUtf8 (manifestText project.plugin))

/-- The plugin has taken up commands, if anything, and not lost its manifest. -/
structure Grows (p p' : Plugin) : Prop where
  details : p'.details = p.details
  hasManifest : p.hasManifest → p'.hasManifest
  commands : p.commands <+: p'.commands

theorem Grows.refl (p : Plugin) : Grows p p := ⟨rfl, id, List.prefix_rfl⟩

theorem Grows.trans {p'' : Plugin} (h : Grows p p') (h' : Grows p' p'') : Grows p p'' :=
  ⟨h'.details.trans h.details, h'.hasManifest ∘ h.hasManifest, h.commands.trans h'.commands⟩

theorem ensure_grown (hm : project.plugin.hasManifest) (h : ensure project = (result, project')) :
    project'.plugin = project.plugin ∧ project.files.Grown project'.files := by
  have hmade := Files.ensureDirectory_grown project.plugin.details.packageDirectory project.files
  rw [ensure] at h
  cases hdirectories : onFiles (Files.ensureDirectory project.plugin.details.packageDirectory)
      project with
  | mk made between =>
    obtain ⟨hfiles, hplugin⟩ := onFiles_files hdirectories
    rw [← hfiles] at hmade
    have hget : (get : Action Project) project = (.ok project, project) := rfl
    replace h := (bind_of_ok hget).symm.trans h
    cases made with
    | error failure =>
      cases (bind_of_error hdirectories).symm.trans h
      exact ⟨hplugin, hmade⟩
    | ok _ =>
      replace h := (bind_of_ok hdirectories).symm.trans h
      rw [if_pos hm] at h
      cases h
      exact ⟨hplugin, hmade⟩

namespace ListsCommands

theorem of_eq (hl : ListsCommands project) (hd : project'.plugin.details = project.plugin.details)
    (hc : project'.plugin.commands = project.plugin.commands)
    (hm : project'.plugin.hasManifest = project.plugin.hasManifest)
    (hr : ∀ content, project.files.read project.plugin.details.manifestPath = .ok content →
      project'.files.read project.plugin.details.manifestPath = .ok content) :
    ListsCommands project' where
  names := by
    rw [hc]
    exact hl.names
  absent := by
    rw [hc, hm]
    exact hl.absent
  manifest := by
    rw [hd, hm, manifestText, hd, hc]
    exact fun hm => hr _ (hl.manifest hm)

theorem ensure (hl : ListsCommands project) (h : Project.ensure project = (result, project')) :
    ListsCommands project' ∧ Grows project.plugin project'.plugin := by
  cases hm : project.plugin.hasManifest with
  | true =>
    obtain ⟨hplugin, hgrown⟩ := ensure_grown hm h
    refine ⟨hl.of_eq ?_ ?_ ?_ fun _ hread => ?_, hplugin ▸ .refl _⟩
    · rw [hplugin]
    · rw [hplugin]
    · rw [hplugin]
    · exact Files.Tree.read_keep hgrown.keepsDirectories hread (hgrown.file _)
  | false =>
    cases result with
    | error failure =>
      have hplugin := (ensure_error h).2
      refine ⟨⟨?_, ?_, ?_⟩, hplugin ▸ .refl _⟩
      · rw [hplugin]
        exact hl.names
      · rw [hplugin]
        exact hl.absent
      · rw [hplugin, hm]
        rintro ⟨⟩
    | ok _ =>
      obtain ⟨hplugin, hwrites⟩ := ensure_ok h
      have hcommands := hl.absent hm
      rw [manifestFile, hm, if_neg Bool.false_ne_true] at hwrites
      refine ⟨⟨?_, ?_, fun _ => ?_⟩, ?_⟩
      · rw [hplugin]
        exact hl.names
      · rw [hplugin]
        rintro ⟨⟩
      · rw [hplugin, manifestText, hcommands, List.flatMap_nil, List.append_nil]
        exact hwrites.read (List.pairwise_singleton _ _) (List.mem_singleton_self _)
      · rw [hplugin]
        exact ⟨rfl, fun _ => rfl, List.prefix_rfl⟩

theorem attach (hl : ListsCommands project) (hn : Java.isIdentifier c.name)
    (hm : project.plugin.hasManifest) (h : Project.attach c project = (result, project')) :
    ListsCommands project' ∧ Grows project.plugin project'.plugin := by
  cases result with
  | error failure =>
    obtain ⟨-, hfiles, hplugin⟩ := attach_error h
    have hsame : project'.plugin.details = project.plugin.details ∧
        project'.plugin.commands = project.plugin.commands ∧
        project'.plugin.hasManifest = project.plugin.hasManifest := by
      rw [hplugin]
      split <;> exact ⟨rfl, rfl, rfl⟩
    obtain ⟨hd, hc, hm'⟩ := hsame
    refine ⟨hl.of_eq hd hc hm' fun _ hread => ?_, hd, fun h => hm'.trans h, hc ▸ List.prefix_rfl⟩
    rw [hfiles]
    exact hread
  | ok _ =>
    obtain ⟨hplugin, happend⟩ := attach_ok h
    obtain ⟨old, hold, hwritten⟩ := Files.Tree.append_written happend
    have hread := hwritten.read
    rw [Except.ok.inj (hold.symm.trans (hl.manifest hm))] at hread
    have hm' : project'.plugin.hasManifest := by
      rw [hplugin, attached]
      split <;> exact hm
    refine ⟨⟨?_, ?_, fun _ => ?_⟩, ?_, fun _ => hm', ?_⟩
    · rw [hplugin, attached_commands]
      intro other hother
      rcases List.mem_append.1 hother with hother | hother
      · exact hl.names other hother
      · rw [List.mem_singleton.1 hother]
        exact hn
    · rw [hm']
      rintro ⟨⟩
    · rw [hplugin, attached_details, hread, manifestText_attached, Text.toUtf8_append]
    · rw [hplugin, attached_details]
    · rw [hplugin, attached_commands]
      exact List.prefix_append _ _

theorem register (hl : ListsCommands project) (h : Project.register c project = (result, project')) :
    ListsCommands project' ∧ Grows project.plugin project'.plugin := by
  obtain ⟨_, hcheck, -⟩ | ⟨hcheck, ⟨_, hensure, -⟩ | ⟨ensured, hensure, hattach⟩⟩ := register_cases h
  · rw [(checkName_error hcheck).2]
    exact ⟨hl, .refl _⟩
  · exact hl.ensure hensure
  · obtain ⟨hl', hgrows⟩ := hl.ensure hensure
    have hm : ensured.plugin.hasManifest := by
      rw [(ensure_ok hensure).1]
    obtain ⟨hl'', hgrows'⟩ := hl'.attach (c := c.stamp _) (checkName_ok hcheck).2.1 hm hattach
    exact ⟨hl'', hgrows.trans hgrows'⟩

theorem step (hl : ListsCommands project) (h : Step project project') :
    ListsCommands project' ∧ Grows project.plugin project'.plugin := by
  cases h with
  | ensured h => exact hl.ensure h
  | registered h => exact hl.register h
  | elsewhere h => exact ⟨hl.of_eq rfl rfl rfl fun _ hread => h.trans hread, .refl _⟩

theorem history (hl : ListsCommands project) (h : Relation.ReflTransGen Step project project') :
    ListsCommands project' ∧ Grows project.plugin project'.plugin := by
  induction h with
  | refl => exact ⟨hl, .refl _⟩
  | tail _ hstep ih =>
    obtain ⟨hl', hgrows⟩ := ih
    obtain ⟨hl'', hgrows'⟩ := hl'.step hstep
    exact ⟨hl'', hgrows.trans hgrows'⟩

end ListsCommands

theorem listsCommands_begun (hp : Plugin.ofDetails d = .ok p) (files : Files.Tree) :
    p.details = d ∧ ListsCommands ⟨p, files⟩ := by
  obtain ⟨-, -, -, rfl⟩ := Plugin.ofDetails_ok hp
  exact ⟨rfl, List.forall_mem_nil _, fun _ => rfl, fun h => absurd h Bool.false_ne_true⟩

theorem newline_not_mem_of_isIdentifier {name : Text} (h : Java.isIdentifier name) :
    '\n' ∉ name := fun hc =>
  absurd (List.all_eq_true.1 (Java.all_isIdentifierChar h) _ hc) (by decide)

theorem newline_not_mem_of_isQualifiedName {name : Text} (h : Java.isQualifiedName name) :
    '\n' ∉ name := by
  intro hc
  rw [← Text.join_splitOn '.' name] at hc
  rcases Text.mem_of_mem_join hc with hc | ⟨part, hpart, hc⟩
  · exact absurd hc (by decide)
  · exact newline_not_mem_of_isIdentifier (List.all_eq_true.1 h part hpart) hc

/-- The names in the header are those of a plugin, so they break no line. -/
theorem closesLine_header (hp : Plugin.ofDetails d = .ok p)
    (h : ∀ t ∈ [d.version, d.author, d.description], Yaml.closesLine t) :
    ∀ member ∈ d.header.members, Yaml.closesLine member.2 := by
  have hd := (listsCommands_begun hp .empty).1
  have hvalid := Plugin.consistent_ofDetails hp
  have hname := newline_not_mem_of_isIdentifier hvalid.name
  have hpackage := newline_not_mem_of_isQualifiedName hvalid.package
  rw [hd] at hname hpackage
  have hmain : '\n' ∉ d.mainClass := by
    simp only [Details.mainClass, Details.qualifiedName, List.mem_append, not_or]
    exact ⟨⟨⟨⟨hpackage, by decide⟩, hname⟩, by decide⟩, by decide⟩
  simp only [Manifest.Header.members, Details.header, List.forall_mem_cons]
  simp only [List.forall_mem_cons] at h
  obtain ⟨hversion, hauthor, hdescription, -⟩ := h
  exact ⟨Yaml.closesLine_of_not_mem hname, Yaml.closesLine_of_not_mem hmain, hversion, hauthor,
    hdescription, List.forall_mem_nil _⟩

open Yaml in
/-- Once there is a manifest, it is the header and the blocks of the registered commands in order, and
later calls only add blocks. Its structure shows in the margins of its lines, for every way to tell lines
apart, as long as no text is written as a block that ends in a break other than a line feed: in the first
column stand the keys of the header and the line of all commands; in a block, the key of the command
stands in the third column, alone or with the colon behind a long key, and all else further right. So the
names of the commands can be read from the file. -/
theorem manifest_history (hp : Plugin.ofDetails d = .ok p)
    (h : Relation.ReflTransGen Step ⟨p, files⟩ project) (hm : project.plugin.hasManifest) :
    let file := d.header.text ++ project.plugin.commands.flatMap Manifest.commandBlock
    project.files.read d.manifestPath = .ok (Text.toUtf8 file) ∧
      (∀ later, Relation.ReflTransGen Step project later →
        ∃ added, later.plugin.commands = project.plugin.commands ++ added ∧
          later.files.read d.manifestPath =
            .ok (Text.toUtf8 (file ++ added.flatMap Manifest.commandBlock))) ∧
      ∀ ends, EndsLines ends →
        (∀ c ∈ project.plugin.commands, (∀ t ∈ Manifest.freeTexts c, closesLine t) →
          let lines := linesAt ends (Manifest.commandBlock c)
          lines.filter (standsAt 2) = Manifest.keyLines ends c ∧
            ∀ line ∈ lines, standsAt 2 line ∨ Clears 4 line) ∧
        ((∀ t ∈ [d.version, d.author, d.description], closesLine t) →
          (∀ c ∈ project.plugin.commands, ∀ t ∈ Manifest.freeTexts c, closesLine t) →
          (∃ heads, (linesAt ends file).filter (standsAt 0) = heads ++ ["commands:".toList] ∧
            heads.map Manifest.keyOf =
              ["name".toList, "main", "version", "author", "description"]) ∧
            Manifest.commandKeys ends file = project.plugin.commands.map Command.name) := by
  obtain ⟨hd, hbegun⟩ := listsCommands_begun hp files
  obtain ⟨hl, hgrows⟩ := hbegun.history h
  have hdetails : project.plugin.details = d := hgrows.details.trans hd
  have htext : manifestText project.plugin =
      d.header.text ++ project.plugin.commands.flatMap Manifest.commandBlock := by
    rw [manifestText, hdetails]
  refine ⟨?_, fun later hlater => ?_, fun ends he => ⟨fun c hc ht => ?_, fun hheader ht => ?_⟩⟩
  · have hread := hl.manifest hm
    rwa [hdetails, htext] at hread
  · obtain ⟨hl', hgrows'⟩ := hl.history hlater
    obtain ⟨added, hadded⟩ := hgrows'.commands
    refine ⟨added, hadded.symm, ?_⟩
    have hread := hl'.manifest (hgrows'.hasManifest hm)
    rw [manifestText, hgrows'.details, hdetails, ← hadded, List.flatMap_append,
      ← List.append_assoc] at hread
    exact hread
  · exact Manifest.block_lines he (hl.names c hc) ht
  · exact Manifest.file_keys he (closesLine_header hp hheader) hl.names ht

theorem reached_registerAll (commands : List Command) (project : Project) :
    Relation.ReflTransGen Step project (project.registerAll commands) := by
  induction commands generalizing project with
  | nil => exact .refl
  | cons c commands ih => exact .head (.registered rfl) (ih _)

/-- The beginning of a plugin where there are no files yet, and whose texts need quotes and lines of their
own. -/
def begun : Project where
  plugin :=
    ⟨{ Details.ofName "Demo" with author := "me: myself", description := "says\n  hello " }, [], [],
      .ofPackage "com.Demo", false, false⟩
  files := .empty

def hail : Command :=
  { Command.ofName "hail" with
    usage := "/hail: <name>"
    description := "calls\n  twice\n"
    aliases := some ["- hey", "yes"]
    sender := some "s".toList
    commandClass := some (.ofHandler "hail" ⟨[], []⟩) }

def part : Command :=
  { Command.ofName "part" with usage := "  # leaves" }

theorem manifest_history_begun :
    let commands := [hail, .ofName "9lives", .ofName "hail", part]
    Relation.ReflTransGen Step begun (begun.registerAll commands) ∧
      (register (.ofName "9lives") (begun.registerAll [hail])).1 = .error (.invalidName "9lives") ∧
      (register (.ofName "hail") (begun.registerAll [hail])).1 = .error (.duplicateCommand "hail") ∧
      (begun.registerAll commands).plugin.hasManifest ∧
      (begun.registerAll commands).files.read begun.plugin.details.manifestPath =
        .ok (Text.toUtf8 (begun.plugin.details.header.text ++ Manifest.commandBlock hail ++
          Manifest.commandBlock part)) ∧
      Manifest.commandKeys Yaml.isBreak (begun.plugin.details.header.text ++
        Manifest.commandBlock hail ++ Manifest.commandBlock part) =
          ["hail".toList, "part".toList] := by
  intro commands
  have hbegun : Plugin.ofDetails begun.plugin.details = .ok begun.plugin := by rfl
  have hreached := reached_registerAll commands begun
  have hm : (begun.registerAll commands).plugin.hasManifest := by decide +kernel
  have hcommands : (begun.registerAll commands).plugin.commands =
      [hail.stamp "com.Demo", part] := by decide +kernel
  obtain ⟨hread, -, hlines⟩ := manifest_history hbegun hreached hm
  obtain ⟨-, hkeys⟩ := (hlines Yaml.isBreak ⟨rfl, id⟩).2 (by decide) (by
    rw [hcommands]
    decide)
  have htext : begun.plugin.details.header.text ++
      (begun.registerAll commands).plugin.commands.flatMap Manifest.commandBlock =
        begun.plugin.details.header.text ++ Manifest.commandBlock hail ++
          Manifest.commandBlock part := by
    rw [hcommands, List.append_assoc]
    exact congrArg (_ ++ ·) (congrArg (_ ++ ·) (List.append_nil _))
  rw [htext] at hread hkeys
  have hinvalid : register (.ofName "9lives") (begun.registerAll [hail]) = _ :=
    register_invalidName (by decide)
  have htwice : register (.ofName "hail") (begun.registerAll [hail]) = _ :=
    register_duplicate (by decide) (by decide +kernel)
  refine ⟨hreached, congrArg Prod.fst hinvalid, congrArg Prod.fst htwice, hm, hread,
    hkeys.trans ?_⟩
  rw [hcommands]
  rfl

/-- The lines of the blocks of a plugin's commands that begin in the column of their keys. -/
def keyColumn (ends : Char → Bool) (p : Plugin) : List (List Text) :=
  p.commands.map fun c =>
    (Yaml.linesAt ends (Manifest.commandBlock c)).filter (Yaml.standsAt 2)

/-- A long name takes up two lines in the column of the keys, and a usage that is written as a block and
ends in a line separator lets the description behind it slip into that column. -/
theorem keyColumn_twice :
    (∃ project, Relation.ReflTransGen Step begun project ∧ project.plugin.hasManifest ∧
        keyColumn (· == '\n') project.plugin =
          [["  ? ".toList ++ List.replicate 129 'a', "  : usage: /a".toList]]) ∧
      ∃ project, Relation.ReflTransGen Step begun project ∧ project.plugin.hasManifest ∧
        keyColumn Yaml.isBreak project.plugin =
          [["  hello:".toList, "  description: this command doesn't have a description".toList]] := by
  have hlong := reached_registerAll
    [{ Command.ofName (List.replicate 129 'a') with usage := "/a" }] begun
  have hbroken := reached_registerAll [{ Command.ofName "hello" with usage := "a\nb\u2028" }] begun
  exact ⟨⟨_, hlong, by decide +kernel, by decide +kernel⟩, _, hbroken, by decide +kernel,
    by decide +kernel⟩

end Project

end PluginForge
