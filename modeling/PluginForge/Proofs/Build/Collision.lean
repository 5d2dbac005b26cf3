import PluginForge.Archive.Zip
import PluginForge.Proofs.Build.Stages
import PluginForge.Proofs.Files.Kept
import PluginForge.Proofs.Plugin.Registrations

namespace PluginForge

open Files (OnWay Tree)

namespace Project

variable {c : Command} {commands : List Command} {project project' : Project}

/-- The manifest has been written, and all directories on the way to the package are there. -/
structure Prepared (project : Project) : Prop where
  hasManifest : project.plugin.hasManifest
  way : ∀ at', OnWay project.plugin.details.packageDirectory at' →
    project.files.node? at' = some .directory

theorem ensure_prepared (hn : Java.isIdentifier project.plugin.details.name)
    (h : ensure project = (.ok (), project')) : Prepared project' := by
  have hplugin := (ensure_ok h).1
  rw [ensure] at h
  obtain ⟨_, _, hget, h⟩ := bind_eq_ok.1 h
  cases hget
  obtain ⟨_, between, hmade, h⟩ := bind_eq_ok.1 h
  have hthere := Files.ensureDirectory_ok (isEntryName_of_isIdentifier hn) (onFiles_ok hmade).1
  have hway : ∀ at', OnWay project.plugin.details.packageDirectory at' →
      between.files.node? at' = some .directory := fun _ hway =>
    Tree.node?_of_isDirectory (isEntryName_of_isIdentifier hn) hthere hway
  constructor
  · rw [hplugin]
  · intro at' hat
    rw [hplugin] at hat
    split at h
    · cases h
      exact hway at' hat
    · obtain ⟨_, written, hwrite, h⟩ := bind_eq_ok.1 h
      have hwritten := Tree.write_written (Files.writeText_ok (onFiles_ok hwrite).1)
      cases h
      exact hwritten.keepsDirectories at' (hway at' hat)

@[simp] theorem attached_hasManifest (c : Command) (p : Plugin) :
    (attached c p).hasManifest = p.hasManifest := by
  rw [attached]
  split <;> rfl

theorem register_prepared (hn : Java.isIdentifier project.plugin.details.name)
    (h : register c project = (.ok (), project')) : Prepared project' := by
  obtain ⟨_, -, he⟩ | ⟨-, ⟨_, -, he⟩ | ⟨ensured, hensure, hattach⟩⟩ := register_cases h
  · cases he
  · cases he
  have hensured := ensure_prepared hn hensure
  obtain ⟨hplugin, happend⟩ := attach_ok hattach
  obtain ⟨_, -, hwritten⟩ := Tree.append_written happend
  constructor
  · rw [hplugin, attached_hasManifest]
    exact hensured.hasManifest
  · intro at' hat
    rw [hplugin, attached_details] at hat
    exact hwritten.keepsDirectories at' (hensured.way at' hat)

theorem prepared_forM (hn : Java.isIdentifier project.plugin.details.name) (hne : commands ≠ [])
    (h : commands.forM register project = (.ok (), project')) : Prepared project' := by
  induction commands generalizing project with
  | nil => exact absurd rfl hne
  | cons c commands ih =>
    rw [List.forM] at h
    obtain ⟨_, between, hfirst, h⟩ := bind_eq_ok.1 h
    cases commands with
    | nil =>
      cases h
      exact register_prepared hn hfirst
    | cons next commands =>
      rw [← (register_commands hfirst).1] at hn
      exact ih hn (List.cons_ne_nil _ _) h

end Project

namespace Build.Assembly

open Project (manifestText)

variable {commands : List Command} {config : Config} {d : Details} {p : Plugin}
  {project : Project} {result : Except Failure Unit} {t : Tree}

theorem run_nameOfLibrary (h : p.details.name = config.library.directory) (write : Archive.Writer)
    (tools : Toolchain) (w : Workshop) :
    run write tools config p w = (.error (.nameOfLibrary p.details.name), w) := by
  have hlayout : (liftM (Layout.ofDetails config.library p.details) : Work Layout) w =
      (.error (.nameOfLibrary p.details.name), w) := by
    rw [Layout.ofDetails, if_pos h]
    rfl
  exact bind_of_error hlayout

/-- Registrations leave what lies in the place of the project alone if there are none, or if the project
stands there as they would write it. -/
theorem sameBelow_registrations (hbegun : Plugin.ofDetails d = .ok p)
    (h : commands.forM Project.register ⟨p, t⟩ = (.ok (), project)) :
    t.SameBelow d.root.names project.files ↔
      commands = [] ∨
        t.file? d.manifestPath.names = some (Text.toUtf8 (manifestText project.plugin)) ∧
        ∀ at', d.root.names <+: at' → OnWay d.packageDirectory at' →
          t.node? at' = some .directory := by
  by_cases hne : commands = []
  · subst hne
    cases h
    exact iff_of_true (.refl _ _) (.inl rfl)
  rw [or_iff_right hne]
  have htakes := Project.takes_forM h
  obtain ⟨hd, hlists⟩ := Project.listsCommands_begun hbegun t
  have hn : Java.isIdentifier d.name := (Plugin.ofDetails_ok hbegun).1
  rw [← hd] at hn
  have hprepared := Project.prepared_forM hn hne h
  have hmanifest := (Tree.read_eq_ok.1 ((htakes.listed hlists).manifest hprepared.hasManifest)).2
  have hway := hprepared.way
  have hmade := htakes.made
  rw [htakes.details, hd] at hmanifest hway
  rw [hd] at hmade
  have hinside : d.root.names <+: d.manifestPath.names := by
    rw [Details.names_manifestPath]
    exact List.prefix_append _ _
  constructor
  · intro hsame
    constructor
    · rw [Tree.file?, ← hsame _ hinside, ← Tree.file?, hmanifest]
    · intro at' hat honway
      rw [← hsame at' hat]
      exact hway at' honway
  · rintro ⟨hwritten, hthere⟩ at' hat
    by_cases hplace : at' = d.manifestPath.names
    · rw [hplace, Tree.file?_eq_some.1 hmanifest, Tree.file?_eq_some.1 hwritten]
    · rcases hmade at' hplace with hsame | ⟨honway, hnone, -⟩
      · exact hsame
      · cases (hthere at' hat honway).symm.trans hnone

/-- A plugin with the configured name of the library is turned away by every build, which changes nothing
then. But the registrations in front of it have already written to the library's place: they change
nothing but the manifest and the directories on the way to the package, and these they do change, unless
there are no commands or the place holds what they write. -/
theorem collision_after_registrations (hbegun : Plugin.ofDetails d = .ok p)
    (hname : d.name = config.library.directory)
    (h : commands.forM Project.register ⟨p, t⟩ = (result, project)) :
    (∀ write tools w, run write tools config project.plugin w = (.error (.nameOfLibrary d.name), w)) ∧
    (∀ at', at' ≠ d.manifestPath.names →
      Tree.MadeIf (OnWay d.packageDirectory at') (t.node? at') (project.files.node? at')) ∧
    (result = .ok () →
      (t.SameBelow (d.path.join config.library.directory).names project.files ↔
        commands = [] ∨
          t.file? d.manifestPath.names = some (Text.toUtf8 (manifestText project.plugin)) ∧
          ∀ at', d.root.names <+: at' → OnWay d.packageDirectory at' →
            t.node? at' = some .directory)) := by
  have hspares := Project.spares_forM h
  have hd := (Project.listsCommands_begun hbegun t).1
  have hdetails : project.plugin.details = d := hspares.details.trans hd
  have hmade := hspares.made
  rw [hd] at hmade
  refine ⟨?_, hmade, ?_⟩
  · rw [← hdetails] at hname ⊢
    exact run_nameOfLibrary hname
  · rintro rfl
    rw [← hname]
    exact sameBelow_registrations hbegun h

/-- A configuration with a library of another name than the default one. -/
def renamed : Config :=
  { Config.bare with library := { Config.Library.default with directory := "lib" } }

/-- The beginning of a plugin that is called like the library, beside the library. -/
def clashing : Project where
  plugin := ⟨.ofName "lib", [], [], .ofPackage "com.lib", false, false⟩
  files := Files.Tree.empty.put ["lib".toList] .directory

theorem forM_register_clashing :
    [hello].forM Project.register clashing = (.ok (), ([hello].forM Project.register clashing).2) := by
  obtain ⟨_, hresult⟩ := exists_ok_of_isOk (x := ([hello].forM Project.register clashing).1)
    (by decide +kernel)
  exact Prod.ext hresult rfl

theorem collision_after_registrations_clashing :
    ∃ project, [hello].forM Project.register clashing = (.ok (), project) ∧
      ¬clashing.files.SameBelow (clashing.plugin.details.path.join renamed.library.directory).names
        project.files := by
  have hbegun : Plugin.ofDetails (.ofName "lib") = .ok clashing.plugin := by rfl
  have hname : (Details.ofName "lib").name = renamed.library.directory := rfl
  obtain ⟨-, -, hsame⟩ := collision_after_registrations hbegun hname forM_register_clashing
  refine ⟨_, forM_register_clashing, ?_⟩
  intro hkept
  rcases (hsame rfl).1 hkept with hnil | ⟨hfile, -⟩
  · cases hnil
  · have hnone : clashing.files.file? (Details.ofName "lib").manifestPath.names = none := by
      decide +kernel
    cases hnone.symm.trans hfile

/-- Registering a command puts a manifest into the library, and then the build is turned away. -/
theorem collision_after_writing :
    Plugin.ofDetails (.ofName "lib") = .ok clashing.plugin ∧
    clashing.files.isDirectory (clashing.plugin.details.path.join renamed.library.directory) ∧
    ∃ project, [hello].forM Project.register clashing = (.ok (), project) ∧
      run Archive.Zip.write idleTools renamed project.plugin (.ofFiles project.files) =
        (.error (.nameOfLibrary "lib"), .ofFiles project.files) ∧
      clashing.files.node? ["lib".toList, "plugin.yml".toList] = none ∧
      (project.files.node? ["lib".toList, "plugin.yml".toList]).isSome := by
  have hname : ([hello].forM Project.register clashing).2.plugin.details.name =
      renamed.library.directory := by
    rw [(Project.spares_forM forM_register_clashing).details]
    rfl
  have hrun := run_nameOfLibrary hname Archive.Zip.write idleTools
    (.ofFiles ([hello].forM Project.register clashing).2.files)
  rw [hname] at hrun
  exact ⟨rfl, by decide +kernel, _, forM_register_clashing, hrun, by decide +kernel, by decide +kernel⟩

end Build.Assembly

end PluginForge
