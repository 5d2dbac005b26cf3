import PluginForge.Proofs.Action
import PluginForge.Proofs.Files.Changes

namespace PluginForge

variable {α : Type} {c : Command} {d : Details} {p : Plugin} {project project' : Project}
  {files : Files.Tree} {failure : Failure}

namespace Project

variable {action : Files.Action α} {a : α}

theorem onFiles_ok (h : onFiles action project = (.ok a, project')) :
    action project.files = (.ok a, project'.files) ∧ project'.plugin = project.plugin := by
  rw [onFiles] at h
  cases hr : action project.files with
  | mk result files =>
    rw [hr] at h
    cases result with
    | error e => cases h
    | ok value =>
      cases h
      exact ⟨rfl, rfl⟩

theorem onFiles_error (h : onFiles action project = (.error failure, project')) :
    (∃ e, failure = .files e) ∧ project'.plugin = project.plugin := by
  rw [onFiles] at h
  cases hr : action project.files with
  | mk result files =>
    rw [hr] at h
    cases result with
    | error e =>
      cases h
      exact ⟨⟨e, rfl⟩, rfl⟩
    | ok value => cases h

theorem onFiles_files {result : Except Failure α} (h : onFiles action project = (result, project')) :
    project'.files = (action project.files).2 ∧ project'.plugin = project.plugin := by
  rw [onFiles] at h
  cases h
  exact ⟨rfl, rfl⟩

/-- The manifest, if preparing the project of a plugin has to write it. -/
def manifestFile (p : Plugin) : List (Files.Path × ByteArray) :=
  if p.hasManifest then []
  else [(p.details.manifestPath, Text.toUtf8 p.details.header.text)]

theorem ensure_steps (h : ensure project = (.ok (), project')) :
    project'.plugin = { project.plugin with hasManifest := true } ∧
      ∃ made, project.files.Made (Files.OnWay project.plugin.details.packageDirectory) made ∧
        if project.plugin.hasManifest then project'.files = made
        else made.write project.plugin.details.manifestPath
          (Text.toUtf8 project.plugin.details.header.text) = .ok project'.files := by
  rw [ensure] at h
  obtain ⟨_, _, hget, h⟩ := bind_eq_ok.1 h
  cases hget
  obtain ⟨_, between, hmade, h⟩ := bind_eq_ok.1 h
  obtain ⟨hmade, hplugin⟩ := onFiles_ok hmade
  have hgrown := Files.ensureDirectory_made project.plugin.details.packageDirectory project.files
  rw [hmade] at hgrown
  split at h
  · next hm =>
    cases h
    exact ⟨by rw [hplugin, ← hm], _, hgrown, by rw [if_pos hm]⟩
  · next hm =>
    obtain ⟨_, written, hwrite, h⟩ := bind_eq_ok.1 h
    obtain ⟨hwrite, hplugin'⟩ := onFiles_ok hwrite
    cases h
    refine ⟨?_, _, hgrown, ?_⟩
    · exact congrArg (fun q : Plugin => { q with hasManifest := true }) (hplugin'.trans hplugin)
    · rw [if_neg hm]
      exact Files.writeText_ok hwrite

theorem ensure_ok (h : ensure project = (.ok (), project')) :
    project'.plugin = { project.plugin with hasManifest := true } ∧
      Files.Writes project.files (manifestFile project.plugin) project'.files := by
  obtain ⟨hplugin, made, hmade, hfiles⟩ := ensure_steps h
  have hgrown : Files.Writes project.files [] made := .grown .nil hmade.grown
  refine ⟨hplugin, ?_⟩
  rw [manifestFile]
  split at hfiles
  · next hm =>
    rw [hfiles, if_pos hm]
    exact hgrown
  · next hm =>
    rw [if_neg hm]
    exact hgrown.write hfiles

theorem ensure_error (h : ensure project = (.error failure, project')) :
    (∃ e, failure = .files e) ∧ project'.plugin = project.plugin := by
  rw [ensure] at h
  rcases bind_eq_error.1 h with hget | ⟨_, _, hget, h⟩
  · cases hget
  cases hget
  rcases bind_eq_error.1 h with hmade | ⟨_, between, hmade, h⟩
  · exact onFiles_error hmade
  have hplugin := (onFiles_ok hmade).2
  split at h
  · cases h
  rcases bind_eq_error.1 h with hwrite | ⟨_, _, -, h⟩
  · obtain ⟨he, hplugin'⟩ := onFiles_error hwrite
    exact ⟨he, hplugin'.trans hplugin⟩
  · cases h

theorem ensure_files {result : Except Failure Unit} (h : ensure project = (result, project')) :
    ∃ made, project.files.Made (Files.OnWay project.plugin.details.packageDirectory) made ∧
      (project'.files = made ∨ ∃ content,
        made.Written project.plugin.details.manifestPath content project'.files) := by
  have hmade := Files.ensureDirectory_made project.plugin.details.packageDirectory project.files
  cases result with
  | ok _ =>
    obtain ⟨-, made, hmade, hfiles⟩ := ensure_steps h
    refine ⟨made, hmade, ?_⟩
    split at hfiles
    · exact .inl hfiles
    · exact .inr ⟨_, Files.Tree.write_written hfiles⟩
  | error failure =>
    rw [ensure] at h
    rcases bind_eq_error.1 h with hget | ⟨_, _, hget, h⟩
    · cases hget
    cases hget
    refine ⟨_, hmade, ?_⟩
    rcases bind_eq_error.1 h with hfailed | ⟨_, between, hprepared, h⟩
    · exact .inl (onFiles_files hfailed).1
    rw [← (onFiles_files hprepared).1]
    split at h
    · cases h
    rcases bind_eq_error.1 h with hfailed | ⟨_, _, -, h⟩
    · rw [(onFiles_files hfailed).1]
      exact (Files.write_cases _ _ between.files).imp_right fun h => ⟨_, h⟩
    · cases h

theorem checkName_ok (h : checkName c project = (.ok (), project')) :
    project' = project ∧ Java.isIdentifier c.name ∧ c.name ∉ project.plugin.commandClasses := by
  rw [checkName] at h
  split at h
  · obtain ⟨_, _, hthrow, -⟩ := bind_eq_ok.1 h
    cases hthrow
  next hn =>
  obtain ⟨_, _, hget, h⟩ := bind_eq_ok.1 h
  cases hget
  split at h
  · cases h
  next hd =>
  cases h
  exact ⟨rfl, by simpa using hn, by simpa using hd⟩

theorem checkName_error (h : checkName c project = (.error failure, project')) :
    (failure = .invalidName c.name ∨ failure = .duplicateCommand c.name) ∧ project' = project := by
  rw [checkName] at h
  split at h
  · rcases bind_eq_error.1 h with hthrow | ⟨_, _, hthrow, -⟩
    · cases hthrow
      exact ⟨.inl rfl, rfl⟩
    · cases hthrow
  rcases bind_eq_error.1 h with hget | ⟨_, _, hget, h⟩
  · cases hget
  cases hget
  split at h
  · cases h
    exact ⟨.inr rfl, rfl⟩
  · cases h

def attached (c : Command) (p : Plugin) : Plugin :=
  addCommand c (if c.commandClass.isSome then importCommand c p else p)

@[simp] theorem attached_details (c : Command) (p : Plugin) :
    (attached c p).details = p.details := by
  rw [attached]
  split <;> rfl

@[simp] theorem attached_commands (c : Command) (p : Plugin) :
    (attached c p).commands = p.commands ++ [c] := by
  rw [attached]
  split <;> rfl

@[simp] theorem attached_commandClasses (c : Command) (p : Plugin) :
    (attached c p).commandClasses = p.commandClasses ++ [c.name] := by
  rw [attached]
  split <;> rfl

theorem attached_entryPoint (c : Command) (p : Plugin) :
    (attached c p).entryPoint =
      { p.entryPoint with
        imports := p.entryPoint.imports ++
          if c.commandClass.isSome then [importName p.details c.name] else [] } := by
  rw [attached]
  split
  · rfl
  · rw [List.append_nil]
    rfl

/-- Taking up a command depends on the manifest alone; one that fails leaves the import behind. -/
theorem attach_eq (c : Command) (project : Project) :
    attach c project =
      match project.files.append project.plugin.details.manifestPath
        (Text.toUtf8 (Manifest.commandBlock c)) with
      | .error e => (.error (.files e),
          { project with
            plugin := if c.commandClass.isSome then importCommand c project.plugin
              else project.plugin })
      | .ok files => (.ok (), ⟨attached c project.plugin, files⟩) := by
  have hrest (project : Project) : (get >>= fun project : Project =>
      onFiles (Files.appendText project.plugin.details.manifestPath (Manifest.commandBlock c)) >>=
        fun _ => modifyPlugin (addCommand c)) project =
      match project.files.append project.plugin.details.manifestPath
        (Text.toUtf8 (Manifest.commandBlock c)) with
      | .error e => (.error (.files e), project)
      | .ok files => (.ok (), ⟨addCommand c project.plugin, files⟩) := by
    have hget : (get : Action Project) project = (.ok project, project) := rfl
    refine (bind_of_ok hget).trans ?_
    cases happend : project.files.append project.plugin.details.manifestPath
        (Text.toUtf8 (Manifest.commandBlock c)) with
    | error e =>
      refine bind_of_error ?_
      rw [onFiles, Files.appendText, Files.Action.change, happend]
      rfl
    | ok files =>
      have hstep : onFiles (Files.appendText project.plugin.details.manifestPath
          (Manifest.commandBlock c)) project = (.ok (), { project with files }) := by
        rw [onFiles, Files.appendText, Files.Action.change, happend]
        rfl
      exact bind_of_ok hstep
  rw [attach, attached]
  cases c.commandClass.isSome with
  | false => exact hrest project
  | true => exact (bind_of_ok rfl).trans (hrest _)

theorem attach_ok (h : attach c project = (.ok (), project')) :
    project'.plugin = attached c project.plugin ∧
      project.files.append project.plugin.details.manifestPath
        (Text.toUtf8 (Manifest.commandBlock c)) = .ok project'.files := by
  rw [attach_eq] at h
  split at h
  · cases h
  · next happend =>
    cases h
    exact ⟨rfl, happend⟩

theorem attach_error (h : attach c project = (.error failure, project')) :
    (∃ e, failure = .files e) ∧ project'.files = project.files ∧
      project'.plugin =
        if c.commandClass.isSome then importCommand c project.plugin else project.plugin := by
  rw [attach_eq] at h
  split at h
  · next e _ =>
    cases h
    exact ⟨⟨e, rfl⟩, rfl, rfl⟩
  · cases h

/-- How far a registration gets: to the name of its command, to the project, or to the manifest. -/
theorem register_cases {result : Except Failure Unit} (h : register c project = (result, project')) :
    (∃ failure, checkName c project = (.error failure, project') ∧ result = .error failure) ∨
      checkName c project = (.ok (), project) ∧
        ((∃ failure, ensure project = (.error failure, project') ∧ result = .error failure) ∨
          ∃ ensured, ensure project = (.ok (), ensured) ∧
            attach (c.stamp ensured.plugin.details.qualifiedName) ensured = (result, project')) := by
  rw [register] at h
  cases hcheck : checkName c project with
  | mk checked between =>
    cases checked with
    | error failure =>
      cases (bind_of_error hcheck).symm.trans h
      exact .inl ⟨failure, rfl, rfl⟩
    | ok _ =>
      have hbetween := (checkName_ok hcheck).1
      rw [hbetween] at hcheck
      replace h := (bind_of_ok hcheck).symm.trans h
      refine .inr ⟨by rw [hbetween], ?_⟩
      cases hensure : ensure project with
      | mk made ensured =>
        cases made with
        | error failure =>
          cases (bind_of_error hensure).symm.trans h
          exact .inl ⟨failure, rfl, rfl⟩
        | ok _ => exact .inr ⟨ensured, rfl, (bind_of_ok hensure).symm.trans h⟩

/-- A registration that succeeds was of a new name, and has taken up the command in the package of the
plugin. -/
theorem register_ok (h : register c project = (.ok (), project')) :
    Java.isIdentifier c.name ∧ c.name ∉ project.plugin.commandClasses ∧
      project'.plugin = attached (c.stamp project.plugin.details.qualifiedName)
        { project.plugin with hasManifest := true } := by
  obtain ⟨_, -, he⟩ | ⟨hcheck, ⟨_, -, he⟩ | ⟨ensured, hensure, hattach⟩⟩ := register_cases h
  · cases he
  · cases he
  obtain ⟨-, hn, hd⟩ := checkName_ok hcheck
  have hattached := (attach_ok hattach).1
  rw [(ensure_ok hensure).1] at hattached
  exact ⟨hn, hd, hattached⟩

theorem register_of_checkName_error (h : checkName c project = (.error failure, project)) :
    register c project = (.error failure, project) := by
  rw [register]
  exact bind_of_error h

theorem register_invalidName (h : Java.isIdentifier c.name = false) :
    register c project = (.error (.invalidName c.name), project) := by
  apply register_of_checkName_error
  rw [checkName, h]
  rfl

theorem register_duplicate (hn : Java.isIdentifier c.name)
    (h : c.name ∈ project.plugin.commandClasses) :
    register c project = (.error (.duplicateCommand c.name), project) := by
  apply register_of_checkName_error
  rw [checkName, hn, if_neg (by decide)]
  have hget : (get : Action Project) project = (.ok project, project) := rfl
  refine (bind_of_ok hget).trans ?_
  rw [if_pos (List.contains_iff_mem.2 h)]
  rfl

/-- A project after commands have been taken up or turned away one after another. -/
def registerAll (commands : List Command) (project : Project) : Project :=
  commands.foldl (fun project c => (register c project).2) project

theorem register_registerAll {commands : List Command}
    (h : (register c (registerAll commands project)).1.isOk) :
    register c (registerAll commands project) =
      (.ok (), registerAll (commands ++ [c]) project) := by
  obtain ⟨_, hresult⟩ := exists_ok_of_isOk h
  rw [registerAll, registerAll, List.foldl_concat]
  exact Prod.ext hresult rfl

theorem register_rejected (h : register c project = (.error failure, project'))
    (hf : ∀ e, failure ≠ .files e) : project' = project := by
  obtain ⟨_, hcheck, -⟩ | ⟨-, ⟨_, hensure, he⟩ | ⟨ensured, -, hattach⟩⟩ := register_cases h
  · exact (checkName_error hcheck).2
  · cases he
    obtain ⟨⟨e, he⟩, -⟩ := ensure_error hensure
    exact absurd he (hf e)
  · obtain ⟨⟨e, he⟩, -⟩ := attach_error hattach
    exact absurd he (hf e)

end Project

namespace Plugin

/-- The plugins that registrations lead to. Every call may find other files; one that fails has been
turned away for the name of its command. -/
inductive Registered : Plugin → Prop where
  | begun {d : Details} {p : Plugin} (h : ofDetails d = .ok p) : Registered p
  | accepted {p : Plugin} {c : Command} {files : Files.Tree} {project : Project}
      (hp : Registered p) (h : Project.register c ⟨p, files⟩ = (.ok (), project)) :
      Registered project.plugin
  | rejected {p : Plugin} {c : Command} {files : Files.Tree} {project : Project}
      {failure : Failure} (hp : Registered p)
      (h : Project.register c ⟨p, files⟩ = (.error failure, project))
      (hf : failure = .invalidName c.name ∨ failure = .duplicateCommand c.name) :
      Registered project.plugin

/-- The commands of a plugin, the names of their classes and its entry point fit each other. -/
structure Consistent (p : Plugin) : Prop where
  name : Java.isIdentifier p.details.name
  package : Java.isQualifiedName p.details.package
  classes : p.commandClasses = p.commands.map Command.name
  distinct : p.commandClasses.Nodup
  valid : ∀ name ∈ p.commandClasses, Java.isIdentifier name
  stamped : ∀ c ∈ p.commands, ∀ commandClass, c.commandClass = some commandClass →
    commandClass.package = p.details.qualifiedName ++ ".commands"
  entryPoint : p.entryPoint =
    { EntryPoint.ofPackage p.details.qualifiedName with
      imports := EntryPoint.fixedImports ++
        p.runnable.map fun c => Project.importName p.details c.name }

theorem ofDetails_ok (h : ofDetails d = .ok p) :
    Java.isIdentifier d.name ∧ Java.isQualifiedName d.package ∧
      d.name ≠ Config.libraryDirectory ∧
      p = ⟨d, [], [], .ofPackage d.qualifiedName, false, false⟩ := by
  rw [ofDetails] at h
  split at h
  · cases h
  next hname =>
  split at h
  · cases h
  next hpackage =>
  split at h
  · cases h
  next hlibrary =>
  cases h
  exact ⟨by simpa using hname, by simpa using hpackage, hlibrary, rfl⟩

theorem consistent_ofDetails (h : ofDetails d = .ok p) : p.Consistent := by
  obtain ⟨hname, hpackage, -, rfl⟩ := ofDetails_ok h
  exact {
    name := hname
    package := hpackage
    classes := rfl
    distinct := List.nodup_nil
    valid := nofun
    stamped := nofun
    entryPoint := rfl }

theorem commandClass_stamp (c : Command) (plugin : Text) :
    (c.stamp plugin).commandClass = c.commandClass.map (CommandClass.stamp · plugin) :=
  rfl

theorem isSome_commandClass_stamp (c : Command) (plugin : Text) :
    (c.stamp plugin).commandClass.isSome = c.commandClass.isSome :=
  Option.isSome_map

theorem Consistent.attach (h : p.Consistent) (hn : Java.isIdentifier c.name)
    (hd : c.name ∉ p.commandClasses) :
    (Project.attached (c.stamp p.details.qualifiedName)
      { p with hasManifest := true }).Consistent where
  name := by
    rw [Project.attached_details]
    exact h.name
  package := by
    rw [Project.attached_details]
    exact h.package
  classes := by
    rw [Project.attached_commandClasses, Project.attached_commands, List.map_append, h.classes]
    rfl
  distinct := by
    rw [Project.attached_commandClasses]
    refine List.nodup_append.2 ⟨h.distinct, List.pairwise_singleton _ _, ?_⟩
    rintro name hname other hother rfl
    exact hd (List.mem_singleton.1 hother ▸ hname)
  valid := by
    rw [Project.attached_commandClasses]
    intro name hname
    rcases List.mem_append.1 hname with hname | hname
    · exact h.valid name hname
    · rw [List.mem_singleton.1 hname]
      exact hn
  stamped := by
    rw [Project.attached_commands, Project.attached_details]
    intro other hother commandClass hclass
    rcases List.mem_append.1 hother with hother | hother
    · exact h.stamped other hother commandClass hclass
    · rw [List.mem_singleton.1 hother, commandClass_stamp] at hclass
      obtain ⟨given, -, rfl⟩ := Option.map_eq_some_iff.1 hclass
      rfl
  entryPoint := by
    have hruns := isSome_commandClass_stamp c p.details.qualifiedName
    rw [Project.attached_entryPoint, runnable, Project.attached_commands, Project.attached_details,
      List.filter_append, List.map_append, ← List.append_assoc, h.entryPoint, runnable]
    cases hs : c.commandClass.isSome <;> simp [hruns, hs]

theorem Registered.consistent (h : Registered p) : p.Consistent := by
  induction h with
  | begun h => exact consistent_ofDetails h
  | accepted _ h ih =>
    obtain ⟨hn, hd, hplugin⟩ := Project.register_ok h
    rw [hplugin]
    exact ih.attach hn hd
  | rejected _ h hf ih =>
    rw [Project.register_rejected h fun e he => by rcases hf with hf | hf <;> cases hf.symm.trans he]
    exact ih

end Plugin

end PluginForge
