import PluginForge.Proofs.Plugin.Registration

namespace PluginForge

variable {c : Command} {p : Plugin} {project project' : Project} {failure : Failure}

/-- The plugins that calls lead to, whether they succeed or not. Every call may find other files. -/
inductive Plugin.Reachable : Plugin → Prop where
  | begun {d : Details} {p : Plugin} (h : ofDetails d = .ok p) : Reachable p
  | ensured {p : Plugin} {files : Files.Tree} {result : Except Failure Unit} {project : Project}
      (hp : Reachable p) (h : Project.ensure ⟨p, files⟩ = (result, project)) :
      Reachable project.plugin
  | registered {p : Plugin} {c : Command} {files : Files.Tree} {result : Except Failure Unit}
      {project : Project} (hp : Reachable p)
      (h : Project.register c ⟨p, files⟩ = (result, project)) : Reachable project.plugin
  | scheduled {p : Plugin} (hp : Reachable p) : Reachable { p with isScheduled := true }

namespace Project

/-- The name of a command passes its check, and the project gets its directories and its manifest, so
that nothing but the entry in the manifest is left to do for a registration. -/
def admits (c : Command) (project : Project) : Bool :=
  (checkName c project).1.isOk && (ensure project).1.isOk

/-- A plugin whose manifest stands and did not take the entry of a command. -/
def abandoned (c : Command) (p : Plugin) : Plugin :=
  if c.commandClass.isSome then importCommand c { p with hasManifest := true }
  else { p with hasManifest := true }

/-- A registration that fails has changed nothing of the plugin, or has got as far as the entry in the
manifest. -/
theorem register_error (h : register c project = (.error failure, project')) :
    project'.plugin = if admits c project then abandoned c project.plugin else project.plugin := by
  obtain ⟨_, hcheck, he⟩ | ⟨hcheck, ⟨_, hensure, he⟩ | ⟨ensured, hensure, hattach⟩⟩ :=
    register_cases h
  · have hadmits : admits c project = false := by
      rw [admits, hcheck]
      rfl
    rw [(checkName_error hcheck).2, hadmits, if_neg Bool.false_ne_true]
  · have hadmits : admits c project = false := by
      rw [admits, hcheck, hensure]
      rfl
    rw [(ensure_error hensure).2, hadmits, if_neg Bool.false_ne_true]
  · have hadmits : admits c project := by
      rw [admits, hcheck, hensure]
      rfl
    obtain ⟨-, -, hplugin⟩ := attach_error hattach
    rw [hplugin, (ensure_ok hensure).1, Plugin.isSome_commandClass_stamp, if_pos hadmits, abandoned]
    rfl

theorem ensure_commands {result : Except Failure Unit} (h : ensure project = (result, project')) :
    project'.plugin.details = project.plugin.details ∧
      project'.plugin.commands = project.plugin.commands := by
  cases result with
  | error failure =>
    rw [(ensure_error h).2]
    exact ⟨rfl, rfl⟩
  | ok _ =>
    rw [(ensure_ok h).1]
    exact ⟨rfl, rfl⟩

theorem register_commands {result : Except Failure Unit} (h : register c project = (result, project')) :
    project'.plugin.details = project.plugin.details ∧
      (project'.plugin.commands = project.plugin.commands ∨
        Java.isIdentifier c.name ∧ project'.plugin.commands =
          project.plugin.commands ++ [c.stamp project.plugin.details.qualifiedName]) := by
  cases result with
  | error failure =>
    rw [register_error h, abandoned]
    split
    · split <;> exact ⟨rfl, .inl rfl⟩
    · exact ⟨rfl, .inl rfl⟩
  | ok _ =>
    obtain ⟨hn, -, hplugin⟩ := register_ok h
    rw [hplugin, attached_details, attached_commands]
    exact ⟨rfl, .inr ⟨hn, rfl⟩⟩

def idleCommand (name : Text) : Command :=
  { Command.ofName name with
    sender := some "s".toList
    commandClass := some (.ofHandler name ⟨[], Callback.successReturn⟩) }

/-- A registration that fails leaves the commands and the names of their classes as they were. It leaves
the imports of the entry point as they were too, unless the command has a handler and all steps but the
entry in the manifest were done: then the class of the command stays imported. -/
theorem register_failure_trace (h : register c project = (.error failure, project')) :
    project'.plugin.commands = project.plugin.commands ∧
      project'.plugin.commandClasses = project.plugin.commandClasses ∧
      project'.plugin.entryPoint.imports = project.plugin.entryPoint.imports ++
        if admits c project && c.commandClass.isSome then [importName project.plugin.details c.name]
        else [] := by
  rw [register_error h]
  cases ha : admits c project with
  | false =>
    rw [if_neg Bool.false_ne_true, Bool.false_and, if_neg Bool.false_ne_true, List.append_nil]
    exact ⟨rfl, rfl, rfl⟩
  | true =>
    rw [if_pos rfl, Bool.true_and, abandoned]
    cases c.commandClass.isSome with
    | false =>
      rw [if_neg Bool.false_ne_true, if_neg Bool.false_ne_true, List.append_nil]
      exact ⟨rfl, rfl, rfl⟩
    | true => exact ⟨rfl, rfl, rfl⟩

/-- The beginning of a plugin, in a directory where a file stands in the way of its project. -/
def obstructed : Project where
  plugin := ⟨.ofName "Demo", [], [], .ofPackage "com.Demo", false, false⟩
  files := Files.Tree.empty.put ["Demo".toList] (.file ByteArray.empty)

theorem register_failure_trace_obstructed :
    ∃ failure project', register (idleCommand "hello") obstructed = (.error failure, project') ∧
      admits (idleCommand "hello") obstructed = false ∧
      project'.plugin.entryPoint.imports = EntryPoint.fixedImports := by
  have hadmits : admits (idleCommand "hello") obstructed = false := by decide +kernel
  obtain ⟨failure, hresult⟩ := exists_error_of_isOk
    (x := (register (idleCommand "hello") obstructed).1) (by decide +kernel)
  have hregister : register (idleCommand "hello") obstructed =
      (.error failure, (register (idleCommand "hello") obstructed).2) := Prod.ext hresult rfl
  obtain ⟨-, -, himports⟩ := register_failure_trace hregister
  rw [hadmits] at himports
  exact ⟨failure, _, hregister, hadmits, himports⟩

/-- The plugin of `obstructed` with its manifest written, and then the manifest deleted. -/
def stripped : Project where
  plugin := (ensure ⟨obstructed.plugin, .empty⟩).2.plugin
  files := (ensure ⟨obstructed.plugin, .empty⟩).2.files.remove ["Demo", "plugin.yml"]

/-- The import of a class stays behind when its command cannot be entered in the manifest. -/
theorem register_failure_keeps_import :
    stripped.plugin.Reachable ∧
      ∃ failure project', register (idleCommand "hello") stripped = (.error failure, project') ∧
        project'.plugin.commandClasses = stripped.plugin.commandClasses ∧
        stripped.plugin.entryPoint.imports = EntryPoint.fixedImports ∧
        project'.plugin.entryPoint.imports =
          EntryPoint.fixedImports ++ ["com.Demo.commands.hello".toList] := by
  have hbegun : Plugin.ofDetails (.ofName "Demo") = .ok obstructed.plugin := by rfl
  have hensured : ensure ⟨obstructed.plugin, .empty⟩ =
      ((ensure ⟨obstructed.plugin, .empty⟩).1, (ensure ⟨obstructed.plugin, .empty⟩).2) := rfl
  have hreach := Plugin.Reachable.ensured (.begun hbegun) hensured
  obtain ⟨failure, hresult⟩ := exists_error_of_isOk
    (x := (register (idleCommand "hello") stripped).1) (by decide +kernel)
  exact ⟨hreach, failure, _, Prod.ext hresult rfl, by decide +kernel, by decide +kernel,
    by decide +kernel⟩

end Project

end PluginForge
