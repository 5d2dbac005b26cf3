import PluginForge.Proofs.Build.Registered
import PluginForge.Proofs.Plugin.CommandSteps

namespace PluginForge

open Build.Assembly (commandFiles mem_commandFiles)
open Callback (Handler)

variable {handler : Handler} {name other : Text} {project project' : Project}

/-- A class is declared and constructed, and registers itself with the server, under a name. -/
structure CommandClass.IsNamed (k : CommandClass) (name : Text) : Prop where
  header : k.header = "public class " ++ name ++ " implements CommandExecutor"
  signature : k.constructor.signature = "public " ++ name ++ "(Plugin plugin)"
  registration : k.constructor.body = "plugin.getCommand(\"" ++ name ++ "\").setExecutor(this);"

theorem CommandClass.isNamed_ofHandler (name plugin : Text) (method : Java.Method) :
    ((ofHandler name method).stamp plugin).IsNamed name :=
  ⟨rfl, rfl, rfl⟩

theorem CommandClass.IsNamed.unique {k : CommandClass} (h : k.IsNamed name) (h' : k.IsNamed other) :
    other = name := by
  have hheader := h'.header.symm.trans h.header
  exact List.append_cancel_left (List.append_cancel_right hheader)

namespace Project

/-- A command with a class is registered: the plugin, its entry point, its manifest and the sources of its
build know it by a name. -/
structure Records (project project' : Project) (command : Command) (k : CommandClass) (name : Text) :
    Prop where
  commandClass : command.commandClass = some k
  called : command.name = name
  commands : project'.plugin.commands = project.plugin.commands ++ [command]
  classes : project'.plugin.commandClasses = project.plugin.commandClasses ++ [name]
  imports : project'.plugin.entryPoint.imports =
    project.plugin.entryPoint.imports ++ [importName project.plugin.details name]
  manifest : ∃ old, project'.files.read project.plugin.details.manifestPath =
    .ok (old ++ Text.toUtf8 (Manifest.commandBlock command))
  source : (project.plugin.details.commandPath name, Text.toUtf8 k.source) ∈
    commandFiles project'.plugin

theorem register_records {c : Command} {k : CommandClass} (hclass : c.commandClass = some k)
    (h : register c project = (.ok (), project')) :
    Records project project' (c.stamp project.plugin.details.qualifiedName)
      (k.stamp project.plugin.details.qualifiedName) c.name := by
  obtain ⟨-, -, hplugin⟩ := register_ok h
  have hcommands : project'.plugin.commands =
      project.plugin.commands ++ [c.stamp project.plugin.details.qualifiedName] := by
    rw [hplugin, attached_commands]
  have hstamped : (c.stamp project.plugin.details.qualifiedName).commandClass =
      some (k.stamp project.plugin.details.qualifiedName) := by
    rw [Plugin.commandClass_stamp, hclass]
    rfl
  refine ⟨hstamped, rfl, hcommands, ?_, ?_, ?_, ?_⟩
  · rw [hplugin, attached_commandClasses]
    rfl
  · have hsome : (c.stamp project.plugin.details.qualifiedName).commandClass.isSome :=
      Option.isSome_of_eq_some hstamped
    rw [hplugin, attached_entryPoint, if_pos hsome]
    rfl
  · obtain ⟨_, -, he⟩ | ⟨-, ⟨_, -, he⟩ | ⟨ensured, hensure, hattach⟩⟩ := register_cases h
    · cases he
    · cases he
    have happend := (attach_ok hattach).2
    rw [(ensure_ok hensure).1] at happend
    obtain ⟨old, -, hwritten⟩ := Files.Tree.append_written happend
    exact ⟨old, hwritten.read⟩
  · have hmem : c.stamp project.plugin.details.qualifiedName ∈ project'.plugin.commands := by
      rw [hcommands]
      exact List.mem_append_right _ List.mem_cons_self
    have hfile := mem_commandFiles hmem hstamped
    rwa [hplugin, attached_details, ← hplugin] at hfile

end Project

namespace Command

variable {before later steps : List Step} {step : Step}

theorem perform_name (h : ∀ text, step ≠ .name text) (c : Command) : (step.perform c).2.name = c.name := by
  cases step with
  | usage text => rfl
  | description text => rfl
  | aliases names => rfl
  | name text => exact absurd rfl (h text)
  | onUse source =>
    rw [perform_onUse, onUse]
    cases Handler.ofSource source <;> rfl
  | executeType registry tag =>
    rw [perform_executeType, executeType]
    cases c.commandClass <;> cases c.sender <;> rfl

theorem after_name (h : ∀ step ∈ steps, ∀ text, step ≠ .name text) (c : Command) :
    (c.after steps).name = c.name := by
  induction steps generalizing c with
  | nil => rfl
  | cons step steps ih =>
    rw [List.forall_mem_cons] at h
    exact (ih h.2 _).trans (perform_name h.1 c)

/-- A command that is registered goes by the name it has then, but its class by the name that the command had
when it was given its last handler. These are the same if the name is not assigned in between. -/
theorem registered_names (hhandler : step.handler? = some handler)
    (hlater : ∀ step ∈ later, step.handler? = none)
    (h : Project.register ((ofName name).after (before ++ step :: later)) project = (.ok (), project')) :
    let registered := ((ofName name).after (before ++ step :: later)).name
    let declared := ((ofName name).after before).name
    ∃ command k, Project.Records project project' command k registered ∧
      (∀ other, k.IsNamed other ↔ other = declared) ∧
      ((∀ step ∈ later, ∀ text, step ≠ .name text) → registered = declared) := by
  intro registered declared
  obtain ⟨-, hclass⟩ := after_handler before hhandler hlater (ofName name)
  have hrecords := Project.register_records hclass h
  refine ⟨_, _, hrecords, fun other => ?_, ?_⟩
  · constructor
    · exact (CommandClass.isNamed_ofHandler declared _ _).unique
    · rintro rfl
      exact CommandClass.isNamed_ofHandler declared _ _
  · intro hkept
    have hregistered : registered = ((step.perform ((ofName name).after before)).2.after later).name :=
      congrArg Command.name (after_append (ofName name) before (step :: later))
    rw [hregistered, after_name hkept, perform_handler hhandler]

def idleSource : Text :=
  "(s, c, l, a) => \x7b\n\x7d"

def emptyProject : Project :=
  ⟨Build.Assembly.demo.plugin, .empty⟩

theorem registered_names_kept :
    ∃ project' command k, Project.register
        ((ofName "hello").after [.name "bye", .onUse idleSource, .usage "/bye"]) emptyProject =
          (.ok (), project') ∧
      Project.Records emptyProject project' command k "bye" ∧ k.IsNamed "bye" := by
  have hread : (Step.onUse idleSource).handler? =
      some ⟨⟨"s", "c", "l", "a"⟩, Callback.successReturn⟩ := by rfl
  have hlater : ∀ step ∈ [Step.usage "/bye"], step.handler? = none := by decide
  obtain ⟨_, hregistered⟩ := exists_ok_of_isOk (x := (Project.register
    ((ofName "hello").after ([.name "bye"] ++ .onUse idleSource :: [.usage "/bye"])) emptyProject).1)
    (by decide +kernel)
  obtain ⟨command, k, hrecords, hnamed, -⟩ :=
    registered_names hread hlater (Prod.ext hregistered rfl)
  exact ⟨_, command, k, Prod.ext hregistered rfl, hrecords, (hnamed _).2 rfl⟩

/-- The name is assigned behind the last callback: the class keeps the one before. -/
theorem registered_names_apart :
    ∃ project' command k, Project.register
        ((ofName "hello").after [.onUse idleSource, .name "bye"]) emptyProject = (.ok (), project') ∧
      Project.Records emptyProject project' command k "bye" ∧ k.IsNamed "hello" ∧
      ¬k.IsNamed "bye" := by
  obtain ⟨method, hclass⟩ : ∃ method,
      ((ofName "hello").after [.onUse idleSource, .name "bye"]).commandClass =
        some (.ofHandler "hello" method) := ⟨_, rfl⟩
  obtain ⟨_, hregistered⟩ := exists_ok_of_isOk (x := (Project.register
    ((ofName "hello").after [.onUse idleSource, .name "bye"]) emptyProject).1) (by decide +kernel)
  have hregister : Project.register ((ofName "hello").after [.onUse idleSource, .name "bye"])
      emptyProject = (.ok (), _) := Prod.ext hregistered rfl
  have hnamed := CommandClass.isNamed_ofHandler "hello" emptyProject.plugin.details.qualifiedName method
  refine ⟨_, _, _, hregister, Project.register_records hclass hregister, hnamed, fun hbye => ?_⟩
  exact absurd (hnamed.unique hbye) (by decide)

end Command

end PluginForge
