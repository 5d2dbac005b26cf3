import PluginForge.Proofs.Manifest.History
import PluginForge.Proofs.Plugin.Failure

namespace PluginForge.Project

open Files (Location OnWay Tree)

variable {at' : Location} {c : Command} {commands : List Command} {p : Plugin}
  {project project' project'' : Project} {t t' : Tree}

theorem ensure_made {result : Except Failure Unit} (h : ensure project = (result, project'))
    (hat : at' ≠ project.plugin.details.manifestPath.names) :
    Tree.MadeIf (OnWay project.plugin.details.packageDirectory at') (project.files.node? at')
      (project'.files.node? at') := by
  obtain ⟨made, hmade, hfiles⟩ := ensure_files h
  rcases hfiles with hfiles | ⟨_, hfiles⟩
  · rw [hfiles]
    exact hmade at'
  · rw [hfiles.node, if_neg hat]
    exact hmade at'

theorem register_made {result : Except Failure Unit} (h : register c project = (result, project'))
    (hat : at' ≠ project.plugin.details.manifestPath.names) :
    Tree.MadeIf (OnWay project.plugin.details.packageDirectory at') (project.files.node? at')
      (project'.files.node? at') := by
  obtain ⟨_, hcheck, -⟩ | ⟨-, ⟨_, hensure, -⟩ | ⟨ensured, hensure, hattach⟩⟩ := register_cases h
  · rw [(checkName_error hcheck).2]
    exact .inl rfl
  · exact ensure_made hensure hat
  · have hmade := ensure_made hensure hat
    cases result with
    | error failure =>
      rw [(attach_error hattach).2.1]
      exact hmade
    | ok _ =>
      obtain ⟨_, -, hwritten⟩ := Tree.append_written (attach_ok hattach).2
      rw [(ensure_ok hensure).1] at hwritten
      rw [hwritten.node, if_neg hat]
      exact hmade

/-- What registrations leave alone, whatever comes of them. -/
structure Spares (project project' : Project) : Prop where
  details : project'.plugin.details = project.plugin.details
  made : ∀ at', at' ≠ project.plugin.details.manifestPath.names →
    Tree.MadeIf (OnWay project.plugin.details.packageDirectory at') (project.files.node? at')
      (project'.files.node? at')

theorem Spares.refl (project : Project) : Spares project project :=
  ⟨rfl, fun _ _ => .inl rfl⟩

theorem Spares.trans (h : Spares project project') (h' : Spares project' project'') :
    Spares project project'' where
  details := h'.details.trans h.details
  made := by
    intro at' hat
    have hmade := h'.made at'
    rw [h.details] at hmade
    exact (h.made at' hat).trans (hmade hat)

theorem spares_register {result : Except Failure Unit}
    (h : register c project = (result, project')) : Spares project project' :=
  ⟨(register_commands h).1, fun _ => register_made h⟩

theorem spares_forM {result : Except Failure Unit}
    (h : commands.forM register project = (result, project')) : Spares project project' := by
  have hstep : ∀ c ∈ commands, ∀ project, Spares project (register c project).2 :=
    fun c _ project => spares_register (Prod.mk.eta (p := register c project)).symm
  have hspares := forM_preserves_always .refl (fun _ _ _ => .trans) hstep project
  rwa [h] at hspares

/-- What registrations that succeed, one after another, lead to. -/
structure Takes (project project' : Project) : Prop where
  details : project'.plugin.details = project.plugin.details
  made : ∀ at', at' ≠ project.plugin.details.manifestPath.names →
    Tree.MadeIf (OnWay project.plugin.details.packageDirectory at') (project.files.node? at')
      (project'.files.node? at')
  listed : ListsCommands project → ListsCommands project'
  registered : project.plugin.Registered → project'.plugin.Registered

theorem Takes.refl (project : Project) : Takes project project :=
  ⟨rfl, fun _ _ => .inl rfl, id, id⟩

theorem Takes.trans (h : Takes project project') (h' : Takes project' project'') :
    Takes project project'' :=
  have hspares := Spares.trans ⟨h.details, h.made⟩ ⟨h'.details, h'.made⟩
  ⟨hspares.details, hspares.made, h'.listed ∘ h.listed, h'.registered ∘ h.registered⟩

theorem takes_register (h : register c project = (.ok (), project')) : Takes project project' where
  details := (register_commands h).1
  made _ := register_made h
  listed hl := (hl.register h).1
  registered hp := .accepted hp h

theorem takes_forM (h : commands.forM register project = (.ok (), project')) :
    Takes project project' := by
  apply forM_preserves (R := Takes) .refl (fun _ _ _ => .trans) _ h
  intro c _ project project' hstep
  exact takes_register hstep

/-- Which plugin registrations lead to does not depend on the files. -/
theorem forM_register_plugin (h : commands.forM register ⟨p, t⟩ = (.ok (), project))
    (h' : commands.forM register ⟨p, t'⟩ = (.ok (), project')) :
    project.plugin = project'.plugin := by
  induction commands generalizing p t t' with
  | nil =>
    cases h
    cases h'
    rfl
  | cons c commands ih =>
    rw [List.forM] at h h'
    obtain ⟨_, ⟨q, between⟩, hfirst, h⟩ := bind_eq_ok.1 h
    obtain ⟨_, ⟨q', between'⟩, hfirst', h'⟩ := bind_eq_ok.1 h'
    have hq := (register_ok hfirst).2.2.trans (register_ok hfirst').2.2.symm
    have hq : q = q' := hq
    rw [← hq] at h'
    exact ih h h'

end PluginForge.Project
