import PluginForge.Build.Deferred
import PluginForge.Proofs.Build.Flag
import PluginForge.Proofs.Build.Obstacles
import PluginForge.Proofs.Build.Result

namespace PluginForge.Build

def Progress.isSuccess : Progress → Bool
  | .over result => result.isOk
  | _ => false

/-- What a party does, and what it is answered. Of a step of the building side it is told how far that
side was, and whether the build was cancelled then. -/
inductive Event where
  | ready (plugin : Plugin) (result : Except Failure Unit)
  | dropSignal
  | cancel (isFirst : Bool)
  | advance (phase : Phase) (isCancelled : Bool) (progress : Progress)
  | dropBuild

namespace Event

def usesSignal : Event → Bool
  | ready _ _ => true
  | dropSignal => true
  | _ => false

/-- The second look has found the build not cancelled, so the plugin is built. -/
def builds : Event → Bool
  | advance (.received _) false _ => true
  | _ => false

end Event

namespace Deferred

variable {config : Config} {d d' : Deferred} {e : Event} {files : Files.Tree} {log : List Event}
  {plugin : Plugin} {progress : Progress} {tools : Toolchain} {w : Workshop}
  {write : Archive.Writer}

/-- One of the parties does something. The signal can be used as long as there is one, and the building
side goes on unless it has to wait. -/
inductive Step (write : Archive.Writer) (tools : Toolchain) (config : Config) :
    Deferred → Event → Deferred → Prop where
  | ready {d d' : Deferred} {plugin : Plugin} {result : Except Failure Unit} (hs : d.hasSignal)
      (h : d.ready plugin = (result, d')) : Step write tools config d (.ready plugin result) d'
  | dropSignal {d : Deferred} (hs : d.hasSignal) : Step write tools config d .dropSignal d.dropSignal
  | cancel {d d' : Deferred} {isFirst : Bool} (h : d.cancel = (isFirst, d')) :
      Step write tools config d (.cancel isFirst) d'
  | advance {d d' : Deferred} {progress : Progress} (hb : d.hasBuild)
      (h : d.step write tools config = (progress, d')) (hp : progress ≠ .waits) :
      Step write tools config d (.advance d.phase d.isCancelled progress) d'
  | dropBuild {d : Deferred} (hb : d.hasBuild) : Step write tools config d .dropBuild d.dropBuild

/-- What the parties have done so far, in any order, and what that has led to. -/
inductive Runs (write : Archive.Writer) (tools : Toolchain) (config : Config) (files : Files.Tree) :
    List Event → Deferred → Prop where
  | start : Runs write tools config files [] (.start files)
  | step {log : List Event} {d d' : Deferred} {e : Event} (h : Runs write tools config files log d)
      (hstep : Step write tools config d e d') : Runs write tools config files (log ++ [e]) d'

/-- What a step of the building side is. -/
inductive Advance (write : Archive.Writer) (tools : Toolchain) (config : Config) (d : Deferred) :
    Progress → Deferred → Prop where
  | cancelled (hflag : d.isCancelled) (hphase : d.phase = .idle ∨ ∃ plugin, d.phase = .received plugin) :
      Advance write tools config d (.over (.error .cancelled)) d.dropBuild
  | checked (hphase : d.phase = .idle) (hflag : d.isCancelled = false) :
      Advance write tools config d .goesOn { d with phase := .checked }
  | received (plugin : Plugin) (hphase : d.phase = .checked) (hsent : d.sent = some plugin) :
      Advance write tools config d .goesOn { d with sent := none, phase := .received plugin }
  | abandoned (hphase : d.phase = .checked) (hsent : d.sent = none) (hs : d.hasSignal = false) :
      Advance write tools config d (.over (.error .abandoned)) d.dropBuild
  | built (plugin : Plugin) {result : Except Failure Artifact} {w : Workshop}
      (hphase : d.phase = .received plugin) (hflag : d.isCancelled = false)
      (hrun : Assembly.run write tools config plugin d.workshop = (result, w)) :
      Advance write tools config d (.over result) { d with phase := .done, workshop := w }

theorem advance_of_step (hb : d.hasBuild) (h : d.step write tools config = (progress, d'))
    (hp : progress ≠ .waits) : Advance write tools config d progress d' := by
  rw [step] at h
  split at h
  · next hphase =>
    split at h
    · next hflag =>
      cases h
      exact .cancelled hflag (.inl hphase)
    · next hflag =>
      cases h
      exact .checked hphase (eq_false_of_ne_true hflag)
  · next hphase =>
    split at h
    · next plugin hsent =>
      cases h
      exact .received plugin hphase hsent
    · next hsent =>
      split at h
      · cases h
        exact absurd rfl hp
      · next hs =>
        cases h
        exact .abandoned hphase hsent (eq_false_of_ne_true hs)
  · next plugin hphase =>
    split at h
    · next hflag =>
      cases h
      exact .cancelled hflag (.inr ⟨plugin, hphase⟩)
    · next hflag =>
      cases hrun : Assembly.run write tools config plugin d.workshop with
      | mk result w =>
        rw [hrun] at h
        cases h
        exact .built plugin hphase (eq_false_of_ne_true hflag) hrun
  · next hphase =>
    rw [hasBuild, hphase] at hb
    cases hb

/-- An event of a kind happens only while something is held, and takes it away; no other event touches
it. -/
def Spends (write : Archive.Writer) (tools : Toolchain) (config : Config) (spends : Event → Bool)
    (held : Deferred → Bool) : Prop :=
  ∀ d e d', Step write tools config d e d' →
    if spends e then held d ∧ held d' = false else held d' = held d

/-- What is held at the start is spent at most once. -/
theorem Runs.countP_spends {spends : Event → Bool} {held : Deferred → Bool}
    (hspends : Spends write tools config spends held) (hstart : held (.start files))
    (h : Runs write tools config files log d) : log.countP spends = if held d then 0 else 1 := by
  induction h with
  | start => rw [List.countP_nil, if_pos hstart]
  | @step log d d' e _ hstep ih =>
    have he := hspends d e d' hstep
    rw [List.countP_append, List.countP_singleton, ih]
    by_cases hs : spends e
    · rw [if_pos hs] at he
      rw [if_pos he.1, if_pos hs, he.2]
      rfl
    · rw [if_neg hs] at he
      rw [if_neg hs, he]
      rfl

theorem spends_signal (write : Archive.Writer) (tools : Toolchain) (config : Config) :
    Spends write tools config Event.usesSignal hasSignal := by
  intro d e d' h
  cases h with
  | ready hs h =>
    rw [ready] at h
    split at h <;> cases h <;> exact ⟨hs, rfl⟩
  | dropSignal hs => exact ⟨hs, rfl⟩
  | cancel h =>
    cases h
    rfl
  | advance hb h hp => cases advance_of_step hb h hp <;> rfl
  | dropBuild => rfl

/-- What the parties have done tells what is on its way between them. -/
structure Trail (log : List Event) (d : Deferred) : Prop where
  handed : ∀ plugin, d.sent = some plugin ∨ d.phase = .received plugin →
    ∃ given, .ready given (.ok ()) ∈ log ∧ plugin = { given with isScheduled := true }
  waiting : d.hasBuild → ∀ given result, .ready given result ∈ log →
    d.sent.isSome ∨ ∃ plugin, d.phase = .received plugin
  checked : (d.phase = .checked ∨ ∃ plugin, d.phase = .received plugin) →
    .advance .idle false .goesOn ∈ log
  flag : d.hasBuild → (d.isCancelled ↔ ∃ isFirst, .cancel isFirst ∈ log)

namespace Trail

theorem mem_of_mem_concat {other : Event} (h : other ∈ log ++ [e]) (hne : e ≠ other) : other ∈ log := by
  rcases List.mem_append.1 h with h | h
  · exact h
  · exact absurd (List.mem_singleton.1 h).symm hne

theorem start (files : Files.Tree) : Trail [] (.start files) where
  handed := by
    rintro plugin (h | h) <;> cases h
  waiting := by
    intro _ given result h
    cases h
  checked := by
    rintro (h | ⟨plugin, h⟩) <;> cases h
  flag := by
    intro _
    constructor
    · intro h
      cases h
    · rintro ⟨isFirst, h⟩
      cases h

theorem flag_concat (h : Trail log d) (hb : d.hasBuild) (hflag : d'.isCancelled = d.isCancelled)
    (hne : ∀ isFirst, e ≠ .cancel isFirst) :
    d'.isCancelled ↔ ∃ isFirst, .cancel isFirst ∈ log ++ [e] := by
  rw [hflag, h.flag hb]
  constructor
  · rintro ⟨isFirst, hmem⟩
    exact ⟨isFirst, List.mem_append_left _ hmem⟩
  · rintro ⟨isFirst, hmem⟩
    exact ⟨isFirst, mem_of_mem_concat hmem (hne isFirst)⟩

theorem handed_concat (h : Trail log d)
    (hplugin : d.sent = some plugin ∨ d.phase = .received plugin) (e : Event) :
    ∃ given, .ready given (.ok ()) ∈ log ++ [e] ∧ plugin = { given with isScheduled := true } := by
  obtain ⟨given, hgiven, heq⟩ := h.handed plugin hplugin
  exact ⟨given, List.mem_append_left _ hgiven, heq⟩

theorem ended (h : Trail log d) (hsent : d'.sent = d.sent) (hphase : d'.phase = .done) :
    Trail (log ++ [e]) d' := by
  have hbuild : d'.hasBuild = false := by rw [hasBuild, hphase]
  constructor
  · rintro plugin (hplugin | hplugin)
    · rw [hsent] at hplugin
      exact h.handed_concat (.inl hplugin) _
    · cases hphase.symm.trans hplugin
  · intro hb
    cases hbuild.symm.trans hb
  · rintro (hchecked | ⟨plugin, hreceived⟩)
    · cases hphase.symm.trans hchecked
    · cases hphase.symm.trans hreceived
  · intro hb
    cases hbuild.symm.trans hb

theorem ready {result : Except Failure Unit} (h : Trail log d) (hr : d.ready plugin = (result, d')) :
    Trail (log ++ [.ready plugin result]) d' := by
  rw [Deferred.ready] at hr
  split at hr
  · next hb =>
    cases hr
    constructor
    · rintro other (hsent | hreceived)
      · cases hsent
        exact ⟨plugin, List.mem_append_right _ List.mem_cons_self, rfl⟩
      · exact h.handed_concat (.inr hreceived) _
    · intro _ given result _
      exact .inl rfl
    · intro hchecked
      exact List.mem_append_left _ (h.checked hchecked)
    · intro _
      exact h.flag_concat hb rfl nofun
  · next hb =>
    cases hr
    have hphase : d.phase = .done := by
      change ¬d.hasBuild at hb
      rw [hasBuild] at hb
      split at hb
      · assumption
      · exact absurd rfl hb
    exact h.ended rfl hphase

theorem cancel {isFirst : Bool} (h : Trail log d) (hc : d.cancel = (isFirst, d')) :
    Trail (log ++ [.cancel isFirst]) d' := by
  cases hc
  constructor
  · intro plugin hplugin
    exact h.handed_concat hplugin _
  · intro hb given result hgiven
    exact h.waiting hb given result (mem_of_mem_concat hgiven nofun)
  · intro hchecked
    exact List.mem_append_left _ (h.checked hchecked)
  · intro _
    exact ⟨fun _ => ⟨_, List.mem_append_right _ List.mem_cons_self⟩, fun _ => rfl⟩

theorem dropSignal (h : Trail log d) : Trail (log ++ [.dropSignal]) d.dropSignal where
  handed := by
    intro plugin hplugin
    exact h.handed_concat hplugin _
  waiting := by
    intro hb given result hgiven
    exact h.waiting hb given result (mem_of_mem_concat hgiven nofun)
  checked := by
    intro hchecked
    exact List.mem_append_left _ (h.checked hchecked)
  flag := by
    intro hb
    exact h.flag_concat hb rfl nofun

theorem advance (h : Trail log d) (hb : d.hasBuild) (ha : Advance write tools config d progress d') :
    Trail (log ++ [.advance d.phase d.isCancelled progress]) d' := by
  cases ha with
  | cancelled => exact h.ended rfl rfl
  | abandoned => exact h.ended rfl rfl
  | built => exact h.ended rfl rfl
  | checked hphase hflag =>
    constructor
    · rintro plugin (hsent | hreceived)
      · exact h.handed_concat (.inl hsent) _
      · cases hreceived
    · intro _ given result hgiven
      rcases h.waiting hb given result (mem_of_mem_concat hgiven nofun) with hsent | ⟨_, hreceived⟩
      · exact .inl hsent
      · cases hphase.symm.trans hreceived
    · intro _
      rw [hphase, hflag]
      exact List.mem_append_right _ List.mem_cons_self
    · intro _
      exact h.flag_concat hb rfl nofun
  | received plugin hphase hsent =>
    constructor
    · rintro other (hother | hother)
      · cases hother
      · cases hother
        exact h.handed_concat (.inl hsent) _
    · intro _ given result _
      exact .inr ⟨plugin, rfl⟩
    · intro _
      exact List.mem_append_left _ (h.checked (.inl hphase))
    · intro _
      exact h.flag_concat hb rfl nofun

theorem step (h : Trail log d) (hstep : Step write tools config d e d') : Trail (log ++ [e]) d' := by
  cases hstep with
  | ready _ hr => exact h.ready hr
  | dropSignal => exact h.dropSignal
  | cancel hc => exact h.cancel hc
  | advance hb ha hp => exact h.advance hb (advance_of_step hb ha hp)
  | dropBuild => exact h.ended rfl rfl

end Trail

theorem Runs.trail (h : Runs write tools config files log d) : Trail log d := by
  induction h with
  | start => exact .start files
  | step _ hstep ih => exact ih.step hstep

/-- Each event of a run is a step from where the events before it have led. -/
theorem Runs.split {before after : List Event} (h : Runs write tools config files (before ++ e :: after) d) :
    ∃ d₁ d₂, Runs write tools config files before d₁ ∧ Step write tools config d₁ e d₂ := by
  generalize hlog : before ++ e :: after = log at h
  induction h generalizing after with
  | start => cases before <;> cases hlog
  | @step log d₁ d₂ last hruns hstep ih =>
    rcases List.eq_nil_or_concat after with rfl | ⟨init, x, rfl⟩
    · obtain ⟨rfl, hlast⟩ := List.append_inj' hlog rfl
      cases hlast
      exact ⟨d₁, d₂, hruns, hstep⟩
    · rw [List.concat_eq_append, ← List.cons_append, ← List.append_assoc] at hlog
      exact ih (List.append_inj' hlog rfl).1

section Events

variable {before after : List Event} {phase : Phase} {flag : Bool} {failure : Failure}

theorem Runs.abandoned (h : Runs write tools config files log d) (hb : d.hasBuild)
    (hphase : d.phase = .checked) (hsent : d.sent = none) (hs : d.hasSignal = false) :
    .dropSignal ∈ log ∧ (∀ given result, .ready given result ∉ log) ∧
      .advance .idle false .goesOn ∈ log := by
  have hready : ∀ given result, .ready given result ∉ log := by
    intro given result hgiven
    rcases h.trail.waiting hb given result hgiven with hsome | ⟨plugin, hreceived⟩
    · rw [hsent] at hsome
      cases hsome
    · cases hphase.symm.trans hreceived
  have hcount := h.countP_spends (spends_signal write tools config) rfl
  rw [if_neg (by rw [hs]; exact Bool.false_ne_true)] at hcount
  obtain ⟨e, he, huses⟩ := List.countP_pos_iff.1 (hcount ▸ Nat.one_pos)
  cases e with
  | ready given result => exact absurd he (hready given result)
  | dropSignal => exact ⟨he, hready, h.trail.checked (.inl hphase)⟩
  | cancel => cases huses
  | advance => cases huses
  | dropBuild => cases huses

end Events

end Deferred

end PluginForge.Build
