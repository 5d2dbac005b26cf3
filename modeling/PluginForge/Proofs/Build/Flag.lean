import PluginForge.Proofs.Build.Keeps

namespace PluginForge.Build

variable {α β : Type} {tools : Toolchain}

/-- Whether the deferred build is cancelled is the same in both workshops. -/
def SameFlag (w w' : Workshop) : Prop :=
  w'.isCancelled = w.isCancelled

instance : IsPreorder Workshop SameFlag where
  refl _ := rfl
  trans _ _ _ h h' := h'.trans h

theorem keepsFlag_act (action : Action α) : Keeps SameFlag (Work.act action) :=
  .act fun _ => rfl

theorem keepsFlag_onFiles (action : Files.Action α) : Keeps SameFlag (Work.onFiles action) :=
  keepsFlag_act _

theorem keepsFlag_ensureProject (plugin : Plugin) :
    Keeps SameFlag (Assembly.ensureProject plugin) := by
  intro w
  rfl

theorem keepsFlag_library (l : Layout) (library : Config.Library) :
    Keeps SameFlag (SupportLibrary.ensure tools l library) := by
  have hobtain (scratch : Files.Path) :
      Keeps SameFlag (SupportLibrary.obtain tools l library scratch) := by
    apply Keeps.bind (.fetch (R := SameFlag) (fun _ => rfl) fun _ => rfl)
    intro _
    apply Keeps.bind (.forM fun name _ => keepsFlag_onFiles _)
    intro _
    apply Keeps.bind (keepsFlag_onFiles _)
    intro found
    split
    · exact .bind (.throw _) fun _ => keepsFlag_onFiles _
    · exact keepsFlag_onFiles _
  have hscratch : Keeps SameFlag
      (Work.withScratch l.workingRoot (SupportLibrary.obtain tools l library)) := by
    apply Keeps.bind (keepsFlag_onFiles _)
    intro scratch w
    exact hobtain scratch w
  have hstray : Keeps SameFlag (SupportLibrary.stray? l) := by
    rw [SupportLibrary.stray?]
    split
    · exact .pure _
    · apply Keeps.bind (keepsFlag_onFiles _)
      intro found
      split <;> exact .pure _
  apply Keeps.bind (keepsFlag_onFiles _)
  intro found
  split
  · exact .pure _
  · apply hstray.bind
    intro stray
    split
    · exact keepsFlag_onFiles _
    · exact hscratch

theorem keepsFlag_writeSources (plugin : Plugin) (l : Layout) :
    Keeps SameFlag (Assembly.writeSources plugin l) := by
  have hcommands : Keeps SameFlag (Assembly.writeCommands plugin) := by
    apply Keeps.forM
    intro c _
    split
    · exact .pure _
    · exact keepsFlag_onFiles _
  apply hcommands.bind
  intro _
  apply Keeps.bind (keepsFlag_onFiles _)
  intro _
  exact .bind (keepsFlag_onFiles _) fun _ => keepsFlag_onFiles _

/-- A step that sets the flag if it succeeds and is told to, and else leaves it as it is. -/
def SetsFlag (b : Bool) (x : Work α) : Prop :=
  ∀ w, (x w).2.isCancelled = (w.isCancelled || ((x w).1.isOk && b))

theorem SetsFlag.bind {b : Bool} {x : Work α} {f : α → Work β} (hx : Keeps SameFlag x)
    (hf : ∀ a, SetsFlag b (f a)) : SetsFlag b (x >>= f) := by
  intro w
  have hfirst : (x w).2.isCancelled = w.isCancelled := hx w
  change (ExceptT.bindCont f (x w).1 (x w).2).2.isCancelled =
    (w.isCancelled || ((ExceptT.bindCont f (x w).1 (x w).2).1.isOk && b))
  cases hresult : (x w).1 with
  | ok a =>
    rw [← hfirst]
    exact hf a _
  | error e =>
    rw [← hfirst]
    exact (Bool.or_false _).symm

/-- A build sets the flag only at its very end, and then only if its plugin belongs to a deferred
build. -/
theorem setsFlag_run (write : Archive.Writer) (tools : Toolchain) (config : Config) (plugin : Plugin) :
    SetsFlag plugin.isScheduled (Assembly.run write tools config plugin) := by
  apply SetsFlag.bind (.lift _)
  intro l
  apply SetsFlag.bind (keepsFlag_ensureProject _)
  intro _
  apply SetsFlag.bind (keepsFlag_onFiles _)
  intro _
  apply SetsFlag.bind (keepsFlag_library _ _)
  intro _
  apply SetsFlag.bind (keepsFlag_writeSources _ _)
  intro _
  apply SetsFlag.bind (.compile (R := SameFlag) (fun _ => rfl) fun _ => rfl)
  intro _
  apply SetsFlag.bind (.map (keepsFlag_onFiles _))
  intro _
  apply SetsFlag.bind (.pack _ _ _)
  intro archive
  apply SetsFlag.bind (.lift _)
  intro bytes
  apply SetsFlag.bind (keepsFlag_onFiles _)
  intro _
  apply SetsFlag.bind (keepsFlag_onFiles _)
  intro _ w
  change (w.isCancelled || plugin.isScheduled) = (w.isCancelled || (true && plugin.isScheduled))
  rw [Bool.true_and]

end PluginForge.Build
