import PluginForge.Proofs.Build.Packing

namespace PluginForge

/-- Those failures that a deferred build has of its own. -/
def Failure.IsDeferral : Failure → Prop
  | .abandoned => True
  | .cancelled => True
  | _ => False

namespace Build

open Files (Path Tree)

variable {α β : Type} {config : Config} {d : Details} {l : Layout} {plugin : Plugin}
  {tools : Toolchain} {write : Archive.Writer} {P : Failure → Prop}

/-- What can stop a build: the files, a tool, a repository without the support library, a library that is
named like the plugin, or entries of different names that cannot be kept in an archive. -/
inductive Obstacle (write : Archive.Writer) (tools : Toolchain) (config : Config) (d : Details) :
    Failure → Prop where
  | files (e : Files.Error) : Obstacle write tools config d (.files e)
  | fetch {failure : Failure} (l : Layout) (destination : Path) (t : Tree)
      (h : (tools.fetch l config.library destination t).1 = .error failure) :
      Obstacle write tools config d failure
  | compile {failure : Failure} (l : Layout) (entryPoint : Path) (t : Tree)
      (h : (tools.compile l entryPoint t).1 = .error failure) : Obstacle write tools config d failure
  | noLibrary :
      Obstacle write tools config d (.noLibrary config.library.repository config.library.directory)
  | nameOfLibrary (h : d.name = config.library.directory) :
      Obstacle write tools config d (.nameOfLibrary d.name)
  | archive {reason : Text} (entries : List Archive.Entry) (hd : (entries.map Archive.Entry.name).Nodup)
      (h : write entries = .error reason) : Obstacle write tools config d (.archive reason)

/-- Whenever a step fails, it does so with a failure of this kind. -/
def FailsWith (P : Failure → Prop) (x : Work α) : Prop :=
  ∀ w w' failure, x w = (.error failure, w') → P failure

namespace FailsWith

theorem pure (a : α) : FailsWith P (Pure.pure a : Work α) := by
  intro w w' failure h
  cases h

theorem get : FailsWith P (get : Work Workshop) := by
  intro w w' failure h
  cases h

theorem modify (f : Workshop → Workshop) : FailsWith P (modify f : Work PUnit) := by
  intro w w' failure h
  cases h

theorem mono {Q : Failure → Prop} {x : Work α} (hx : FailsWith P x)
    (h : ∀ failure, P failure → Q failure) : FailsWith Q x := by
  intro w w' failure hw
  exact h failure (hx w w' failure hw)

theorem bind {x : Work α} {f : α → Work β} (hx : FailsWith P x) (hf : ∀ a, FailsWith P (f a)) :
    FailsWith P (x >>= f) := by
  intro w w' failure h
  rcases bind_eq_error.1 h with h | ⟨a, between, -, h⟩
  · exact hx w w' failure h
  · exact hf a between w' failure h

theorem map {x : Work α} {f : α → β} (hx : FailsWith P x) : FailsWith P (f <$> x) := by
  rw [map_eq_pure_bind]
  exact .bind hx fun a => .pure _

theorem forM {xs : List α} {f : α → Work PUnit} (h : ∀ x, FailsWith P (f x)) :
    FailsWith P (xs.forM f) := by
  induction xs with
  | nil => exact .pure _
  | cons x xs ih => exact .bind (h x) fun _ => ih

theorem throw {failure : Failure} (h : P failure) : FailsWith P (throw failure : Work α) := by
  intro w w' failure h
  cases h
  assumption

theorem act {action : Action α} (h : ∀ t failure, (action t).1 = .error failure → P failure) :
    FailsWith P (Work.act action) := by
  intro w w' failure hw
  rw [Work.act] at hw
  exact h w.files failure (Prod.mk.inj hw).1

theorem onFiles {action : Files.Action α} (h : ∀ e, P (.files e)) :
    FailsWith P (Work.onFiles action) := by
  refine .act fun t failure hw => ?_
  obtain ⟨e, rfl, -⟩ := adapt_error (Prod.ext hw rfl)
  exact h e

theorem withScratch {root : Path} {task : Path → Work α} (h : ∀ e, P (.files e))
    (ht : ∀ scratch, FailsWith P (task scratch)) : FailsWith P (Work.withScratch root task) := by
  refine .bind (.onFiles h) fun scratch w w' failure hw => ?_
  exact ht scratch w _ failure (Prod.ext (Prod.mk.inj hw).1 rfl)

end FailsWith

def Toolchain.CanFail (tools : Toolchain) (failure : Failure) : Prop :=
  (∃ l library destination t, (tools.fetch l library destination t).1 = .error failure) ∨
    ∃ l entryPoint t, (tools.compile l entryPoint t).1 = .error failure

theorem Obstacle.canFail {failure : Failure} (h : Obstacle write tools config d failure)
    (hown : failure.IsDeferral) : tools.CanFail failure := by
  cases h with
  | files => cases hown
  | fetch l destination t h => exact .inl ⟨l, config.library, destination, t, h⟩
  | compile l entryPoint t h => exact .inr ⟨l, entryPoint, t, h⟩
  | noLibrary => cases hown
  | nameOfLibrary => cases hown
  | archive => cases hown

theorem obstacle_layout (d : Details) :
    FailsWith (Obstacle write tools config d) (liftM (Layout.ofDetails config.library d)) := by
  intro w w' failure h
  have h : Layout.ofDetails config.library d = .error failure := (Prod.mk.inj h).1
  rw [Layout.ofDetails] at h
  split at h
  · next hname =>
    cases h
    exact .nameOfLibrary hname
  · cases h

theorem obstacle_obtain (l : Layout) (scratch : Path) :
    FailsWith (Obstacle write tools config d)
      (SupportLibrary.obtain tools l config.library scratch) := by
  rw [SupportLibrary.obtain]
  refine .bind (.bind (.modify _) fun _ => .act fun t failure h => .fetch l _ t h) fun _ => ?_
  refine .bind (.forM fun name => .onFiles .files) fun _ => ?_
  refine .bind (.onFiles .files) fun found => ?_
  split
  · exact .bind (.throw .noLibrary) fun _ => .onFiles .files
  · exact .onFiles .files

theorem obstacle_library (l : Layout) :
    FailsWith (Obstacle write tools config d) (SupportLibrary.ensure tools l config.library) := by
  rw [SupportLibrary.ensure]
  refine .bind (.onFiles .files) fun found => ?_
  split
  · exact .pure _
  refine .bind ?_ fun stray => ?_
  · rw [SupportLibrary.stray?]
    split
    · exact .pure _
    · exact .bind (.onFiles .files) fun found => by split <;> exact .pure _
  · split
    · exact .onFiles .files
    · exact .withScratch .files fun scratch => obstacle_obtain l scratch

namespace Assembly

theorem obstacle_ensureProject (plugin : Plugin) :
    FailsWith (Obstacle write tools config d) (ensureProject plugin) := by
  intro w w' failure h
  rw [ensureProject] at h
  cases hr : Project.ensure ⟨plugin, w.files⟩ with
  | mk result project =>
    rw [hr] at h
    cases h
    obtain ⟨⟨e, rfl⟩, -⟩ := Project.ensure_error hr
    exact .files e

theorem obstacle_writeSources (plugin : Plugin) (l : Layout) :
    FailsWith (Obstacle write tools config d) (writeSources plugin l) := by
  rw [writeSources]
  refine .bind ?_ fun _ => .bind (.onFiles .files) fun _ => ?_
  · rw [writeCommands]
    refine .forM fun c => ?_
    split
    · exact .pure _
    · exact .onFiles .files
  · rw [writeBuildManifest]
    exact .bind (.onFiles .files) fun _ => .onFiles .files

theorem failsWith_pack (hfiles : ∀ e, P (.files e)) (hdup : ∀ name, P (.duplicateEntry name))
    (compression : Config.Compression) (l : Layout) : FailsWith P (pack compression plugin l) := by
  have haddDirectory {t : Tree} {a a' : Archive} {source : Path} {top : Text} {failure : Failure}
      (h : a.addDirectory t source top = (.error failure, a')) : P failure := by
    rw [Archive.addDirectory] at h
    split at h
    · cases h
      exact hfiles _
    · obtain ⟨name, rfl⟩ := Archive.pushAll_error h
      exact hdup name
  have haddFile {t : Tree} {a : Archive} {source : Path} {name : Text} {failure : Failure}
      (h : a.addFile t source name = .error failure) : P failure := by
    rw [Archive.addFile] at h
    split at h
    · cases h
      exact hfiles _
    · obtain ⟨name, rfl⟩ := Archive.push_error h
      exact hdup name
  intro w w' failure h
  rw [pack] at h
  replace h := (Prod.mk.inj h).1
  simp only [bind, Except.bind] at h
  split at h
  · next h' =>
    cases h
    split at h'
    · cases h'
    · next hadd =>
      cases h'
      exact haddDirectory hadd
  · split at h
    · next h' =>
      cases h
      exact haddFile h'
    · split at h
      · cases h
      · next hadd =>
        cases h
        exact haddDirectory hadd

theorem obstacle_archive (compression : Config.Compression) (l : Layout)
    (hp : Java.isQualifiedName plugin.details.package) :
    FailsWith (Obstacle write tools config d)
      (pack compression plugin l >>= fun archive => liftM (archive.finish write)) := by
  intro w w' failure h
  obtain ⟨e, he⟩ | ⟨_, _, archive, _, _, hdistinct, _, he⟩ := pack_cases hp compression l w
  · cases (bind_of_error he).symm.trans h
    exact .files e
  · have hfinish : archive.finish write = .error failure :=
      (Prod.mk.inj ((bind_of_ok he).symm.trans h)).1
    obtain ⟨reason, hreason, rfl⟩ := Archive.finish_error hfinish
    exact .archive archive.entries hdistinct hreason

theorem run_failsWith (h : ∀ failure, Obstacle write tools config plugin.details failure → P failure)
    (hpack : ∀ l, FailsWith P
      (pack config.compression plugin l >>= fun archive => liftM (archive.finish write))) :
    FailsWith P (run write tools config plugin) := by
  have hfiles (e : Files.Error) : P (.files e) := h _ (.files e)
  rw [run]
  refine .bind (.mono (obstacle_layout plugin.details) h) fun l => ?_
  refine .bind (.mono (obstacle_ensureProject plugin) h) fun _ => ?_
  refine .bind (.onFiles hfiles) fun _ => ?_
  refine .bind (.mono (obstacle_library l) h) fun _ => ?_
  refine .bind (.mono (obstacle_writeSources plugin l) h) fun _ => ?_
  refine .bind (.bind .get fun _ => .bind (.modify _) fun _ =>
    .act fun t failure hf => h failure (.compile l _ t hf)) fun _ => ?_
  refine .bind (.map (.onFiles hfiles)) fun _ => ?_
  rw [← bind_assoc]
  refine .bind (hpack l) fun bytes => ?_
  refine .bind (.onFiles hfiles) fun _ => ?_
  refine .bind (.onFiles hfiles) fun _ => ?_
  exact .bind (.modify _) fun _ => .pure _

/-- A build that fails has met one of the obstacles. -/
theorem obstacle_run (hp : Java.isQualifiedName plugin.details.package) :
    FailsWith (Obstacle write tools config plugin.details) (run write tools config plugin) := by
  apply run_failsWith
  · intro failure h
    exact h
  · intro l
    exact obstacle_archive config.compression l hp

/-- A build fails with what a deferred build fails with by itself only if a tool does. -/
theorem deferral_run : FailsWith (fun failure => failure.IsDeferral → tools.CanFail failure)
    (run write tools config plugin) := by
  apply run_failsWith
  · intro failure h
    exact h.canFail
  · intro l
    apply FailsWith.bind
    · apply failsWith_pack
      · intro e hown
        cases hown
      · intro name hown
        cases hown
    · intro archive w w' failure h hown
      obtain ⟨reason, -, rfl⟩ := Archive.finish_error (Prod.mk.inj h).1
      cases hown

end Assembly

end Build

end PluginForge
