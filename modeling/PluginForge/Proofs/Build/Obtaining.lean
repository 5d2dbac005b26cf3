import PluginForge.Proofs.Build.Sources
import PluginForge.Proofs.Files.Pruning

namespace PluginForge.Build

open Files (Location Node Path Tree isEntryName prune)

variable {α : Type} {at' : Location} {l : Layout} {library : Config.Library} {scratch stray : Path}
  {t t' : Tree} {tools : Toolchain} {w w' : Workshop}

/-- Whatever comes of it, fetching changes nothing but its destination. -/
def Toolchain.FetchesBelow (tools : Toolchain) : Prop :=
  ∀ l library (destination : Path) t,
    Tree.SameOutside destination.names t (tools.fetch l library destination t).2

namespace Work

theorem forM_onFiles {β : Type} (f : β → Files.Action PUnit) (xs : List β) (w : Workshop) :
    (xs.forM fun x => onFiles (f x)) w = onFiles (xs.forM f) w := by
  induction xs generalizing w with
  | nil => rfl
  | cons x xs ih =>
    cases hfirst : f x w.files with
    | mk result t =>
      have hstep : onFiles (f x) w = (result.mapError .files, { w with files := t }) := by
        rw [onFiles_eq, hfirst]
      cases result with
      | error e =>
        have hloop : (x :: xs).forM f w.files = (.error e, t) := bind_of_error hfirst
        rw [onFiles_eq, hloop]
        exact bind_of_error hstep
      | ok _ =>
        have hloop : (x :: xs).forM f w.files = xs.forM f t := bind_of_ok hfirst
        rw [onFiles_eq, hloop]
        exact (bind_of_ok hstep).trans (ih _)

/-- A task is only begun in a scratch directory, which is deleted afterwards in any case. -/
theorem withScratch_cases (root : Path) (task : Path → Work α) (w : Workshop) :
    (∃ e, Files.makeScratch root w.files = (.error e, w.files) ∧
        withScratch root task w = (.error (.files e), w)) ∨
      ∃ scratch made, Files.makeScratch root w.files = (.ok scratch, made) ∧
        ∀ result done, task scratch { w with files := made } = (result, done) →
          withScratch root task w =
            (result, { done with files := (Files.removePath scratch done.files).2 }) := by
  cases hmade : Files.makeScratch root w.files with
  | mk result made =>
    have hstep : onFiles (Files.makeScratch root) w =
        (result.mapError .files, { w with files := made }) := by
      rw [onFiles_eq, hmade]
    cases result with
    | error e =>
      have hsame : made = w.files := by
        rw [Files.makeScratch] at hmade
        split at hmade
        · cases hmade
          rfl
        · cases hmade
      subst hsame
      exact .inl ⟨e, rfl, bind_of_error hstep⟩
    | ok scratch =>
      refine .inr ⟨scratch, made, rfl, fun result done hdone => ?_⟩
      refine (bind_of_ok hstep).trans ?_
      simp only [hdone]

end Work

namespace SupportLibrary

/-- The support library is not at its place, but an interrupted build has left it in the project. -/
def Strayed (l : Layout) (t : Tree) : Prop :=
  t.isDirectory l.cachePath = false ∧ ∃ stray, l.strayPath = some stray ∧ t.isDirectory stray

/-- The support library is neither at its place nor where an interrupted build has left it. -/
def Missing (l : Layout) (t : Tree) : Prop :=
  t.isDirectory l.cachePath = false ∧ ∀ stray, l.strayPath = some stray → t.isDirectory stray = false

theorem Missing.not_cached (h : Missing l t) : ¬t.isDirectory l.cachePath :=
  Bool.eq_false_iff.1 h.1

theorem Missing.not_left (h : Missing l t) (hp : l.strayPath = some stray) : ¬t.isDirectory stray :=
  Bool.eq_false_iff.1 (h.2 stray hp)

theorem ensure_of_cached (h : w.files.isDirectory l.cachePath) :
    ensure tools l library w = (.ok (), w) := by
  have hlook : Work.onFiles (Files.isDirectory l.cachePath) w = (.ok true, w) := by
    rw [← h]
    rfl
  exact bind_of_ok hlook

theorem ensure_of_stray (hcache : w.files.isDirectory l.cachePath = false)
    (hp : l.strayPath = some stray) (hd : w.files.isDirectory stray) :
    ensure tools l library w = Work.onFiles (Files.rename stray l.cachePath) w := by
  have hlook : Work.onFiles (Files.isDirectory l.cachePath) w = (.ok false, w) := by
    rw [← hcache]
    rfl
  have hsearch : stray? l w = (.ok (some stray), w) := by
    have hfound : Work.onFiles (Files.isDirectory stray) w = (.ok true, w) := by
      rw [← hd]
      rfl
    rw [stray?, hp]
    exact bind_of_ok hfound
  exact (bind_of_ok hlook).trans (bind_of_ok hsearch)

theorem ensure_of_missing (h : Missing l w.files) :
    ensure tools l library w = Work.withScratch l.workingRoot (obtain tools l library) w := by
  have hlook : Work.onFiles (Files.isDirectory l.cachePath) w = (.ok false, w) := by
    rw [← h.1]
    rfl
  have hsearch : stray? l w = (.ok none, w) := by
    rw [stray?]
    cases hp : l.strayPath with
    | none => rfl
    | some stray =>
      have hfound : Work.onFiles (Files.isDirectory stray) w = (.ok false, w) := by
        rw [← h.2 stray hp]
        rfl
      exact bind_of_ok hfound
  exact (bind_of_ok hlook).trans (bind_of_ok hsearch)

theorem cached_or_strayed_or_missing (l : Layout) (t : Tree) :
    t.isDirectory l.cachePath ∨ Strayed l t ∨ Missing l t := by
  cases hcache : t.isDirectory l.cachePath with
  | true => exact .inl rfl
  | false =>
    by_cases hstray : ∃ stray, l.strayPath = some stray ∧ t.isDirectory stray
    · exact .inr (.inl ⟨hcache, hstray⟩)
    · refine .inr (.inr ⟨hcache, fun stray hp => ?_⟩)
      exact Bool.eq_false_iff.2 fun hd => hstray ⟨stray, hp, hd⟩

/-- How far the library gets that is obtained in a scratch directory, and what the files are then. -/
inductive Obtains (tools : Toolchain) (l : Layout) (library : Config.Library) (scratch : Path)
    (t : Tree) : Except Failure Unit → Tree → Prop where
  | unfetched {failure : Failure} {t' : Tree}
      (fetch : tools.fetch l library (scratch.join checkoutName) t = (.error failure, t')) :
      Obtains tools l library scratch t (.error failure) t'
  | unpruned {e : Files.Error} {fetched t' : Tree}
      (fetch : tools.fetch l library (scratch.join checkoutName) t = (.ok (), fetched))
      (prune : Files.prune (scratch.join checkoutName) library.prune fetched = (.error e, t')) :
      Obtains tools l library scratch t (.error (.files e)) t'
  | absent {fetched t' : Tree}
      (fetch : tools.fetch l library (scratch.join checkoutName) t = (.ok (), fetched))
      (prune : Files.prune (scratch.join checkoutName) library.prune fetched = (.ok (), t'))
      (absent : t'.isDirectory ((scratch.join checkoutName).join library.directory) = false) :
      Obtains tools l library scratch t (.error (.noLibrary library.repository library.directory)) t'
  | unmoved {e : Files.Error} {fetched t' : Tree}
      (fetch : tools.fetch l library (scratch.join checkoutName) t = (.ok (), fetched))
      (prune : Files.prune (scratch.join checkoutName) library.prune fetched = (.ok (), t'))
      (moved : t'.rename ((scratch.join checkoutName).join library.directory) l.cachePath = .error e) :
      Obtains tools l library scratch t (.error (.files e)) t'
  | moved {fetched pruned t' : Tree}
      (fetch : tools.fetch l library (scratch.join checkoutName) t = (.ok (), fetched))
      (prune : Files.prune (scratch.join checkoutName) library.prune fetched = (.ok (), pruned))
      (found : pruned.isDirectory ((scratch.join checkoutName).join library.directory))
      (moved : pruned.rename ((scratch.join checkoutName).join library.directory) l.cachePath =
        .ok t') :
      Obtains tools l library scratch t (.ok ()) t'

theorem obtain_obtains (tools : Toolchain) (l : Layout) (library : Config.Library) (scratch : Path)
    (w : Workshop) :
    ∃ result t', Obtains tools l library scratch w.files result t' ∧
      obtain tools l library scratch w = (result,
        ⟨t', w.calls ++ [.fetch library (scratch.join checkoutName)], w.isCancelled⟩) := by
  let noted (t : Tree) : Workshop :=
    ⟨t, w.calls ++ [.fetch library (scratch.join checkoutName)], w.isCancelled⟩
  have hfetch : Work.fetch tools l library (scratch.join checkoutName) w =
      ((tools.fetch l library (scratch.join checkoutName) w.files).1,
        noted (tools.fetch l library (scratch.join checkoutName) w.files).2) := rfl
  cases hfetched : tools.fetch l library (scratch.join checkoutName) w.files with
  | mk result fetched =>
  rw [hfetched] at hfetch
  cases result with
  | error failure => exact ⟨_, _, .unfetched hfetched, bind_of_error hfetch⟩
  | ok _ =>
  rw [obtain]
  simp only [bind_of_ok hfetch]
  have hloop := Work.forM_onFiles (fun name => Files.removePath ((scratch.join checkoutName).join name))
    library.prune (noted fetched)
  cases hpruned : prune (scratch.join checkoutName) library.prune fetched with
  | mk result pruned =>
  have hprune : Work.onFiles (prune (scratch.join checkoutName) library.prune) (noted fetched) =
      (result.mapError .files, noted pruned) := by
    rw [Work.onFiles_eq, hpruned]
  replace hloop := hloop.trans hprune
  cases result with
  | error e => exact ⟨_, _, .unpruned hfetched hpruned, bind_of_error hloop⟩
  | ok _ =>
  simp only [bind_of_ok hloop]
  have hlook : Work.onFiles (Files.isDirectory ((scratch.join checkoutName).join library.directory))
      (noted pruned) =
      (.ok (pruned.isDirectory ((scratch.join checkoutName).join library.directory)), noted pruned) := rfl
  simp only [bind_of_ok hlook]
  cases hfound : pruned.isDirectory ((scratch.join checkoutName).join library.directory) with
  | false => exact ⟨_, _, .absent hfetched hpruned hfound, rfl⟩
  | true =>
  have hrename : Work.onFiles
      (Files.rename ((scratch.join checkoutName).join library.directory) l.cachePath) (noted pruned) =
      _ := Work.onFiles_eq _ _
  rw [Files.rename, Files.Action.change] at hrename
  cases hmoved : pruned.rename ((scratch.join checkoutName).join library.directory) l.cachePath with
  | error e =>
    simp only [noted, hmoved] at hrename
    exact ⟨_, _, .unmoved hfetched hpruned hmoved, hrename⟩
  | ok t' =>
    simp only [noted, hmoved] at hrename
    exact ⟨_, _, .moved hfetched hpruned hfound hmoved, hrename⟩

/-- The support library stays at its place, is moved back from the project, or is fetched. -/
theorem ensure_cases (h : ensure tools l library w = (.ok (), w')) :
    w.files.isDirectory l.cachePath ∧ w' = w ∨
      w.files.isDirectory l.cachePath = false ∧
        ((∃ stray, l.strayPath = some stray ∧ w.files.isDirectory stray ∧
            w.files.rename stray l.cachePath = .ok w'.files) ∨
          (∀ stray, l.strayPath = some stray → ¬w.files.isDirectory stray) ∧
            Work.withScratch l.workingRoot (obtain tools l library) w = (.ok (), w')) := by
  rcases cached_or_strayed_or_missing l w.files with hcached | ⟨habsent, stray, hp, hd⟩ | hmissing
  · rw [ensure_of_cached hcached] at h
    cases h
    exact .inl ⟨hcached, rfl⟩
  · rw [ensure_of_stray habsent hp hd] at h
    exact .inr ⟨habsent, .inl ⟨stray, hp, hd, Work.rename_ok h⟩⟩
  · rw [ensure_of_missing hmissing] at h
    exact .inr ⟨hmissing.1, .inr ⟨fun stray hp => hmissing.not_left hp, h⟩⟩

theorem ensure_missing_cases (tools : Toolchain) (library : Config.Library) (h : Missing l w.files) :
    (∃ e, Files.makeScratch l.workingRoot w.files = (.error e, w.files) ∧
        ensure tools l library w = (.error (.files e), w)) ∨
      ∃ scratch made result t', Files.makeScratch l.workingRoot w.files = (.ok scratch, made) ∧
        Obtains tools l library scratch made result t' ∧
        ensure tools l library w = (result, ⟨(Files.removePath scratch t').2,
          w.calls ++ [.fetch library (scratch.join checkoutName)], w.isCancelled⟩) := by
  rw [ensure_of_missing h]
  rcases Work.withScratch_cases l.workingRoot (obtain tools l library) w with
    hfailed | ⟨scratch, made, hmade, hdone⟩
  · exact .inl hfailed
  · obtain ⟨result, t', hobtains, hobtain⟩ :=
      obtain_obtains tools l library scratch { w with files := made }
    exact .inr ⟨scratch, made, result, t', hmade, hobtains, hdone _ _ hobtain⟩

end SupportLibrary

end PluginForge.Build
