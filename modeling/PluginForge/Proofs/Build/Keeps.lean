import Mathlib.Order.Defs.Unbundled
import PluginForge.Build.Assembly
import PluginForge.Proofs.Action

namespace PluginForge.Build

open Files (Path Tree)

/-- Whether it succeeds or fails, a step takes a workshop only to one that stands in a relation to it. -/
def Keeps {α : Type} (R : Workshop → Workshop → Prop) (x : Work α) : Prop :=
  ∀ w, R w (x w).2

namespace Keeps

variable {α β : Type} {R : Workshop → Workshop → Prop} [IsPreorder Workshop R]

theorem pure (a : α) : Keeps R (Pure.pure a : Work α) := by
  intro w
  exact refl_of R w

theorem throw (failure : Failure) : Keeps R (throw failure : Work α) := by
  intro w
  exact refl_of R w

theorem lift (result : Except Failure α) : Keeps R (liftM result : Work α) := by
  intro w
  exact refl_of R w

theorem bind_at {x : Work α} {f : α → Work β} {w : Workshop} (hx : R w (x w).2)
    (hf : ∀ a w', x w = (.ok a, w') → R w' (f a w').2) : R w ((x >>= f) w).2 := by
  change R w (ExceptT.bindCont f (x w).1 (x w).2).2
  cases hresult : (x w).1 with
  | ok a => exact trans_of R hx (hf a _ (Prod.ext hresult rfl))
  | error e => exact hx

theorem bind_of_ok {x : Work α} {f : α → Work β} (hx : Keeps R x)
    (hf : ∀ w a w', x w = (.ok a, w') → R w' (f a w').2) : Keeps R (x >>= f) := by
  intro w
  exact bind_at (hx w) (hf w)

theorem bind {x : Work α} {f : α → Work β} (hx : Keeps R x) (hf : ∀ a, Keeps R (f a)) :
    Keeps R (x >>= f) :=
  hx.bind_of_ok fun _ a w' _ => hf a w'

theorem map {x : Work α} {f : α → β} (hx : Keeps R x) : Keeps R (f <$> x) := by
  rw [map_eq_pure_bind]
  apply hx.bind
  intro a
  exact .pure _

theorem forM {xs : List α} {f : α → Work PUnit} (h : ∀ x ∈ xs, Keeps R (f x)) :
    Keeps R (xs.forM f) := by
  intro w
  exact forM_preserves_always (refl_of R) (fun _ _ _ => trans_of R) h w

theorem pack (compression : Config.Compression) (plugin : Plugin) (l : Layout) :
    Keeps R (Assembly.pack compression plugin l) := by
  intro w
  exact refl_of R w

omit [IsPreorder Workshop R]

theorem modify {f : Workshop → Workshop} (h : ∀ w, R w (f w)) :
    Keeps R (modify f : Work PUnit) := by
  intro w
  exact h w

theorem act {action : Action α} (h : ∀ w, R w { w with files := (action w.files).2 }) :
    Keeps R (Work.act action) := by
  intro w
  exact h w

theorem onFiles {action : Files.Action α} (h : ∀ w, R w { w with files := (action w.files).2 }) :
    Keeps R (Work.onFiles action) := by
  intro w
  exact h w

variable [IsPreorder Workshop R] {tools : Toolchain} {l : Layout} {p : Path}

theorem fetch {library : Config.Library}
    (hnote : ∀ w, R w { w with calls := w.calls ++ [.fetch library p] })
    (h : ∀ w, R w { w with files := (tools.fetch l library p w.files).2 }) :
    Keeps R (Work.fetch tools l library p) :=
  .bind (.modify hnote) fun _ => .act h

theorem compile (hnote : ∀ w, R w { w with calls := w.calls ++ [.compile l p w.files] })
    (h : ∀ w, R w { w with files := (tools.compile l p w.files).2 }) :
    Keeps R (Work.compile tools l p) := by
  intro w
  exact trans_of R (hnote w) (h _)

end Keeps

end PluginForge.Build
