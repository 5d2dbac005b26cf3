import PluginForge.Plugin.Project

namespace PluginForge

variable {ε σ α β : Type} {x : ExceptT ε (StateM σ) α} {f : α → ExceptT ε (StateM σ) β}
  {s s' s'' : σ} {a : α} {b : β} {e : ε}

theorem bind_of_ok (h : x s = (.ok a, s')) : (x >>= f) s = f a s' := by
  simp only [bind, ExceptT.bind, ExceptT.mk, StateT.bind, h, ExceptT.bindCont]

theorem bind_of_error (h : x s = (.error e, s')) : (x >>= f) s = (.error e, s') := by
  simp only [bind, ExceptT.bind, ExceptT.mk, StateT.bind, h, ExceptT.bindCont]
  rfl

theorem bind_eq_ok :
    (x >>= f) s = (.ok b, s'') ↔ ∃ a s', x s = (.ok a, s') ∧ f a s' = (.ok b, s'') := by
  constructor
  · intro h
    cases hx : x s with
    | mk result s' =>
      cases result with
      | ok a => exact ⟨a, s', rfl, (bind_of_ok hx).symm.trans h⟩
      | error e => cases (bind_of_error hx).symm.trans h
  · rintro ⟨a, s', hx, hf⟩
    exact (bind_of_ok hx).trans hf

theorem bind_eq_error :
    (x >>= f) s = (.error e, s'') ↔
      x s = (.error e, s'') ∨ ∃ a s', x s = (.ok a, s') ∧ f a s' = (.error e, s'') := by
  constructor
  · intro h
    cases hx : x s with
    | mk result s' =>
      cases result with
      | ok a => exact .inr ⟨a, s', rfl, (bind_of_ok hx).symm.trans h⟩
      | error e =>
        cases (bind_of_error hx).symm.trans h
        exact .inl rfl
  · rintro (hx | ⟨a, s', hx, hf⟩)
    · exact bind_of_error hx
    · exact (bind_of_ok hx).trans hf

theorem exists_ok_of_isOk {x : Except ε α} (h : x.isOk) : ∃ a, x = .ok a := by
  cases x with
  | error e => cases h
  | ok a => exact ⟨a, rfl⟩

theorem exists_eq_ok_of_isOk {done : Except ε α × σ} (h : done.1.isOk) : ∃ a s, done = (.ok a, s) := by
  obtain ⟨result, s⟩ := done
  obtain ⟨a, rfl⟩ := exists_ok_of_isOk h
  exact ⟨a, s, rfl⟩

theorem exists_error_of_isOk {x : Except ε α} (h : x.isOk = false) : ∃ e, x = .error e := by
  cases x with
  | error e => exact ⟨e, rfl⟩
  | ok a => cases h

theorem map_eq_ok {g : α → β} :
    (g <$> x) s = (.ok b, s') ↔ ∃ a, x s = (.ok a, s') ∧ g a = b := by
  rw [map_eq_pure_bind, bind_eq_ok]
  constructor
  · rintro ⟨a, between, hx, hpure⟩
    cases hpure
    exact ⟨a, hx, rfl⟩
  · rintro ⟨a, hx, rfl⟩
    exact ⟨a, s', hx, rfl⟩

theorem map_eq_error {g : α → β} : (g <$> x) s = (.error e, s') ↔ x s = (.error e, s') := by
  rw [map_eq_pure_bind, bind_eq_error]
  constructor
  · rintro (hx | ⟨a, between, -, hpure⟩)
    · exact hx
    · cases hpure
  · exact .inl

theorem forM_preserves {R : σ → σ → Prop} (hrefl : ∀ s, R s s)
    (htrans : ∀ s s' s'', R s s' → R s' s'' → R s s'') {xs : List α}
    {f : α → ExceptT ε (StateM σ) PUnit}
    (hf : ∀ x ∈ xs, ∀ s s', f x s = (.ok (), s') → R s s') (h : xs.forM f s = (.ok (), s')) :
    R s s' := by
  induction xs generalizing s with
  | nil =>
    cases h
    exact hrefl _
  | cons x xs ih =>
    rw [List.forM] at h
    obtain ⟨_, between, hfirst, hrest⟩ := bind_eq_ok.1 h
    have hstep := hf x List.mem_cons_self s between hfirst
    exact htrans s between s' hstep (ih (fun y hy => hf y (List.mem_cons_of_mem x hy)) hrest)

/-- What each step of a loop preserves, whether it succeeds or fails, is preserved by the loop however far
it gets. -/
theorem forM_preserves_always {R : σ → σ → Prop} (hrefl : ∀ s, R s s)
    (htrans : ∀ s s' s'', R s s' → R s' s'' → R s s'') {xs : List α}
    {f : α → ExceptT ε (StateM σ) PUnit} (hf : ∀ x ∈ xs, ∀ s, R s (f x s).2) (s : σ) :
    R s (xs.forM f s).2 := by
  induction xs generalizing s with
  | nil => exact hrefl s
  | cons x xs ih =>
    have hstep := hf x List.mem_cons_self s
    rw [List.forM]
    cases hresult : (f x s).1 with
    | error e =>
      rw [bind_of_error (Prod.ext hresult rfl)]
      exact hstep
    | ok a =>
      rw [bind_of_ok (Prod.ext hresult rfl)]
      exact htrans _ _ _ hstep (ih (fun y hy => hf y (List.mem_cons_of_mem x hy)) _)

end PluginForge
