import PluginForge.Proofs.Java.Constants
import PluginForge.Proofs.Json.Strings

namespace PluginForge.Java

open Json (SpellsChar SpellsText shortEscapes)
open Text (charUnits hexUnit? units)

variable {a b c d e x : Char} {last mid scan : Scan} {n : Nat} {out us vs : List Nat} {s t u : Text}

/-- A text stands for these units, whatever stands behind it. -/
def Translates (t : Text) (us : List Nat) : Prop :=
  ∀ r, translate false (t ++ r) = (translate false r).map (us ++ ·)

namespace Translates

theorem nil : Translates [] [] := by
  intro r
  cases h : translate false r <;> simp [h]

theorem append (ht : Translates t us) (hu : Translates u vs) : Translates (t ++ u) (us ++ vs) := by
  intro r
  rw [List.append_assoc, ht, hu, Option.map_map]
  congr 1
  funext rest
  exact (List.append_assoc ..).symm

theorem plain (h : x ≠ '\\') : Translates [x] (charUnits x) := by
  intro r
  rw [List.singleton_append, translate]
  · exact fun _ he => absurd he h
  · exact fun _ he => absurd he h

theorem short (h : e ≠ 'u') (he : e.toNat < 0x10000) : Translates ['\\', e] [0x5C, e.toNat] := by
  intro r
  by_cases hb : e = '\\'
  · subst hb
    rfl
  · have hplain := plain hb r
    rw [List.singleton_append] at hplain
    rw [List.cons_append, List.singleton_append, translate, hplain, Option.map_map]
    · rw [Text.charUnits_of_lt he]
      rfl
    · simp [h]
    · simp [hb]

theorem unit (h : hexUnit? a b c d = some n) : Translates ['\\', 'u', a, b, c, d] [n] := by
  have hu : a ≠ 'u' := by
    rintro rfl
    cases h
  intro r
  rw [List.cons_append, List.cons_append, translate, List.cons_append, List.cons_append,
    List.cons_append, List.cons_append, List.nil_append, translate, h]
  · rfl
  · exact hu

theorem translate_eq (h : Translates t us) : translate false t = some us := by
  have hnil := h []
  rw [List.append_nil] at hnil
  rw [hnil, translate, Option.map_some, List.append_nil]

theorem split (ht : Translates t us) (h : Translates (t ++ u) vs) :
    ∃ rest, vs = us ++ rest ∧ Translates u rest := by
  have hall := h.translate_eq
  rw [ht, Option.map_eq_some_iff] at hall
  obtain ⟨rest, -, rfl⟩ := hall
  refine ⟨rest, rfl, fun r => ?_⟩
  have hr := h r
  rw [List.append_assoc, ht] at hr
  apply Option.map_injective fun _ _ (h : us ++ _ = us ++ _) => List.append_cancel_left h
  rw [hr, Option.map_map]
  congr 1
  funext tail
  exact List.append_assoc ..

end Translates

theorem translates_or_short (h : SpellsChar t x) :
    Translates t (charUnits x) ∨ ∃ e, t = ['\\', e] ∧ (e, x) ∈ shortEscapes := by
  cases h with
  | plain _ _ hbackslash => exact .inl (.plain hbackslash)
  | @short e _ h => exact .inr ⟨e, rfl, h⟩
  | unit h hx =>
    rw [hx]
    exact .inl (.unit h)
  | pair h h' hx =>
    rw [hx]
    exact .inl ((Translates.unit h).append (.unit h'))

theorem Translates.of_mem_shortEscapes (h : (e, x) ∈ shortEscapes) :
    Translates ['\\', e] [0x5C, e.toNat] := by
  have hall : ∀ p ∈ shortEscapes, p.1 ≠ 'u' ∧ p.1.toNat < 0x10000 := by decide
  obtain ⟨hu, he⟩ := hall _ h
  exact .short hu he

theorem exists_translates (h : SpellsText t s) : ∃ us, Translates t us := by
  induction h with
  | nil => exact ⟨[], .nil⟩
  | cons hx _ ih =>
    obtain ⟨vs, hu⟩ := ih
    rcases translates_or_short hx with ht | ⟨e, rfl, he⟩
    · exact ⟨_, ht.append hu⟩
    · exact ⟨_, (Translates.of_mem_shortEscapes he).append hu⟩

namespace Scan

theorem run_cons :
    scan.run (n :: us) = some (out, last) ↔
      ∃ first mid rest, scan.step n = some (first, mid) ∧ mid.run us = some (rest, last) ∧
        out = first ++ rest := by
  rw [run]
  simp only [Option.bind_eq_bind, Option.bind_eq_some_iff, Option.pure_def, Option.some.injEq,
    Prod.mk.injEq, Prod.exists]
  constructor
  · rintro ⟨first, mid, hstep, rest, _, hrun, rfl, rfl⟩
    exact ⟨first, mid, rest, hstep, hrun, rfl⟩
  · rintro ⟨first, mid, rest, hstep, hrun, rfl⟩
    exact ⟨first, mid, hstep, rest, last, hrun, rfl, rfl⟩

/-- How many units of the string are still to come from what was read already. -/
def weight : Scan → Nat
  | text => 0
  | escape => 1
  | octal _ _ => 1
  | closed => 0

@[simp] theorem weight_text : text.weight = 0 :=
  rfl

@[simp] theorem weight_escape : escape.weight = 1 :=
  rfl

@[simp] theorem weight_octal (value more : Nat) : (octal value more).weight = 1 :=
  rfl

theorem weight_stepText (h : stepText n = some (out, last)) : out.length + last.weight ≤ 1 := by
  rw [stepText] at h
  split at h
  · cases h
    decide
  · split at h
    · cases h
      decide
    · split at h
      · cases h
      · cases h
        exact Nat.le_refl 1

theorem weight_stepEscape (h : stepEscape n = some (out, last)) : out.length + last.weight ≤ 1 := by
  rw [stepEscape] at h
  split at h
  · cases h
    exact Nat.le_refl 1
  · obtain ⟨digit, -, h⟩ := Option.map_eq_some_iff.1 h
    cases h
    exact Nat.le_refl 1

theorem weight_stepOctal {value more : Nat} (h : stepOctal value more n = some (out, last)) :
    out.length + last.weight ≤ 2 := by
  unfold stepOctal at h
  split at h
  · cases h
    exact Nat.le_succ 1
  · obtain ⟨⟨out', last'⟩, hstep, h⟩ := Option.map_eq_some_iff.1 h
    cases h
    have := weight_stepText hstep
    rw [List.length_cons]
    omega

theorem weight_step (h : scan.step n = some (out, last)) :
    out.length + last.weight ≤ scan.weight + 1 := by
  cases scan with
  | text => exact weight_stepText h
  | escape => exact Nat.le_succ_of_le (weight_stepEscape h)
  | octal value more => exact weight_stepOctal h
  | closed => cases h

theorem weight_run (h : scan.run us = some (out, last)) :
    out.length + last.weight ≤ scan.weight + us.length := by
  induction us generalizing scan out with
  | nil =>
    cases h
    simp
  | cons n us ih =>
    obtain ⟨first, mid, rest, hstep, hrun, rfl⟩ := run_cons.1 h
    have := weight_step hstep
    have := ih hrun
    rw [List.length_append, List.length_cons]
    omega

theorem run_append (h : scan.run (us ++ vs) = some (out, last)) :
    ∃ first mid rest, scan.run us = some (first, mid) ∧ mid.run vs = some (rest, last) ∧
      out = first ++ rest := by
  induction us generalizing scan out with
  | nil => exact ⟨[], scan, out, rfl, h, rfl⟩
  | cons n us ih =>
    obtain ⟨first, mid, rest, hstep, hrun, rfl⟩ := run_cons.1 h
    obtain ⟨second, mid', tail, hsecond, htail, rfl⟩ := ih hrun
    refine ⟨first ++ second, mid', tail, ?_, htail, (List.append_assoc ..).symm⟩
    exact run_cons.2 ⟨first, mid, second, hstep, hsecond, rfl⟩

/-- A backslash and what stands behind it are one unit of the string or fewer. -/
theorem weight_run_backslash (h : scan.run [0x5C, n] = some (out, last)) :
    out.length + last.weight ≤ scan.weight + 1 := by
  obtain ⟨first, mid, rest, hfirst, hrun, rfl⟩ := run_cons.1 h
  obtain ⟨second, last', tail, hsecond, htail, rfl⟩ := run_cons.1 hrun
  cases htail
  rw [List.append_nil, List.length_append]
  cases scan with
  | text =>
    cases hfirst
    have := weight_stepEscape hsecond
    simp only [List.length_nil, weight_text]
    omega
  | escape =>
    cases hfirst
    have := weight_stepText hsecond
    simp only [List.length_singleton, weight_escape]
    omega
  | octal value more =>
    cases hfirst
    have := weight_stepEscape hsecond
    simp only [List.length_singleton, weight_octal]
    omega
  | closed => cases hfirst

theorem step_text (h : n ∉ [0x22, 0x5C, 0x0A, 0x0D]) : text.step n = some ([n], text) := by
  simp only [List.mem_cons, List.not_mem_nil, or_false, not_or] at h
  obtain ⟨hquote, hbackslash, hfeed, hreturn⟩ := h
  simp only [step, stepText, hquote, hbackslash, hfeed, hreturn, or_self, if_false]

theorem run_of_step {first : List Nat} (h : scan.step n = some (first, mid)) (us : List Nat) :
    scan.run (n :: us) = (mid.run us).map fun r => (first ++ r.1, r.2) := by
  rw [run, h]
  cases hrun : mid.run us <;> simp [hrun]

theorem run_text (h : ∀ n ∈ us, n ∉ [0x22, 0x5C, 0x0A, 0x0D]) :
    text.run (us ++ vs) = (text.run vs).map fun r => (us ++ r.1, r.2) := by
  induction us with
  | nil => cases hrun : text.run vs <;> simp [hrun]
  | cons n us ih =>
    have htail := ih fun n hn => h n (List.mem_cons_of_mem _ hn)
    rw [List.cons_append, run_of_step (step_text (h n List.mem_cons_self)), htail, Option.map_map]
    rfl

theorem run_short (h : (e, x) ∈ shortEscapes) (hsolidus : e ≠ '/') (us : List Nat) :
    text.run (0x5C :: e.toNat :: us) = (text.run us).map fun r => (charUnits x ++ r.1, r.2) := by
  have hstep : ∀ p ∈ shortEscapes, p.1 ≠ '/' →
      escape.step p.1.toNat = some (charUnits p.2, text) := by
    decide
  have hfirst : text.step 0x5C = some ([], escape) := rfl
  rw [run_of_step hfirst, run_of_step (hstep _ h hsolidus), Option.map_map]
  rfl

theorem run_closed (h : us ≠ []) : closed.run us = none := by
  obtain ⟨n, us, rfl⟩ := List.exists_cons_of_ne_nil h
  rfl

end Scan

open Scan (run_append run_closed run_cons run_of_step run_short run_text step_text weight_run
  weight_run_backslash weight_stepEscape)

theorem not_mem_of_charUnits (hx : x ∉ ['"', '\\', '\n', '\r']) (hn : n ∈ charUnits x) :
    n ∉ [0x22, 0x5C, 0x0A, 0x0D] := by
  simp only [List.mem_cons, List.not_mem_nil, or_false, not_or, ← Char.toNat_inj,
    Char.reduceToNat] at hx
  rw [charUnits] at hn
  simp only [List.mem_cons, List.not_mem_nil, or_false]
  split at hn
  · rw [List.mem_singleton] at hn
    omega
  · rw [List.mem_cons, List.mem_singleton] at hn
    omega

theorem not_mem_of_charUnits_pair {m : Nat} (h : charUnits x = [m, n]) :
    ∀ k ∈ charUnits x, k ∉ [0x22, 0x5C, 0x0A, 0x0D] := by
  obtain ⟨hm, hn, -⟩ := Json.of_charUnits_pair h
  simp only [Json.isLeading, Json.isTrailing, Bool.and_eq_true, decide_eq_true_eq] at hm hn
  simp only [h, List.mem_cons, List.not_mem_nil, or_false]
  rintro k (rfl | rfl) <;> omega

/-- From within an escape or not, a reader finds at most as many units as a JSON string has, and one more
if it already stands within an escape. -/
theorem length_le_of_run (h : SpellsText t s) (ht : Translates t us)
    (hrun : scan.run (us ++ [0x22]) = some (out, .closed)) :
    out.length ≤ scan.weight + (units s).length := by
  induction h generalizing scan us out with
  | nil =>
    cases ht.translate_eq
    cases scan with
    | octal value more =>
      cases hrun
      exact Nat.le_refl 1
    | _ => cases hrun <;> exact Nat.le_refl 0
  | @cons t u x s hx h ih =>
    rw [Text.units_cons, List.length_append]
    rcases translates_or_short hx with hchar | ⟨e, rfl, he⟩
    · obtain ⟨vs, rfl, hu⟩ := hchar.split ht
      rw [List.append_assoc] at hrun
      obtain ⟨first, mid, rest, hfirst, hrest, rfl⟩ := run_append hrun
      have := weight_run hfirst
      have := ih hu hrest
      rw [List.length_append]
      omega
    · obtain ⟨vs, rfl, hu⟩ := (Translates.of_mem_shortEscapes he).split ht
      rw [List.append_assoc] at hrun
      obtain ⟨first, mid, rest, hfirst, hrest, rfl⟩ := run_append hrun
      have := weight_run_backslash hfirst
      have := ih hu hrest
      have := Text.length_charUnits_pos x
      rw [List.length_append]
      omega

/-- Java reads the text between the quotes of a JSON string alike: no solidus is escaped and no unit
stands for a quote, a line end or a backslash. `behind` tells whether a unit for a backslash stands in
front; there, escaped backslashes and then an escaped solidus make up for it. -/
def isPortable : (behind : Bool) → Text → Bool
  | false, [] => true
  | false, '\\' :: 'u' :: a :: b :: c :: d :: t =>
    match hexUnit? a b c d with
    | none => false
    | some unit =>
      if unit = 0x5C then isPortable true t
      else unit ∉ [0x22, 0x0A, 0x0D] && isPortable false t
  | false, '\\' :: e :: t => e != '/' && isPortable false t
  | false, _ :: t => isPortable false t
  | true, '\\' :: '\\' :: t => isPortable true t
  | true, '\\' :: '/' :: t => isPortable false t
  | true, _ => false

theorem map_append_eq_some (us : List Nat) {result : Option (List Nat × Scan)} :
    result.map (fun r => (us ++ r.1, r.2)) = some (us ++ out, last) ↔ result = some (out, last) := by
  cases result with
  | none => simp
  | some r => simp [Prod.ext_iff]

theorem escape_run_ne (hu : SpellsText u s) (ht : Translates u vs) :
    Scan.escape.run (charUnits x ++ vs ++ [0x22]) ≠ some (0x5C :: (charUnits x ++ units s), .closed) := by
  intro h
  obtain ⟨n, ns, hns⟩ := List.exists_cons_of_length_pos (Text.length_charUnits_pos x)
  rw [hns, List.append_assoc, List.cons_append] at h
  obtain ⟨first, mid, rest, hstep, hrun, hout⟩ := run_cons.1 h
  obtain ⟨second, mid', tail, hsecond, htail, rfl⟩ := run_append hrun
  have hlength := congrArg List.length hout
  simp only [List.length_cons, List.length_append] at hlength
  have := weight_stepEscape hstep
  have := weight_run hsecond
  have := length_le_of_run hu ht htail
  omega

theorem isPortable_unit (h : hexUnit? a b c d = some n) :
    isPortable false (['\\', 'u', a, b, c, d] ++ u) =
      if n = 0x5C then isPortable true u
      else n ∉ [0x22, 0x0A, 0x0D] && isPortable false u := by
  simp only [List.cons_append, List.nil_append, isPortable, h]

theorem isPortable_unit_of_not_mem (h : hexUnit? a b c d = some n) (hn : n ∉ [0x22, 0x5C, 0x0A, 0x0D]) :
    isPortable false (['\\', 'u', a, b, c, d] ++ u) = isPortable false u := by
  simp only [List.mem_cons, List.not_mem_nil, or_false, not_or] at hn
  obtain ⟨hquote, hbackslash, hfeed, hreturn⟩ := hn
  rw [isPortable_unit h, if_neg hbackslash]
  simp [hquote, hfeed, hreturn]

theorem isPortable_short (h : (e, x) ∈ shortEscapes) :
    isPortable false (['\\', e] ++ u) = (e != '/' && isPortable false u) := by
  have hu : ∀ p ∈ shortEscapes, p.1 ≠ 'u' := by decide
  rw [List.cons_append, List.singleton_append, isPortable]
  exact fun _ _ _ _ _ he => absurd he (hu _ h)

theorem run_unit_iff (hx : charUnits x = [n])
    (hportable : Scan.text.run vs = some (units s, .closed) ↔ isPortable false u)
    (hbehind : Scan.escape.run vs = some (0x5C :: units s, .closed) ↔ isPortable true u) (hne : vs ≠ []) :
    Scan.text.run (charUnits x ++ vs) = some (charUnits x ++ units s, .closed) ↔
      (if n = 0x5C then isPortable true u else n ∉ [0x22, 0x0A, 0x0D] && isPortable false u) := by
  by_cases hbackslash : n = 0x5C
  · have hstep : Scan.text.step 0x5C = some ([], .escape) := rfl
    rw [if_pos hbackslash, hx, hbackslash, List.singleton_append, run_of_step hstep, ← hbehind]
    exact map_append_eq_some []
  · rw [if_neg hbackslash]
    by_cases hspecial : n ∈ [0x22, 0x0A, 0x0D]
    · have hstop : Scan.text.run (n :: vs) = none := by
        simp only [List.mem_cons, List.not_mem_nil, or_false] at hspecial
        rcases hspecial with rfl | rfl | rfl
        · have hstep : Scan.text.step 0x22 = some ([], .closed) := rfl
          rw [run_of_step hstep, run_closed hne]
          rfl
        · rfl
        · rfl
      simp [hx, hstop, hspecial]
    · have hkeep : ∀ k ∈ charUnits x, k ∉ [0x22, 0x5C, 0x0A, 0x0D] := by
        simp only [hx, List.mem_cons, List.not_mem_nil, or_false, not_or] at hspecial ⊢
        rintro k rfl
        exact ⟨hspecial.1, hbackslash, hspecial.2⟩
      rw [run_text hkeep, map_append_eq_some, hportable]
      simp [hspecial]

theorem escape_run_short_iff (h : (e, x) ∈ shortEscapes)
    (hportable : Scan.text.run vs = some (units s, .closed) ↔ isPortable false u)
    (hbehind : Scan.escape.run vs = some (0x5C :: units s, .closed) ↔ isPortable true u) (hne : vs ≠ []) :
    Scan.escape.run ([0x5C, e.toNat] ++ vs) = some (0x5C :: (charUnits x ++ units s), .closed) ↔
      isPortable true (['\\', e] ++ u) := by
  have hfirst : Scan.escape.step 0x5C = some ([0x5C], .text) := rfl
  have hletter {k k' : Nat} (hk : k ∉ [0x22, 0x5C, 0x0A, 0x0D]) (hne : k ≠ k') :
      Scan.text.run (k :: vs) ≠ some (k' :: units s, .closed) := by
    rw [run_of_step (step_text hk)]
    cases Scan.text.run vs <;> simp [hne]
  rw [List.cons_append, List.singleton_append, run_of_step hfirst]
  refine (map_append_eq_some [0x5C]).trans ?_
  simp only [shortEscapes, List.mem_cons, Prod.mk.injEq, List.not_mem_nil, or_false] at h
  rcases h with ⟨rfl, rfl⟩ | ⟨rfl, rfl⟩ | ⟨rfl, rfl⟩ | h
  · have hstep : Scan.text.step 0x22 = some ([], .closed) := rfl
    have hrun := run_of_step hstep vs
    rw [run_closed hne] at hrun
    refine iff_of_false (fun h => ?_) Bool.false_ne_true
    cases hrun.symm.trans h
  · have hstep : Scan.text.step 0x5C = some ([], .escape) := rfl
    change Scan.text.run (0x5C :: vs) = some (0x5C :: units s, .closed) ↔ isPortable true u
    rw [run_of_step hstep, ← hbehind]
    exact map_append_eq_some []
  · have hstep : Scan.text.step 0x2F = some ([0x2F], .text) := rfl
    change Scan.text.run (0x2F :: vs) = some (0x2F :: units s, .closed) ↔ isPortable false u
    rw [run_of_step hstep, ← hportable]
    exact map_append_eq_some [0x2F]
  · rcases h with ⟨rfl, rfl⟩ | ⟨rfl, rfl⟩ | ⟨rfl, rfl⟩ | ⟨rfl, rfl⟩ | ⟨rfl, rfl⟩ <;>
      exact iff_of_false (hletter (by decide) (by decide)) Bool.false_ne_true

/-- Java reads the string of a JSON text between quotes exactly if the text is portable. Behind a backslash
that is a unit of its own, it misses one unit of the string unless the text makes up for it. -/
theorem run_iff_isPortable (h : SpellsText t s) (ht : Translates t us) :
    (Scan.text.run (us ++ [0x22]) = some (units s, .closed) ↔ isPortable false t) ∧
    (Scan.escape.run (us ++ [0x22]) = some (0x5C :: units s, .closed) ↔ isPortable true t) := by
  -- A unit for a backslash leads from the first state to the second, so the induction is over both.
  induction h generalizing us with
  | nil =>
    cases ht.translate_eq
    decide
  | @cons t u x s hx h ih =>
    rw [Text.units_cons]
    cases hx with
    | plain hcontrol hquote hbackslash =>
      obtain ⟨vs, rfl, hu⟩ := (Translates.plain hbackslash).split ht
      have hspecial : x ∉ ['"', '\\', '\n', '\r'] := by
        simp only [List.mem_cons, List.not_mem_nil, or_false, not_or]
        refine ⟨hquote, hbackslash, ?_, ?_⟩ <;> rintro rfl <;> exact absurd hcontrol (by decide)
      have hkeep : ∀ n ∈ charUnits x, n ∉ [0x22, 0x5C, 0x0A, 0x0D] := fun _ =>
        not_mem_of_charUnits hspecial
      have hplain : isPortable false ([x] ++ u) = isPortable false u := by
        rw [List.singleton_append, isPortable] <;> simp_all
      have hbehind : isPortable true ([x] ++ u) = false := by
        rw [List.singleton_append, isPortable] <;> simp_all
      rw [List.append_assoc, run_text hkeep, map_append_eq_some, hplain, hbehind, ← List.append_assoc]
      exact ⟨(ih hu).1, iff_of_false (escape_run_ne h hu) Bool.false_ne_true⟩
    | @short e _ he =>
      obtain ⟨vs, rfl, hu⟩ := (Translates.of_mem_shortEscapes he).split ht
      obtain ⟨hportable, hbehind⟩ := ih hu
      rw [List.append_assoc, isPortable_short he]
      refine ⟨?_, escape_run_short_iff he hportable hbehind (by simp)⟩
      by_cases hsolidus : e = '/'
      · subst hsolidus
        exact iff_of_false nofun Bool.false_ne_true
      · rw [List.cons_append, List.singleton_append, run_short he hsolidus, map_append_eq_some, hportable]
        simp [hsolidus]
    | @unit a b c d _ n hn hx =>
      obtain ⟨vs, rfl, hu⟩ := (Translates.unit hn).split ht
      obtain ⟨hportable, hbehind⟩ := ih hu
      have hstop : isPortable true (['\\', 'u', a, b, c, d] ++ u) = false := rfl
      rw [hstop, isPortable_unit hn, ← hx]
      refine ⟨?_, iff_of_false (escape_run_ne h hu) Bool.false_ne_true⟩
      rw [List.append_assoc]
      exact run_unit_iff hx hportable hbehind (by simp)
    | @pair a b c d a' b' c' d' _ m n hm hn hx =>
      obtain ⟨vs, rfl, hu⟩ := ((Translates.unit hm).append (.unit hn)).split ht
      have hstop : isPortable true (['\\', 'u', a, b, c, d, '\\', 'u', a', b', c', d'] ++ u) = false := rfl
      have hkeep := not_mem_of_charUnits_pair hx
      have hplain : isPortable false (['\\', 'u', a, b, c, d, '\\', 'u', a', b', c', d'] ++ u) =
          isPortable false u := by
        have hsecond := isPortable_unit_of_not_mem (u := u) hn (hkeep n (by simp [hx]))
        rw [← hsecond]
        exact isPortable_unit_of_not_mem hm (hkeep m (by simp [hx]))
      rw [hstop, hplain, List.singleton_append, ← hx]
      refine ⟨?_, iff_of_false (escape_run_ne h hu) Bool.false_ne_true⟩
      rw [List.append_assoc, run_text hkeep, map_append_eq_some]
      exact (ih hu).1

theorem string?_eq (ht : Translates t us) :
    string? ('"' :: t ++ ['"']) =
      match Scan.text.run (us ++ [0x22]) with
      | some (value, .closed) => some value
      | _ => none := by
  have hquote : Translates ['"'] [0x22] := .plain (by decide)
  have hall := ((hquote.append ht).append hquote).translate_eq
  rw [string?, ← List.singleton_append, hall]
  rfl

theorem string?_eq_units_iff (h : SpellsText t s) :
    string? ('"' :: t ++ ['"']) = some (units s) ↔ isPortable false t := by
  obtain ⟨us, ht⟩ := exists_translates h
  rw [← (run_iff_isPortable h ht).1, string?_eq ht]
  split
  · next hrun => simp [hrun]
  · next hrun =>
    constructor
    · exact nofun
    · intro he
      exact absurd he (hrun _)

example : isPortable false "\\u005C\\/" ∧ string? "\"\\u005C\\/\"" = some (units "\\/") := by
  decide

theorem isPortable_writeChar (c : Char) (t : Text) :
    isPortable false (Json.writeChar c ++ t) = isPortable false t := by
  rcases Json.writeChar_cases c with ⟨e, he, hsolidus, h⟩ | ⟨hcontrol, hfeed, hreturn, h⟩ |
    ⟨-, -, hbackslash, h⟩
  · rw [h, isPortable_short he, bne_iff_ne.2 hsolidus, Bool.true_and]
  · have hfeed : c.toNat ≠ 0x0A := fun he => hfeed (Char.toNat_inj.1 he)
    have hreturn : c.toNat ≠ 0x0D := fun he => hreturn (Char.toNat_inj.1 he)
    rw [h]
    apply isPortable_unit_of_not_mem (Json.hexUnit?_control hcontrol)
    simp only [List.mem_cons, List.not_mem_nil, or_false]
    omega
  · rw [h, List.singleton_append, isPortable] <;> simp_all

theorem string?_writeString (s : Text) : string? (Json.writeString s) = some (units s) := by
  have hportable : isPortable false (s.flatMap Json.writeChar) := by
    induction s with
    | nil => rfl
    | cons c s ih => rw [List.flatMap_cons, isPortable_writeChar, ih]
  exact (string?_eq_units_iff (Json.spellsText_flatMap s)).2 hportable

end PluginForge.Java
