import PluginForge.Guard.Occurrence

namespace PluginForge.Guard

open Java (isIdentifierChar)

variable {c : Char} {a b r t w old new name : Text} {ws : List Text}

/-- Puts a character in front of words; it goes on with the first one if both are of an identifier. -/
def extend (c : Char) : List Text → List Text
  | [] => [[c]]
  | w :: ws =>
    if isIdentifierChar c && !isBoundary w.head? then (c :: w) :: ws else [c] :: w :: ws

/-- The longest runs of identifier characters in a text, and each of its other characters alone. -/
def words (t : Text) : List Text :=
  t.foldr extend []

/-- The name stands in the text, and neither neighbour of it goes on with an identifier. -/
def StandsIn (name t : Text) : Prop :=
  name ≠ [] ∧ ∃ before after, t = before ++ name ++ after ∧
    isBoundary before.getLast? ∧ isBoundary after.head?

theorem isBoundary_some : isBoundary (some c) = !isIdentifierChar c := rfl

theorem words_cons : words (c :: t) = extend c (words t) := rfl

theorem extend_ne_nil (c : Char) (ws : List Text) : extend c ws ≠ [] := by
  cases ws with
  | nil => exact List.cons_ne_nil _ _
  | cons w ws =>
    rw [extend]
    split <;> exact List.cons_ne_nil _ _

theorem extend_append (h : ws ≠ []) (vs : List Text) :
    extend c (ws ++ vs) = extend c ws ++ vs := by
  cases ws with
  | nil => exact absurd rfl h
  | cons w ws =>
    rw [List.cons_append, extend, extend]
    split <;> rfl

theorem flatten_extend : (extend c ws).flatten = c :: ws.flatten := by
  cases ws with
  | nil => rfl
  | cons w ws =>
    rw [extend]
    split <;> rfl

@[simp] theorem flatten_words (t : Text) : (words t).flatten = t := by
  induction t with
  | nil => rfl
  | cons c t ih => rw [words_cons, flatten_extend, ih]

theorem extend_of_boundary (h : isIdentifierChar c = false ∨ isBoundary t.head?) :
    extend c (words t) = [c] :: words t := by
  cases t with
  | nil => rfl
  | cons d t =>
    obtain ⟨w, ws, hw⟩ := List.exists_cons_of_ne_nil (extend_ne_nil d (words t))
    have hd := congrArg (fun ws => ws.flatten.head?) hw
    rw [words_cons, hw, extend, if_neg]
    cases w with
    | nil => simp [isBoundary]
    | cons e w =>
      simp only [flatten_extend, List.head?_cons, List.flatten_cons, List.cons_append,
        Option.some.injEq] at hd
      subst hd
      rcases h with h | h
      · simp [h]
      · rw [List.head?_cons] at h
        simp [h]

theorem words_append (h : isBoundary a.getLast? ∨ isBoundary b.head?) :
    words (a ++ b) = words a ++ words b := by
  induction a with
  | nil => rfl
  | cons c a ih =>
    cases a with
    | nil =>
      refine extend_of_boundary (h.imp_left fun h => ?_)
      simpa [isBoundary_some] using h
    | cons d a =>
      rw [List.getLast?_cons_cons] at h
      rw [List.cons_append, words_cons, ih h, words_cons (t := d :: a), words_cons (t := a),
        extend_append (extend_ne_nil d _)]

theorem words_gap (h : isIdentifierChar c = false) : words (c :: t) = [c] :: words t :=
  extend_of_boundary (.inl h)

theorem words_run (hne : w ≠ []) (hw : w.all isIdentifierChar) : words w = [w] := by
  induction w with
  | nil => exact absurd rfl hne
  | cons c w ih =>
    rw [List.all_cons, Bool.and_eq_true] at hw
    cases w with
    | nil => rfl
    | cons d w =>
      have hd : isIdentifierChar d := by
        rw [List.all_cons, Bool.and_eq_true] at hw
        exact hw.2.1
      rw [words_cons, ih (List.cons_ne_nil _ _) hw.2, extend, if_pos]
      simp [isBoundary_some, hw.1, hd]

theorem words_run_append (hne : w ≠ []) (hw : w.all isIdentifierChar) (hr : isBoundary r.head?) :
    words (w ++ r) = w :: words r := by
  rw [words_append (.inr hr), words_run hne hw]
  rfl

/-- A text is built up from its end by characters outside identifiers and by whole runs of identifier
characters. -/
@[elab_as_elim]
theorem word_induction {motive : Text → Prop} (nil : motive [])
    (gap : ∀ c r, isIdentifierChar c = false → motive r → motive (c :: r))
    (run : ∀ w r, w ≠ [] → w.all isIdentifierChar → isBoundary r.head? → motive r →
      motive (w ++ r))
    (t : Text) : motive t := by
  induction hn : t.length using Nat.strongRecOn generalizing t with
  | ind n ih =>
    cases t with
    | nil => exact nil
    | cons c t =>
      cases hc : isIdentifierChar c with
      | false => exact gap c t hc (ih t.length (by simp [← hn]) t rfl)
      | true =>
        have hsplit := List.takeWhile_append_dropWhile (p := isIdentifierChar) (l := t)
        have hlen := congrArg List.length hsplit
        rw [List.length_append] at hlen
        have hhead : isBoundary (t.dropWhile isIdentifierChar).head? := by
          have := List.head?_dropWhile_not isIdentifierChar t
          cases h : (t.dropWhile isIdentifierChar).head? with
          | none => rfl
          | some d =>
            rw [h] at this
            simp [isBoundary_some, this]
        have hrest := ih _ (by rw [← hn, List.length_cons]; omega)
          (t.dropWhile isIdentifierChar) rfl
        have := run (c :: t.takeWhile isIdentifierChar) _ (List.cons_ne_nil _ _)
          (by simp [hc]) hhead hrest
        rwa [List.cons_append, hsplit] at this

theorem ne_nil_of_mem_words (h : w ∈ words t) : w ≠ [] := by
  induction t using word_induction with
  | nil => exact absurd h List.not_mem_nil
  | gap c r hc ih =>
    rw [words_gap hc] at h
    rcases List.mem_cons.1 h with rfl | h
    · exact List.cons_ne_nil c []
    · exact ih h
  | run v r hne hv hr ih =>
    rw [words_run_append hne hv hr] at h
    rcases List.mem_cons.1 h with rfl | h
    · exact hne
    · exact ih h

theorem mem_words_gap (hn : name.all isIdentifierChar) (hc : isIdentifierChar c = false) :
    name ∈ words (c :: t) ↔ name ∈ words t := by
  rw [words_gap hc, List.mem_cons, or_iff_right]
  rintro rfl
  simp [hc] at hn

theorem mem_words_of_standsIn (hn : name.all isIdentifierChar) (h : StandsIn name t) :
    name ∈ words t := by
  obtain ⟨hne, before, after, rfl, hb, ha⟩ := h
  rw [List.append_assoc, words_append (.inl hb), words_run_append hne hn ha]
  exact List.mem_append_right _ List.mem_cons_self

theorem standsIn_of_mem_words (hn : name.all isIdentifierChar) (h : name ∈ words t) :
    StandsIn name t := by
  refine ⟨ne_nil_of_mem_words h, ?_⟩
  obtain ⟨d, name, rfl⟩ := List.exists_cons_of_ne_nil (ne_nil_of_mem_words h)
  induction t using word_induction with
  | nil => exact absurd h List.not_mem_nil
  | gap c r hc ih =>
    rw [words_gap hc] at h
    rcases List.mem_cons.1 h with h | h
    · cases h
      simp [hc] at hn
    · obtain ⟨before, after, rfl, hb, ha⟩ := ih h
      refine ⟨c :: before, after, rfl, ?_, ha⟩
      cases before with
      | nil => simp [isBoundary_some, hc]
      | cons e before => rwa [List.getLast?_cons_cons]
  | run w r hw₀ hw hr ih =>
    rw [words_run_append hw₀ hw hr] at h
    rcases List.mem_cons.1 h with rfl | h
    · exact ⟨[], r, rfl, rfl, hr⟩
    · obtain ⟨before, after, rfl, hb, ha⟩ := ih h
      refine ⟨w ++ before, after, by simp only [List.append_assoc], ?_, ha⟩
      cases before with
      | nil => simp_all [isBoundary_some]
      | cons e before =>
        rwa [List.getLast?_append, List.getLast?_cons, Option.some_or, ← List.getLast?_cons]

/-- The whole identifiers of a text are its words. -/
theorem mem_words_iff (hn : name.all isIdentifierChar) : name ∈ words t ↔ StandsIn name t :=
  ⟨standsIn_of_mem_words hn, mem_words_of_standsIn hn⟩

end PluginForge.Guard
