import PluginForge.Proofs.Guard.Words

namespace PluginForge.Guard

open Java (isIdentifierChar)

variable {c : Char} {a b r t w old new name : Text} {before : Option Char}

/-- What becomes of one word when a name is replaced. -/
def replaceWord (old new w : Text) : Text :=
  if w = old then new else w

theorem run_replaceWord (old : Text) (hw₀ : w ≠ []) (hw : w.all isIdentifierChar) (hn : new ≠ [])
    (hnew : new.all isIdentifierChar) :
    replaceWord old new w ≠ [] ∧ (replaceWord old new w).all isIdentifierChar := by
  rw [replaceWord]
  split
  · exact ⟨hn, hnew⟩
  · exact ⟨hw₀, hw⟩

theorem rename_nil (old new : Text) : rename old new [] = [] := by
  rw [rename]
  split <;> rfl

theorem getLast?_cons_or (c : Char) (u : Text) (before : Option Char) :
    (c :: u).getLast?.or before = u.getLast?.or (some c) := by
  cases u with
  | nil => rfl
  | cons d u => rw [List.getLast?_cons_cons, List.getLast?_cons, Option.some_or, Option.some_or]

theorem renameFrom_skip (old new u t : Text) (before : Option Char) :
    renameFrom old new u.length before (u ++ t) =
      renameFrom old new 0 (u.getLast?.or before) t := by
  induction u generalizing before with
  | nil => rfl
  | cons c u ih =>
    rw [List.length_cons, List.cons_append, renameFrom, ih, getLast?_cons_or]

theorem renameFrom_match (hne : old ≠ []) (t : Text) (before : Option Char) :
    renameFrom old new 0 before (old ++ t) =
      (if isBoundary before && isBoundary t.head? then new else old) ++
        renameFrom old new 0 old.getLast? t := by
  obtain ⟨c, o, rfl⟩ := List.exists_cons_of_ne_nil hne
  have hp : (c :: o).isPrefixOf (c :: (o ++ t)) := by simp
  have hd : (c :: (o ++ t)).drop (c :: o).length = t := by simp
  have hs := renameFrom_skip (c :: o) new o t (some c)
  have hl := (getLast?_cons_or c o none).symm
  rw [Option.or_none] at hl
  rw [List.cons_append, renameFrom, if_pos hp, hd, ← hl, ← hs]
  rfl

theorem renameFrom_miss (h : ¬ old <+: c :: t) (before : Option Char) :
    renameFrom old new 0 before (c :: t) = c :: renameFrom old new 0 (some c) t := by
  rw [renameFrom, if_neg (by rwa [List.isPrefixOf_iff_prefix])]

section

variable (hne : old ≠ []) (ho : old.all isIdentifierChar)
include hne ho

theorem isBoundary_getLast? : isBoundary old.getLast? = false := by
  rw [List.getLast?_eq_some_getLast hne, isBoundary_some,
    List.all_eq_true.1 ho _ (List.getLast_mem hne)]
  rfl

theorem renameFrom_gap (hc : isIdentifierChar c = false) :
    renameFrom old new 0 before (c :: t) = c :: renameFrom old new 0 (some c) t := by
  apply renameFrom_miss
  rintro ⟨s, hs⟩
  obtain ⟨d, o, rfl⟩ := List.exists_cons_of_ne_nil hne
  cases hs
  simp [hc] at ho

omit hne in
theorem prefix_of_prefix_append (hr : isBoundary r.head?) (h : old <+: w ++ r) : old <+: w := by
  obtain ⟨s, hs⟩ := h
  rcases List.append_eq_append_iff.1 hs with ⟨u, rfl, -⟩ | ⟨u, rfl, rfl⟩
  · exact List.prefix_append old u
  · cases u with
    | nil => simp
    | cons d u =>
      rw [List.all_append, List.all_cons] at ho
      simp_all [isBoundary_some]

theorem renameFrom_inside (hw : w.all isIdentifierChar) (hr : isBoundary r.head?)
    (hb : isBoundary before = false) :
    renameFrom old new 0 before (w ++ r) =
      w ++ renameFrom old new 0 (w.getLast?.or before) r := by
  -- A match takes all of `old` off the run at once, so the induction is on the length of the run.
  induction hn : w.length using Nat.strongRecOn generalizing w before with
  | ind n ih =>
    cases w with
    | nil => rfl
    | cons c w =>
      by_cases hp : old <+: c :: (w ++ r)
      · obtain ⟨u, hu⟩ := prefix_of_prefix_append ho hr (w := c :: w) hp
        have hlen : u.length < n := by
          have hlen := congrArg List.length hu
          have hpos := List.length_pos_iff.2 hne
          rw [List.length_append] at hlen
          omega
        rw [← hu, List.all_append, Bool.and_eq_true] at hw
        rw [← hu, List.append_assoc, renameFrom_match hne, hb, Bool.false_and,
          if_neg Bool.false_ne_true, ih u.length hlen hw.2 (isBoundary_getLast? hne ho) rfl,
          List.getLast?_append, List.append_assoc, Option.or_assoc,
          List.getLast?_eq_some_getLast hne, Option.some_or]
      · rw [List.all_cons, Bool.and_eq_true] at hw
        have hc : isBoundary (some c) = false := by rw [isBoundary_some, hw.1]; rfl
        rw [List.cons_append, renameFrom_miss hp, ih w.length (by simp [← hn]) hw.2 hc rfl,
          getLast?_cons_or, List.cons_append]

theorem renameFrom_run (hw₀ : w ≠ []) (hw : w.all isIdentifierChar) (hr : isBoundary r.head?)
    (hb : isBoundary before) :
    renameFrom old new 0 before (w ++ r) =
      replaceWord old new w ++ renameFrom old new 0 w.getLast? r := by
  obtain ⟨c, w, rfl⟩ := List.exists_cons_of_ne_nil hw₀
  by_cases hp : old <+: c :: (w ++ r)
  · obtain ⟨u, hu⟩ := prefix_of_prefix_append ho hr (w := c :: w) hp
    rw [← hu, List.append_assoc, renameFrom_match hne, hb, Bool.true_and]
    cases u with
    | nil => simp [hr, replaceWord]
    | cons d u =>
      rw [← hu, List.all_append, Bool.and_eq_true] at hw
      have hd : isBoundary (d :: u ++ r).head? = false := by
        rw [List.all_cons, Bool.and_eq_true] at hw
        simp [isBoundary_some, hw.2.1]
      rw [hd, if_neg Bool.false_ne_true, replaceWord, if_neg (by simp),
        renameFrom_inside hne ho hw.2 hr (isBoundary_getLast? hne ho), List.getLast?_append,
        List.append_assoc]
  · rw [List.all_cons, Bool.and_eq_true] at hw
    have hc : isBoundary (some c) = false := by rw [isBoundary_some, hw.1]; rfl
    have hl := getLast?_cons_or c w none
    have hword : c :: w ≠ old := by
      rintro rfl
      exact hp (List.prefix_append (c :: w) r)
    rw [Option.or_none] at hl
    rw [List.cons_append, renameFrom_miss hp, replaceWord, if_neg hword,
      renameFrom_inside hne ho hw.2 hr hc, hl, List.cons_append]

theorem renameFrom_eq_words (h : isBoundary before ∨ isBoundary t.head?) :
    renameFrom old new 0 before t = (words t).flatMap (replaceWord old new) := by
  induction t using word_induction generalizing before with
  | nil => rfl
  | gap c r hc ih =>
    have hw : replaceWord old new [c] = [c] := by
      apply if_neg
      rintro rfl
      simp [hc] at ho
    rw [renameFrom_gap hne ho hc, ih (.inl (by simp [isBoundary_some, hc])), words_gap hc,
      List.flatMap_cons, hw]
    rfl
  | run w r hw₀ hw hr ih =>
    have hb : isBoundary before := by
      apply h.resolve_right
      obtain ⟨d, w, rfl⟩ := List.exists_cons_of_ne_nil hw₀
      rw [List.all_cons, Bool.and_eq_true] at hw
      simp [isBoundary_some, hw.1]
    rw [renameFrom_run hne ho hw₀ hw hr hb, ih (.inr hr), words_run_append hw₀ hw hr,
      List.flatMap_cons]

/-- Renaming replaces exactly the words that are the name. -/
theorem rename_eq_words (new t : Text) :
    rename old new t = (words t).flatMap (replaceWord old new) := by
  rw [rename, if_neg hne, renameFrom_eq_words hne ho (.inl rfl)]

theorem rename_gap (hc : isIdentifierChar c = false) :
    rename old new (c :: t) = c :: rename old new t := by
  rw [rename, if_neg hne, renameFrom_gap hne ho hc, rename, if_neg hne,
    renameFrom_eq_words hne ho (.inl (by simp [isBoundary_some, hc])),
    renameFrom_eq_words hne ho (.inl rfl)]

theorem rename_append (h : isBoundary a.getLast? ∨ isBoundary b.head?) :
    rename old new (a ++ b) = rename old new a ++ rename old new b := by
  simp only [rename_eq_words hne ho, words_append h, List.flatMap_append]

theorem rename_run (new : Text) (hw₀ : w ≠ []) (hw : w.all isIdentifierChar) :
    rename old new w = replaceWord old new w := by
  rw [rename_eq_words hne ho, words_run hw₀ hw, List.flatMap_singleton]

theorem rename_of_not_mem (new : Text) (h : old ∉ words t) : rename old new t = t := by
  have he : (words t).map (replaceWord old new) = (words t).map id := by
    refine List.map_congr_left fun w hw => if_neg ?_
    rintro rfl
    exact h hw
  rw [rename_eq_words hne ho, List.flatMap_def, he, List.map_id, flatten_words]

theorem rename_self (t : Text) : rename old old t = t := by
  have hid : ∀ w ∈ words t, replaceWord old old w = w := by
    intro w hw
    rw [replaceWord]
    split
    · next h => exact h.symm
    · rfl
  rw [rename_eq_words hne ho, List.flatMap_def, List.map_congr_left hid, List.map_id',
    flatten_words]

theorem isBoundary_head?_rename (h : isBoundary t.head?) :
    isBoundary (rename old new t).head? := by
  cases t with
  | nil => rwa [rename_nil]
  | cons c t =>
    rw [List.head?_cons, isBoundary_some, Bool.not_eq_true'] at h
    simp [rename_gap hne ho h, isBoundary_some, h]

theorem words_rename (hn : new ≠ []) (hnew : new.all isIdentifierChar) :
    words (rename old new t) = (words t).map (replaceWord old new) := by
  induction t using word_induction with
  | nil => rw [rename_nil]; rfl
  | gap c r hc ih =>
    have hw : replaceWord old new [c] = [c] := by
      apply if_neg
      rintro rfl
      simp [hc] at ho
    rw [rename_gap hne ho hc, words_gap hc, ih, words_gap hc, List.map_cons, hw]
  | run w r hw₀ hw hr ih =>
    have hrun := run_replaceWord old hw₀ hw hn hnew
    rw [rename_append hne ho (.inr hr), rename_run hne ho new hw₀ hw,
      words_run_append hrun.1 hrun.2 (isBoundary_head?_rename hne ho hr), ih,
      words_run_append hw₀ hw hr, List.map_cons]

theorem not_mem_words_rename (hn : new ≠ []) (hnew : new.all isIdentifierChar)
    (hfree : new ∉ words t) : old ∉ words (rename old new t) := by
  rw [words_rename hne ho hn hnew]
  intro h
  obtain ⟨w, hw, he⟩ := List.mem_map.1 h
  rw [replaceWord] at he
  split at he
  · next hold =>
    subst he hold
    exact hfree hw
  · exact absurd he ‹_›

/-- Where a name has been replaced by a new one, it is not left to be replaced again. -/
theorem rename_rename_of_not_mem (hn : new ≠ []) (hnew : new.all isIdentifierChar)
    (hfree : new ∉ words t) (other : Text) :
    rename old other (rename old new t) = rename old new t :=
  rename_of_not_mem hne ho other (not_mem_words_rename hne ho hn hnew hfree)

theorem rename_eq_self_iff (hn : new ≠ []) (hnew : new.all isIdentifierChar) (hfree : new ∉ words t) :
    rename old new t = t ↔ ¬ StandsIn old t := by
  rw [← mem_words_iff ho]
  constructor
  · intro he hm
    rw [← he] at hm
    exact not_mem_words_rename hne ho hn hnew hfree hm
  · exact rename_of_not_mem hne ho new

/-- A name that a text does not use can be given back for the one it replaced. -/
theorem rename_rename (hn : new ≠ []) (hnew : new.all isIdentifierChar) (hfree : new ∉ words t) :
    rename new old (rename old new t) = t := by
  have hback : ∀ w ∈ words t, replaceWord new old (replaceWord old new w) = w := by
    intro w hw
    simp only [replaceWord]
    split
    · next h => rw [if_pos rfl, h]
    · rw [if_neg]
      rintro rfl
      exact hfree hw
  rw [rename_eq_words hn hnew, words_rename hne ho hn hnew, List.flatMap_map, List.flatMap_def,
    List.map_congr_left hback, List.map_id', flatten_words]

theorem length_rename_nil :
    (rename old [] t).length + (words t).count old * old.length = t.length := by
  induction t using word_induction with
  | nil => simp [rename_nil, words]
  | gap c r hc ih =>
    have hw : [c] ≠ old := by
      rintro rfl
      simp [hc] at ho
    rw [rename_gap hne ho hc, words_gap hc, List.count_cons_of_ne hw, List.length_cons,
      List.length_cons]
    omega
  | run w r hw₀ hw hr ih =>
    rw [rename_append hne ho (.inr hr), rename_run hne ho [] hw₀ hw, words_run_append hw₀ hw hr,
      List.length_append, List.length_append, replaceWord]
    split
    · next h =>
      subst h
      rw [List.count_cons_self, Nat.succ_mul, List.length_nil]
      omega
    · next h =>
      rw [List.count_cons_of_ne h]
      omega

end

theorem occurs_iff (ho : old.all isIdentifierChar) : occurs old t ↔ StandsIn old t := by
  rw [← mem_words_iff ho, occurs, bne_iff_ne]
  constructor
  · intro h
    have hne : old ≠ [] := by
      rintro rfl
      exact h (if_pos rfl)
    exact Decidable.not_not.1 fun hm => h (rename_of_not_mem hne ho [] hm)
  · intro hm he
    have hne := ne_nil_of_mem_words hm
    have hlen := length_rename_nil (t := t) hne ho
    have hcount := List.count_pos_iff.2 hm
    have hpos := Nat.mul_pos hcount (List.length_pos_iff.2 hne)
    rw [he] at hlen
    omega

end PluginForge.Guard
