import Mathlib.Data.List.DropRight
import PluginForge.Proofs.Text.Basic

namespace PluginForge.Text

variable {a b s t old : Text} {c : Char} {p : Char → Bool}

theorem dropEndWhile_eq_rdropWhile (p : Char → Bool) (t : Text) :
    dropEndWhile p t = t.rdropWhile p :=
  rfl

theorem trimEnd_append_blank (hb : b.all isBlank) : trimEnd (a ++ b) = trimEnd a := by
  have hdrop : b.reverse.dropWhile isBlank = [] := by
    rw [List.dropWhile_eq_nil_iff]
    intro c hc
    exact List.all_eq_true.1 hb c (List.mem_reverse.1 hc)
  rw [trimEnd, dropEndWhile, List.reverse_append, List.dropWhile_append, hdrop, List.isEmpty_nil,
    if_pos rfl]
  rfl

theorem trimEnd_cons (hc : isBlank c = false) (t : Text) : trimEnd (c :: t) = c :: trimEnd t := by
  have hlast : trimEnd [c] = [c] := by
    rw [trimEnd, dropEndWhile_eq_rdropWhile, List.rdropWhile_singleton,
      if_neg (ne_true_of_eq_false hc)]
  cases ht : t.all isBlank with
  | true =>
    have hnil : trimEnd t = [] := trimEnd_append_blank (a := []) ht
    rw [← List.singleton_append, trimEnd_append_blank ht, hlast, hnil]
  | false => exact dropEndWhile_append (a := [c]) ht

theorem trim_eq_self (hhead : ∀ c ∈ t.head?, isBlank c = false)
    (hlast : ∀ c ∈ t.getLast?, isBlank c = false) : trim t = t := by
  have hstart : trimStart t = t := by
    cases t with
    | nil => rfl
    | cons c t => rw [trimStart, List.dropWhile_cons, hhead c rfl, if_neg Bool.false_ne_true]
  rw [trim, hstart, trimEnd, dropEndWhile_eq_rdropWhile, List.rdropWhile_eq_self_iff]
  intro hne
  rw [hlast _ (List.getLast?_eq_some_getLast hne)]
  exact Bool.false_ne_true

theorem trim_between {x y : Char} (hx : isBlank x = false) (hy : isBlank y = false) (t : Text) :
    trim (x :: t ++ [y]) = x :: t ++ [y] := by
  apply trim_eq_self
  · intro c hc
    cases hc
    exact hx
  · intro c hc
    rw [List.getLast?_concat] at hc
    cases hc
    exact hy

theorem trimStart_eq_nil (h : t.all isBlank) : trimStart t = [] :=
  List.dropWhile_eq_nil_iff.2 (List.all_eq_true.1 h)

theorem isEmpty_trimStart (h : t.all isBlank = false) : (t.dropWhile isBlank).isEmpty = false := by
  rw [List.isEmpty_eq_false_iff, ne_eq, List.dropWhile_eq_nil_iff, ← List.all_eq_true, h]
  exact Bool.false_ne_true

theorem trim_append_blank (hb : b.all isBlank) : trim (a ++ b) = trim a := by
  cases ha : a.all isBlank with
  | true =>
    have hall : (a ++ b).all isBlank := by
      rw [List.all_append, ha, hb]
      rfl
    rw [trim, trim, trimStart_eq_nil hall, trimStart_eq_nil ha]
  | false =>
    rw [trim, trimStart, List.dropWhile_append, isEmpty_trimStart ha, if_neg Bool.false_ne_true,
      trimEnd_append_blank hb]
    rfl

theorem trim_blank_append (ha : a.all isBlank) (b : Text) : trim (a ++ b) = trim b := by
  induction a with
  | nil => rfl
  | cons c a ih =>
    rw [List.all_cons, Bool.and_eq_true] at ha
    rw [List.cons_append, trim, trimStart, List.dropWhile_cons, if_pos ha.1]
    exact ih ha.2

theorem eq_trim_append (t : Text) :
    ∃ a b : Text, t = a ++ trim t ++ b ∧ a.all isBlank ∧ b.all isBlank := by
  refine ⟨t.takeWhile isBlank, (trimStart t).rtakeWhile isBlank, ?_, ?_, ?_⟩
  · rw [List.append_assoc, trim, trimEnd, dropEndWhile_eq_rdropWhile,
      List.rdropWhile_append_rtakeWhile]
    exact (List.takeWhile_append_dropWhile).symm
  · exact List.all_eq_true.2 fun c hc => List.mem_takeWhile_imp hc
  · exact List.all_eq_true.2 fun c hc => List.mem_rtakeWhile_imp hc

theorem head?_dropEndWhile_dropWhile (p q : Char → Bool) (t : Text) :
    ∀ c ∈ (dropEndWhile q (t.dropWhile p)).head?, p c = false := by
  intro c hc
  have hstart := List.head?_dropWhile_not p t
  obtain ⟨back, hback⟩ := List.rdropWhile_prefix q (t.dropWhile p)
  rw [← dropEndWhile_eq_rdropWhile] at hback
  rw [← hback, List.head?_append, Option.mem_def.1 hc] at hstart
  exact hstart

theorem isBlank_head_trim (t : Text) : ∀ c ∈ (trim t).head?, isBlank c = false :=
  head?_dropEndWhile_dropWhile isBlank isBlank t

theorem trim_isInfix (t : Text) : trim t <:+: t := by
  obtain ⟨a, b, ht, -, -⟩ := eq_trim_append t
  exact ⟨a, b, ht.symm⟩

theorem mem_trim_iff (hc : isBlank c = false) (t : Text) : c ∈ trim t ↔ c ∈ t := by
  refine ⟨fun hm => trim_subset t hm, fun hm => ?_⟩
  obtain ⟨front, back, ht, hfront, hback⟩ := eq_trim_append t
  rw [ht] at hm
  simpa [not_mem_of_all hfront hc, not_mem_of_all hback hc] using hm

theorem trim_eq_nil_iff : trim t = [] ↔ t.all isBlank := by
  constructor
  · intro h
    obtain ⟨front, back, ht, hfront, hback⟩ := eq_trim_append t
    rw [ht, h, List.append_nil, List.all_append, hfront, hback]
    rfl
  · intro h
    rw [trim, trimStart_eq_nil h]
    rfl

theorem trim_append (ha : a.all isBlank = false) (hb : b.all isBlank = false) :
    trim (a ++ b) = trimStart a ++ trimEnd b := by
  rw [trim, trimStart, List.dropWhile_append, isEmpty_trimStart ha, if_neg Bool.false_ne_true]
  exact dropEndWhile_append hb

theorem trim_trim (t : Text) : trim (trim t) = trim t := by
  obtain ⟨a, b, ht, ha, hb⟩ := eq_trim_append t
  calc trim (trim t) = trim (a ++ trim t ++ b) := by
        rw [trim_append_blank hb, trim_blank_append ha]
    _ = trim t := by rw [← ht]

theorem trim_trimEnd (t : Text) : trim (trimEnd t) = trim t := by
  have hsplit : trimEnd t ++ t.rtakeWhile isBlank = t := List.rdropWhile_append_rtakeWhile
  have hblank : (t.rtakeWhile isBlank).all isBlank :=
    List.all_eq_true.2 fun _ hc => List.mem_rtakeWhile_imp hc
  calc trim (trimEnd t) = trim (trimEnd t ++ t.rtakeWhile isBlank) := (trim_append_blank hblank).symm
    _ = trim t := by rw [hsplit]

theorem trim_eq_of_blanks (h : trim t = a ++ s ++ b) (ha : a.all isBlank) (hb : b.all isBlank) :
    trim t = s := by
  have hs : trim t = trim s := by rw [← trim_trim, h, trim_append_blank hb, trim_blank_append ha]
  obtain ⟨front, back, hsplit, -, -⟩ := eq_trim_append s
  have hlength := congrArg List.length hsplit
  have hlength' := congrArg List.length h
  rw [← hs] at hlength
  simp only [List.length_append] at hlength hlength'
  have ha : a = [] := List.length_eq_zero_iff.1 (by omega)
  have hb : b = [] := List.length_eq_zero_iff.1 (by omega)
  rw [h, ha, hb, List.append_nil, List.nil_append]

theorem trim_takeWhile_trimEnd (hc : isBlank c = false) (t : Text) :
    trim ((trimEnd t).takeWhile (· != c)) = trim (t.takeWhile (· != c)) := by
  have hsplit : trimEnd t ++ t.rtakeWhile isBlank = t := List.rdropWhile_append_rtakeWhile
  have hblank : ∀ x ∈ t.rtakeWhile isBlank, isBlank x := fun x hx => List.mem_rtakeWhile_imp hx
  have hkeep : (t.rtakeWhile isBlank).takeWhile (· != c) = t.rtakeWhile isBlank := by
    rw [List.takeWhile_eq_self_iff]
    intro x hx
    rw [bne_iff_ne]
    rintro rfl
    rw [hblank x hx] at hc
    cases hc
  have htake : (trimEnd t ++ t.rtakeWhile isBlank).takeWhile (· != c) = _ := List.takeWhile_append
  rw [hsplit, hkeep] at htake
  rw [htake]
  split
  · next hlength =>
    have hall : (trimEnd t).takeWhile (· != c) = trimEnd t :=
      (List.takeWhile_prefix _).eq_of_length hlength
    rw [hall, trim_append_blank (List.all_eq_true.2 hblank)]
  · rfl

theorem infix_of_infix_append_cons (hc : c ∉ s) (h : s <:+: a ++ c :: b) :
    s <:+: a ∨ s <:+: b := by
  obtain ⟨before, after, h⟩ := h
  rcases List.append_eq_append_iff.1 h with ⟨rest, ha, -⟩ | ⟨rest, hfront, hrest⟩
  · exact .inl ⟨before, rest, ha.symm⟩
  cases rest with
  | nil =>
    rw [List.append_nil] at hfront
    exact .inl ⟨before, [], by rw [List.append_nil, hfront]⟩
  | cons x rest =>
    obtain ⟨rfl, rfl⟩ := List.cons_eq_cons.1 hrest
    rcases List.append_eq_append_iff.1 hfront with ⟨inner, -, hs⟩ | ⟨inner, -, hs⟩
    · rw [hs] at hc
      exact absurd (List.mem_append_right inner List.mem_cons_self) hc
    · cases inner with
      | nil =>
        rw [List.nil_append] at hs
        rw [← hs] at hc
        exact absurd List.mem_cons_self hc
      | cons y inner =>
        obtain ⟨-, rfl⟩ := List.cons_eq_cons.1 hs
        exact .inr ⟨inner, after, rfl⟩

theorem infix_of_infix_append (hc : c ∉ b) (h : s ++ [c] <:+: a ++ b) : s ++ [c] <:+: a := by
  obtain ⟨before, after, h⟩ := h
  rcases List.append_eq_append_iff.1 h with ⟨rest, ha, -⟩ | ⟨rest, hfront, hrest⟩
  · exact ⟨before, rest, ha.symm⟩
  cases rest with
  | nil =>
    rw [List.append_nil] at hfront
    exact ⟨before, [], by rw [List.append_nil, hfront]⟩
  | cons x rest =>
    exfalso
    have hlast := congrArg List.getLast? hfront
    rw [← List.append_assoc, List.getLast?_concat, List.getLast?_append_cons] at hlast
    rw [hrest] at hc
    exact hc (List.mem_append_left _ (List.mem_of_getLast? hlast.symm))

theorem replaceAll_append_self (hold : old ≠ []) (new t : Text) :
    replaceAll old new (old ++ t) = new ++ replaceAll old new t := by
  obtain ⟨x, rest, rfl⟩ := List.exists_cons_of_ne_nil hold
  have hskip : ∀ s : Text,
      replaceFrom (x :: rest) new s.length (s ++ t) = replaceAll (x :: rest) new t := by
    intro s
    induction s with
    | nil => rfl
    | cons y s ih => exact ih
  have hprefix : (x :: rest).isPrefixOf (x :: (rest ++ t)) :=
    List.isPrefixOf_iff_prefix.2 (List.prefix_append _ t)
  rw [replaceAll, List.cons_append, replaceFrom, if_pos hprefix]
  exact congrArg (new ++ ·) (hskip rest)

theorem replaceAll_eq_self (new : Text) (h : ¬old <:+: t) : replaceAll old new t = t := by
  rw [replaceAll]
  induction t with
  | nil => rfl
  | cons c t ih =>
    have hfirst : ¬old.isPrefixOf (c :: t) := fun hp => h (List.isPrefixOf_iff_prefix.1 hp).isInfix
    rw [replaceFrom, if_neg hfirst, ih fun hi => h (hi.trans (List.suffix_cons c t).isInfix)]

theorem takeWhile_append_stop (t : Text) (c : Char) :
    (t ++ [c]).takeWhile (· != c) = t.takeWhile (· != c) := by
  induction t with
  | nil => rw [List.nil_append, List.takeWhile_cons, bne_self_eq_false, if_neg Bool.false_ne_true,
      List.takeWhile_nil]
  | cons x t ih => rw [List.cons_append, List.takeWhile_cons, List.takeWhile_cons, ih]

theorem cut?_eq_none (h : ∀ x ∈ t, p x = false) : cut? p t = none := by
  induction t with
  | nil => rfl
  | cons x t ih =>
    rw [List.forall_mem_cons] at h
    rw [cut?, h.1, if_neg Bool.false_ne_true, ih h.2]
    rfl

theorem cut?_append (hb : ∀ x ∈ b, p x = false) (a : Text) :
    cut? p (a ++ b) = (cut? p a).map fun parts => (parts.1, parts.2 ++ b) := by
  induction a with
  | nil => exact cut?_eq_none hb
  | cons x a ih =>
    rw [List.cons_append, cut?, cut?, ih]
    split
    · rfl
    · rw [Option.map_map, Option.map_map]
      rfl

/-- A text is cut at the first character that ends its first part. -/
theorem cut?_append_cons (ha : ∀ x ∈ a, p x = false) (hc : p c) :
    cut? p (a ++ c :: b) = some (a, b) := by
  induction a with
  | nil => rw [List.nil_append, cut?, if_pos hc]
  | cons x a ih =>
    have hx : p x = false := ha x List.mem_cons_self
    rw [List.cons_append, cut?, hx, if_neg Bool.false_ne_true,
      ih fun y hy => ha y (List.mem_cons_of_mem x hy)]
    rfl

theorem cut?_char_iff : cut? (· == c) t = some (a, b) ↔ t = a ++ c :: b ∧ c ∉ a := by
  constructor
  · intro h
    obtain ⟨x, hx, rfl⟩ := eq_of_cut? h
    rw [beq_iff_eq.1 hx]
    exact ⟨rfl, fun hmem => beq_eq_false_iff_ne.1 (eq_false_of_cut? h c hmem) rfl⟩
  · rintro ⟨rfl, hc⟩
    apply cut?_append_cons
    · intro x hx
      rw [beq_eq_false_iff_ne]
      rintro rfl
      exact hc hx
    · exact beq_self_eq_true c

end PluginForge.Text
