import Mathlib.Data.List.TakeWhile
import PluginForge.Text.Basic

namespace PluginForge.Text

variable {a b line new old part piece rest t : Text} {c x : Char} {p : Char → Bool}
  {parts : List Text}

theorem splitOn_eq_splitOn (c : Char) (t : Text) : splitOn c t = List.splitOn c t := by
  induction t with
  | nil => rfl
  | cons x t ih =>
    rw [splitOn, List.splitOn_cons_eq_if_modifyHead, ih]
    by_cases h : x = c
    · rw [if_pos h, if_pos (beq_iff_eq.2 h)]
    · rw [if_neg h, if_neg (mt beq_iff_eq.1 h)]
      cases hs : List.splitOn c t with
      | nil => exact absurd hs (List.splitOn_ne_nil c t)
      | cons piece pieces => rfl

theorem splitOn_append_cons (c : Char) (a b : Text) :
    splitOn c (a ++ c :: b) = splitOn c a ++ splitOn c b := by
  rw [splitOn_eq_splitOn, splitOn_eq_splitOn, splitOn_eq_splitOn, List.splitOn_append_cons_self]

theorem splitOn_join (h : ∀ part ∈ parts, c ∉ part) (hne : parts ≠ []) :
    splitOn c (join [c] parts) = parts := by
  rw [splitOn_eq_splitOn, join, List.splitOn_intercalate c h hne]

theorem join_splitOn (c : Char) (t : Text) : join [c] (splitOn c t) = t := by
  rw [splitOn_eq_splitOn]
  exact List.intercalate_splitOn c

theorem join_cons (separator part : Text) (parts : List Text) :
    join separator (part :: parts) = part ++ parts.flatMap (separator ++ ·) := by
  induction parts generalizing part with
  | nil => rfl
  | cons next parts ih =>
    rw [join_cons_cons, ih next, List.flatMap_cons, List.append_assoc, List.append_assoc]

theorem length_le_width (parts : List Text) : parts.length ≤ width parts := by
  induction parts with
  | nil => exact Nat.le_refl 0
  | cons part parts ih =>
    rw [List.length_cons, width_cons]
    omega

theorem join_append {separator : Text} {a b : List Text} (ha : a ≠ []) (hb : b ≠ []) :
    join separator (a ++ b) = join separator a ++ separator ++ join separator b := by
  obtain ⟨next, b, rfl⟩ := List.exists_cons_of_ne_nil hb
  induction a with
  | nil => exact absurd rfl ha
  | cons first a ih =>
    cases a with
    | nil =>
      rw [List.singleton_append, join_cons_cons]
      simp [join]
    | cons second a =>
      rw [List.cons_append, List.cons_append, join_cons_cons, ← List.cons_append,
        ih (List.cons_ne_nil _ _), join_cons_cons]
      simp only [List.append_assoc]

theorem join_concat {separator : Text} (hne : parts ≠ []) :
    join separator (parts ++ [part]) = join separator parts ++ separator ++ part := by
  rw [join_append hne (List.cons_ne_nil _ _), join, join, List.intercalate_singleton]

theorem head?_splitOn (c : Char) (t : Text) :
    (splitOn c t).head? = some (t.takeWhile (· != c)) := by
  induction t with
  | nil => rfl
  | cons x t ih =>
    rw [splitOn, List.takeWhile_cons]
    by_cases hx : x = c
    · rw [if_pos hx, hx, bne_self_eq_false]
      rfl
    · rw [if_neg hx, bne_iff_ne.2 hx]
      cases hs : splitOn c t with
      | nil => exact absurd hs (splitOn_ne_nil c t)
      | cons piece pieces =>
        rw [hs] at ih
        exact congrArg (Option.map (x :: ·)) ih

theorem not_mem_of_mem_splitOn (h : piece ∈ splitOn c t) : c ∉ piece := by
  induction t generalizing piece with
  | nil =>
    rw [List.mem_singleton.1 h]
    exact List.not_mem_nil
  | cons x t ih =>
    rw [splitOn] at h
    split at h
    · rcases List.mem_cons.1 h with rfl | h
      · exact List.not_mem_nil
      · exact ih h
    · next hx =>
      split at h
      · next hs => exact absurd hs (splitOn_ne_nil c t)
      · next first pieces hs =>
        rw [hs] at ih
        rcases List.mem_cons.1 h with rfl | h
        · rw [List.mem_cons, not_or]
          exact ⟨Ne.symm hx, ih List.mem_cons_self⟩
        · exact ih (List.mem_cons_of_mem _ h)

theorem infix_of_mem_join {separator : Text} (h : part ∈ parts) : part <:+: join separator parts := by
  induction parts with
  | nil => cases h
  | cons first parts ih =>
    cases parts with
    | nil =>
      have hjoin : join separator [first] = first := List.intercalate_singleton
      exact ⟨[], [], by rw [List.mem_singleton.1 h, hjoin, List.nil_append, List.append_nil]⟩
    | cons next parts =>
      rw [join_cons_cons]
      rcases List.mem_cons.1 h with rfl | h
      · rw [List.append_assoc]
        exact (List.prefix_append ..).isInfix
      · exact (ih h).trans (List.suffix_append ..).isInfix

theorem infix_of_mem_splitOn (h : piece ∈ splitOn c t) : piece <:+: t := by
  have hjoin : piece <:+: join [c] (splitOn c t) := infix_of_mem_join h
  rwa [join_splitOn] at hjoin

theorem mem_of_mem_splitOn (h : piece ∈ splitOn c t) (hx : x ∈ piece) : x ∈ t :=
  (infix_of_mem_splitOn h).subset hx

theorem dropReturn_subset (line : Text) : dropReturn line ⊆ line := by
  rw [dropReturn]
  split
  · exact List.dropLast_subset line
  · exact List.Subset.refl line

theorem exists_of_mem_lines (h : line ∈ lines t) : ∃ piece ∈ splitOn '\n' t, line ⊆ piece := by
  have hlast : (splitOn '\n' t).getLastD [] ∈ splitOn '\n' t := by
    rw [List.getLastD_eq_getLast?, List.getLast?_eq_some_getLast (splitOn_ne_nil '\n' t)]
    exact List.getLast_mem _
  rcases List.mem_append.1 h with h | h
  · obtain ⟨piece, hpiece, rfl⟩ := List.mem_map.1 h
    exact ⟨piece, List.dropLast_subset _ hpiece, dropReturn_subset piece⟩
  · split at h
    · exact absurd h List.not_mem_nil
    · rw [List.mem_singleton.1 h]
      exact ⟨_, hlast, List.Subset.refl _⟩

theorem not_mem_of_mem_lines (h : line ∈ lines t) : '\n' ∉ line := by
  obtain ⟨piece, hpiece, hline⟩ := exists_of_mem_lines h
  exact fun hc => not_mem_of_mem_splitOn hpiece (hline hc)

theorem mem_of_mem_lines (h : line ∈ lines t) (hx : x ∈ line) : x ∈ t := by
  obtain ⟨piece, hpiece, hline⟩ := exists_of_mem_lines h
  exact mem_of_mem_splitOn hpiece (hline hx)

theorem dropReturn_eq (h : line.getLast? ≠ some '\r') : dropReturn line = line :=
  if_neg h

theorem lines_join_concat {last : Text} (h : ∀ part ∈ parts, '\n' ∉ part)
    (hlast : '\n' ∉ last) (hne : last ≠ []) :
    lines (join ['\n'] (parts ++ [last])) = parts.map dropReturn ++ [last] := by
  have hparts : ∀ part ∈ parts ++ [last], '\n' ∉ part := by
    rw [List.forall_mem_append, List.forall_mem_singleton]
    exact ⟨h, hlast⟩
  rw [lines, splitOn_join hparts (by simp)]
  simp only [List.dropLast_concat, List.getLastD_concat]
  rw [List.isEmpty_eq_false_iff.2 hne, if_neg Bool.false_ne_true]

/-- The lines of joined texts are these texts, if each is a line and none looks like the end of one. -/
theorem lines_join (h : ∀ part ∈ parts, part ≠ [] ∧ '\n' ∉ part ∧ part.getLast? ≠ some '\r') :
    lines (join ['\n'] parts) = parts := by
  rcases List.eq_nil_or_concat parts with rfl | ⟨init, last, rfl⟩
  · rfl
  rw [List.concat_eq_append] at h ⊢
  rw [List.forall_mem_append, List.forall_mem_singleton] at h
  obtain ⟨hinit, hne, hlast, -⟩ := h
  have hkeep : init.map dropReturn = init :=
    (List.map_congr_left fun part hpart => dropReturn_eq (hinit part hpart).2.2).trans (List.map_id init)
  rw [lines_join_concat (fun part hpart => (hinit part hpart).2.1) hlast hne, hkeep]

theorem not_mem_of_all (h : t.all p) (hc : p c = false) : c ∉ t := by
  intro hm
  rw [List.all_eq_true.1 h c hm] at hc
  cases hc

theorem forall_head?_append {P : Char → Prop} (ha : ∀ c ∈ a.head?, P c) (hb : ∀ c ∈ b.head?, P c) :
    ∀ c ∈ (a ++ b).head?, P c := by
  intro c hc
  rw [List.head?_append, Option.mem_def, Option.or_eq_some_iff] at hc
  rcases hc with hc | ⟨-, hc⟩
  · exact ha c hc
  · exact hb c hc

theorem dropEndWhile_subset (p : Char → Bool) (t : Text) : dropEndWhile p t ⊆ t := fun _ h =>
  List.mem_reverse.1 ((List.dropWhile_sublist p).subset (List.mem_reverse.1 h))

theorem trimStart_subset (t : Text) : trimStart t ⊆ t :=
  (List.dropWhile_sublist isBlank).subset

theorem trimEnd_subset (t : Text) : trimEnd t ⊆ t :=
  dropEndWhile_subset isBlank t

theorem trim_subset (t : Text) : trim t ⊆ t := fun _ h =>
  trimStart_subset t (trimEnd_subset (trimStart t) h)

theorem eq_of_cut? (h : cut? p t = some (a, b)) : ∃ x, p x ∧ t = a ++ x :: b := by
  induction t generalizing a with
  | nil => cases h
  | cons x t ih =>
    rw [cut?] at h
    split at h
    · next hx =>
      cases h
      exact ⟨x, hx, rfl⟩
    · obtain ⟨⟨a', b'⟩, hcut, he⟩ := Option.map_eq_some_iff.1 h
      cases he
      obtain ⟨y, hy, rfl⟩ := ih hcut
      exact ⟨y, hy, rfl⟩

theorem eq_false_of_cut? (h : cut? p t = some (a, b)) : ∀ x ∈ a, p x = false := by
  induction t generalizing a with
  | nil => cases h
  | cons y t ih =>
    rw [cut?] at h
    split at h
    · cases h
      exact fun x hx => absurd hx List.not_mem_nil
    · next hy =>
      obtain ⟨⟨a', b'⟩, hcut, he⟩ := Option.map_eq_some_iff.1 h
      cases he
      exact List.forall_mem_cons.2 ⟨Bool.eq_false_iff.2 hy, ih hcut⟩

theorem subset_of_cut? (h : cut? p t = some (a, b)) : a ⊆ t ∧ b ⊆ t := by
  obtain ⟨x, -, rfl⟩ := eq_of_cut? h
  exact ⟨List.subset_append_left a _,
    fun _ hb => List.mem_append_right _ (List.mem_cons_of_mem x hb)⟩

theorem dropHead?_append (a rest : Text) : dropHead? a (a ++ rest) = some rest := by
  induction a with
  | nil => rfl
  | cons x a ih => rwa [List.cons_append, dropHead?, if_pos rfl]

theorem eq_of_dropHead? (h : dropHead? a t = some rest) : t = a ++ rest := by
  induction a generalizing t with
  | nil => exact Option.some.inj h
  | cons x a ih =>
    cases t with
    | nil => cases h
    | cons y t =>
      rw [dropHead?] at h
      split at h
      · next hxy => rw [hxy, ih h, List.cons_append]
      · cases h

theorem mem_of_mem_replaceFrom {skip : Nat} (h : x ∈ replaceFrom old new skip t) :
    x ∈ new ∨ x ∈ t := by
  induction t generalizing skip with
  | nil =>
    rw [replaceFrom_nil] at h
    exact .inr h
  | cons y t ih =>
    cases skip with
    | succ skip =>
      rw [replaceFrom] at h
      exact (ih h).imp_right (List.mem_cons_of_mem y)
    | zero =>
      rw [replaceFrom] at h
      split at h
      · rcases List.mem_append.1 h with h | h
        · exact .inl h
        · exact (ih h).imp_right (List.mem_cons_of_mem y)
      · rcases List.mem_cons.1 h with rfl | h
        · exact .inr List.mem_cons_self
        · exact (ih h).imp_right (List.mem_cons_of_mem y)

theorem mem_of_mem_replaceAll (h : x ∈ replaceAll old new t) : x ∈ new ∨ x ∈ t :=
  mem_of_mem_replaceFrom h

theorem mem_of_mem_replaceFirst (h : x ∈ replaceFirst old new t) : x ∈ new ∨ x ∈ t := by
  induction t with
  | nil =>
    rw [replaceFirst] at h
    split at h
    · exact .inl h
    · exact .inr h
  | cons y t ih =>
    rw [replaceFirst] at h
    split at h
    · next rest hrest =>
      rw [eq_of_dropHead? hrest]
      exact (List.mem_append.1 h).imp_right (List.mem_append_right old)
    · rcases List.mem_cons.1 h with rfl | h
      · exact .inr List.mem_cons_self
      · exact (ih h).imp_right (List.mem_cons_of_mem y)

theorem mem_of_mem_join {separator : Text} (h : x ∈ join separator parts) :
    x ∈ separator ∨ ∃ part ∈ parts, x ∈ part := by
  induction parts with
  | nil => exact absurd h List.not_mem_nil
  | cons first parts ih =>
    cases parts with
    | nil =>
      refine .inr ⟨first, List.mem_cons_self, ?_⟩
      simpa [join] using h
    | cons next parts =>
      rw [join_cons_cons, List.mem_append, List.mem_append] at h
      rcases h with (h | h) | h
      · exact .inr ⟨first, List.mem_cons_self, h⟩
      · exact .inl h
      · apply (ih h).imp_right
        rintro ⟨part, hpart, hx⟩
        exact ⟨part, List.mem_cons_of_mem first hpart, hx⟩

theorem mem_join_of_mem {separator : Text} (hpart : part ∈ parts) (hx : x ∈ part) :
    x ∈ join separator parts :=
  (infix_of_mem_join hpart).subset hx

theorem map_join (f : Char → Char) (separator : Text) (parts : List Text) :
    (join separator parts).map f = join (separator.map f) (parts.map (List.map f)) := by
  cases parts with
  | nil => rfl
  | cons part parts =>
    rw [List.map_cons, join_cons, join_cons, List.map_append, List.map_flatMap, List.flatMap_map]
    simp only [List.map_append]

theorem count_join {separator : Text} (hx : x ∉ separator) (parts : List Text) :
    (join separator parts).count x = parts.flatten.count x := by
  induction parts with
  | nil => rfl
  | cons part parts ih =>
    cases parts with
    | nil => simp [join]
    | cons next parts =>
      rw [join_cons_cons, List.count_append, List.count_append, List.count_eq_zero_of_not_mem hx, ih,
        Nat.add_zero]
      exact List.count_append.symm

theorem dropEndWhile_of_not_mem (h : c ∉ t) : dropEndWhile (· == c) t = t := by
  rw [dropEndWhile, List.dropWhile_eq_self_iff.2, List.reverse_reverse]
  intro hlength he
  exact h (eq_of_beq he ▸ List.mem_reverse.1 (List.getElem_mem hlength))

theorem dropEndWhile_append (h : b.all p = false) :
    dropEndWhile p (a ++ b) = a ++ dropEndWhile p b := by
  have hne : (b.reverse.dropWhile p).isEmpty = false := by
    rw [List.isEmpty_eq_false_iff, ne_eq, List.dropWhile_eq_nil_iff]
    intro hall
    rw [List.all_eq_true.2 fun x hx => hall x (List.mem_reverse.2 hx)] at h
    cases h
  rw [dropEndWhile, List.reverse_append, List.dropWhile_append, hne, if_neg Bool.false_ne_true,
    List.reverse_append, List.reverse_reverse, dropEndWhile]

theorem replaceAll_singleton (x : Char) (new t : Text) :
    replaceAll [x] new t = t.flatMap fun c => if c = x then new else [c] := by
  induction t with
  | nil => rfl
  | cons c t ih =>
    rw [replaceAll] at ih
    rw [replaceAll, replaceFrom, List.flatMap_cons, ← ih]
    by_cases h : c = x
    · rw [if_pos h, if_pos]
      · rfl
      · simp [h]
    · rw [if_neg h, if_neg]
      · rfl
      · simp [Ne.symm h]

theorem takeWhile_replaceAll {o n : Char} (ho : p o = false) (hn : p n = false) (old new t : Text) :
    (replaceAll (o :: old) (n :: new) t).takeWhile p = t.takeWhile p := by
  induction t with
  | nil => rfl
  | cons x t ih =>
    rw [replaceAll, replaceFrom]
    split
    · next h =>
      have hx : p x = false := by
        rw [List.isPrefixOf_cons_cons, Bool.and_eq_true, beq_iff_eq] at h
        rwa [← h.1]
      simp [hn, hx]
    · rw [List.takeWhile_cons, List.takeWhile_cons]
      split
      · exact congrArg (x :: ·) ih
      · rfl

theorem all_replaceAll (ho : old.all p = false) (hn : new.all p = false) (t : Text) :
    (replaceAll old new t).all p = t.all p := by
  induction t with
  | nil => rfl
  | cons x t ih =>
    rw [replaceAll, replaceFrom]
    split
    · next h =>
      obtain ⟨s, hs⟩ := List.isPrefixOf_iff_prefix.1 h
      rw [List.all_append, hn, Bool.false_and, ← hs, List.all_append, ho, Bool.false_and]
    · rw [List.all_cons, List.all_cons]
      exact congrArg (p x && ·) ih

end PluginForge.Text
