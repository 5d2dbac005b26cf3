import PluginForge.Proofs.Text.Trimming

namespace PluginForge.Text

variable {a b front new old s t : Text} {c e x : Char}

theorem replaceAll_cons_of_not_prefix (h : ¬old <+: c :: t) (new : Text) :
    replaceAll old new (c :: t) = c :: replaceAll old new t := by
  rw [replaceAll, replaceFrom, if_neg (mt List.isPrefixOf_iff_prefix.1 h)]
  rfl

theorem replaceAll_cases (hold : old ≠ []) (new t : Text) :
    (¬old <:+: t ∧ replaceAll old new t = t) ∨
      ∃ a b, t = a ++ (old ++ b) ∧ ¬old <:+: a ∧
        replaceAll old new t = a ++ (new ++ replaceAll old new b) := by
  have hnil : ¬old <:+: [] := mt List.infix_nil.1 hold
  induction t with
  | nil => exact .inl ⟨hnil, rfl⟩
  | cons c t ih =>
    by_cases hfirst : old <+: c :: t
    · obtain ⟨b, hb⟩ := hfirst
      refine .inr ⟨[], b, hb.symm, hnil, ?_⟩
      rw [← hb, replaceAll_append_self hold]
      rfl
    · have hstep := replaceAll_cons_of_not_prefix hfirst new
      rcases ih with ⟨hno, hself⟩ | ⟨a, b, rfl, ha, hreplace⟩
      · exact .inl ⟨fun h => (List.infix_cons_iff.1 h).elim hfirst hno, by rw [hstep, hself]⟩
      · refine .inr ⟨c :: a, b, rfl, fun h => ?_, by rw [hstep, hreplace]; rfl⟩
        exact (List.infix_cons_iff.1 h).elim
          (fun hp => hfirst (hp.trans (List.prefix_append (c :: a) (old ++ b)))) ha

theorem replaceAll_induction {P : Text → Text → Prop} (hold : old ≠ [])
    (keep : ∀ t, ¬old <:+: t → P t t)
    (replace : ∀ a b r, ¬old <:+: a → P b r → P (a ++ (old ++ b)) (a ++ (new ++ r))) (t : Text) :
    P t (replaceAll old new t) := by
  induction hlength : t.length using Nat.strong_induction_on generalizing t with
  | h n ih =>
    rcases replaceAll_cases hold new t with ⟨hno, hself⟩ | ⟨a, b, rfl, ha, hreplace⟩
    · rw [hself]
      exact keep t hno
    · have hpos := List.length_pos_iff.2 hold
      have hlt : b.length < n := by
        rw [List.length_append, List.length_append] at hlength
        omega
      rw [hreplace]
      exact replace a b _ ha (ih _ hlt b rfl)

/-- Replacements leave no occurrence, and make none of another piece, if every piece ends with a character
that is not put in, and what is put in ends with one that stands in no piece. -/
theorem not_infix_replaceAll (hold : old ≠ []) (hx : x ∉ s) (hend : ∃ r, s = r ++ [e]) (he : e ∉ front)
    (hs : s = old ∨ ¬s <:+: t) : ¬s <:+: replaceAll old (front ++ [x]) t := by
  revert hs
  refine replaceAll_induction (P := fun t r => (s = old ∨ ¬s <:+: t) → ¬s <:+: r) hold ?_ ?_ t
  · rintro t hno (rfl | hs)
    · exact hno
    · exact hs
  · intro a b r ha ih hs h
    rw [List.append_assoc, ← List.append_assoc] at h
    rcases infix_of_infix_append_cons hx h with h | h
    · obtain ⟨r, rfl⟩ := hend
      have hfront := infix_of_infix_append he h
      rcases hs with rfl | hs
      · exact ha hfront
      · exact hs (hfront.trans (List.prefix_append a _).isInfix)
    · refine ih (hs.imp_right fun hs hb => hs ?_) h
      exact hb.trans ((List.suffix_append old b).trans (List.suffix_append a _)).isInfix

theorem prefix_of_prefix_append_cons (hc : c ∉ s) (h : s <+: a ++ c :: b) : s <+: a := by
  rcases List.prefix_or_prefix_of_prefix h (List.prefix_append a (c :: b)) with h' | ⟨r, rfl⟩
  · exact h'
  · rw [List.prefix_append_right_inj] at h
    cases r with
    | nil => exact ⟨[], by rw [List.append_nil, List.append_nil]⟩
    | cons y r =>
      rw [(List.cons_prefix_cons.1 h).1] at hc
      exact absurd (List.mem_append_right a List.mem_cons_self) hc

/-- A character that does not occur in a piece keeps the replacements on its two sides apart. -/
theorem replaceAll_append_cons (hold : old ≠ []) (hc : c ∉ old) (new a b : Text) :
    replaceAll old new (a ++ c :: b) = replaceAll old new a ++ c :: replaceAll old new b := by
  have hfirst : ¬old <+: c :: b := fun h =>
    hold (List.prefix_nil.1 (prefix_of_prefix_append_cons (a := []) hc h))
  have hskip : ∀ skip ≤ a.length, replaceFrom old new skip (a ++ c :: b) =
      replaceFrom old new skip a ++ c :: replaceAll old new b := by
    induction a with
    | nil =>
      intro skip hle
      rw [Nat.le_zero.1 hle]
      exact replaceAll_cons_of_not_prefix hfirst new
    | cons y a ih =>
      intro skip hle
      cases skip with
      | succ skip => exact ih skip (Nat.le_of_succ_le_succ hle)
      | zero =>
        rw [List.cons_append, replaceFrom, replaceFrom]
        by_cases hp : old <+: y :: a
        · have hlong : old <+: y :: (a ++ c :: b) := hp.trans (List.prefix_append (y :: a) (c :: b))
          have hlength := hp.length_le
          rw [if_pos (List.isPrefixOf_iff_prefix.2 hlong), if_pos (List.isPrefixOf_iff_prefix.2 hp),
            ih _ (by rw [List.length_cons] at hlength; omega), List.append_assoc]
        · have hlong : ¬old <+: y :: (a ++ c :: b) := fun h =>
            hp (prefix_of_prefix_append_cons (a := y :: a) hc h)
          rw [if_neg (mt List.isPrefixOf_iff_prefix.1 hlong), if_neg (mt List.isPrefixOf_iff_prefix.1 hp),
            ih 0 (Nat.zero_le _)]
          rfl
  exact hskip 0 (Nat.zero_le _)

end PluginForge.Text
