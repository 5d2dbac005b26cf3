import PluginForge.Proofs.Yaml.Margins
import PluginForge.Yaml.Mapping

namespace PluginForge.Yaml

variable {a t y : Text} {c : Char} {k n : Nat} {ends : Char → Bool} {w next : Written}
  {spell : Char → Text}

/-- The style of the text leaves no line open: a block ends in a line feed, or in no break at all. -/
def closesLine (t : Text) : Bool :=
  style t != .literal || t.getLast?.all fun c => c == '\n' || !isBreak c

def breakless (t : Text) : Bool :=
  t.all fun c => !isBreak c

theorem breakless_iff : breakless t ↔ ∀ c ∈ t, isBreak c = false := by
  simp only [breakless, List.all_eq_true, Bool.not_eq_true']

theorem EndsLines.eq_false (he : EndsLines ends) (h : breakless t) (hc : c ∈ t) :
    ends c = false := by
  rw [Bool.eq_false_iff]
  intro hend
  exact Bool.eq_false_iff.1 (breakless_iff.1 h c hc) (he.isBreak hend)

def Written.closed (w : Written) : Text :=
  w.text ++ if w.atLineStart then [] else ['\n']

/-- A closed piece is a text and a line feed; the lines of the text but the first keep a margin, and no
line ends in a carriage return. -/
def Written.Keeps (ends : Char → Bool) (n : Nat) (w : Written) : Prop :=
  ∃ m, w.closed = m ++ ['\n'] ∧ Hangs ends n false m ∧ '\r' ∉ m

/-- The text keeps its meaning in a style. -/
def Style.allows (t : Text) : Style → Bool
  | .plain => allowsPlain t
  | .single => allowsSingle t
  | .double => true
  | .literal => allowsLiteral t

theorem allows_style (t : Text) : (style t).allows t := by
  rw [style]
  split
  · split
    · next h => exact h
    · rfl
  split
  · next h =>
    rw [Bool.and_eq_true] at h
    exact h.2
  split
  · next h => exact h
  · rfl

theorem closesLine_of_not_mem (h : '\n' ∉ t) : closesLine t := by
  have hline : t.contains '\n' = false := by
    rw [← Bool.not_eq_true, List.contains_iff_mem]
    exact h
  have hstyle : style t ≠ .literal := by
    rw [style, hline, if_neg Bool.false_ne_true]
    split
    · exact nofun
    · split <;> exact nofun
  rw [closesLine, bne_iff_ne.2 hstyle, Bool.true_or]

section Escapes

theorem isBreak_digitChar : ∀ d < 16, isBreak (Nat.digitChar d).toUpper = false := by decide

theorem isBreak_of_mem_toDigits (h : c ∈ (Nat.toDigits 16 k).map Char.toUpper) :
    isBreak c = false := by
  induction k using Nat.strongRecOn with
  | ind k ih =>
    rw [Nat.toDigits_eq_if (by decide)] at h
    split at h
    · next hk =>
      rw [List.mem_singleton.1 h]
      exact isBreak_digitChar k hk
    · next hk =>
      rw [List.map_append, List.mem_append] at h
      rcases h with h | h
      · exact ih (k / 16) (Nat.div_lt_self (by omega) (by decide)) h
      · rw [List.mem_singleton.1 h]
        exact isBreak_digitChar _ (Nat.mod_lt k (by decide))

theorem isBreak_of_mem_hex (h : c ∈ hex n k) : isBreak c = false := by
  rcases List.mem_append.1 h with h | h
  · rw [List.eq_of_mem_replicate h]
    rfl
  · exact isBreak_of_mem_toDigits h

theorem isBreak_of_mem_doubleChar {y : Char} (hc : c ∈ doubleChar y) : isBreak c = false := by
  have hletters : ∀ entry ∈ shortEscapes, isBreak entry.2 = false := by decide
  have hescape {mark : Text} (width : Nat) (hmark : breakless mark)
      (h : c ∈ mark ++ hex width y.toNat) : isBreak c = false :=
    (List.mem_append.1 h).elim (breakless_iff.1 hmark c) isBreak_of_mem_hex
  rw [doubleChar] at hc
  split at hc
  · dsimp only at hc
    split at hc
    · next entry _ hfind =>
      rcases List.mem_cons.1 hc with rfl | hc
      · rfl
      · rw [List.mem_singleton.1 hc]
        exact hletters _ (List.mem_of_find?_eq_some hfind)
    · split at hc
      · exact hescape 2 (by decide) hc
      split at hc
      · exact hescape 4 (by decide) hc
      · exact hescape 8 (by decide) hc
  · next hplain =>
    simp only [Bool.or_eq_true, not_or, Bool.not_eq_true] at hplain
    rw [List.mem_singleton.1 hc]
    exact hplain.1.1.2

theorem isBreak_of_allowsPlain (h : allowsPlain t) (hc : c ∈ t) : isBreak c = false := by
  simp only [allowsPlain, Bool.not_eq_true', Bool.or_eq_false_iff, List.any_eq_false] at h
  exact Bool.eq_false_iff.2 (h.1.1.1.1.1.2 c hc)

theorem return_not_mem (h : needsEscapes t = false) : '\r' ∉ t := by
  intro hr
  rw [needsEscapes, Bool.or_eq_false_iff, List.any_eq_false] at h
  exact h.1 '\r' hr rfl

end Escapes

section Lines

/-- Whether the next character begins a line behind a text. -/
def startsLine (atStart : Bool) (t : Text) : Bool :=
  t.foldl (fun _ c => isBreak c) atStart

theorem startsLine_concat (atStart : Bool) (t : Text) (c : Char) :
    startsLine atStart (t ++ [c]) = isBreak c := by
  rw [startsLine, List.foldl_append]
  rfl

theorem startsLine_false (t : Text) : startsLine false t = t.getLast?.any isBreak := by
  rcases List.eq_nil_or_concat t with rfl | ⟨init, last, rfl⟩
  · rfl
  · rw [List.concat_eq_append, startsLine_concat, List.getLast?_concat]
    rfl

theorem indentLines_append (n : Nat) (spell : Char → Text) (atStart : Bool) (a t : Text) :
    indentLines n spell atStart (a ++ t) =
      indentLines n spell atStart a ++ indentLines n spell (startsLine atStart a) t := by
  induction a generalizing atStart with
  | nil => rfl
  | cons c a ih =>
    rw [List.cons_append, indentLines, indentLines, startsLine, List.foldl_cons]
    split
    · next hc =>
      rw [hc, ih]
      rfl
    · next hc =>
      rw [Bool.eq_false_iff.2 hc, ih, List.append_assoc _ _ (indentLines _ _ _ t)]
      rfl

theorem hangs_indentLines (he : EndsLines ends)
    (hspell : ∀ c, isBreak c = false → ∀ x ∈ spell c, isBreak x = false) (atStart : Bool)
    (hy : Hangs ends n (startsLine atStart t) y) :
    Hangs ends n atStart (indentLines n spell atStart t ++ y) := by
  have hend {x : Char} (hx : isBreak x = false) : ends x = false :=
    Bool.eq_false_iff.2 fun h => Bool.eq_false_iff.1 hx (he.isBreak h)
  induction t generalizing atStart with
  | nil => exact hy
  | cons c t ih =>
    rw [indentLines]
    rw [startsLine, List.foldl_cons] at hy
    split
    · next hc =>
      rw [hc] at hy
      cases hends : ends c with
      | true => exact (ih true hy).cons_of_end hends
      | false =>
        have hf : isFiller c := by rw [isFiller, hc, Bool.or_true]
        have hrest := ih true hy
        cases atStart with
        | true => exact hrest.cons_of_filler hf hends
        | false => exact hrest.of_start.cons_of_filler hf hends
    · next hc =>
      have hbreak : isBreak c = false := Bool.eq_false_iff.2 hc
      have hc' (x : Char) (hx : x ∈ spell c) : ends x = false := hend (hspell c hbreak x hx)
      rw [hbreak] at hy
      rw [List.append_assoc]
      cases atStart with
      | false => exact (ih false hy).append hc'
      | true =>
        refine (ih false hy).indent fun x hx => ?_
        rcases List.mem_append.1 hx with hx | hx
        · rw [List.eq_of_mem_replicate hx]
          exact hend rfl
        · exact hc' x hx

theorem return_not_mem_indentLines (hspell : ∀ c ≠ '\r', '\r' ∉ spell c) (ht : '\r' ∉ t)
    (atStart : Bool) : '\r' ∉ indentLines n spell atStart t := by
  induction t generalizing atStart with
  | nil => exact List.not_mem_nil
  | cons c t ih =>
    obtain ⟨hc, ht⟩ := not_or.1 (List.mem_cons.not.1 ht)
    have hrest := ih ht
    have hspaces : '\r' ∉ if atStart then spaces n else [] := by
      split
      · exact fun h => absurd (List.eq_of_mem_replicate h) (by decide)
      · exact List.not_mem_nil
    rw [indentLines]
    split
    · exact List.mem_cons.not.2 (not_or.2 ⟨hc, hrest true⟩)
    · rw [List.mem_append, List.mem_append]
      exact not_or.2 ⟨not_or.2 ⟨hspaces, hspell c (Ne.symm hc)⟩, hrest false⟩

end Lines

section Pieces

theorem closed_behind (a : Text) (w : Written) : (w.behind a).closed = a ++ w.closed :=
  List.append_assoc a w.text _

theorem closed_line (k : Nat) (w next : Written) :
    (w.line k next).closed = w.closed ++ spaces k ++ next.closed :=
  closed_behind _ next

theorem closed_writeLines (k : Nat) (start : Written) (pieces : List Written) :
    (writeLines k start pieces).closed =
      start.closed ++ pieces.flatMap fun w => spaces k ++ w.closed := by
  induction pieces generalizing start with
  | nil => exact (List.append_nil _).symm
  | cons w pieces ih =>
    rw [writeLines, List.foldl_cons, ← writeLines, ih, closed_line, List.flatMap_cons]
    simp only [List.append_assoc]

theorem document_eq (members : List (Text × Node)) :
    document members =
      members.flatMap fun member => (writeMember writeNode 0 member).closed := by
  refine (closed_writeLines 0 ⟨[], true⟩ _).trans ?_
  rw [List.flatMap_map]
  rfl

end Pieces

namespace Written.Keeps

theorem of_text (ht : breakless t) (he : EndsLines ends) : Keeps ends n ⟨t, false⟩ := by
  refine ⟨t, rfl, ?_, fun hr => absurd (breakless_iff.1 ht _ hr) (by decide)⟩
  rw [← List.append_nil t]
  exact Hangs.nil.append fun c hc => he.eq_false ht hc

theorem single (he : EndsLines ends) (h : allowsSingle t) :
    Keeps ends n ⟨"'" ++ indentLines n singleChar false t ++
      (if t.getLast?.any isBreak then spaces n else []) ++ "'", false⟩ := by
  rw [allowsSingle, Bool.not_eq_true', Bool.or_eq_false_iff] at h
  have hquote (x : Char) (hx : x ∈ ("'" : Text)) : ends x = false := by
    rw [List.mem_singleton.1 hx]
    exact Bool.eq_false_iff.2 fun h => absurd (he.isBreak h) (by decide)
  have hspell (c : Char) (hc : isBreak c = false) (x : Char) (hx : x ∈ singleChar c) :
      isBreak x = false := by
    rw [singleChar] at hx
    split at hx
    · have hquotes : breakless "''" := by decide
      exact breakless_iff.1 hquotes x hx
    · rw [List.mem_singleton.1 hx]
      exact hc
  have hend : Hangs ends n (startsLine false t)
      ((if t.getLast?.any isBreak then spaces n else []) ++ "'") := by
    rw [startsLine_false, ← List.append_nil (_ ++ _)]
    split
    · next hb =>
      rw [hb]
      refine Hangs.nil.indent fun x hx => ?_
      rcases List.mem_append.1 hx with hx | hx
      · rw [List.eq_of_mem_replicate hx]
        exact Bool.eq_false_iff.2 fun h => absurd (he.isBreak h) (by decide)
      · exact hquote x hx
    · next hb =>
      rw [Bool.eq_false_iff.2 hb, List.nil_append]
      exact Hangs.nil.append hquote
  have hreturn (c : Char) (hc : c ≠ '\r') : '\r' ∉ singleChar c := by
    rw [singleChar]
    split
    · decide
    · exact fun h => hc (List.mem_singleton.1 h).symm
  refine ⟨_, rfl, ?_, ?_⟩
  · rw [List.append_assoc, List.append_assoc]
    exact (hangs_indentLines he hspell false hend).append hquote
  · simp only [List.mem_append, not_or]
    refine ⟨⟨⟨by decide, return_not_mem_indentLines hreturn (return_not_mem h.1) false⟩, ?_⟩,
      by decide⟩
    split
    · exact fun h => absurd (List.eq_of_mem_replicate h) (by decide)
    · exact List.not_mem_nil

theorem isBreak_of_mem_literalHints (h : c ∈ literalHints t) : isBreak c = false := by
  rw [literalHints] at h
  rcases List.mem_append.1 h with h | h
  · split at h
    · rw [List.mem_singleton.1 h]
      rfl
    · cases h
  · split at h
    · cases h
    · split at h
      · rw [List.mem_singleton.1 h]
        rfl
      · split at h
        · rw [List.mem_singleton.1 h]
          rfl
        · cases h

theorem literal (he : EndsLines ends) (h : allowsLiteral t)
    (hlast : t.getLast?.all fun c => c == '\n' || !isBreak c) :
    Keeps ends n ⟨"|" ++ literalHints t ++ "\n" ++ indentLines n (fun c => [c]) true t,
      t.getLast?.any isBreak⟩ := by
  simp only [allowsLiteral, Bool.not_eq_true', Bool.or_eq_false_iff] at h
  obtain ⟨⟨hescapes, hne⟩, -⟩ := h
  have hr := return_not_mem hescapes
  obtain ⟨init, last, ht⟩ :=
    (List.eq_nil_or_concat t).resolve_left (List.isEmpty_eq_false_iff.1 hne)
  rw [List.concat_eq_append] at ht
  subst ht
  have hlead (x : Char) (hx : x ∈ "|" ++ literalHints (init ++ [last])) : isBreak x = false := by
    rcases List.mem_append.1 hx with hx | hx
    · rw [List.mem_singleton.1 hx]
      rfl
    · exact isBreak_of_mem_literalHints hx
  have hspell (c : Char) (hc : isBreak c = false) (x : Char) (hx : x ∈ [c]) :
      isBreak x = false := by
    rw [List.mem_singleton.1 hx]
    exact hc
  have hbelow {body : Text} (hbody : '\r' ∉ body) :
      let m := "|" ++ literalHints (init ++ [last]) ++
        '\n' :: indentLines n (fun c => [c]) true body
      Hangs ends n false m ∧ '\r' ∉ m := by
    constructor
    · refine Hangs.append (fun x hx => Bool.eq_false_iff.2 fun h => ?_) ?_
      · exact Bool.eq_false_iff.1 (hlead x hx) (he.isBreak h)
      · have hlines := hangs_indentLines (t := body) (n := n) he hspell true .nil
        rw [List.append_nil] at hlines
        exact hlines.cons_of_end he.lineFeed
    · rw [List.mem_append, List.mem_cons]
      exact not_or.2 ⟨fun h => absurd (hlead _ h) (by decide), not_or.2 ⟨by decide,
        return_not_mem_indentLines (fun c hc h => hc (List.mem_singleton.1 h).symm) hbody true⟩⟩
  rw [Keeps, closed, List.getLast?_concat, Option.any_some]
  rw [List.getLast?_concat, Option.all_some] at hlast
  cases hb : isBreak last with
  | false =>
    refine ⟨_, rfl, ?_⟩
    rw [List.append_assoc]
    exact hbelow hr
  | true =>
    rw [hb, Bool.not_true, Bool.or_false, beq_iff_eq] at hlast
    rw [if_pos rfl, List.append_nil, hlast, indentLines_append]
    refine ⟨_, (List.append_assoc _ _ ['\n']).symm, ?_⟩
    rw [List.append_assoc]
    rw [← hlast]
    exact hbelow fun h => hr (List.mem_append_left _ h)

/-- Whatever its text, a scalar hangs at its indentation. -/
theorem scalar (he : EndsLines ends) (h : closesLine t) (n : Nat) :
    (writeScalar n t).Keeps ends n := by
  have hallows := allows_style t
  rw [writeScalar]
  split
  · next hs =>
    rw [hs] at hallows
    exact of_text (breakless_iff.2 fun c hc => isBreak_of_allowsPlain hallows hc) he
  · next hs =>
    rw [hs] at hallows
    exact single he hallows
  · apply of_text _ he
    rw [breakless_iff]
    intro c hc
    rcases List.mem_append.1 hc with hc | hc
    · rcases List.mem_cons.1 hc with rfl | hc
      · rfl
      · obtain ⟨_, -, hc⟩ := List.mem_flatMap.1 hc
        exact isBreak_of_mem_doubleChar hc
    · rw [List.mem_singleton.1 hc]
      rfl
  · next hs =>
    rw [hs] at hallows
    rw [closesLine, hs] at h
    exact literal he hallows h

theorem behind (he : EndsLines ends) (ha : breakless a) (h : w.Keeps ends n) :
    (w.behind a).Keeps ends n := by
  obtain ⟨m, hm, hhangs, hr⟩ := h
  refine ⟨a ++ m, ?_, hhangs.append fun c hc => he.eq_false ha hc, fun h => ?_⟩
  · rw [closed_behind, hm, List.append_assoc]
  · rcases List.mem_append.1 h with h | h
    · exact absurd (breakless_iff.1 ha _ h) (by decide)
    · exact hr h

end Written.Keeps

end PluginForge.Yaml
