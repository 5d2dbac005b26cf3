import Mathlib.Data.List.Chain
import PluginForge.Proofs.Guard.Renaming
import PluginForge.Proofs.Text.Slices

namespace PluginForge.Guard

open Java (isIdentifierChar)
open Text (slice? splitBytes? splitBytes?_append starts startsFrom startsFrom_match startsFrom_miss utf8Length)

variable {a new old t u w : Text} {c : Char} {ws : List Text}

/-- A run of identifier characters, or a character that stands between such runs. -/
def IsToken (w : Text) : Prop :=
  (w ≠ [] ∧ w.all isIdentifierChar) ∨ ∃ c, isIdentifierChar c = false ∧ w = [c]

/-- A text is cut into tokens, and the runs are as long as they can be: none stands beside another. -/
structure Tokens (ws : List Text) (t : Text) : Prop where
  text : ws.flatten = t
  tokens : ∀ w ∈ ws, IsToken w
  longest : ws.IsChain fun v w => ¬(v.all isIdentifierChar ∧ w.all isIdentifierChar)

theorem tokens_words (t : Text) : Tokens (words t) t := by
  refine ⟨flatten_words t, ?_, ?_⟩
  · induction t using word_induction with
    | nil => exact fun w h => absurd h List.not_mem_nil
    | gap c r hc ih =>
      rw [words_gap hc, List.forall_mem_cons]
      exact ⟨.inr ⟨c, hc, rfl⟩, ih⟩
    | run w r hne hw hr ih =>
      rw [words_run_append hne hw hr, List.forall_mem_cons]
      exact ⟨.inl ⟨hne, hw⟩, ih⟩
  · induction t using word_induction with
    | nil => exact .nil
    | gap c r hc ih =>
      rw [words_gap hc, List.isChain_cons]
      refine ⟨fun w _ h => ?_, ih⟩
      rw [List.all_cons, hc] at h
      cases h.1
    | run w r hne hw hr ih =>
      rw [words_run_append hne hw hr, List.isChain_cons]
      refine ⟨fun v hv h => ?_, ih⟩
      cases r with
      | nil => cases hv
      | cons c r =>
        rw [List.head?_cons, isBoundary_some, Bool.not_eq_true'] at hr
        rw [words_gap hr, List.head?_cons, Option.mem_some_iff] at hv
        rw [← hv, List.all_cons, hr] at h
        cases h.2

theorem isBoundary_head?_flatten (h : ∀ w ∈ ws, IsToken w)
    (hhead : ∀ w ∈ ws.head?, ¬w.all isIdentifierChar) : isBoundary ws.flatten.head? := by
  cases ws with
  | nil => rfl
  | cons w ws =>
    rcases h w List.mem_cons_self with ⟨-, hw⟩ | ⟨c, hc, rfl⟩
    · exact absurd hw (hhead w rfl)
    · simp [isBoundary_some, hc]

theorem Tokens.eq_words (h : Tokens ws t) : ws = words t := by
  obtain ⟨rfl, htokens, hlongest⟩ := h
  induction ws with
  | nil => rfl
  | cons w ws ih =>
    rw [List.forall_mem_cons] at htokens
    rw [List.isChain_cons] at hlongest
    have hrest := ih htokens.2 hlongest.2
    rw [List.flatten_cons]
    rcases htokens.1 with ⟨hne, hw⟩ | ⟨c, hc, rfl⟩
    · have hend := isBoundary_head?_flatten htokens.2 fun v hv hall => hlongest.1 v hv ⟨hw, hall⟩
      rw [words_run_append hne hw hend, ← hrest]
    · rw [List.singleton_append, words_gap hc, ← hrest]

/-- One step of a renaming that goes over the places where the name begins: with what it has written, and the
place up to which it has copied the text. -/
def renameStep (old new t : Text) (state : Text × Nat) (start : Nat) : Option (Text × Nat) := do
  let stop := start + utf8Length old
  let (before, _) ← splitBytes? start t
  let (_, behind) ← splitBytes? stop t
  if isBoundary before.getLast? && isBoundary behind.head? then
    let between ← slice? state.2 start t
    return (state.1 ++ between ++ new, stop)
  else return state

/-- Goes over the places that are left, and copies what the text has behind the last name that stands alone. -/
def renameAt (old new t : Text) : (places : List Nat) → (state : Text × Nat) → Option Text
  | [], state => (splitBytes? state.2 t).map fun parts => state.1 ++ parts.2
  | start :: places, state => (renameStep old new t state start).bind (renameAt old new t places)

/-- Renames by slices of the text. There is no result if a slice does not begin and end at places of it. -/
def renameSliced? (old new t : Text) : Option Text :=
  if old = [] then some t else renameAt old new t (starts old t) ([], 0)

theorem renameStep_eq (old new a u t written : Text) :
    renameStep old new (a ++ u ++ (old ++ t)) (written, utf8Length a) (utf8Length (a ++ u)) =
      some (if isBoundary (a ++ u).getLast? && isBoundary t.head? then
        (written ++ u ++ new, utf8Length (a ++ u ++ old)) else (written, utf8Length a)) := by
  have hbetween := Text.slice?_append a u (old ++ t)
  have hstop := splitBytes?_append (a ++ u ++ old) t
  rw [List.append_assoc (a ++ u)] at hstop
  rw [renameStep, splitBytes?_append, ← Text.utf8Length_append, hstop, hbetween]
  simp only [Option.bind_eq_bind, Option.bind_some]
  split <;> rfl

/-- What has been written, what has not been copied yet, and the renamed rest make up the result. -/
theorem renameAt_startsFrom (hold : old ≠ []) (new a u t written : Text) :
    renameAt old new (a ++ u ++ t) (startsFrom old 0 (utf8Length (a ++ u)) t) (written, utf8Length a) =
      some (written ++ u ++ renameFrom old new 0 (a ++ u).getLast? t) := by
  induction hn : t.length using Nat.strongRecOn generalizing a u t written with
  | ind n ih =>
    cases t with
    | nil => rw [startsFrom, renameAt, renameFrom, List.append_nil, splitBytes?_append, Option.map_some,
        List.append_nil]
    | cons c t =>
      by_cases hp : old <+: c :: t
      · obtain ⟨r, hr⟩ := hp
        have hlength : r.length < n := by
          have hpos := List.length_pos_iff.2 hold
          rw [← hn, ← hr, List.length_append]
          omega
        have hlast (front : Text) : (front ++ old).getLast? = old.getLast? :=
          List.getLast?_append_of_ne_nil front hold
        rw [← hr, startsFrom_match hold, renameAt, renameStep_eq, Option.bind_some,
          renameFrom_match hold, ← Text.utf8Length_append, ← List.append_assoc (a ++ u)]
        cases isBoundary (a ++ u).getLast? && isBoundary r.head? with
        | true =>
          have hrest := ih r.length hlength (a ++ u ++ old) [] r (written ++ u ++ new) rfl
          rw [List.append_nil, List.append_nil, hlast] at hrest
          rw [if_pos rfl, if_pos rfl, hrest, List.append_assoc (written ++ u)]
        | false =>
          have hrest := ih r.length hlength a (u ++ old) r written rfl
          rw [← List.append_assoc, hlast, ← List.append_assoc] at hrest
          rw [if_neg Bool.false_ne_true, if_neg Bool.false_ne_true, hrest, List.append_assoc (written ++ u)]
      · have hrest := ih t.length (by rw [← hn, List.length_cons]; exact Nat.lt_succ_self _) a (u ++ [c]) t
          written rfl
        have hplace : utf8Length (a ++ (u ++ [c])) = utf8Length (a ++ u) + c.utf8Size := by
          rw [← List.append_assoc, Text.utf8Length_append]
          rfl
        rw [hplace, ← List.append_assoc a, List.getLast?_concat, ← List.append_assoc, List.append_assoc,
          List.append_assoc _ [c], List.singleton_append, List.singleton_append] at hrest
        rw [startsFrom_miss hp, renameFrom_miss hp, hrest]

theorem renameSliced?_eq (old new t : Text) : renameSliced? old new t = some (rename old new t) := by
  rw [renameSliced?, rename]
  split
  · rfl
  · next hold => exact renameAt_startsFrom hold new [] [] t []

/-- Renaming takes only slices that the text has, and replaces exactly those of its tokens that are the name. -/
theorem rename_tokens (hne : old ≠ []) (ho : old.all isIdentifierChar) (new t : Text) :
    renameSliced? old new t = some (rename old new t) ∧ (∃ ws, Tokens ws t) ∧
      ∀ ws, Tokens ws t → rename old new t = (ws.map fun w => if w = old then new else w).flatten := by
  refine ⟨renameSliced?_eq old new t, ⟨words t, tokens_words t⟩, fun ws hws => ?_⟩
  rw [hws.eq_words, rename_eq_words hne ho, List.flatMap_def]
  rfl

/-- A name that overlaps itself, in front of, within and behind longer words and beside characters of several
bytes. -/
theorem rename_tokens_overlapping :
    let text : Text := "xx.xxx(é+xx)€$xx"
    ("xx" : Text) ≠ [] ∧ ("xx" : Text).all isIdentifierChar ∧
      Tokens ["xx".toList, ".".toList, "xxx".toList, "(".toList, "é".toList, "+".toList, "xx".toList,
        ")".toList, "€".toList, "$xx".toList] text ∧
      renameSliced? "xx" "p" text = some "p.xxx(é+p)€$xx".toList := by
  intro text
  have hne : ("xx" : Text) ≠ [] := by decide
  have ho : ("xx" : Text).all isIdentifierChar := by decide
  have htokens : words text = ["xx".toList, ".".toList, "xxx".toList, "(".toList, "é".toList, "+".toList,
      "xx".toList, ")".toList, "€".toList, "$xx".toList] := by decide
  obtain ⟨hsliced, -, hrename⟩ := rename_tokens hne ho "p" text
  have hwords := tokens_words text
  rw [hsliced, hrename _ hwords, htokens]
  exact ⟨hne, ho, htokens ▸ hwords, by decide⟩

end PluginForge.Guard
