import PluginForge.Plugin.Command
import PluginForge.Proofs.Guard.Injection

namespace PluginForge.Guard

open Java (escape_append escape_cons isIdentifierChar)

variable {capability : Capability} {body localName name new sender source t : Text}
  {parts : List (Text × Text)}

/-- The identifiers that every guard contains. -/
def fixedWords : List Text :=
  ["instanceof", "null", "if", "sendMessage", "return", "false"]

/-- A text between two parts of a guard, of which only fixed words are identifiers. -/
def isDivider (t : Text) : Bool :=
  !t.isEmpty && isBoundary t.head? && isBoundary t.getLast? &&
    (words t).all fun w => fixedWords.contains w || !w.all isIdentifierChar

def weave (parts : List (Text × Text)) : Text :=
  parts.flatMap fun part => part.1 ++ part.2

def preambleParts (capability : Capability) (sender localName : Text) : List (Text × Text) :=
  let type := capability.targetType
  [(type, " "), (localName, " = "), (sender, " instanceof "), (type, " ? ("), (type, ") "),
    (sender, " : null;\nif (!("), (localName, " instanceof "), (type, ")) \x7b\n    "),
    (sender, ".sendMessage(\""),
    (Java.escape capability.rejection, "\");\n    return false;\n\x7d\n")]

theorem preamble_eq_weave (capability : Capability) (sender localName : Text) :
    preamble capability sender localName = weave (preambleParts capability sender localName) := by
  have h₁ : (" : null;\nif (!(" : Text) = " : null;\n" ++ "if (!(" := by decide
  have h₂ : (")) \x7b\n    " : Text) = ")) \x7b\n" ++ "    " := by decide
  have h₃ : ("\");\n    return false;\n\x7d\n" : Text) =
      "\");\n" ++ ("    return false;\n" ++ "\x7d\n") := by decide
  unfold preamble preambleParts weave
  simp only [List.flatMap_cons, List.flatMap_nil, List.append_nil, List.append_assoc, h₁, h₂, h₃]

theorem isDivider_preambleParts :
    ∀ part ∈ preambleParts capability sender localName, isDivider part.2 := by
  unfold preambleParts
  simp only [List.forall_mem_cons]
  refine ⟨?_, ?_, ?_, ?_, ?_, ?_, ?_, ?_, ?_, ?_, fun _ h => nomatch h⟩ <;> decide

theorem not_mem_words_of_isDivider (hd : isDivider t) (hn : name.all isIdentifierChar)
    (hf : name ∉ fixedWords) : name ∉ words t := by
  intro hm
  rw [isDivider, Bool.and_eq_true, List.all_eq_true] at hd
  have hw := hd.2 name hm
  rw [hn, Bool.not_true, Bool.or_false, List.contains_iff_mem] at hw
  exact hf hw

theorem words_divider (hd : isDivider t) (a b : Text) :
    words (a ++ (t ++ b)) = words a ++ (words t ++ words b) := by
  simp only [isDivider, Bool.and_eq_true, Bool.not_eq_true'] at hd
  obtain ⟨⟨⟨hne, hh⟩, hl⟩, -⟩ := hd
  obtain ⟨c, t, rfl⟩ := List.exists_cons_of_ne_nil (List.isEmpty_eq_false_iff.1 hne)
  rw [words_append (b := c :: t ++ b) (.inr hh), words_append (.inl hl)]

theorem words_weave (hd : ∀ part ∈ parts, isDivider part.2) (t : Text) :
    words (weave parts ++ t) =
      (parts.flatMap fun part => words part.1 ++ words part.2) ++ words t := by
  induction parts with
  | nil => rfl
  | cons part parts ih =>
    rw [List.forall_mem_cons] at hd
    have ih := ih hd.2
    rw [weave] at ih
    rw [weave, List.flatMap_cons, List.flatMap_cons, List.append_assoc, List.append_assoc,
      words_divider hd.1, ih, List.append_assoc, List.append_assoc]

theorem rename_weave (hne : name ≠ []) (hn : name.all isIdentifierChar) (hf : name ∉ fixedWords)
    (hd : ∀ part ∈ parts, isDivider part.2) (t : Text) :
    rename name new (weave parts ++ t) =
      weave (parts.map fun part => (rename name new part.1, part.2)) ++ rename name new t := by
  induction parts with
  | nil => rfl
  | cons part parts ih =>
    rw [List.forall_mem_cons] at hd
    have ih := ih hd.2
    have hpart := rename_of_not_mem hne hn new (not_mem_words_of_isDivider hd.1 hn hf)
    rw [weave] at ih
    rw [rename_eq_words hne hn, weave, List.flatMap_cons, List.append_assoc, List.append_assoc,
      words_divider hd.1, List.flatMap_append, List.flatMap_append, ← rename_eq_words hne hn,
      ← rename_eq_words hne hn, ← rename_eq_words hne hn, hpart, ih, List.map_cons, weave, weave,
      List.flatMap_cons, List.append_assoc, List.append_assoc]

theorem mem_words_weave (hd : ∀ part ∈ parts, isDivider part.2) (part : Text × Text)
    (hpart : part ∈ parts) (hname : name ∈ words part.1) : name ∈ words (weave parts ++ t) := by
  rw [words_weave hd]
  apply List.mem_append_left
  exact List.mem_flatMap.2 ⟨part, hpart, List.mem_append_left _ hname⟩

theorem mem_words_preamble (hn : name ≠ []) (hn' : name.all isIdentifierChar)
    (h : name = sender ∨ name = localName ∨ name ∈ words t) :
    name ∈ words (preamble capability sender localName ++ t) := by
  have hself : name ∈ words name := by
    rw [words_run hn hn']
    exact List.mem_cons_self
  rw [preamble_eq_weave]
  rcases h with rfl | rfl | h
  · apply mem_words_weave isDivider_preambleParts (name, " instanceof ") _ hself
    simp [preambleParts]
  · apply mem_words_weave isDivider_preambleParts (name, " = ") _ hself
    simp [preambleParts]
  · rw [words_weave isDivider_preambleParts]
    exact List.mem_append_right _ h

theorem escape_run (hw : t.all isIdentifierChar) : Java.escape t = t := by
  induction t with
  | nil => rfl
  | cons c t ih =>
    rw [List.all_cons, Bool.and_eq_true] at hw
    have hc : ¬ (c = '\\' ∨ c = '"') := by
      rintro (rfl | rfl) <;> exact absurd hw.1 (by decide)
    rw [escape_cons, Java.escapeChar, if_neg hc, ih hw.2, List.singleton_append]

theorem isBoundary_head?_escape (h : isBoundary t.head?) :
    isBoundary (Java.escape t).head? := by
  cases t with
  | nil => rfl
  | cons c t =>
    rw [escape_cons, Java.escapeChar]
    split
    · rfl
    · exact h

theorem mem_words_escape (hn : name.all isIdentifierChar) :
    name ∈ words (Java.escape t) ↔ name ∈ words t := by
  induction t using word_induction with
  | nil => rfl
  | gap c r hc ih =>
    rw [mem_words_gap hn hc, escape_cons, Java.escapeChar]
    split
    · rw [List.cons_append, mem_words_gap hn (by decide), List.singleton_append,
        mem_words_gap hn hc]
      exact ih
    · rw [List.singleton_append, mem_words_gap hn hc]
      exact ih
  | run w r hw₀ hw hr ih =>
    rw [escape_append, escape_run hw, words_run_append hw₀ hw (isBoundary_head?_escape hr),
      words_run_append hw₀ hw hr, List.mem_cons, List.mem_cons]
    exact or_congr_right ih

/-- Neither the type nor the message of the capability uses the name. -/
def IsSilent (name : Text) (capability : Capability) : Prop :=
  ¬ StandsIn name capability.targetType ∧ ¬ StandsIn name capability.rejection

theorem rename_preamble (hne : name ≠ []) (hn : name.all isIdentifierChar)
    (hf : name ∉ fixedWords) (hq : IsSilent name capability) (hl : localName ≠ name)
    (hl₀ : localName ≠ []) (hl' : localName.all isIdentifierChar) (hs₀ : source ≠ [])
    (hs : source.all isIdentifierChar) :
    rename name new (preamble capability source localName ++ t) =
      preamble capability (replaceWord name new source) localName ++ rename name new t := by
  have hq₁ := rename_of_not_mem hne hn new (mt (mem_words_iff hn).1 hq.1)
  have hq₂ := rename_of_not_mem hne hn new
    (mt (fun h => (mem_words_iff hn).1 ((mem_words_escape hn).1 h)) hq.2)
  have hlocal : rename name new localName = localName := by
    rw [rename_run hne hn new hl₀ hl', replaceWord, if_neg hl]
  have hsource := rename_run hne hn new hs₀ hs
  rw [preamble_eq_weave, rename_weave hne hn hf isDivider_preambleParts, preamble_eq_weave]
  unfold preambleParts
  simp only [List.map_cons, List.map_nil, hq₁, hq₂, hlocal, hsource]

/-- One of the guards in front of a body: the capability that it asks for and the local it declares. -/
structure Layer where
  capability : Capability
  localName : Text
  deriving DecidableEq

variable {layer : Layer} {layers : List Layer}

/-- The name that the code in front of some guards reads from: the local of the first of them, or the
sender if there is none. -/
def reader (sender : Text) (layers : List Layer) : Text :=
  (layers.map Layer.localName).headD sender

/-- The preambles of guards in the order of their application, the last one in front. Each of them reads
from the local of the guard applied after it, and the last one from the sender. -/
def preambles (sender : Text) : List Layer → Text
  | [] => []
  | layer :: later =>
    preambles sender later ++ preamble layer.capability (reader sender later) layer.localName

/-- The guards that calls put in front of a body one after another. -/
def layersOf (sender : Text) : Text → List (Registry × Text) → List Layer
  | _, [] => []
  | body, (registry, tag) :: calls =>
    let later := layersOf sender (inject registry body sender tag) calls
    match registry.get? tag with
    | none => later
    | some capability => ⟨capability, freshLocal body (localBase tag)⟩ :: later

theorem layersOf_of_none {registry : Registry} {tag : Text} (h : registry.get? tag = none)
    (sender body : Text) (calls : List (Registry × Text)) :
    layersOf sender body ((registry, tag) :: calls) = layersOf sender body calls := by
  simp only [layersOf, inject_of_none h, h]

theorem layersOf_of_some {registry : Registry} {tag : Text} (h : registry.get? tag = some capability)
    (sender body : Text) (calls : List (Registry × Text)) :
    layersOf sender body ((registry, tag) :: calls) =
      ⟨capability, freshLocal body (localBase tag)⟩ ::
        layersOf sender (guardBody capability body sender tag) calls := by
  simp only [layersOf, inject_of_some h, h]

theorem reader_nil (sender : Text) : reader sender [] = sender := rfl

theorem reader_cons (sender : Text) (layer : Layer) (later : List Layer) :
    reader sender (layer :: later) = layer.localName := rfl

theorem reader_concat (sender : Text) (layers : List Layer) (layer : Layer) :
    reader sender (layers ++ [layer]) = reader layer.localName layers := by
  cases layers <;> rfl

theorem preambles_concat (sender : Text) (layers : List Layer) (layer : Layer) :
    preambles sender (layers ++ [layer]) =
      preamble layer.capability sender layer.localName ++ preambles layer.localName layers := by
  induction layers with
  | nil => rw [List.nil_append, preambles, preambles, preambles, reader_nil,
      List.nil_append, List.append_nil]
  | cons first layers ih =>
    rw [List.cons_append, preambles, ih, reader_concat, preambles, List.append_assoc]

/-- What holds of a body behind its guards: no guard has captured a name of it or of another guard. -/
structure Stacked (sender body : Text) (layers : List Layer) (guarded : Text) : Prop where
  text : guarded = preambles sender layers ++ rename sender (reader sender layers) body
  distinct : (layers.map Layer.localName).Nodup
  apart : ∀ layer ∈ layers, layer.localName ≠ sender
  absent : ∀ layer ∈ layers, layer.localName ∉ words body
  named : ∀ layer ∈ layers, layer.localName ≠ [] ∧ layer.localName.all isIdentifierChar
  silent : ∀ layer ∈ layers, IsSilent sender layer.capability

theorem mem_words_preambles (hn : name ≠ []) (hn' : name.all isIdentifierChar)
    (h : name ∈ layers.map Layer.localName ∨ name ∈ words t) :
    name ∈ words (preambles sender layers ++ t) := by
  induction layers generalizing t with
  | nil => exact h.resolve_left List.not_mem_nil
  | cons layer later ih =>
    rw [preambles, List.append_assoc]
    apply ih
    rw [List.map_cons, List.mem_cons] at h
    rcases h with (h | h) | h
    · exact .inr (mem_words_preamble hn hn' (.inr (.inl h)))
    · exact .inl h
    · exact .inr (mem_words_preamble hn hn' (.inr (.inr h)))

section

variable (hne : sender ≠ []) (hs : sender.all isIdentifierChar) (hf : sender ∉ fixedWords)
include hne hs

theorem Stacked.start : Stacked sender body [] body where
  text := (rename_self hne hs body).symm
  distinct := List.nodup_nil
  apart := fun _ h => nomatch h
  absent := fun _ h => nomatch h
  named := fun _ h => nomatch h
  silent := fun _ h => nomatch h

include hf

theorem rename_preambles (hsilent : ∀ layer ∈ layers, IsSilent sender layer.capability)
    (hapart : ∀ layer ∈ layers, layer.localName ≠ sender)
    (hnamed : ∀ layer ∈ layers, layer.localName ≠ [] ∧ layer.localName.all isIdentifierChar) :
    rename sender new (preambles sender layers ++ t) =
      preambles new layers ++ rename sender new t := by
  induction layers generalizing t with
  | nil => rfl
  | cons layer later ih =>
    rw [List.forall_mem_cons] at hsilent hapart hnamed
    have hlocal := hnamed.1
    have hfirst : rename sender new
        (preamble layer.capability (reader sender later) layer.localName ++ t) =
          preamble layer.capability (reader new later) layer.localName ++ rename sender new t := by
      cases later with
      | nil =>
        have hr : replaceWord sender new sender = new := if_pos rfl
        rw [reader_nil, reader_nil, rename_preamble hne hs hf hsilent.1 hapart.1 hlocal.1 hlocal.2
          hne hs, hr]
      | cons next later =>
        have hnext := hnamed.2 next List.mem_cons_self
        have hr : replaceWord sender new next.localName = next.localName :=
          if_neg (hapart.2 next List.mem_cons_self)
        rw [reader_cons, reader_cons, rename_preamble hne hs hf hsilent.1 hapart.1 hlocal.1
          hlocal.2 hnext.1 hnext.2, hr]
    rw [preambles, List.append_assoc, ih hsilent.2 hapart.2 hnamed.2, hfirst, preambles,
      List.append_assoc]

variable (hocc : sender ∈ words body)
include hocc

omit hf in
/-- A guarded body uses the sender, every local of its guards, and all other names of the body. -/
theorem Stacked.mem_words (h : Stacked sender body layers guarded) (hn : name ≠ [])
    (hn' : name.all isIdentifierChar)
    (hname : name = sender ∨ name ∈ layers.map Layer.localName ∨ name ∈ words body) :
    name ∈ words guarded := by
  rw [h.text]
  rcases List.eq_nil_or_concat layers with rfl | ⟨earlier, last, rfl⟩
  · rw [preambles, reader_nil, List.nil_append, rename_self hne hs]
    rcases hname with rfl | hname | hname
    · exact hocc
    · exact absurd hname List.not_mem_nil
    · exact hname
  · rw [List.concat_eq_append] at *
    have hsender : sender ∈ words (preambles sender (earlier ++ [last]) ++
        rename sender (reader sender (earlier ++ [last])) body) := by
      rw [preambles_concat, List.append_assoc]
      exact mem_words_preamble hne hs (.inl rfl)
    by_cases hsame : name = sender
    · rwa [hsame]
    · refine mem_words_preambles hn hn' ((hname.resolve_left hsame).imp_right fun hname => ?_)
      obtain ⟨first, hfirst, hreader⟩ : ∃ layer ∈ earlier ++ [last],
          reader sender (earlier ++ [last]) = layer.localName := by
        cases earlier with
        | nil => exact ⟨last, List.mem_cons_self, rfl⟩
        | cons first earlier => exact ⟨first, List.mem_cons_self, rfl⟩
      rw [hreader, words_rename hne hs (h.named first hfirst).1 (h.named first hfirst).2]
      exact List.mem_map.2 ⟨name, hname, if_neg hsame⟩

/-- One more guard: its name is new to all that stands there, and what read from the sender reads from its
local. -/
theorem Stacked.step (h : Stacked sender body layers guarded) (hq : IsSilent sender capability)
    (tag : Text) :
    Stacked sender body (layers ++ [⟨capability, freshLocal guarded (localBase tag)⟩])
      (guardBody capability guarded sender tag) := by
  obtain ⟨hl, hl', hnew⟩ := freshLocal_localBase guarded tag
  have hused {name : Text} (hname : name = freshLocal guarded (localBase tag)) :
      ¬ (name = sender ∨ name ∈ layers.map Layer.localName ∨ name ∈ words body) := by
    subst hname
    exact fun hmem => hnew (h.mem_words hne hs hocc hl hl' hmem)
  constructor
  · -- Behind a first guard no sender is left in the body, so only the first call renames there.
    have hbody : rename sender (freshLocal guarded (localBase tag))
        (rename sender (reader sender layers) body) =
          rename sender (reader (freshLocal guarded (localBase tag)) layers) body := by
      cases layers with
      | nil => rw [reader_nil, reader_nil, rename_self hne hs]
      | cons first later =>
        have hfirst := h.named first List.mem_cons_self
        have habsent := h.absent first List.mem_cons_self
        rw [reader_cons, reader_cons, rename_rename_of_not_mem hne hs hfirst.1 hfirst.2 habsent]
    have hguarded (new : Text) : rename sender new guarded =
        preambles new layers ++ rename sender new (rename sender (reader sender layers) body) := by
      rw [h.text, rename_preambles hne hs hf h.silent h.apart h.named]
    rw [guardBody, hguarded, hbody, preambles_concat, reader_concat, List.append_assoc]
  · rw [List.map_append, List.map_singleton, List.nodup_append]
    refine ⟨h.distinct, List.nodup_singleton _, ?_⟩
    rintro name hname _ hmem rfl
    exact hused (List.mem_singleton.1 hmem) (.inr (.inl hname))
  all_goals
    intro layer hlayer
    rcases List.mem_append.1 hlayer with hlayer | hlayer
  · exact h.apart layer hlayer
  · rw [List.mem_singleton.1 hlayer]
    exact fun he => hused rfl (.inl he)
  · exact h.absent layer hlayer
  · rw [List.mem_singleton.1 hlayer]
    exact fun he => hused rfl (.inr (.inr he))
  · exact h.named layer hlayer
  · rw [List.mem_singleton.1 hlayer]
    exact ⟨hl, hl'⟩
  · exact h.silent layer hlayer
  · rwa [List.mem_singleton.1 hlayer]

theorem Stacked.run (h : Stacked sender body layers guarded) (calls : List (Registry × Text))
    (hq : ∀ call ∈ calls, ∀ capability, call.1.get? call.2 = some capability →
      IsSilent sender capability) :
    Stacked sender body (layers ++ layersOf sender guarded calls)
      (calls.foldl (fun body call => inject call.1 body sender call.2) guarded) := by
  induction calls generalizing layers guarded with
  | nil =>
    rw [layersOf, List.append_nil]
    exact h
  | cons call calls ih =>
    obtain ⟨registry, tag⟩ := call
    rw [List.forall_mem_cons] at hq
    rw [List.foldl_cons]
    cases hc : registry.get? tag with
    | none =>
      rw [layersOf_of_none hc, inject_of_none hc]
      exact ih h hq.2
    | some capability =>
      rw [layersOf_of_some hc, inject_of_some hc]
      have := ih (h.step hne hs hf hocc (hq.1 capability hc) tag) hq.2
      rwa [List.append_assoc, List.singleton_append] at this

end

theorem map_capability_layersOf (sender body : Text) (calls : List (Registry × Text)) :
    (layersOf sender body calls).map Layer.capability =
      calls.filterMap fun call => call.1.get? call.2 := by
  induction calls generalizing body with
  | nil => rfl
  | cons call calls ih =>
    obtain ⟨registry, tag⟩ := call
    cases hc : registry.get? tag with
    | none =>
      rw [layersOf_of_none hc, ih, List.filterMap_cons, hc]
    | some capability =>
      rw [layersOf_of_some hc, List.map_cons, ih, List.filterMap_cons, hc]

end PluginForge.Guard
