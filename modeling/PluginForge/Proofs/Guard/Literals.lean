import PluginForge.Proofs.Guard.Stacking
import PluginForge.Proofs.Java.StringLiterals

namespace PluginForge.Guard

open Java (Part endsLine isIdentifierChar isPlain literals? literals?_plain literals?_quoted
  literals?_run)

variable {c : Char} {body localName name new old sender source t u : Text} {tag : Text}
  {capability : Capability} {registry : Registry} {calls : List (Registry × Text)}
  {literals : List Text} {part next : Part} {layer : Layer} {earlier later : List Layer}

def Capability.literal (capability : Capability) : Text :=
  '"' :: Java.escape capability.rejection ++ ['"']

/-- What a guard sends to a sender that it turns away is one literal. It denotes the message of the
capability unless the message has several lines; then it is no literal, as its lines are not escaped. -/
theorem inject_message (h : registry.get? tag = some capability) (body sender : Text) :
    let localName := freshLocal body (localBase tag)
    inject registry body sender tag =
        Java.unlines (preambleLines capability sender localName) ++ rename sender localName body ∧
      (preambleLines capability sender localName)[2]? =
        some ("    " ++ sender ++ ".sendMessage(" ++ capability.literal ++ ");") ∧
      Java.string? capability.literal =
        if capability.rejection.any Java.endsLine then none
        else some (Text.units capability.rejection) := by
  intro localName
  refine ⟨?_, ?_, Java.string?_escape capability.rejection⟩
  · rw [inject_of_some h, guardBody, preamble_eq_unlines]
  · simp [preambleLines, Capability.literal]

/-- A message with a quote, and with what would be read as an escape if its backslash were not doubled. -/
theorem inject_message_marks :
    let capability : Capability := ⟨"Player", "\\u0041\""⟩
    let registry : Registry := Table.empty.insert "op" capability
    let literal : Text := "\"\\\\u0041\\\"\""
    registry.get? "op" = some capability ∧
      inject registry "s.op();" "s" "op" =
        Java.unlines (preambleLines capability "s" "op1") ++ "op1.op();" ∧
      (preambleLines capability "s" "op1")[2]? = some ("    s.sendMessage(" ++ literal ++ ");") ∧
      Java.string? literal = some (Text.units "\\u0041\"") := by
  intro capability registry literal
  have h : registry.get? "op" = some capability := by decide
  have hlocal : freshLocal "s.op();" (localBase "op") = "op1" := by decide
  obtain ⟨hbody, hline, hliteral⟩ := inject_message h "s.op();" "s"
  rw [hlocal] at hbody hline
  exact ⟨h, hbody, hline, hliteral⟩

/-- A message of two lines ends the line of its own literal. -/
theorem inject_message_differs :
    let registry : Registry := Table.empty.insert "op" ⟨"Player", "a\nb"⟩
    let literal : Text := "\"a\nb\""
    inject registry "return true;" "s" "op" =
        "Player op = s instanceof Player ? (Player) s : null;\nif (!(op instanceof Player)) \x7b\n" ++
          ("    s.sendMessage(" : Text) ++ literal ++ ");\n    return false;\n\x7d\nreturn true;" ∧
      Java.string? literal = none := by
  decide +kernel

theorem map_attach {f : Text → Text} (hnil : f [] = []) (ht : f t = u)
    (hhead : next.isLiteral → ∀ rest ∈ literals.head?, f (t ++ rest) = u ++ f rest) :
    (part.attach next t literals).map f = part.attach next u (literals.map f) := by
  rw [Part.attach, Part.attach]
  split
  · next hnext =>
    cases literals with
    | nil => rfl
    | cons rest others =>
      rw [List.modifyHead_cons, List.map_cons, hhead hnext rest rfl]
      rfl
  · split
    · rw [List.map_cons, hnil]
    · split
      · rw [List.map_cons, ht]
      · rfl

section

variable (hne : old ≠ []) (ho : old.all isIdentifierChar)
include hne ho

/-- A renaming leaves the literals where they are, and renames within them as within code. -/
theorem literals?_rename (hn : new ≠ []) (hnew : new.all isIdentifierChar) (part : Part) (t : Text) :
    literals? part (rename old new t) = (literals? part t).map (List.map (rename old new)) := by
  have hnil := rename_nil old new
  induction t using word_induction generalizing part with
  | nil =>
    rw [hnil]
    cases part <;> simp [literals?, Part.atEnd?, hnil]
  | gap c r hc ih =>
    rw [rename_gap hne ho hc, literals?, literals?]
    cases part.step c with
    | none => rfl
    | some next =>
      rw [Option.bind_some, Option.bind_some, ih, Option.map_map, Option.map_map]
      congr 1
      funext literals
      symm
      apply map_attach hnil
      · rw [rename_gap hne ho hc, hnil]
      · exact fun _ rest _ => rename_gap hne ho hc
  | run w r hw₀ hw hr ih =>
    obtain ⟨hw₀', hw'⟩ := run_replaceWord old hw₀ hw hn hnew
    rw [rename_append hne ho (.inr hr), rename_run hne ho new hw₀ hw, literals?_run hw₀' hw', ih,
      literals?_run hw₀ hw]
    cases hliterals : literals? part.behindWord r with
    | none => rfl
    | some literals =>
      rw [Option.map_some, Option.map_some, Option.map_some, Option.map_some]
      congr 1
      symm
      apply map_attach hnil (rename_run hne ho new hw₀ hw)
      intro hnext rest hrest
      obtain ⟨rest', others, rfl, hprefix⟩ := Java.exists_of_isLiteral hnext hliterals
      cases hrest
      have hboundary : isBoundary rest.head? := by
        cases rest with
        | nil => rfl
        | cons d rest =>
          obtain ⟨r, rfl⟩ := hprefix
          exact hr
      rw [rename_append hne ho (.inr hboundary), rename_run hne ho new hw₀ hw]

end

theorem mem_words_of_mem_literals (hn : name ≠ []) (hn' : name.all isIdentifierChar)
    (h : literals? part t = some literals) {literal : Text} (hliteral : literal ∈ literals)
    (hname : name ∈ words literal) : name ∈ words t := by
  by_contra hnot
  have hx : ('x' :: name).all isIdentifierChar := by
    rw [List.all_cons, hn']
    decide
  have hkeep := literals?_rename hn hn' (List.cons_ne_nil 'x' name) hx part t
  rw [rename_of_not_mem hn hn' _ hnot, h, Option.map_some, Option.some_inj] at hkeep
  have hsame : rename name ('x' :: name) literal = literal := by
    have hmap := (List.map_id literals).trans hkeep
    exact (List.map_inj_left.1 hmap literal hliteral).symm
  rw [← hsame, words_rename hn hn' (List.cons_ne_nil 'x' name) hx] at hname
  obtain ⟨w, -, hw⟩ := List.mem_map.1 hname
  rw [replaceWord] at hw
  split at hw
  · exact List.cons_ne_self _ _ hw
  · exact absurd hw ‹_›

/-- The type begins no literal and no comment, and the message has one line. -/
def Capability.IsLegible (capability : Capability) : Prop :=
  capability.targetType.all isPlain ∧ capability.rejection.any endsLine = false

instance (capability : Capability) : Decidable capability.IsLegible :=
  inferInstanceAs (Decidable (_ ∧ _))

theorem literals?_preamble (h : capability.IsLegible) (hs : source.all isIdentifierChar)
    (hl : localName.all isIdentifierChar) (t : Text) :
    literals? .code (preamble capability source localName ++ t) =
      (literals? .code t).map (capability.literal :: ·) := by
  let type := capability.targetType
  let front : Text := type ++ " " ++ localName ++ " = " ++ source ++ " instanceof " ++ type ++ " ? (" ++
    type ++ ") " ++ source ++ " : null;\n" ++ "if (!(" ++ localName ++ " instanceof " ++ type ++
    ")) \x7b\n" ++ "    " ++ source ++ ".sendMessage("
  let back : Text := ";\n    return false;\n\x7d\n"
  have hfront : front.all isPlain := by
    have hsource := Java.all_isPlain hs
    have hlocal := Java.all_isPlain hl
    have htype := h.1
    simp only [front, type, List.all_append, hsource, hlocal, htype]
    decide
  have hback : (')' :: back).all isPlain := by decide
  have hsplit : preamble capability source localName ++ t =
      front ++ ('"' :: Java.escape capability.rejection ++ '"' :: ')' :: (back ++ t)) := by
    have h₁ : (".sendMessage(\"" : Text) = ".sendMessage(" ++ ['"'] := by decide
    have h₂ : ("\");\n" : Text) = '"' :: ')' :: ";\n" := by decide
    have h₃ : back = ";\n" ++ ("    return false;\n" ++ "\x7d\n") := by decide
    rw [h₃]
    unfold preamble
    simp only [front, type, h₁, h₂, List.append_assoc, List.cons_append, List.nil_append]
  rw [hsplit, literals?_plain hfront, literals?_quoted h.2 (by decide), ← List.cons_append,
    literals?_plain hback]
  rfl

theorem mem_words_literal (hn : name.all isIdentifierChar) :
    name ∈ words capability.literal ↔ name ∈ words capability.rejection := by
  have hquote : isIdentifierChar '"' = false := by decide
  rw [Capability.literal, List.cons_append, mem_words_gap hn hquote,
    words_append (.inr (by decide)), List.mem_append, mem_words_escape hn, mem_words_gap hn hquote]
  exact or_iff_left List.not_mem_nil

theorem mem_words_preamble_of_mem_literal (hn : name.all isIdentifierChar)
    (h : name ∈ words capability.literal) :
    name ∈ words (preamble capability source localName ++ t) := by
  let part := (Java.escape capability.rejection, ("\");\n    return false;\n\x7d\n" : Text))
  rw [preamble_eq_weave]
  apply mem_words_weave isDivider_preambleParts part
  · simp [preambleParts, part]
  · exact (mem_words_escape hn).2 ((mem_words_literal hn).1 h)

/-- A guard reads from a name that was new to the body it was put in front of. -/
theorem reader_layersOf (h : layersOf sender body calls ≠ []) :
    let name := reader sender (layersOf sender body calls)
    name ≠ [] ∧ name.all isIdentifierChar ∧ name ∉ words body := by
  induction calls generalizing body with
  | nil => exact absurd rfl h
  | cons call calls ih =>
    obtain ⟨registry, tag⟩ := call
    cases hc : registry.get? tag with
    | none =>
      rw [layersOf_of_none hc] at h ⊢
      exact ih h
    | some capability =>
      rw [layersOf_of_some hc, reader_cons]
      exact freshLocal_localBase body tag

theorem isBoundary_getLast?_preamble : isBoundary (preamble capability source localName).getLast? := by
  unfold preamble
  rw [List.getLast?_append]
  rfl

/-- The messages of guards in the order of their literals in a guarded body, the last guard in front. A
later guard has renamed the sender in the messages before it. -/
def messages (sender : Text) : List Layer → List Text
  | [] => []
  | layer :: later =>
    messages sender later ++ [rename sender (reader sender later) layer.capability.literal]

section

variable (hne : sender ≠ []) (hs : sender.all isIdentifierChar)
include hne hs

theorem reader_layersOf_run (body : Text) (calls : List (Registry × Text)) :
    reader sender (layersOf sender body calls) ≠ [] ∧
      (reader sender (layersOf sender body calls)).all isIdentifierChar := by
  by_cases h : layersOf sender body calls = []
  · rw [h]
    exact ⟨hne, hs⟩
  · obtain ⟨hn, hn', -⟩ := reader_layersOf h
    exact ⟨hn, hn'⟩

theorem exists_foldl_inject (body : Text) (calls : List (Registry × Text)) :
    ∃ front, calls.foldl (fun body call => inject call.1 body sender call.2) body =
      front ++ rename sender (reader sender (layersOf sender body calls)) body := by
  induction calls generalizing body with
  | nil => exact ⟨[], (rename_self hne hs body).symm⟩
  | cons call calls ih =>
    obtain ⟨registry, tag⟩ := call
    cases hc : registry.get? tag with
    | none =>
      rw [layersOf_of_none hc, List.foldl_cons, inject_of_none hc]
      exact ih body
    | some capability =>
      let localName := freshLocal body (localBase tag)
      let guarded := guardBody capability body sender tag
      let name := reader sender (layersOf sender guarded calls)
      obtain ⟨hl, hl', hnew⟩ := freshLocal_localBase body tag
      have hrename : rename sender name guarded =
          rename sender name (preamble capability sender localName) ++ rename sender localName body := by
        rw [← rename_rename_of_not_mem hne hs hl hl' hnew name]
        exact rename_append hne hs (.inl isBoundary_getLast?_preamble)
      obtain ⟨front, hfront⟩ := ih guarded
      refine ⟨front ++ rename sender name (preamble capability sender localName), ?_⟩
      rw [layersOf_of_some hc, List.foldl_cons, inject_of_some hc, reader_cons, List.append_assoc,
        ← hrename]
      exact hfront

/-- The literals of a guarded body: the messages, and those of the body with the sender renamed. -/
theorem literals?_foldl_inject (h : literals? .code body = some literals)
    (hlegible : ∀ layer ∈ layersOf sender body calls, layer.capability.IsLegible) :
    literals? .code (calls.foldl (fun body call => inject call.1 body sender call.2) body) =
      some (messages sender (layersOf sender body calls) ++
        literals.map (rename sender (reader sender (layersOf sender body calls)))) := by
  induction calls generalizing body literals with
  | nil =>
    have hself : literals.map (rename sender sender) = literals := by
      rw [List.map_congr_left fun literal _ => rename_self hne hs literal, List.map_id']
    rw [List.foldl_nil, h, layersOf, reader_nil, hself]
    rfl
  | cons call calls ih =>
    obtain ⟨registry, tag⟩ := call
    cases hc : registry.get? tag with
    | none =>
      rw [layersOf_of_none hc] at hlegible ⊢
      rw [List.foldl_cons, inject_of_none hc]
      exact ih h hlegible
    | some capability =>
      rw [layersOf_of_some hc, List.forall_mem_cons] at hlegible
      let localName := freshLocal body (localBase tag)
      let guarded := guardBody capability body sender tag
      let name := reader sender (layersOf sender guarded calls)
      obtain ⟨hl, hl', hnew⟩ := freshLocal_localBase body tag
      have hguarded : literals? .code guarded =
          some (capability.literal :: literals.map (rename sender localName)) := by
        have hbody := literals?_rename hne hs hl hl' .code body
        rw [h, Option.map_some] at hbody
        change literals? .code (preamble capability sender localName ++ rename sender localName body) = _
        rw [literals?_preamble hlegible.1 hs hl', hbody, Option.map_some]
      have hagain : (literals.map (rename sender localName)).map (rename sender name) =
          literals.map (rename sender localName) := by
        rw [List.map_map]
        apply List.map_congr_left
        intro literal hliteral
        have hfree := mt (mem_words_of_mem_literals hl hl' h hliteral) hnew
        exact rename_rename_of_not_mem hne hs hl hl' hfree name
      rw [layersOf_of_some hc, List.foldl_cons, inject_of_some hc, reader_cons, messages,
        List.append_assoc, ih hguarded hlegible.2, List.map_cons, hagain]
      rfl

theorem rename_literal_iff (h : literals? .code body = some literals)
    (calls : List (Registry × Text)) {literal : Text} (hliteral : literal ∈ literals) :
    rename sender (reader sender (layersOf sender body calls)) literal = literal ↔
      layersOf sender body calls = [] ∨ ¬ StandsIn sender literal := by
  by_cases hnone : layersOf sender body calls = []
  · rw [hnone, reader_nil]
    exact iff_of_true (rename_self hne hs literal) (.inl rfl)
  · obtain ⟨hn, hn', hnew⟩ := reader_layersOf hnone
    have hfree := mt (mem_words_of_mem_literals hn hn' h hliteral) hnew
    rw [rename_eq_self_iff hne hs hn hn' hfree, or_iff_right hnone]

theorem rename_message_iff (h : layersOf sender body calls = earlier ++ layer :: later) :
    rename sender (reader sender later) layer.capability.literal = layer.capability.literal ↔
      later = [] ∨ ¬ StandsIn sender layer.capability.rejection := by
  induction calls generalizing body earlier with
  | nil => exact absurd h (by simp [layersOf])
  | cons call calls ih =>
    obtain ⟨registry, tag⟩ := call
    cases hc : registry.get? tag with
    | none =>
      rw [layersOf_of_none hc] at h
      exact ih h
    | some capability =>
      rw [layersOf_of_some hc] at h
      cases earlier with
      | cons first earlier => exact ih (List.cons.inj h).2
      | nil =>
        obtain ⟨rfl, rfl⟩ := List.cons.inj h
        by_cases hlast : layersOf sender (guardBody capability body sender tag) calls = []
        · rw [hlast, reader_nil]
          exact iff_of_true (rename_self hne hs _) (.inl rfl)
        · obtain ⟨hn, hn', hnew⟩ := reader_layersOf hlast
          have hfree := mt (mem_words_preamble_of_mem_literal hn') hnew
          rw [rename_eq_self_iff hne hs hn hn' hfree, or_iff_right hlast, ← mem_words_iff hs,
            ← mem_words_iff hs, mem_words_literal hs]

/-- Guards put their messages in front of the literals of a body, and the first of them renames the sender
in these literals as in the code. A literal is kept exactly if it does not use the sender's name, and the
message of a guard exactly if it does not or no guard follows. -/
theorem inject_literals (h : literals? .code body = some literals) (calls : List (Registry × Text)) :
    let layers := layersOf sender body calls
    let guarded := calls.foldl (fun body call => inject call.1 body sender call.2) body
    let renamed := rename sender (reader sender layers)
    (∃ front, guarded = front ++ renamed body) ∧
      literals? .code (renamed body) = some (literals.map renamed) ∧
      ((∀ layer ∈ layers, layer.capability.IsLegible) →
        literals? .code guarded = some (messages sender layers ++ literals.map renamed)) ∧
      (∀ literal ∈ literals, renamed literal = literal ↔ layers = [] ∨ ¬ StandsIn sender literal) ∧
      ∀ earlier layer later, layers = earlier ++ layer :: later →
        (rename sender (reader sender later) layer.capability.literal = layer.capability.literal ↔
          later = [] ∨ ¬ StandsIn sender layer.capability.rejection) := by
  intro layers guarded renamed
  obtain ⟨hn, hn'⟩ := reader_layersOf_run hne hs body calls
  refine ⟨exists_foldl_inject hne hs body calls, ?_, literals?_foldl_inject hne hs h, ?_, ?_⟩
  · rw [literals?_rename hne hs hn hn', h, Option.map_some]
  · exact fun literal => rename_literal_iff hne hs h calls
  · exact fun earlier layer later => rename_message_iff hne hs

end

/-- Two guards: the first alters a literal of the body, the second one the message of the first. Quotes
in a comment and in a character are no literals. -/
theorem inject_literals_player_twice :
    let body : Text := "// \"\nchar quote = '\"';\na.send(\"a b\", \"c\");"
    let literals : List Text := ["\"a b\"", "\"c\""]
    let calls := [(Registry.builtin, playerTag), (Registry.builtin, playerTag)]
    let message : Text := "\"You have to be a player in order to use this command!\""
    let altered : Text := "\"You have to be player1 player in order to use this command!\""
    ("a" : Text) ≠ [] ∧ ("a" : Text).all isIdentifierChar ∧ literals? .code body = some literals ∧
      literals? .code (calls.foldl (fun body call => inject call.1 body "a" call.2) body) =
        some [message, altered, "\"player b\"", "\"c\""] := by
  intro body literals calls message altered
  have hne : ("a" : Text) ≠ [] := by decide
  have hs : ("a" : Text).all isIdentifierChar := by decide
  have hbody : literals? .code body = some literals := by decide
  have hlayers : layersOf "a" body calls = [⟨.player, "player"⟩, ⟨.player, "player1"⟩] := by
    decide +kernel
  obtain ⟨-, -, hguarded, -⟩ := inject_literals hne hs hbody calls
  rw [hlayers] at hguarded
  refine ⟨hne, hs, hbody, (hguarded ?_).trans ?_⟩
  · have hplayer : Capability.player.IsLegible := by decide
    simp [hplayer]
  · decide +kernel

/-- A guard alters what the body says to its sender, and makes an escape of a literal one that does not
exist. -/
theorem inject_literals_differs :
    let body : Text := "s.sendMessage(\"s is here\");"
    let escapes : Text := "n.sendMessage(\"\\n\");"
    let message : Text := "\"You have to be a player in order to use this command!\""
    literals? .code body = (some ["\"s is here\""] : Option (List Text)) ∧
      literals? .code (inject .builtin body "s" "player") = some [message, "\"player is here\""] ∧
      literals? .code escapes = (some ["\"\\n\""] : Option (List Text)) ∧
      literals? .code (inject .builtin escapes "n" "player") = some [message, "\"\\player\""] ∧
      Java.string? "\"\\player\"" = none := by
  decide +kernel

end PluginForge.Guard
