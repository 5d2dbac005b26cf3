import PluginForge.Proofs.Guard.Stacking

namespace PluginForge

open Guard (IsSilent Layer Registry StandsIn Stacked fixedWords layersOf preambles reader rename)

def CommandClass.withBody (k : CommandClass) (body : Text) : CommandClass :=
  { k with handler := { k.handler with body } }

namespace Command

variable {c : Command} {k : CommandClass} {sender body : Text}

theorem executeType_eq (hs : c.sender = some sender) (hk : c.commandClass = some k)
    (registry : Registry) (tag : Text) :
    c.executeType registry tag = .ok { c with
      commandClass := some (k.withBody (Guard.inject registry k.handler.body sender tag)) } := by
  rw [executeType, hs, hk]
  rfl

theorem executeType_run (hs : c.sender = some sender) (hk : c.commandClass = some k)
    (calls : List (Registry × Text)) :
    calls.foldlM (fun c call => c.executeType call.1 call.2) c =
      .ok { c with commandClass := some (k.withBody
        (calls.foldl (fun body call => Guard.inject call.1 body sender call.2) k.handler.body)) } := by
  induction calls generalizing c k with
  | nil =>
    cases c
    cases hk
    rfl
  | cons call calls ih =>
    rw [List.foldlM_cons, executeType_eq hs hk]
    exact ih (c := { c with commandClass := some _ }) hs rfl

/-- The guards of a command stand in front of its body in the opposite order of their application. The
first reads from the sender, every other from the local of the one in front of it, and the body from the
local of the last. -/
theorem executeType_stacks (c : Command) (k : CommandClass) (sender : Text)
    (calls : List (Registry × Text)) (hsender : c.sender = some sender)
    (hclass : c.commandClass = some k) (hs : sender.all Java.isIdentifierChar)
    (hf : sender ∉ fixedWords) (hocc : StandsIn sender k.handler.body)
    (hq : ∀ call ∈ calls, ∀ capability, call.1.get? call.2 = some capability →
      IsSilent sender capability) :
    let body := k.handler.body
    let layers := layersOf sender body calls
    let locals := layers.map Layer.localName
    layers.map Layer.capability = calls.filterMap (fun call => call.1.get? call.2) ∧
      locals.Nodup ∧ (∀ l ∈ locals, l ≠ sender ∧ ¬ StandsIn l body) ∧
      calls.foldlM (fun c call => c.executeType call.1 call.2) c =
        .ok { c with commandClass := some (k.withBody
          (preambles sender layers ++ rename sender (reader sender layers) body)) } := by
  intro body layers locals
  have hmem := (Guard.mem_words_iff hs).2 hocc
  have hne := hocc.1
  have h : Stacked sender body layers _ := (Stacked.start hne hs).run hne hs hf hmem calls hq
  refine ⟨Guard.map_capability_layersOf sender body calls, h.distinct, fun l hl => ?_, ?_⟩
  · obtain ⟨layer, hlayer, rfl⟩ := List.mem_map.1 hl
    rw [← Guard.mem_words_iff (h.named layer hlayer).2]
    exact ⟨h.apart layer hlayer, h.absent layer hlayer⟩
  · rw [executeType_run hsender hclass, ← h.text]

/-- Two guards of one tag on a body that uses the name of the tag. -/
theorem executeType_stacks_player_twice :
    let body : Text := "s.send(player);\nreturn true;"
    let k : CommandClass := .ofHandler "hello" ⟨[], body⟩
    let command : Command :=
      { ofName "hello" with sender := some "s".toList, commandClass := some k }
    let call : Registry × Text := (.builtin, "player")
    "s".toList.all Java.isIdentifierChar ∧ "s".toList ∉ fixedWords ∧ StandsIn "s" body ∧
      IsSilent "s" .player ∧
      [call, call].foldlM (fun c call => c.executeType call.1 call.2) command =
        .ok { command with commandClass := some (k.withBody
          (preambles "s" [⟨.player, "player1"⟩, ⟨.player, "player2"⟩] ++
            "player1.send(player);\nreturn true;")) } := by
  intro body k command call
  have hs : "s".toList.all Java.isIdentifierChar := by decide
  have hf : "s".toList ∉ fixedWords := by decide
  have hocc : StandsIn "s" body := (Guard.occurs_iff hs).1 (by decide)
  have hsilent : IsSilent "s" .player := by
    rw [IsSilent, ← Guard.occurs_iff hs, ← Guard.occurs_iff hs]
    decide
  have hget : call.1.get? call.2 = some .player := by decide
  have hq : ∀ c ∈ [call, call], ∀ capability, c.1.get? c.2 = some capability →
      IsSilent "s" capability := by
    intro c hc capability h
    have hcall : c = call := by simpa using hc
    rw [hcall, hget] at h
    cases h
    exact hsilent
  have hlayers : layersOf "s" k.handler.body [call, call] =
      [⟨.player, "player1"⟩, ⟨.player, "player2"⟩] := by decide +kernel
  have hbody : rename "s" (reader "s" [⟨.player, "player1"⟩, ⟨.player, "player2"⟩])
      k.handler.body = "player1.send(player);\nreturn true;" := by decide
  obtain ⟨-, -, -, hrun⟩ :=
    executeType_stacks command k "s" [call, call] rfl rfl hs hf hocc hq
  rw [hlayers, hbody] at hrun
  exact ⟨hs, hf, hocc, hsilent, hrun⟩

end Command

end PluginForge
