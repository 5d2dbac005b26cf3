import PluginForge.Proofs.Plugin.Command

namespace PluginForge

open Guard (Capability Registry StandsIn freshLocal localBase)

namespace Guard

variable {base body : Text} {k : Nat}

/-- The names that are tried for a local: the base, and the base with the numbers from one on. -/
def candidate (base : Text) : Nat → Text
  | 0 => base
  | k + 1 => base ++ Text.ofNat (k + 1)

/-- A candidate is the first that a body does not use. -/
def IsFirstFree (base body : Text) (k : Nat) : Prop :=
  ¬ StandsIn (candidate base k) body ∧ ∀ j < k, StandsIn (candidate base j) body

theorem IsFirstFree.unique {j : Nat} (hj : IsFirstFree base body j) (hk : IsFirstFree base body k) :
    j = k := by
  rcases Nat.lt_trichotomy j k with h | h | h
  · exact absurd (hk.2 j h) hj.1
  · exact h
  · exact absurd (hj.2 k h) hk.1

theorem all_isIdentifierChar_candidate (hb : base.all Java.isIdentifierChar) (k : Nat) :
    (candidate base k).all Java.isIdentifierChar := by
  cases k with
  | zero => exact hb
  | succ k => exact all_candidate hb (k + 1)

theorem occurs_candidate_iff (hb : base.all Java.isIdentifierChar) :
    occurs (candidate base k) body ↔ StandsIn (candidate base k) body :=
  occurs_iff (all_isIdentifierChar_candidate hb k)

theorem freshLocal_isFirstFree (body : Text) (hb : base.all Java.isIdentifierChar) :
    ∃ k, freshLocal body base = candidate base k ∧ IsFirstFree base body k := by
  have hfree := not_standsIn_freshLocal body hb
  rcases (freshLocal_spec body hb).2 with h | ⟨k, h, hbase, hused⟩
  · rw [h] at hfree ⊢
    exact ⟨0, rfl, hfree, fun j hj => absurd hj (Nat.not_lt_zero j)⟩
  · rw [h] at hfree ⊢
    refine ⟨k + 1, rfl, hfree, fun j hj => (occurs_candidate_iff hb).1 ?_⟩
    cases j with
    | zero => exact hbase
    | succ j => exact hused j (Nat.lt_of_succ_lt_succ hj)

end Guard

/-- The names of a handler's parameters, in the order of its signature. -/
def Callback.Parameters.names (p : Callback.Parameters) : List Text :=
  [p.sender, p.command, p.label, p.args]

namespace Command

variable {c c' : Command} {source tag : Text} {registry : Registry} {capability : Capability}

theorem onUse_ok (h : c.onUse source = .ok c') :
    ∃ handler, Callback.Handler.ofSource source = .ok handler ∧
      c' = { c with
        sender := some handler.parameters.sender
        commandClass := some (.ofHandler c.name ⟨handler.signature, handler.body⟩) } := by
  rw [onUse] at h
  split at h
  · cases h
  · next handler hsource =>
    cases h
    exact ⟨handler, hsource, rfl⟩

/-- A guard puts its preamble in front of the body, in which the new local takes the sender's place. -/
theorem executeType_preamble {k : CommandClass} {localName sender : Text}
    (hs : c.sender = some sender) (hk : c.commandClass = some k)
    (ht : registry.get? tag = some capability)
    (hl : freshLocal k.handler.body (localBase tag) = localName) :
    c.executeType registry tag = .ok { c with commandClass := some (k.withBody
      (Guard.preamble capability sender localName ++
        Guard.rename sender localName k.handler.body)) } := by
  rw [executeType_eq hs hk, Guard.inject, ht, ← hl]
  rfl

/-- A guard declares a local that differs from every parameter the body uses. It takes the name of a
parameter exactly when a parameter has the first of the names for the local that the body does not use. -/
theorem executeType_local (h : c.onUse source = .ok c')
    (ht : registry.get? tag = some capability) :
    ∃ handler k, Callback.Handler.ofSource source = .ok handler ∧
      c'.sender = some handler.parameters.sender ∧ c'.commandClass = some k ∧
      k.handler = ⟨handler.signature, handler.body⟩ ∧
      let names := handler.parameters.names
      let body := handler.body
      let localName := freshLocal body (localBase tag)
      (∃ rest, c'.executeType registry tag = .ok { c' with commandClass := some (k.withBody
        (Guard.preamble capability handler.parameters.sender localName ++ rest)) }) ∧
      (∀ name ∈ names, StandsIn name body → localName ≠ name) ∧
      (localName ∈ names ↔ ∃ k, Guard.candidate (localBase tag) k ∈ names ∧
        Guard.IsFirstFree (localBase tag) body k) := by
  obtain ⟨handler, hsource, rfl⟩ := onUse_ok h
  refine ⟨handler, _, hsource, rfl, rfl, rfl, ?_⟩
  intro names body localName
  have hbase := Guard.all_localBase tag
  obtain ⟨k, hlocal, hfirst⟩ := Guard.freshLocal_isFirstFree body hbase
  refine ⟨⟨Guard.rename handler.parameters.sender localName body, ?_⟩, ?_, ?_, ?_⟩
  · exact executeType_preamble rfl rfl ht rfl
  · rintro name - hstands rfl
    exact Guard.not_standsIn_freshLocal body hbase hstands
  · intro hmem
    exact ⟨k, hlocal ▸ hmem, hfirst⟩
  · rintro ⟨j, hmem, hj⟩
    have hsame : localName = Guard.candidate (localBase tag) j := by
      rw [hj.unique hfirst]
      exact hlocal
    rwa [hsame]

/-- The handler of a callback with a body, whose parameters are called like this. -/
def playerHandler (body : Text) : Callback.Handler :=
  ⟨⟨"sender", "player", "label", "args"⟩, body⟩

def hello (body : Text) : Command :=
  { ofName "hello" with
    sender := some "sender".toList
    commandClass := some (.ofHandler "hello" ⟨(playerHandler body).signature, body⟩) }

/-- A callback that uses the parameter with the name of the tag. -/
theorem executeType_local_used :
    let source : Text := "(sender, player, label, args) => \x7b\nsender.send(player)\n\x7d"
    let body : Text := "sender.send(player);\nreturn true;"
    (ofName "hello").onUse source = .ok (hello body) ∧
      Registry.builtin.get? "player" = some .player ∧
      Callback.Handler.ofSource source = .ok (playerHandler body) ∧
      freshLocal body (localBase "player") = "player1" ∧
      "player1".toList ∉ (playerHandler body).parameters.names ∧
      ∃ k rest, (hello body).commandClass = some k ∧
        (hello body).executeType .builtin "player" = .ok { hello body with
          commandClass := some (k.withBody (Guard.preamble .player "sender" "player1" ++ rest)) } := by
  intro source body
  have huse : (ofName "hello").onUse source = .ok (hello body) := by rfl
  have hread : Callback.Handler.ofSource source = .ok (playerHandler body) := by rfl
  have hget : Registry.builtin.get? "player" = some .player := by decide
  have hlocal : freshLocal body (localBase "player") = "player1" := by decide
  obtain ⟨handler, k, hsource, -, hclass, -, ⟨rest, hrun⟩, -, -⟩ := executeType_local huse hget
  cases hread.symm.trans hsource
  have hbody : (playerHandler body).body = body := rfl
  rw [hbody, hlocal] at hrun
  exact ⟨huse, hget, hread, hlocal, by decide, k, rest, hclass, hrun⟩

/-- A callback that does not use the parameter with the name of the tag: the guard declares a local of
that name. -/
theorem executeType_redeclares_parameter :
    let source : Text := "(sender, player, label, args) => \x7b\nsender.send(label)\n\x7d"
    let body : Text := "sender.send(label);\nreturn true;"
    (ofName "hello").onUse source = .ok (hello body) ∧
      Callback.Handler.ofSource source = .ok (playerHandler body) ∧
      (playerHandler body).parameters.names.Nodup ∧
      "player".toList ∈ (playerHandler body).parameters.names ∧
      ∃ k rest, (hello body).commandClass = some k ∧
        (hello body).executeType .builtin "player" = .ok { hello body with
          commandClass := some (k.withBody (Guard.preamble .player "sender" "player" ++ rest)) } := by
  intro source body
  have huse : (ofName "hello").onUse source = .ok (hello body) := by rfl
  have hread : Callback.Handler.ofSource source = .ok (playerHandler body) := by rfl
  have hget : Registry.builtin.get? "player" = some .player := by decide
  have hlocal : freshLocal body (localBase "player") = "player" := by decide
  exact ⟨huse, hread, by decide, by decide, _, _, rfl, executeType_preamble rfl rfl hget hlocal⟩

end Command

end PluginForge
