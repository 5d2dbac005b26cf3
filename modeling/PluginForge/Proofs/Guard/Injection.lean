import PluginForge.Guard.Injection
import PluginForge.Java.Source
import PluginForge.Proofs.Guard.Freshness

namespace PluginForge.Guard

open Java (isIdentifierChar)

variable {capability : Capability} {body localName sender t tag : Text}

def preambleLines (capability : Capability) (sender localName : Text) : List Text :=
  let type := capability.targetType
  [type ++ " " ++ localName ++ " = " ++ sender ++ " instanceof " ++ type ++ " ? (" ++ type ++ ") " ++
      sender ++ " : null;",
    "if (!(" ++ localName ++ " instanceof " ++ type ++ ")) \x7b",
    "    " ++ sender ++ ".sendMessage(\"" ++ Java.escape capability.rejection ++ "\");",
    "    return false;",
    "\x7d"]

theorem preamble_eq_unlines (capability : Capability) (sender localName : Text) :
    preamble capability sender localName =
      Java.unlines (preambleLines capability sender localName) := by
  have h₁ : (" : null;\n" : Text) = " : null;" ++ "\n" := by decide
  have h₂ : (")) \x7b\n" : Text) = ")) \x7b" ++ "\n" := by decide
  have h₃ : ("\");\n" : Text) = "\");" ++ "\n" := by decide
  have h₄ : ("    return false;\n" : Text) = "    return false;" ++ "\n" := by decide
  have h₅ : ("\x7d\n" : Text) = "\x7d" ++ "\n" := by decide
  unfold preamble preambleLines Java.unlines
  simp only [List.flatMap_cons, List.flatMap_nil, List.append_nil, List.append_assoc, h₁, h₂, h₃,
    h₄, h₅]

theorem inject_of_none {registry : Registry} (h : registry.get? tag = none) (body sender : Text) :
    inject registry body sender tag = body := by
  simp only [inject, h]

theorem inject_of_some {registry : Registry} (h : registry.get? tag = some capability)
    (body sender : Text) :
    inject registry body sender tag = guardBody capability body sender tag := by
  simp only [inject, h]

/-- An unknown tag changes nothing. A known one puts the lines of its guard in front of the body, in which
exactly the uses of the sender have become uses of a name that was new to it. -/
theorem inject_exact (registry : Registry) (body sender tag : Text) (hne : sender ≠ [])
    (hs : sender.all isIdentifierChar) :
    match registry.get? tag with
    | none => inject registry body sender tag = body
    | some capability =>
      let localName := freshLocal body (localBase tag)
      ∃ rest, inject registry body sender tag =
          Java.unlines (preambleLines capability sender localName) ++ rest ∧
        ¬ StandsIn sender rest ∧ ¬ StandsIn localName body ∧
        rename localName sender rest = body ∧
        words rest = (words body).map (replaceWord sender localName) := by
  have hb := localBase_ne_nil tag
  have hb' := all_localBase tag
  have hl := freshLocal_ne_nil body hb hb'
  have hl' := all_freshLocal body hb'
  have hfree := not_standsIn_freshLocal body hb'
  have hnew := mt (mem_words_iff hl').1 hfree
  cases hc : registry.get? tag with
  | none => simp only [inject, hc]
  | some capability =>
    refine ⟨rename sender (freshLocal body (localBase tag)) body, ?_, ?_, hfree,
      rename_rename hne hs hl hl' hnew, words_rename hne hs hl hl'⟩
    · simp only [inject, hc, guardBody, preamble_eq_unlines]
    · rw [← mem_words_iff hs]
      exact not_mem_words_rename hne hs hl hl' hnew

/-- A body that uses the name of the tag itself, next to longer names that begin with the sender. -/
theorem inject_exact_player :
    let body : Text := "String player=\"x\";\ns.send(player, s2, $s);\nreturn s;"
    ("s" : Text) ≠ [] ∧ ("s" : Text).all isIdentifierChar ∧
      Registry.builtin.get? "player" = some .player ∧
      ∃ rest, inject Registry.builtin body "s" "player" =
          Java.unlines (preambleLines .player "s" "player1") ++ rest ∧
        ¬ StandsIn "s" rest ∧ ¬ StandsIn "player1" body ∧ rename "player1" "s" rest = body ∧
        words rest = (words body).map (replaceWord "s" "player1") := by
  intro body
  have hs : ("s" : Text) ≠ [] := by decide
  have hs' : ("s" : Text).all isIdentifierChar := by decide
  have hl : freshLocal body (localBase "player") = "player1" := by decide
  have h := inject_exact Registry.builtin body "s" "player" hs hs'
  rw [show Registry.builtin.get? "player" = some .player by decide] at h
  rw [← hl]
  exact ⟨hs, hs', by decide, h⟩

end PluginForge.Guard
