import PluginForge.Json.Record
import PluginForge.Proofs.Json.Spelling
import PluginForge.Proofs.Json.Strings

namespace PluginForge.Json

variable {b r s t u : Text} {first : Bool} {items : List Value} {members : List (Text × Value)}
  {v : Value} {x : Char} {p : Position}

theorem writeString_append (s r : Text) :
    writeString s ++ r = '"' :: (s.flatMap writeChar ++ '"' :: r) := by
  simp [writeString]

theorem peek?_cons (p : Position) (x : Char) (r : Text) : Cursor.peek? ⟨p, x :: r⟩ = some x :=
  rfl

theorem skipBlanks_gap (p : Position) (hb : IsGap b) (hx : Cursor.isBlank x = false) :
    ∃ q, Cursor.skipBlanks ⟨p, b ++ x :: r⟩ = ⟨q, x :: r⟩ := by
  refine ⟨p.afterAll ((b ++ x :: r).takeWhile Cursor.isBlank), ?_⟩
  rw [Cursor.skipBlanks, Cursor.skipWhile]
  congr 1
  have hx' : ¬Cursor.isBlank x := by
    rw [hx]
    exact Bool.false_ne_true
  rw [List.dropWhile_append_of_pos hb, List.dropWhile_cons_of_neg hx']

theorem Spells.head (h : Spells v s r) :
    ∃ b x t, s = b ++ x :: t ∧ IsGap b ∧ Cursor.isBlank x = false ∧ x ≠ 'n' ∧ x ≠ ']' ∧
      Spells v (x :: t) r := by
  cases h with
  | string hb =>
    rw [writeString_append]
    refine ⟨_, _, _, rfl, hb, rfl, by decide, by decide, ?_⟩
    rw [← writeString_append]
    exact .string (b := []) .nil
  | list hb h => exact ⟨_, _, _, rfl, hb, rfl, by decide, by decide, .list (b := []) .nil h⟩
  | object hb h => exact ⟨_, _, _, rfl, hb, rfl, by decide, by decide, .object (b := []) .nil h⟩

theorem seekElement_follows (p : Position) (hf : Follows first s (x :: t))
    (hx : Cursor.isBlank x = false) (hclose : x ≠ ']') :
    ∃ q, Cursor.seekElement first ⟨p, s⟩ = .ok (true, ⟨q, x :: t⟩) := by
  cases hf with
  | first hgap =>
    obtain ⟨q, hq⟩ := skipBlanks_gap (r := t) p hgap hx
    refine ⟨q, ?_⟩
    rw [Cursor.seekElement, hq]
    simp only [Cursor.peek?, List.head?_cons, if_true]
  | @next gap gap' _ hgap hgap' =>
    obtain ⟨q, hq⟩ := skipBlanks_gap (r := gap' ++ x :: t) (x := ',') p hgap rfl
    obtain ⟨q', hq'⟩ := skipBlanks_gap (r := t) (q.after ',') hgap' hx
    refine ⟨q', ?_⟩
    rw [Cursor.seekElement, hq]
    simp only [Cursor.peek?, List.head?_cons, Cursor.advance]
    rw [hq']
    split
    · next h => cases h
    · next h => exact absurd (Option.some.inj h) (by decide)
    · next h =>
      rw [if_neg Bool.false_ne_true, if_pos (Option.some.inj h).symm]
      simp only [List.head?_cons]

theorem seekElement_close (p : Position) (first : Bool) (hb : IsGap b) (r : Text) :
    ∃ q, Cursor.seekElement first ⟨p, b ++ ']' :: r⟩ = .ok (false, ⟨q, ']' :: r⟩) := by
  obtain ⟨q, hq⟩ := skipBlanks_gap (r := r) (x := ']') p hb rfl
  refine ⟨q, ?_⟩
  rw [Cursor.seekElement, hq]
  rfl

theorem seekKey_member (p : Position) (hf : Follows first s ('"' :: t)) :
    ∃ q, Cursor.seekKey first ⟨p, s⟩ = .ok (true, ⟨q, '"' :: t⟩) := by
  cases hf with
  | first hgap =>
    obtain ⟨q, hq⟩ := skipBlanks_gap (r := t) (x := '"') p hgap rfl
    refine ⟨q, ?_⟩
    rw [Cursor.seekKey, hq]
    rfl
  | @next gap gap' _ hgap hgap' =>
    obtain ⟨q, hq⟩ := skipBlanks_gap (r := gap' ++ '"' :: t) (x := ',') p hgap rfl
    obtain ⟨q', hq'⟩ := skipBlanks_gap (r := t) (x := '"') (q.after ',') hgap' rfl
    refine ⟨q', ?_⟩
    rw [Cursor.seekKey, hq]
    simp only [Cursor.peek?, List.head?_cons, Cursor.advance]
    rw [hq']
    rfl

theorem seekKey_close (p : Position) (first : Bool) (hb : IsGap b) (r : Text) :
    ∃ q, Cursor.seekKey first ⟨p, b ++ '\x7d' :: r⟩ = .ok (false, ⟨q, '\x7d' :: r⟩) := by
  obtain ⟨q, hq⟩ := skipBlanks_gap (r := r) (x := '\x7d') p hb rfl
  refine ⟨q, ?_⟩
  rw [Cursor.seekKey, hq]
  rfl

theorem skipColon_gap (p : Position) (hb : IsGap b) (t : Text) :
    ∃ q, Cursor.skipColon ⟨p, b ++ ':' :: t⟩ = .ok ⟨q, t⟩ := by
  obtain ⟨q, hq⟩ := skipBlanks_gap (r := t) (x := ':') p hb rfl
  refine ⟨q.after ':', ?_⟩
  rw [Cursor.skipColon, hq]
  rfl

theorem Follows.length_le (h : Follows first s t) : t.length ≤ s.length := by
  cases h <;> simp only [List.length_append, List.length_cons] <;> omega

mutual

theorem Spells.length_lt : ∀ {v : Value} {s r : Text}, Spells v s r → r.length < s.length
  | _, _, _, .string _ => by
    simp only [writeString, List.length_append, List.length_cons]
    omega
  | _, _, _, .list _ h => by
    have := h.length_add_le
    simp only [List.length_append, List.length_cons]
    omega
  | _, _, _, .object _ h => by
    have := h.length_add_le
    simp only [List.length_append, List.length_cons]
    omega

theorem SpellsItems.length_add_le : ∀ {first : Bool} {items : List Value} {s r : Text},
    SpellsItems first items s r → items.length + r.length ≤ s.length
  | _, _, _, _, .close _ => by
    simp only [List.length_append, List.length_cons, List.length_nil]
    omega
  | _, _, _, _, .item hf hv h => by
    have := hf.length_le
    have := hv.length_lt
    have := h.length_add_le
    rw [List.length_cons]
    omega

theorem SpellsMembers.length_add_le : ∀ {first : Bool} {members : List (Text × Value)} {s r : Text},
    SpellsMembers first members s r → members.length + r.length ≤ s.length
  | _, _, _, _, .close _ => by
    simp only [List.length_append, List.length_cons, List.length_nil]
    omega
  | _, _, _, _, .member _ hf hv h => by
    have := hf.length_le
    have := hv.length_lt
    have := h.length_add_le
    simp only [List.length_append, List.length_cons] at *
    omega

end

end PluginForge.Json
