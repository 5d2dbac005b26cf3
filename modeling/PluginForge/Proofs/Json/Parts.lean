import PluginForge.Proofs.Json.Integers
import PluginForge.Proofs.Json.Reading
import PluginForge.Proofs.Text.Basic

namespace PluginForge.Json

variable {α : Type} {a : α} {as : List α} {b b' r s t : Text} {parts : List Text} {read : Reader α}
  {x : Char}

/-- A reader makes `a` of a text that stands in a list, up to where a number would end too. -/
def ReadsAs (read : Reader α) (t : Text) (a : α) : Prop :=
  ∃ x rest, t = x :: rest ∧ Cursor.isBlank x = false ∧ x ≠ ']' ∧
    ∀ p r, EndsNumber r → ∃ q, read ⟨p, t ++ r⟩ = .ok (a, ⟨q, r⟩)

inductive Padded : Text → Text → Prop where
  | mk {b d t : Text} (hb : IsGap b) (hd : IsGap d) : Padded t (b ++ t ++ d)

theorem Padded.refl (t : Text) : Padded t t := by
  have h := Padded.mk (t := t) (b := []) (d := []) .nil .nil
  rwa [List.nil_append, List.append_nil] at h

theorem endsNumber_gap (hb : IsGap b) (hx : x ∈ [',', ']']) : EndsNumber (b ++ x :: r) := by
  intro y hy
  have hcases : Cursor.isBlank y ∨ y ∈ [',', ']'] := by
    cases b with
    | nil =>
      cases hy
      exact .inr hx
    | cons z b =>
      cases hy
      exact .inl (hb _ List.mem_cons_self)
  simp only [Cursor.isBlank, Bool.or_eq_true, beq_iff_eq, List.mem_cons, List.not_mem_nil, or_false]
    at hcases
  rcases hcases with (((rfl | rfl) | rfl) | rfl) | rfl | rfl <;> decide

/-- What stands behind an element of a list, up to the closing bracket. -/
def laterParts (parts : List Text) (r : Text) : Text :=
  parts.flatMap (',' :: ·) ++ ']' :: r

theorem laterParts_cons (t : Text) (parts : List Text) (r : Text) :
    laterParts (t :: parts) r = ',' :: (t ++ laterParts parts r) := by
  rw [laterParts, laterParts, List.flatMap_cons, List.cons_append, List.cons_append, List.append_assoc]

theorem endsNumber_laterParts (hb : IsGap b) (parts : List Text) (r : Text) :
    EndsNumber (b ++ laterParts parts r) := by
  cases parts with
  | nil => exact endsNumber_gap hb (by decide)
  | cons t parts =>
    rw [laterParts_cons]
    exact endsNumber_gap hb (by decide)

/-- Each part is an element that a reader makes the next of the values of. -/
def ReadsParts (read : Reader α) (parts : List Text) (as : List α) : Prop :=
  List.Forall₂ (fun t a => ∃ e, Padded e t ∧ ReadsAs read e a) parts as

theorem read_part {first : Bool} (hb : IsGap b) (hb' : IsGap b') (ha : ReadsAs read t a)
    (p : Position) (parts : List Text) (r : Text)
    (hf : Follows first s (b ++ (t ++ (b' ++ laterParts parts r)))) :
    ∃ q c, Cursor.seekElement first ⟨p, s⟩ = .ok (true, c) ∧
      read c = .ok (a, ⟨q, b' ++ laterParts parts r⟩) := by
  obtain ⟨x, rest, rfl, hx, hclose, hread⟩ := ha
  obtain ⟨q, hq⟩ := seekElement_follows p (hf.gap hb) hx hclose
  obtain ⟨q', hq'⟩ := hread q _ (endsNumber_laterParts hb' parts r)
  exact ⟨q', _, hq, hq'⟩

/-- A reader of elements takes one element of each part. -/
theorem elements_laterParts (h : ReadsParts read parts as) (hb : IsGap b) {fuel : Nat}
    (hfuel : parts.length < fuel) (p : Position) (r : Text) :
    ∃ q, Reader.elements read fuel false ⟨p, b ++ laterParts parts r⟩ = .ok (as, ⟨q, ']' :: r⟩) := by
  -- An element leaves the gap behind it to what is read next, so the induction is for any gap in front.
  induction h generalizing b fuel p with
  | nil =>
    obtain ⟨fuel, rfl⟩ := Nat.exists_eq_add_one_of_ne_zero (Nat.ne_zero_of_lt hfuel)
    obtain ⟨q, hq⟩ := seekElement_close p false hb r
    refine ⟨q, ?_⟩
    rw [Reader.elements, laterParts, List.flatMap_nil, List.nil_append, hq]
    rfl
  | @cons _ _ parts _ ha _ ih =>
    obtain ⟨fuel, rfl⟩ := Nat.exists_eq_add_one_of_ne_zero (Nat.ne_zero_of_lt hfuel)
    obtain ⟨e, ⟨hgap, hgap'⟩, ha⟩ := ha
    rw [laterParts_cons, List.append_assoc, List.append_assoc]
    obtain ⟨q, c, hseek, hread⟩ := read_part hgap hgap' ha p parts r (.next (c := []) hb .nil)
    rw [List.nil_append] at hseek
    obtain ⟨q', hq'⟩ := ih hgap' (Nat.lt_of_succ_lt_succ hfuel) q
    refine ⟨q', ?_⟩
    rw [Reader.elements, hseek]
    simp only [Cursor.placed, Except.bind, bind, if_true, hread, hq']
    rfl

theorem elements_parts (h : ReadsParts read parts as) {fuel : Nat} (hfuel : parts.length < fuel)
    (p : Position) (r : Text) :
    ∃ q, Reader.elements read fuel true ⟨p, Text.join "," parts ++ ']' :: r⟩ =
      .ok (as, ⟨q, ']' :: r⟩) := by
  obtain ⟨fuel, rfl⟩ := Nat.exists_eq_add_one_of_ne_zero (Nat.ne_zero_of_lt hfuel)
  cases h with
  | nil =>
    obtain ⟨q, hq⟩ := seekElement_close (b := []) p true .nil r
    rw [List.nil_append] at hq
    refine ⟨q, ?_⟩
    rw [Reader.elements, Text.join, List.intercalate_nil, List.nil_append, hq]
    rfl
  | @cons _ _ parts _ ha h =>
    obtain ⟨e, ⟨hgap, hgap'⟩, ha⟩ := ha
    rw [Text.join_cons, List.append_assoc, List.append_assoc, List.append_assoc]
    obtain ⟨q, c, hseek, hread⟩ := read_part hgap hgap' ha p parts r (.first (b := []) .nil)
    rw [List.nil_append] at hseek
    change ∃ q, Reader.elements read _ true ⟨p, _ ++ (e ++ (_ ++ laterParts parts r))⟩ = _
    obtain ⟨q', hq'⟩ := elements_laterParts h hgap' (Nat.lt_of_succ_lt_succ hfuel) q r
    refine ⟨q', ?_⟩
    rw [Reader.elements, hseek]
    simp only [Cursor.placed, Except.bind, bind, if_true, hread, hq']
    rfl

theorem run_list_join (h : ReadsParts read parts as) :
    (Reader.list read).run ('[' :: Text.join "," parts ++ [']']) = .ok as := by
  have hfuel : parts.length < ('[' :: Text.join "," parts ++ [']']).length + 1 := by
    have hjoin := Text.length_join ',' parts
    have hwidth := Text.length_le_width parts
    change (Text.join "," parts).length = _ at hjoin
    rw [List.length_append, List.length_cons, List.length_singleton, hjoin]
    omega
  obtain ⟨q, hq⟩ := elements_parts h hfuel (Position.start.after '[') []
  have hlist : Reader.list read (.ofText ('[' :: Text.join "," parts ++ [']'])) =
      .ok (as, ⟨q.after ']', []⟩) := by
    change (place _ (Reader.elements read (('[' :: Text.join "," parts ++ [']']).length + 1) true
      ⟨Position.start.after '[', Text.join "," parts ++ [']']⟩) >>= _) = _
    rw [hq]
    rfl
  rw [Reader.run, hlist]
  rfl

end PluginForge.Json
