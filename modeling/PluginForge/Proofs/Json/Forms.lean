import Mathlib.Data.List.Forall2
import Mathlib.Data.List.TakeWhile
import PluginForge.Proofs.Json.Reading

namespace PluginForge.Json

/-- The texts that begin with a value, each with the text that it goes on with behind the value. -/
abbrev Form := Text → Text → Prop

namespace Form

inductive text (s : Text) : Form where
  | mk {b u r : Text} (hb : IsGap b) (h : SpellsText u s) : text s (b ++ '"' :: (u ++ '"' :: r)) r

inductive items : Bool → List Form → Form where
  | close {first : Bool} {b r : Text} (hb : IsGap b) : items first [] (b ++ ']' :: r) r
  | item {first : Bool} {form : Form} {forms : List Form} {s t u r : Text} (hf : Follows first s t)
      (hv : form t u) (h : items false forms u r) : items first (form :: forms) s r

inductive list (forms : List Form) : Form where
  | mk {b t r : Text} (hb : IsGap b) (h : items true forms t r) : list forms (b ++ '[' :: t) r

inductive members : Bool → List (Text × Form) → Form where
  | close {first : Bool} {b r : Text} (hb : IsGap b) : members first [] (b ++ '\x7d' :: r) r
  | member {first : Bool} {key u : Text} {form : Form} {rest : List (Text × Form)} {b s t v r : Text}
      (hkey : SpellsText u key) (hb : IsGap b)
      (hf : Follows first s ('"' :: (u ++ '"' :: (b ++ ':' :: t)))) (hv : form t v)
      (h : members false rest v r) : members first ((key, form) :: rest) s r

inductive object (given : List (Text × Form)) : Form where
  | mk {b t r : Text} (hb : IsGap b) (h : members true given t r) : object given (b ++ '\x7b' :: t) r

/-- Behind a gap a value begins, and not with a bracket that would end a list. -/
def Headed (form : Form) : Prop :=
  ∀ {t r}, form t r → ∃ b x u, t = b ++ x :: u ∧ IsGap b ∧ Cursor.isBlank x = false ∧ x ≠ ']' ∧
    form (x :: u) r

theorem headed_text (s : Text) : (text s).Headed := by
  intro t r h
  cases h with
  | @mk b _ _ hb h => exact ⟨b, '"', _, rfl, hb, rfl, by decide, .mk (b := []) .nil h⟩

theorem headed_spells (v : Value) : Headed (Spells v) := by
  intro t r h
  obtain ⟨b, x, u, ht, hb, hx, -, hclose, h⟩ := h.head
  exact ⟨b, x, u, ht, hb, hx, hclose, h⟩

end Form

variable {α β μ : Type} {a : α} {as : List α} {b r s t u : Text} {first : Bool} {form : Form}
  {forms : List Form} {fuel : Nat} {given : List (Text × Form)} {key : Text} {read : Reader α}
  {v : Value}

/-- A reader makes `a` of every text of a form, and stops right behind the value. -/
structure ReadsForm (read : Reader α) (form : Form) (a : α) : Prop where
  length_le : ∀ {t r : Text}, form t r → r.length ≤ t.length
  reads : ∀ {t r : Text}, form t r → ∀ p, ∃ q, read ⟨p, t⟩ = .ok (a, ⟨q, r⟩)

theorem IsGap.skipBlanks (hb : IsGap b) (p : Position) : ∃ q, Cursor.skipBlanks ⟨p, b⟩ = ⟨q, []⟩ := by
  refine ⟨p.afterAll (b.takeWhile Cursor.isBlank), ?_⟩
  rw [Cursor.skipBlanks, Cursor.skipWhile, List.dropWhile_eq_nil_iff.2 hb]

theorem ReadsForm.run (h : ReadsForm read form a) (ht : form t b) (hb : IsGap b) :
    read.run t = .ok a := by
  obtain ⟨q, hq⟩ := h.reads ht .start
  obtain ⟨q', hq'⟩ := hb.skipBlanks q
  rw [Reader.run, Cursor.ofText, hq]
  simp only [hq']
  rfl

theorem ReadsForm.of_form
    (h : ∀ {t r : Text}, form t r → ∃ other : Form, ReadsForm read other a ∧ other t r) :
    ReadsForm read form a where
  length_le := by
    intro t r ht
    obtain ⟨other, hread, ht⟩ := h ht
    exact hread.length_le ht
  reads := by
    intro t r ht
    obtain ⟨other, hread, ht⟩ := h ht
    exact hread.reads ht

theorem readsForm_text (expected : Expected) (s : Text) :
    ReadsForm (Reader.text expected) (.text s) s where
  length_le h := by
    cases h
    simp only [List.length_append, List.length_cons]
    omega
  reads := by
    intro t r h p
    cases h with
    | @mk _ u _ hb h =>
      obtain ⟨q, hq⟩ := skipBlanks_gap (r := u ++ '"' :: r) (x := '"') p hb rfl
      obtain ⟨q', hq'⟩ := readStringFrom_spellsText h (q.after '"') r
      refine ⟨q', ?_⟩
      rw [Reader.text, hq, if_pos (peek?_cons ..)]
      exact congrArg Cursor.placed hq'

/-- An item's value is read at its first character. -/
def ReadsItem (read : Reader α) (form : Form) (a : α) : Prop :=
  form.Headed ∧ ReadsForm read form a

theorem Form.items.length_le (hread : List.Forall₂ (ReadsItem read) forms as)
    (h : Form.items first forms s r) : forms.length + r.length + (!first).toNat ≤ s.length := by
  induction hread generalizing first s with
  | nil =>
    cases h
    cases first <;> simp only [List.length_append, List.length_cons, List.length_nil, Bool.not_true,
      Bool.not_false, Bool.toNat_true, Bool.toNat_false] <;> omega
  | cons ha _ ih =>
    cases h with
    | item hf hv h =>
      have := ha.2.length_le hv
      have := ih h
      cases hf <;> simp only [List.length_append, List.length_cons, Bool.not_true, Bool.not_false,
        Bool.toNat_true, Bool.toNat_false] at * <;> omega

theorem elements_forms (hread : List.Forall₂ (ReadsItem read) forms as)
    (h : Form.items first forms s r) (hfuel : forms.length < fuel) (p : Position) :
    ∃ q, Reader.elements read fuel first ⟨p, s⟩ = .ok (as, ⟨q, ']' :: r⟩) := by
  induction hread generalizing first s fuel p with
  | nil =>
    obtain ⟨fuel, rfl⟩ := Nat.exists_eq_add_one_of_ne_zero (Nat.ne_zero_of_lt hfuel)
    cases h with
    | close hb =>
      obtain ⟨q, hq⟩ := seekElement_close p first hb r
      refine ⟨q, ?_⟩
      rw [Reader.elements, hq]
      rfl
  | cons ha _ ih =>
    obtain ⟨fuel, rfl⟩ := Nat.exists_eq_add_one_of_ne_zero (Nat.ne_zero_of_lt hfuel)
    cases h with
    | item hf hv h =>
      obtain ⟨b, x, u, rfl, hb, hx, hclose, hv⟩ := ha.1 hv
      obtain ⟨q, hq⟩ := seekElement_follows p (hf.gap hb) hx hclose
      obtain ⟨q', hq'⟩ := ha.2.reads hv q
      obtain ⟨q'', hq''⟩ := ih h (Nat.lt_of_succ_lt_succ hfuel) q'
      refine ⟨q'', ?_⟩
      rw [Reader.elements, hq]
      simp only [Cursor.placed, Except.bind, bind, if_true, hq', hq'']
      rfl

theorem readsForm_list (hread : List.Forall₂ (ReadsItem read) forms as) :
    ReadsForm (Reader.list read) (.list forms) as where
  length_le h := by
    cases h with
    | mk hb h =>
      have := h.length_le hread
      simp only [List.length_append, List.length_cons]
      omega
  reads := by
    intro s r h p
    cases h with
    | @mk b t _ hb h =>
      obtain ⟨q, hq⟩ := skipBlanks_gap (r := t) (x := '[') p hb rfl
      have hfuel : forms.length < ('[' :: t).length + 1 := by
        have := h.length_le hread
        rw [List.length_cons]
        omega
      obtain ⟨q', hq'⟩ := elements_forms hread h hfuel (q.after '[')
      refine ⟨q'.after ']', ?_⟩
      rw [Reader.list, hq, if_pos (peek?_cons ..)]
      change (place _ (Reader.elements read _ true ⟨q.after '[', t⟩) >>= _) = _
      rw [hq']
      rfl

theorem readsForm_texts (expected : Expected) (texts : List Text) :
    ReadsForm (Reader.list (Reader.text expected)) (.list (texts.map Form.text)) texts := by
  apply readsForm_list
  rw [List.forall₂_map_left_iff, List.forall₂_same]
  exact fun s _ => ⟨Form.headed_text s, readsForm_text expected s⟩

theorem seekKey_spelled (hkey : SpellsText u key) (hb : IsGap b)
    (hf : Follows first s ('"' :: (u ++ '"' :: (b ++ ':' :: t)))) (p : Position) :
    ∃ d d' q, Cursor.seekKey first ⟨p, s⟩ = .ok (true, d) ∧ d.readString = .ok (key, d') ∧
      d'.skipColon = .ok ⟨q, t⟩ := by
  obtain ⟨q, hq⟩ := seekKey_member p hf
  obtain ⟨q', hq'⟩ := readStringFrom_spellsText hkey (q.after '"') (b ++ ':' :: t)
  obtain ⟨q'', hq''⟩ := skipColon_gap q' hb t
  exact ⟨_, _, q'', hq, hq', hq''⟩

theorem Form.members.length_le (h : Form.members first given s r)
    (hgiven : ∀ m ∈ given, ∀ {t r : Text}, m.2 t r → r.length ≤ t.length) :
    given.length + r.length ≤ s.length := by
  induction given generalizing first s with
  | nil =>
    cases h
    simp only [List.length_append, List.length_cons, List.length_nil]
    omega
  | cons m given ih =>
    obtain ⟨hm, hrest⟩ := List.forall_mem_cons.1 hgiven
    cases h with
    | member _ _ hf hv h =>
      have := hf.length_le
      have := hm hv
      have := ih h hrest
      simp only [List.length_append, List.length_cons] at *
      omega

/-- A map's member is its entry, key and value. -/
abbrev ReadsEntry (read : Reader α) (m : Text × Form) (entry : Text × α) : Prop :=
  m.1 = entry.1 ∧ ReadsForm read m.2 entry.2

theorem members_entries (put : Text → α → μ → μ) {entries : List (Text × α)}
    (hread : List.Forall₂ (ReadsEntry read) given entries)
    (h : Form.members first given s r) (hfuel : given.length < fuel) (map : μ) (p : Position) :
    ∃ q, Reader.members read put fuel first map ⟨p, s⟩ =
      .ok (entries.foldl (fun map entry => put entry.1 entry.2 map) map, ⟨q, '\x7d' :: r⟩) := by
  induction hread generalizing first s fuel map p with
  | nil =>
    obtain ⟨fuel, rfl⟩ := Nat.exists_eq_add_one_of_ne_zero (Nat.ne_zero_of_lt hfuel)
    cases h with
    | close hb =>
      obtain ⟨q, hq⟩ := seekKey_close p first hb r
      refine ⟨q, ?_⟩
      rw [Reader.members, hq]
      rfl
  | @cons m entry _ _ hm _ ih =>
    obtain ⟨fuel, rfl⟩ := Nat.exists_eq_add_one_of_ne_zero (Nat.ne_zero_of_lt hfuel)
    obtain ⟨key, a⟩ := entry
    obtain ⟨hkey', hm⟩ := hm
    cases h with
    | member hkey hb hf hv h =>
      cases hkey'
      obtain ⟨d, d', q, hseek, hstring, hcolon⟩ := seekKey_spelled hkey hb hf p
      obtain ⟨q', hq'⟩ := hm.reads hv q
      obtain ⟨q'', hq''⟩ := ih h (Nat.lt_of_succ_lt_succ hfuel) (put key a map) q'
      refine ⟨q'', ?_⟩
      rw [Reader.members, hseek]
      simp only [Cursor.placed, Except.bind, bind, if_true, hstring, hcolon, hq', hq'', List.foldl_cons]

/-- An object with free keys is read as the map that its members make in their order. -/
theorem readsForm_map {empty : μ} {put : Text → α → μ → μ} {entries : List (Text × α)}
    (hread : List.Forall₂ (ReadsEntry read) given entries) :
    ReadsForm (Reader.map read empty put) (.object given)
      (entries.foldl (fun map entry => put entry.1 entry.2 map) empty) := by
  have hgiven : ∀ m ∈ given, ∀ {t r : Text}, m.2 t r → r.length ≤ t.length := by
    intro m hm
    obtain ⟨i, hi, rfl⟩ := List.getElem_of_mem hm
    exact (hread.get hi (hread.length_eq ▸ hi)).2.length_le
  refine ⟨?_, ?_⟩
  · intro s r h
    cases h with
    | mk hb h =>
      have := h.length_le hgiven
      simp only [List.length_append, List.length_cons]
      omega
  · intro s r h p
    cases h with
    | @mk b t _ hb h =>
      obtain ⟨q, hq⟩ := skipBlanks_gap (r := t) (x := '\x7b') p hb rfl
      have hfuel : given.length < ('\x7b' :: t).length + 1 := by
        have := h.length_le hgiven
        rw [List.length_cons]
        omega
      obtain ⟨q', hq'⟩ := members_entries put hread h hfuel empty (q.after '\x7b')
      refine ⟨q'.after '\x7d', ?_⟩
      rw [Reader.map, hq, if_pos (peek?_cons ..)]
      change (place _ (Reader.members read put _ true empty ⟨q.after '\x7b', t⟩) >>= _) = _
      rw [hq']
      rfl

variable {items : List Value} {members : List (Text × Value)}

theorem SpellsItems.toForm (h : SpellsItems first items s r) : Form.items first (items.map Spells) s r := by
  induction items generalizing first s with
  | nil =>
    cases h with
    | close hb => exact .close hb
  | cons v items ih =>
    cases h with
    | item hf hv h => exact .item hf hv (ih h)

def spelled (members : List (Text × Value)) : List (Text × Form) :=
  members.map fun m => (m.1, Spells m.2)

theorem SpellsMembers.toForm (h : SpellsMembers first members s r) :
    Form.members first (spelled members) s r := by
  induction members generalizing first s with
  | nil =>
    cases h with
    | close hb => exact .close hb
  | cons m members ih =>
    cases h with
    | member hb hf hv h =>
      rw [writeString_append] at hf
      exact .member (spellsText_flatMap _) hb hf hv (ih h)

/-- A reader makes `a` of every text that begins with the value, and stops right behind the value. -/
def Reads (read : Reader α) (v : Value) (a : α) : Prop :=
  ∀ (p : Position) (s r : Text), Spells v s r → ∃ q, read ⟨p, s⟩ = .ok (a, ⟨q, r⟩)

theorem reads_iff : Reads read v a ↔ ReadsForm read (Spells v) a := by
  constructor
  · exact fun h => ⟨fun hv => hv.length_lt.le, fun hv p => h p _ _ hv⟩
  · exact fun h p _ _ hv => h.reads hv p

theorem Reads.run (h : Reads read v a) (hv : Spells v s []) : read.run s = .ok a :=
  (reads_iff.1 h).run hv .nil

theorem reads_text (expected : Expected) (s : Text) : Reads (Reader.text expected) (.string s) s := by
  intro p t r h
  cases h with
  | string hb =>
    rw [writeString_append]
    exact (readsForm_text expected s).reads (.mk hb (spellsText_flatMap s)) p

theorem Reads.option (h : Reads read v a) : Reads read.option v (some a) := by
  intro p s r hv
  obtain ⟨b, x, t, rfl, hb, hx, hnull, -, hv⟩ := hv.head
  obtain ⟨q, hq⟩ := skipBlanks_gap (r := t) p hb hx
  obtain ⟨q', hq'⟩ := h q _ _ hv
  have hpeek : Cursor.peek? ⟨q, x :: t⟩ ≠ some 'n' := fun h => hnull (Option.some.inj h)
  refine ⟨q', ?_⟩
  rw [Reader.option, hq, if_neg hpeek, hq']
  rfl

theorem Reads.list (h : List.Forall₂ (Reads read) items as) :
    Reads (Reader.list read) (.list items) as := by
  intro p s r hv
  have hread : List.Forall₂ (ReadsItem read) (items.map Spells) as := by
    rw [List.forall₂_map_left_iff]
    exact h.imp fun v a ha => ⟨Form.headed_spells v, reads_iff.1 ha⟩
  cases hv with
  | list hb hs => exact (readsForm_list hread).reads (.mk hb hs.toForm) p

theorem Reads.map {empty : μ} {put : Text → α → μ → μ} {entries : List (Text × α)}
    (h : List.Forall₂ (fun m entry => m.1 = entry.1 ∧ Reads read m.2 entry.2) members entries) :
    Reads (Reader.map read empty put) (.object members)
      (entries.foldl (fun map entry => put entry.1 entry.2 map) empty) := by
  intro p s r hv
  have hread : List.Forall₂ (ReadsEntry read) (spelled members) entries := by
    rw [spelled, List.forall₂_map_left_iff]
    exact h.imp fun m entry hm => ⟨hm.1, reads_iff.1 hm.2⟩
  cases hv with
  | object hb hs => exact (readsForm_map hread).reads (.mk hb hs.toForm) p

end PluginForge.Json
