import PluginForge.Json.Quoted
import PluginForge.Proofs.Text.Units

namespace PluginForge.Json

open Text (charUnits charUnits_of_lt hexDigit? hexUnit? toNat_ne_surrogate toNat_ofNat)

variable {a b c d x : Char} {m n : Nat}

theorem hexValue?_of_lt : ∀ n < 0x80, hexValue? (Char.ofNat n) = hexDigit? (Char.ofNat n) := by
  decide

theorem hexValue?_eq (c : Char) : hexValue? c = hexDigit? c := by
  by_cases hc : c.toNat < 0x80
  · rw [← Char.ofNat_toNat c]
    exact hexValue?_of_lt _ hc
  · have hlower : c.toLower = c := by
      refine dif_neg fun hupper => ?_
      have hz : c.toNat ≤ 0x5A := hupper.2
      omega
    have hvalue : hexValue? c = none := by
      have h (x : Char) (hx : x.toNat < 0x80) : ¬c ≤ x := by
        intro hle
        have hle : c.toNat ≤ x.toNat := hle
        omega
      rw [hexValue?, if_neg fun hle => h '9' (by decide) hle.2,
        if_neg fun hle => h 'f' (by decide) hle.2, if_neg fun hle => h 'F' (by decide) hle.2]
    rw [hvalue, hexDigit?, hlower, eq_comm, List.find?_eq_none]
    intro n hn heq
    have hdigit : ∀ n < 16, n.digitChar.toNat < 0x80 := by decide
    rw [← eq_of_beq heq] at hc
    exact hc (hdigit n (List.mem_range.1 hn))

theorem unit?_eq (a b c d : Char) : unit? a b c d = hexUnit? a b c d := by
  rw [unit?, hexUnit?, hexValue?_eq, hexValue?_eq, hexValue?_eq, hexValue?_eq]
  rcases hexDigit? a with _ | a <;> rcases hexDigit? b with _ | b <;>
    rcases hexDigit? c with _ | c <;> rcases hexDigit? d with _ | d <;> try rfl
  simp only [Option.bind_eq_bind, Option.bind_some, Option.pure_def, Option.some.injEq]
  omega

theorem charUnits_ofNat (hn : n < 0x10000) (hl : isLeading n = false) (ht : isTrailing n = false) :
    charUnits (Char.ofNat n) = [n] := by
  have hvalid : n < 0xD800 ∨ 0xDFFF < n ∧ n < 0x110000 := by
    simp only [isLeading, isTrailing, Bool.and_eq_false_iff, decide_eq_false_iff_not] at hl ht
    omega
  have hof := toNat_ofNat hvalid
  rw [charUnits_of_lt (by rw [hof]; exact hn), hof]

theorem charUnits_pairChar (hm : isLeading m) (hn : isTrailing n) :
    charUnits (pairChar m n) = [m, n] := by
  simp only [isLeading, isTrailing, Bool.and_eq_true, decide_eq_true_eq] at hm hn
  have hof : (pairChar m n).toNat = (m - 0xD800) * 0x400 + (n - 0xDC00) + 0x10000 := toNat_ofNat (by omega)
  have hlarge : ¬(m - 0xD800) * 0x400 + (n - 0xDC00) + 0x10000 < 0x10000 := by omega
  simp only [charUnits, hof, hlarge, if_false, List.cons.injEq, and_true]
  omega

theorem of_charUnits_unit (h : charUnits x = [n]) :
    isLeading n = false ∧ isTrailing n = false ∧ Char.ofNat n = x := by
  have hx := toNat_ne_surrogate x
  rw [charUnits] at h
  split at h
  · cases h
    simp only [isLeading, isTrailing, Bool.and_eq_false_iff, decide_eq_false_iff_not]
    exact ⟨by omega, by omega, Char.ofNat_toNat x⟩
  · cases h

theorem of_charUnits_pair (h : charUnits x = [m, n]) :
    isLeading m ∧ isTrailing n ∧ pairChar m n = x := by
  have hx := toNat_ne_surrogate x
  rw [charUnits] at h
  split at h
  · cases h
  · next hlarge =>
    rw [List.cons.injEq, List.cons.injEq] at h
    obtain ⟨rfl, rfl, -⟩ := h
    simp only [isLeading, isTrailing, Bool.and_eq_true, decide_eq_true_eq]
    refine ⟨by omega, by omega, ?_⟩
    rw [pairChar, ← Char.ofNat_toNat x]
    congr 1
    rw [Char.ofNat_toNat]
    omega

/-- The letters that stand for a character behind a backslash. -/
def shortEscapes : List (Char × Char) :=
  [('"', '"'), ('\\', '\\'), ('/', '/'), ('b', '\x08'), ('f', '\x0c'), ('n', '\n'), ('r', '\r'),
    ('t', '\t')]

/-- A text between the quotes of a string stands for one character. -/
inductive SpellsChar : Text → Char → Prop where
  | plain {x : Char} (hcontrol : 0x20 ≤ x.toNat) (hquote : x ≠ '"') (hbackslash : x ≠ '\\') :
      SpellsChar [x] x
  | short {e x : Char} (h : (e, x) ∈ shortEscapes) : SpellsChar ['\\', e] x
  | unit {a b c d x : Char} {n : Nat} (h : hexUnit? a b c d = some n) (hx : charUnits x = [n]) :
      SpellsChar ['\\', 'u', a, b, c, d] x
  | pair {a b c d a' b' c' d' x : Char} {m n : Nat} (h : hexUnit? a b c d = some m)
      (h' : hexUnit? a' b' c' d' = some n) (hx : charUnits x = [m, n]) :
      SpellsChar ['\\', 'u', a, b, c, d, '\\', 'u', a', b', c', d'] x

/-- A text between the quotes of a string stands for the characters of another one. -/
inductive SpellsText : Text → Text → Prop where
  | nil : SpellsText [] []
  | cons {t u : Text} {x : Char} {s : Text} (hx : SpellsChar t x) (h : SpellsText u s) :
      SpellsText (t ++ u) (x :: s)

variable {e : Char} {p : Position} {r s t u : Text} {cursor : Cursor}

theorem simpleEscape?_eq_some : simpleEscape? e = some x ↔ (e, x) ∈ shortEscapes := by
  constructor
  · intro h
    unfold simpleEscape? at h
    split at h <;> first | cases h; decide | cases h
  · intro h
    simp only [shortEscapes, List.mem_cons, Prod.mk.injEq, List.not_mem_nil, or_false] at h
    rcases h with ⟨rfl, rfl⟩ | ⟨rfl, rfl⟩ | ⟨rfl, rfl⟩ | ⟨rfl, rfl⟩ | ⟨rfl, rfl⟩ | ⟨rfl, rfl⟩ |
      ⟨rfl, rfl⟩ | ⟨rfl, rfl⟩ <;> rfl

/-- A string goes on with any spelling of a character, whatever stands behind that. -/
theorem readStringFrom_spellsChar (h : SpellsChar t x) (p : Position) (r : Text) :
    ∃ q, readStringFrom p (t ++ r) = consChar x (readStringFrom q r) := by
  cases h with
  | plain hcontrol hquote hbackslash =>
    refine ⟨p.after x, ?_⟩
    rw [List.singleton_append, readStringFrom, if_neg (Nat.not_lt.2 hcontrol)]
    all_goals simp_all
  | @short e _ h =>
    have hescape := simpleEscape?_eq_some.2 h
    have hu : e ≠ 'u' := by
      rintro rfl
      cases hescape
    refine ⟨(p.after '\\').afterByte e, ?_⟩
    rw [List.cons_append, List.cons_append, List.nil_append, readStringFrom, hescape]
    exact fun h => hu h
  | @unit a b c d _ n h hx =>
    obtain ⟨hl, ht, hof⟩ := of_charUnits_unit hx
    refine ⟨((p.after '\\').after 'u').afterAll [a, b, c, d], ?_⟩
    simp only [List.cons_append, List.nil_append, readStringFrom, unit?_eq, h, hl, ht,
      Bool.false_eq_true, if_false, hof]
  | @pair a b c d a' b' c' d' _ m n h h' hx =>
    obtain ⟨hl, ht, hof⟩ := of_charUnits_pair hx
    have htrailing : isTrailing m = false := by
      simp only [isLeading, isTrailing, Bool.and_eq_true, Bool.and_eq_false_iff, decide_eq_true_eq,
        decide_eq_false_iff_not] at hl ⊢
      omega
    refine ⟨((((((p.after '\\').after 'u').afterAll [a, b, c, d]).after '\\').after 'u').afterAll
      [a', b', c', d']), ?_⟩
    simp only [List.cons_append, List.nil_append, readStringFrom, unit?_eq, h, h', hl, ht, htrailing,
      Bool.false_eq_true, if_false, if_true, hof]

theorem readStringFrom_spellsText (h : SpellsText t s) (p : Position) (r : Text) :
    ∃ q, readStringFrom p (t ++ '"' :: r) = .ok (s, ⟨q, r⟩) := by
  induction h generalizing p with
  | nil => exact ⟨_, rfl⟩
  | cons hx _ ih =>
    rw [List.append_assoc]
    obtain ⟨q, hq⟩ := readStringFrom_spellsChar hx p (_ ++ '"' :: r)
    obtain ⟨q', hq'⟩ := ih q
    exact ⟨q', by rw [hq, hq']; rfl⟩

theorem consChar_eq_ok {result : Except Error (Text × Cursor)} (h : consChar x result = .ok (s, cursor)) :
    ∃ s', result = .ok (s', cursor) ∧ s = x :: s' := by
  cases result with
  | error e => cases h
  | ok read =>
    cases h
    exact ⟨_, rfl, rfl⟩

theorem spellsText_of_consChar {q : Position}
    (ih : ∀ {s}, readStringFrom q r = .ok (s, cursor) → ∃ u, r = u ++ '"' :: cursor.rest ∧ SpellsText u s)
    (hx : SpellsChar t x) (h : consChar x (readStringFrom q r) = .ok (s, cursor)) :
    ∃ u, t ++ r = u ++ '"' :: cursor.rest ∧ SpellsText u s := by
  obtain ⟨s', hread, rfl⟩ := consChar_eq_ok h
  obtain ⟨u, rfl, hu⟩ := ih hread
  exact ⟨t ++ u, (List.append_assoc ..).symm, hu.cons hx⟩

theorem spellsText_of_readStringFrom (h : readStringFrom p t = .ok (s, cursor)) :
    ∃ u, t = u ++ '"' :: cursor.rest ∧ SpellsText u s := by
  fun_induction readStringFrom p t generalizing s with
  | case2 =>
    cases h
    exact ⟨[], rfl, .nil⟩
  | case7 p _ a b c d m hm _ ht hl _ a' b' c' d' r n hn _ hn' =>
    rename_i ih
    rw [unit?_eq] at hm hn
    exact spellsText_of_consChar ih (.pair hm hn (charUnits_pairChar hl hn')) h
  | case12 p _ a b c d r n hn _ ht hl =>
    rename_i ih
    rw [unit?_eq] at hn
    rw [Bool.not_eq_true] at ht hl
    have hx := charUnits_ofNat (Text.lt_of_hexUnit? hn) hl ht
    exact spellsText_of_consChar ih (.unit hn hx) h
  | case14 p e r _ _ x hescape =>
    rename_i ih
    exact spellsText_of_consChar ih (.short (simpleEscape?_eq_some.1 hescape)) h
  | case17 p x r hquote hend _ hescape hcontrol ih =>
    have hbackslash : x ≠ '\\' := by
      rintro rfl
      cases r with
      | nil => exact hend rfl rfl
      | cons e r => exact hescape e r rfl rfl
    exact spellsText_of_consChar ih (.plain (Nat.not_lt.1 hcontrol) hquote hbackslash) h
  | _ => cases h

theorem hexUnit?_control {n : Nat} (h : n < 0x20) :
    hexUnit? '0' '0' (hexDigit (n / 16)) (hexDigit (n % 16)) = some n := by
  revert h n
  decide

/-- A character is written by a letter behind a backslash, by its digits or as it is. -/
theorem writeChar_cases (c : Char) :
    (∃ e, (e, c) ∈ shortEscapes ∧ e ≠ '/' ∧ writeChar c = ['\\', e]) ∨
      (c.toNat < 0x20 ∧ c ≠ '\n' ∧ c ≠ '\r' ∧
        writeChar c = ['\\', 'u', '0', '0', hexDigit (c.toNat / 16), hexDigit (c.toNat % 16)]) ∨
      0x20 ≤ c.toNat ∧ c ≠ '"' ∧ c ≠ '\\' ∧ writeChar c = [c] := by
  have hshort : ∀ p ∈ shortEscapes, p.1 ≠ '/' → writeChar p.2 = ['\\', p.1] := by
    decide
  by_cases hletter : ∃ e, (e, c) ∈ shortEscapes ∧ e ≠ '/'
  · obtain ⟨e, he, hsolidus⟩ := hletter
    exact .inl ⟨e, he, hsolidus, hshort (e, c) he hsolidus⟩
  · have hne (e x : Char) (he : (e, x) ∈ shortEscapes) (hsolidus : e ≠ '/') : c ≠ x := by
      rintro rfl
      exact hletter ⟨e, he, hsolidus⟩
    have hquote := hne '"' '"' (by decide) (by decide)
    have hbackslash := hne '\\' '\\' (by decide) (by decide)
    have hback : c.toNat ≠ 0x08 := fun h =>
      hne 'b' '\x08' (by decide) (by decide) (Char.toNat_inj.1 h)
    have htab := hne 't' '\t' (by decide) (by decide)
    have hfeed := hne 'n' '\n' (by decide) (by decide)
    have hform : c.toNat ≠ 0x0C := fun h =>
      hne 'f' '\x0c' (by decide) (by decide) (Char.toNat_inj.1 h)
    have hreturn := hne 'r' '\r' (by decide) (by decide)
    rw [writeChar, if_neg hquote, if_neg hbackslash, if_neg hback, if_neg htab, if_neg hfeed,
      if_neg hform, if_neg hreturn]
    split
    · next hcontrol => exact .inr (.inl ⟨hcontrol, hfeed, hreturn, rfl⟩)
    · next hcontrol => exact .inr (.inr ⟨Nat.not_lt.1 hcontrol, hquote, hbackslash, rfl⟩)

theorem spellsChar_writeChar (c : Char) : SpellsChar (writeChar c) c := by
  rcases writeChar_cases c with ⟨e, he, -, h⟩ | ⟨hcontrol, -, -, h⟩ | ⟨hcontrol, hquote, hbackslash, h⟩
  · exact h ▸ .short he
  · exact h ▸ .unit (hexUnit?_control hcontrol) (charUnits_of_lt (by omega))
  · exact h ▸ .plain hcontrol hquote hbackslash

theorem writeChar_eq_self {c : Char} (hcontrol : 0x20 ≤ c.toNat) (hquote : c ≠ '"')
    (hbackslash : c ≠ '\\') : writeChar c = [c] := by
  rcases writeChar_cases c with ⟨e, he, hsolidus, -⟩ | ⟨hsmall, -⟩ | ⟨-, -, -, h⟩
  · have hshort : ∀ p ∈ shortEscapes, p.1 ≠ '/' → p.2.toNat < 0x20 ∨ p.2 = '"' ∨ p.2 = '\\' := by
      decide
    rcases hshort (e, c) he hsolidus with h | h | h
    · exact absurd hcontrol (Nat.not_le.2 h)
    · exact absurd h hquote
    · exact absurd h hbackslash
  · exact absurd hcontrol (Nat.not_le.2 hsmall)
  · exact h

theorem SpellsText.eq_of_not_mem (h : SpellsText t s) (hescape : '\\' ∉ t) :
    t = s ∧ ∀ x ∈ s, 0x20 ≤ x.toNat ∧ x ≠ '"' ∧ x ≠ '\\' := by
  induction h with
  | nil => exact ⟨rfl, nofun⟩
  | cons hx _ ih =>
    rw [List.mem_append, not_or] at hescape
    obtain ⟨rfl, hall⟩ := ih hescape.2
    cases hx with
    | plain hcontrol hquote hbackslash =>
      exact ⟨rfl, List.forall_mem_cons.2 ⟨⟨hcontrol, hquote, hbackslash⟩, hall⟩⟩
    | _ => exact absurd List.mem_cons_self hescape.1

theorem flatMap_writeChar_eq_self (h : ∀ x ∈ s, 0x20 ≤ x.toNat ∧ x ≠ '"' ∧ x ≠ '\\') :
    s.flatMap writeChar = s := by
  induction s with
  | nil => rfl
  | cons x s ih =>
    obtain ⟨⟨hcontrol, hquote, hbackslash⟩, hrest⟩ := List.forall_mem_cons.1 h
    rw [List.flatMap_cons, ih hrest, writeChar_eq_self hcontrol hquote hbackslash]
    rfl

theorem writeString_eq_self (h : ∀ x ∈ s, 0x20 ≤ x.toNat ∧ x ≠ '"' ∧ x ≠ '\\') :
    writeString s = '"' :: s ++ ['"'] := by
  rw [writeString, flatMap_writeChar_eq_self h]

theorem spellsText_flatMap (s : Text) : SpellsText (s.flatMap writeChar) s := by
  induction s with
  | nil => exact .nil
  | cons c s ih => exact ih.cons (spellsChar_writeChar c)

theorem SpellsText.self (h : s.all fun x => 0x20 ≤ x.toNat ∧ x ≠ '"' ∧ x ≠ '\\') : SpellsText s s := by
  have hspells := spellsText_flatMap s
  rwa [flatMap_writeChar_eq_self fun x hx => of_decide_eq_true (List.all_eq_true.1 h x hx)] at hspells

end PluginForge.Json
