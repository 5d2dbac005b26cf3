import Mathlib.Data.List.DropRight
import PluginForge.Proofs.Json.Integers
import PluginForge.Proofs.Json.Reading

namespace PluginForge.Json

open Text (hexUnit?)

def IsDigits (t : Text) : Prop :=
  t ≠ [] ∧ ∀ c ∈ t, isDigit c

inductive IsWhole : Text → Prop where
  | zero : IsWhole ['0']
  | digits {t : Text} (h : IsDigits t) (hzero : t.head? ≠ some '0') : IsWhole t

inductive IsFraction : Text → Prop where
  | absent : IsFraction []
  | digits {t : Text} (h : IsDigits t) : IsFraction ('.' :: t)

inductive IsExponent : Text → Prop where
  | absent : IsExponent []
  | digits {e : Char} {sign t : Text} (he : e = 'e' ∨ e = 'E') (hsign : sign ∈ [[], ['+'], ['-']])
      (h : IsDigits t) : IsExponent (e :: (sign ++ t))

/-- A number of any size, also one that no reader of numbers can hold. -/
inductive IsNumber : Text → Prop where
  | mk {sign whole fraction exponent : Text} (hsign : sign = [] ∨ sign = ['-']) (hw : IsWhole whole)
      (hf : IsFraction fraction) (he : IsExponent exponent) :
      IsNumber (sign ++ (whole ++ (fraction ++ exponent)))

variable {exponent fraction r s t u whole : Text} {p : Position} {strict negative : Bool} {c x : Char}

theorem readDigits_append (ht : ∀ c ∈ t, isDigit c) (hr : r.head?.any isDigit = false) (p : Position) :
    ∃ q, Cursor.readDigits ⟨p, t ++ r⟩ = (t, ⟨q, r⟩) := by
  obtain ⟨htake, hdrop⟩ := takeWhile_digits ht hr
  rw [Cursor.readDigits, Cursor.skipWhile, htake, hdrop]
  exact ⟨_, rfl⟩

theorem ne_of_isDigit (hx : isDigit x) (hc : isDigit c = false) : x ≠ c := by
  rintro rfl
  exact Bool.false_ne_true (hc.symm.trans hx)

theorem readExponentDigits_append (ht : IsDigits t) (hr : EndsNumber r) (strict : Bool) (p : Position) :
    ∃ q, Cursor.readExponentDigits strict ⟨p, t ++ r⟩ = .ok (t, ⟨q, r⟩) := by
  obtain ⟨x, digits, rfl⟩ := List.exists_cons_of_ne_nil ht.1
  obtain ⟨q, hq⟩ := readDigits_append ht.2 hr.not_isDigit p
  exact ⟨q, (if_pos (ht.2 x List.mem_cons_self)).trans (congrArg Except.ok hq)⟩

theorem IsExponent.read (h : IsExponent exponent) (hr : EndsNumber r) (strict : Bool) (p : Position) :
    ∃ x q, Cursor.readExponent strict ⟨p, exponent ++ r⟩ = .ok (x, ⟨q, r⟩) := by
  cases h with
  | absent => exact ⟨_, p, if_neg (not_or.2 ⟨hr.peek? (by decide), hr.peek? (by decide)⟩)⟩
  | @digits e sign t he hsign ht =>
    have hpeek : Cursor.peek? ⟨p, e :: (sign ++ t) ++ r⟩ = some 'e' ∨
        Cursor.peek? ⟨p, e :: (sign ++ t) ++ r⟩ = some 'E' := by
      rcases he with rfl | rfl
      · exact .inl rfl
      · exact .inr rfl
    have hsigned : ∃ q, (if (Cursor.mk p (e :: (sign ++ t) ++ r)).advance.peek? = some '-' ∨
        (Cursor.mk p (e :: (sign ++ t) ++ r)).advance.peek? = some '+' then
          (Cursor.mk p (e :: (sign ++ t) ++ r)).advance.advance
          else (Cursor.mk p (e :: (sign ++ t) ++ r)).advance) = ⟨q, t ++ r⟩ := by
      simp only [List.mem_cons, List.not_mem_nil, or_false] at hsign
      rcases hsign with rfl | rfl | rfl
      · obtain ⟨x, digits, rfl⟩ := List.exists_cons_of_ne_nil ht.1
        have hx := ht.2 x List.mem_cons_self
        refine ⟨p.after e, if_neg (not_or.2 ⟨fun h => ?_, fun h => ?_⟩)⟩
        · exact ne_of_isDigit hx (by decide) (Option.some.inj h)
        · exact ne_of_isDigit hx (by decide) (Option.some.inj h)
      · exact ⟨_, if_pos (.inr rfl)⟩
      · exact ⟨_, if_pos (.inl rfl)⟩
    obtain ⟨q, hq⟩ := hsigned
    obtain ⟨q', hq'⟩ := readExponentDigits_append ht hr strict q
    rw [Cursor.readExponent, if_pos hpeek]
    simp only [hq, hq']
    exact ⟨_, _, rfl⟩

theorem IsExponent.ends (h : IsExponent exponent) (hr : EndsNumber r) :
    (exponent ++ r).head?.any isDigit = false ∧ (exponent ++ r).head? ≠ some '.' := by
  cases h with
  | absent => exact ⟨hr.not_isDigit, hr.peek? (p := .start) (by decide)⟩
  | digits he => rcases he with rfl | rfl <;> exact ⟨rfl, by simp⟩

theorem IsFraction.read (h : IsFraction fraction) (hr : r.head?.any isDigit = false)
    (hpoint : r.head? ≠ some '.') (strict : Bool) (p : Position) :
    ∃ x q, Cursor.readFraction strict ⟨p, fraction ++ r⟩ = .ok (x, ⟨q, r⟩) := by
  cases h with
  | absent => exact ⟨_, p, if_neg hpoint⟩
  | @digits t ht =>
    obtain ⟨q, hq⟩ := readDigits_append ht.2 hr (p.after '.')
    replace hq : (Cursor.mk p ('.' :: (t ++ r))).advance.readDigits = (t, ⟨q, r⟩) := hq
    refine ⟨some t, q, ?_⟩
    rw [Cursor.readFraction, List.cons_append, if_pos (peek?_cons ..)]
    simp only [hq]
    exact if_neg fun hempty => ht.1 (List.isEmpty_iff.1 hempty)

theorem IsFraction.ends (h : IsFraction fraction) (hr : r.head?.any isDigit = false) :
    (fraction ++ r).head?.any isDigit = false := by
  cases h with
  | absent => exact hr
  | digits => rfl

theorem IsWhole.read (h : IsWhole whole) (hr : r.head?.any isDigit = false) (strict : Bool)
    (p : Position) : ∃ q, Cursor.readWhole strict ⟨p, whole ++ r⟩ = .ok (whole, ⟨q, r⟩) := by
  cases h with
  | zero => exact ⟨p.after '0', if_neg (Bool.eq_false_iff.1 hr)⟩
  | digits ht hzero =>
    obtain ⟨x, digits, rfl⟩ := List.exists_cons_of_ne_nil ht.1
    obtain ⟨q, hq⟩ := readDigits_append ht.2 hr p
    refine ⟨q, ?_⟩
    rw [Cursor.readWhole]
    split
    · next hrest => cases hrest
    · next hrest =>
      cases hrest
      exact absurd rfl hzero
    · next hrest =>
      cases hrest
      exact (if_pos (ht.2 x List.mem_cons_self)).trans (congrArg Except.ok hq)

theorem readNumeral_number (hw : IsWhole whole) (hf : IsFraction fraction) (he : IsExponent exponent)
    (hr : EndsNumber r) (strict negative : Bool) (p : Position) :
    ∃ x q, Cursor.readNumeral strict negative ⟨p, whole ++ (fraction ++ exponent) ++ r⟩ =
      .ok (x, ⟨q, r⟩) := by
  obtain ⟨hdigit, hpoint⟩ := he.ends hr
  obtain ⟨q₁, hq₁⟩ := hw.read (hf.ends hdigit) strict p
  obtain ⟨x, q₂, hq₂⟩ := hf.read hdigit hpoint strict q₁
  obtain ⟨y, q₃, hq₃⟩ := he.read hr strict q₂
  refine ⟨⟨negative, whole, x, y⟩, q₃, ?_⟩
  simp only [List.append_assoc] at *
  rw [Cursor.readNumeral, hq₁]
  simp only [Except.bind, bind, hq₂, hq₃]
  rfl

/-- What may stand between the quotes of a string that is passed over: its escapes need not make up
characters. -/
inductive IsQuoted : Text → Prop where
  | nil : IsQuoted []
  | plain {x : Char} {t : Text} (hcontrol : 0x20 ≤ x.toNat) (hquote : x ≠ '"') (hbackslash : x ≠ '\\')
      (h : IsQuoted t) : IsQuoted (x :: t)
  | short {e x : Char} {t : Text} (he : (e, x) ∈ shortEscapes) (h : IsQuoted t) :
      IsQuoted ('\\' :: e :: t)
  | unit {a b c d : Char} {n : Nat} {t : Text} (hunit : hexUnit? a b c d = some n) (h : IsQuoted t) :
      IsQuoted ('\\' :: 'u' :: a :: b :: c :: d :: t)

theorem IsQuoted.skip (h : IsQuoted t) (p : Position) (r : Text) :
    ∃ q, skipStringFrom p (t ++ '"' :: r) = .ok ⟨q, r⟩ := by
  induction h generalizing p with
  | nil => exact ⟨_, rfl⟩
  | @plain x t hcontrol hquote hbackslash _ ih =>
    obtain ⟨q, hq⟩ := ih (p.after x)
    refine ⟨q, ?_⟩
    rw [List.cons_append, skipStringFrom, if_neg (Nat.not_lt.2 hcontrol), hq]
    all_goals simp_all
  | @short e x t he _ ih =>
    have hescape := simpleEscape?_eq_some.2 he
    have hu : e ≠ 'u' := by
      rintro rfl
      cases hescape
    obtain ⟨q, hq⟩ := ih ((p.after '\\').afterByte e)
    refine ⟨q, ?_⟩
    rw [List.cons_append, List.cons_append, skipStringFrom, hescape, hq]
    exact fun h => hu h
  | @unit a b c d n t hunit _ ih =>
    obtain ⟨q, hq⟩ := ih (((p.after '\\').after 'u').afterAll [a, b, c, d])
    refine ⟨q, ?_⟩
    simp only [List.cons_append, skipStringFrom, unit?_eq, hunit, hq]

theorem skipWord_append (word : Text) (p : Position) (r : Text) :
    ∃ q, Cursor.skipWord word ⟨p, word ++ r⟩ = .ok ⟨q, r⟩ := by
  induction word generalizing p with
  | nil => exact ⟨p, rfl⟩
  | cons w word ih =>
    obtain ⟨q, hq⟩ := ih (p.after w)
    exact ⟨q, (if_pos rfl).trans hq⟩

mutual

/-- A text begins with some value, whatever it stands for, and goes on with another text behind it. -/
inductive AnyValue : Text → Text → Prop where
  | word {b w r : Text} (hb : IsGap b) (hw : w ∈ ["null".toList, "true".toList, "false".toList]) :
      AnyValue (b ++ (w ++ r)) r
  | number {b n r : Text} (hb : IsGap b) (hn : IsNumber n) (hr : EndsNumber r) :
      AnyValue (b ++ (n ++ r)) r
  | string {b s r : Text} (hb : IsGap b) (hs : IsQuoted s) : AnyValue (b ++ '"' :: (s ++ '"' :: r)) r
  | list {b t r : Text} (hb : IsGap b) (h : AnyItems true t r) : AnyValue (b ++ '[' :: t) r
  | object {b t r : Text} (hb : IsGap b) (h : AnyMembers true t r) : AnyValue (b ++ '\x7b' :: t) r

/-- A text begins with some items of a list and its closing bracket. -/
inductive AnyItems : Bool → Text → Text → Prop where
  | close {first : Bool} {b r : Text} (hb : IsGap b) : AnyItems first (b ++ ']' :: r) r
  | item {first : Bool} {s t u r : Text} (hf : Follows first s t) (hv : AnyValue t u)
      (h : AnyItems false u r) : AnyItems first s r

/-- A text begins with some members of an object and its closing brace. -/
inductive AnyMembers : Bool → Text → Text → Prop where
  | close {first : Bool} {b r : Text} (hb : IsGap b) : AnyMembers first (b ++ '\x7d' :: r) r
  | member {first : Bool} {key b s t u r : Text} (hkey : IsQuoted key) (hb : IsGap b)
      (hf : Follows first s ('"' :: (key ++ '"' :: (b ++ ':' :: t)))) (hv : AnyValue t u)
      (h : AnyMembers false u r) : AnyMembers first s r

end

theorem IsWhole.head (h : IsWhole whole) : ∃ x digits, whole = x :: digits ∧ isDigit x := by
  cases h with
  | zero => exact ⟨_, _, rfl, by decide⟩
  | digits ht =>
    obtain ⟨x, digits, rfl⟩ := List.exists_cons_of_ne_nil ht.1
    exact ⟨x, digits, rfl, ht.2 x List.mem_cons_self⟩

theorem isBlank_of_isDigit (h : isDigit x) : Cursor.isBlank x = false := by
  simp only [Cursor.isBlank, Bool.or_eq_false_iff, beq_eq_false_iff_ne]
  exact ⟨⟨⟨ne_of_isDigit h (by decide), ne_of_isDigit h (by decide)⟩, ne_of_isDigit h (by decide)⟩,
    ne_of_isDigit h (by decide)⟩

theorem IsNumber.head (h : IsNumber t) :
    ∃ x u, t = x :: u ∧ Cursor.isBlank x = false ∧ x ∉ ['[', ']', '\x7b'] := by
  cases h with
  | @mk sign whole fraction exponent hsign hw =>
    rcases hsign with rfl | rfl
    · obtain ⟨x, digits, rfl, hx⟩ := hw.head
      refine ⟨x, _, rfl, isBlank_of_isDigit hx, fun hmem => ?_⟩
      simp only [List.mem_cons, List.not_mem_nil, or_false] at hmem
      rcases hmem with rfl | rfl | rfl <;> exact absurd hx (by decide)
    · exact ⟨_, _, rfl, by decide, by decide⟩

theorem word_head (hw : t ∈ ["null".toList, "true".toList, "false".toList]) :
    ∃ x u, t = x :: u ∧ Cursor.isBlank x = false ∧ x ∉ ['[', ']', '\x7b'] := by
  simp only [List.mem_cons, List.not_mem_nil, or_false] at hw
  rcases hw with rfl | rfl | rfl <;> exact ⟨_, _, rfl, by decide, by decide⟩

theorem AnyValue.head (h : AnyValue s r) :
    ∃ b x t, s = b ++ x :: t ∧ IsGap b ∧ Cursor.isBlank x = false ∧ x ≠ ']' := by
  cases h with
  | @word b w _ hb hw =>
    obtain ⟨x, u, rfl, hx, hopen⟩ := word_head hw
    exact ⟨b, x, _, rfl, hb, hx, List.ne_of_not_mem_cons (List.not_mem_of_not_mem_cons hopen)⟩
  | @number b _ _ hb hn =>
    obtain ⟨x, u, rfl, hx, hopen⟩ := hn.head
    exact ⟨b, x, _, rfl, hb, hx, List.ne_of_not_mem_cons (List.not_mem_of_not_mem_cons hopen)⟩
  | @string b _ _ hb => exact ⟨b, _, _, rfl, hb, by decide, by decide⟩
  | @list b _ _ hb => exact ⟨b, _, _, rfl, hb, by decide, by decide⟩
  | @object b _ _ hb => exact ⟨b, _, _, rfl, hb, by decide, by decide⟩

mutual

theorem AnyValue.length_le : ∀ {t r : Text}, AnyValue t r → r.length ≤ t.length
  | _, _, .word _ _ => by
    simp only [List.length_append]
    omega
  | _, _, .number _ _ _ => by
    simp only [List.length_append]
    omega
  | _, _, .string _ _ => by
    simp only [List.length_append, List.length_cons]
    omega
  | _, _, .list _ h => by
    have := h.length_le
    simp only [List.length_append, List.length_cons]
    omega
  | _, _, .object _ h => by
    have := h.length_le
    simp only [List.length_append, List.length_cons]
    omega

theorem AnyItems.length_le : ∀ {first : Bool} {t r : Text}, AnyItems first t r → r.length ≤ t.length
  | _, _, _, .close _ => by
    simp only [List.length_append, List.length_cons]
    omega
  | _, _, _, .item hf hv h => h.length_le.trans (hv.length_le.trans hf.length_le)

theorem AnyMembers.length_le : ∀ {first : Bool} {t r : Text}, AnyMembers first t r →
    r.length ≤ t.length
  | _, _, _, .close _ => by
    simp only [List.length_append, List.length_cons]
    omega
  | _, _, _, .member _ _ hf hv h => by
    have := hf.length_le
    have := hv.length_le
    have := h.length_le
    simp only [List.length_append, List.length_cons] at *
    omega

end

variable {b : Text} {d d' : Cursor} {enclosing : List Bracket} {first : Bool}
  {fuel : Nat}

theorem skipBlanks_append (hb : IsGap b) (p : Position) (t : Text) :
    Cursor.skipBlanks ⟨p, b ++ t⟩ = Cursor.skipBlanks ⟨p.afterAll b, t⟩ := by
  rw [Cursor.skipBlanks, Cursor.skipBlanks, Cursor.skipWhile, Cursor.skipWhile,
    List.takeWhile_append_of_pos hb, List.dropWhile_append_of_pos hb, Position.afterAll,
    List.foldl_append]
  rfl

theorem skipBlanks_idem (d : Cursor) : d.skipBlanks.skipBlanks = d.skipBlanks := by
  obtain ⟨p, t⟩ := d
  have htake : (t.dropWhile Cursor.isBlank).takeWhile Cursor.isBlank = [] := by
    rw [List.takeWhile_eq_nil_iff]
    intro hlength
    exact List.dropWhile_get_zero_not Cursor.isBlank t hlength
  rw [Cursor.skipBlanks, Cursor.skipBlanks, Cursor.skipWhile, Cursor.skipWhile, htake,
    List.dropWhile_idempotent]
  rfl

theorem skipValueIn_congr (h : d.skipBlanks = d'.skipBlanks) (fuel : Nat) (enclosing : List Bracket) :
    Cursor.skipValueIn (fuel + 1) enclosing d = Cursor.skipValueIn (fuel + 1) enclosing d' := by
  rw [Cursor.skipValueIn, Cursor.skipValueIn, h]

theorem skipKey_congr (h : d.skipBlanks = d'.skipBlanks) : d.skipKey = d'.skipKey := by
  rw [Cursor.skipKey, Cursor.skipKey, h]

theorem skipKey_quoted {b' key : Text} (hb : IsGap b) (hkey : IsQuoted key) (hb' : IsGap b')
    (p : Position) (t : Text) :
    ∃ q, Cursor.skipKey ⟨p, b ++ '"' :: (key ++ '"' :: (b' ++ ':' :: t))⟩ = .ok ⟨q, t⟩ := by
  obtain ⟨q, hq⟩ := skipBlanks_gap (r := key ++ '"' :: (b' ++ ':' :: t)) (x := '"') p hb rfl
  obtain ⟨q₁, hq₁⟩ := hkey.skip (q.after '"') (b' ++ ':' :: t)
  obtain ⟨q₂, hq₂⟩ := skipColon_gap q₁ hb' t
  refine ⟨q₂, ?_⟩
  rw [Cursor.skipKey, hq]
  change (skipStringFrom (q.after '"') (key ++ '"' :: (b' ++ ':' :: t)) >>= _) = _
  rw [hq₁]
  exact hq₂

/-- Where a bracket goes on, what is in it is passed over next. The search leaves the cursor in front of a
gap or behind it, which makes no difference to what comes next. -/
theorem skipMore_follows (hf : Follows first s t) (ht : t = b ++ x :: u) (hb : IsGap b)
    (hx : Cursor.isBlank x = false) (bracket : Bracket) (hclose : x ≠ bracket.closing) (fuel : Nat)
    (enclosing : List Bracket) (p : Position) :
    ∃ d q, d.skipBlanks = Cursor.skipBlanks ⟨q, t⟩ ∧
      Cursor.skipMore (fuel + 1) (!first) (bracket :: enclosing) ⟨p, s⟩ =
        match bracket with
        | .list => Cursor.skipValueIn fuel (bracket :: enclosing) d
        | .object =>
          match d.skipKey with
          | .error e => .error e
          | .ok d => Cursor.skipValueIn fuel (bracket :: enclosing) d := by
  cases hf with
  | @first gap _ hgap =>
    have hseek := skipBlanks_append hgap p t
    obtain ⟨q, hq⟩ := skipBlanks_gap (r := u) (p.afterAll gap) hb hx
    rw [ht, hq] at hseek
    refine ⟨Cursor.skipBlanks ⟨p, gap ++ t⟩, p.afterAll gap, ?_, ?_⟩
    · rw [skipBlanks_idem, skipBlanks_append hgap]
    · rw [ht, hseek, Cursor.skipMore.eq_def]
      dsimp only
      rw [hseek]
      exact (if_neg Bool.false_ne_true).trans ((if_neg hclose).trans rfl)
  | @next gap gap' _ hgap hgap' =>
    obtain ⟨q, hq⟩ := skipBlanks_gap (r := gap' ++ t) (x := ',') p hgap rfl
    refine ⟨⟨q.after ',', gap' ++ t⟩, (q.after ',').afterAll gap', skipBlanks_append hgap' _ t, ?_⟩
    rw [Cursor.skipMore.eq_def]
    dsimp only
    rw [hq]
    rfl

theorem skipMore_close (bracket : Bracket) (hb : IsGap b) (fuel : Nat) (afterValue : Bool) (enclosing : List Bracket)
    (p : Position) (r : Text) :
    ∃ q, Cursor.skipMore (fuel + 1) afterValue (bracket :: enclosing) ⟨p, b ++ bracket.closing :: r⟩ =
      Cursor.skipMore fuel true enclosing ⟨q, r⟩ := by
  have hblank : Cursor.isBlank bracket.closing = false := by
    cases bracket <;> rfl
  have hcomma : (bracket.closing == ',') = false := by
    cases bracket <;> rfl
  obtain ⟨q, hq⟩ := skipBlanks_gap (r := r) p hb hblank
  refine ⟨q.after bracket.closing, ?_⟩
  rw [Cursor.skipMore.eq_def]
  dsimp only
  rw [hq]
  simp only [Cursor.peek?, List.head?_cons, hcomma, Bool.and_false, Bool.false_eq_true, if_false,
    if_true, Cursor.advance]

theorem skipScalar_word {w : Text} (hw : w ∈ ["null".toList, "true".toList, "false".toList])
    (p : Position) (r : Text) : ∃ q, Cursor.skipScalar ⟨p, w ++ r⟩ = .ok ⟨q, r⟩ := by
  simp only [List.mem_cons, List.not_mem_nil, or_false] at hw
  rcases hw with rfl | rfl | rfl
  · exact skipWord_append "ull" (p.after 'n') r
  · exact skipWord_append "rue" (p.after 't') r
  · exact skipWord_append "alse" (p.after 'f') r

theorem skipScalar_number {n : Text} (hn : IsNumber n) (hr : EndsNumber r) (p : Position) :
    ∃ q, Cursor.skipScalar ⟨p, n ++ r⟩ = .ok ⟨q, r⟩ := by
  cases hn with
  | @mk sign whole fraction exponent hsign hw hf he =>
    rcases hsign with rfl | rfl
    · obtain ⟨m, q, hq⟩ := readNumeral_number hw hf he hr false false p
      obtain ⟨x, digits, rfl, hx⟩ := hw.head
      refine ⟨q, ?_⟩
      change Cursor.skipScalar ⟨p, x :: (digits ++ (fraction ++ exponent) ++ r)⟩ = _
      rw [Cursor.skipScalar, peek?_cons]
      have hne : ∀ {c}, isDigit c = false → some x ≠ some c := by
        intro c hc heq
        exact ne_of_isDigit hx hc (Option.some.inj heq)
      split
      · next heq => exact absurd heq (hne (by decide))
      · next heq => exact absurd heq (hne (by decide))
      · next heq => exact absurd heq (hne (by decide))
      · next heq => exact absurd heq (hne (by decide))
      · next heq => exact absurd heq (hne (by decide))
      · next heq =>
        cases heq
        rw [if_pos hx]
        exact congrArg (Except.map Prod.snd) hq
      · next heq => cases heq
    · obtain ⟨m, q, hq⟩ := readNumeral_number hw hf he hr false true (p.after '-')
      refine ⟨q, ?_⟩
      change (Cursor.readNumeral false true
        ⟨p.after '-', whole ++ (fraction ++ exponent) ++ r⟩).map _ = _
      rw [hq]
      rfl

theorem exists_fuel {n : Nat} (h : n + 2 * (b ++ x :: u).length ≤ fuel) :
    ∃ m, fuel = m + 1 ∧ n + 2 * u.length + 1 ≤ m := by
  simp only [List.length_append, List.length_cons] at h
  exact ⟨fuel - 1, by omega, by omega⟩

theorem skipValueIn_scalar {n : Nat} (hs : ∀ q, ∃ q', Cursor.skipScalar ⟨q, x :: u⟩ = .ok ⟨q', r⟩)
    (hb : IsGap b) (hx : Cursor.isBlank x = false) (hopen : x ∉ ['[', ']', '\x7b'])
    (hlength : r.length ≤ u.length) (hfuel : n + 2 * (b ++ x :: u).length ≤ fuel)
    (enclosing : List Bracket) (p : Position) :
    ∃ m q, n + 2 * r.length ≤ m ∧ Cursor.skipValueIn fuel enclosing ⟨p, b ++ x :: u⟩ =
      Cursor.skipMore m true enclosing ⟨q, r⟩ := by
  obtain ⟨fuel, rfl, hleft⟩ := exists_fuel hfuel
  obtain ⟨q, hq⟩ := skipBlanks_gap (r := u) p hb hx
  obtain ⟨q', hq'⟩ := hs q
  refine ⟨fuel, q', by omega, ?_⟩
  rw [Cursor.skipValueIn, hq]
  simp only [hq']
  split
  · next heq =>
    cases heq
    exact absurd hopen (by decide)
  · next heq =>
    cases heq
    exact absurd hopen (by decide)
  · rfl

theorem skipValueIn_open (hb : IsGap b) (fuel : Nat) (enclosing : List Bracket) (p : Position)
    (t : Text) :
    (∃ q, Cursor.skipValueIn (fuel + 1) enclosing ⟨p, b ++ '[' :: t⟩ =
      Cursor.skipMore fuel false (.list :: enclosing) ⟨q, t⟩) ∧
    ∃ q, Cursor.skipValueIn (fuel + 1) enclosing ⟨p, b ++ '\x7b' :: t⟩ =
      Cursor.skipMore fuel false (.object :: enclosing) ⟨q, t⟩ := by
  constructor
  · obtain ⟨q, hq⟩ := skipBlanks_gap (r := t) (x := '[') p hb rfl
    refine ⟨q.after '[', ?_⟩
    rw [Cursor.skipValueIn, hq]
    rfl
  · obtain ⟨q, hq⟩ := skipBlanks_gap (r := t) (x := '\x7b') p hb rfl
    refine ⟨q.after '\x7b', ?_⟩
    rw [Cursor.skipValueIn, hq]
    rfl

theorem Follows.next_fuel {n : Nat} (h : Follows first s t) (ht : t ≠ [])
    (hfuel : n + 2 * s.length + first.toNat ≤ fuel) :
    ∃ m, fuel = m + 2 ∧ n + 2 * t.length ≤ m + 1 := by
  have := List.length_pos_of_ne_nil ht
  refine ⟨fuel - 2, ?_, ?_⟩
  all_goals
    cases h <;> simp only [List.length_append, List.length_cons, Bool.toNat_true] at hfuel <;> omega

mutual

/-- A value is passed over, with two steps left for each character behind it. -/
theorem AnyValue.skip : ∀ {t r : Text}, AnyValue t r → ∀ {n fuel : Nat},
    n + 2 * t.length ≤ fuel → ∀ (enclosing : List Bracket) (p : Position), ∃ m q,
      n + 2 * r.length ≤ m ∧
        Cursor.skipValueIn fuel enclosing ⟨p, t⟩ = Cursor.skipMore m true enclosing ⟨q, r⟩
  | _, r, .word hb hw, _, _, hfuel, enclosing, p => by
    have hs := fun q => skipScalar_word hw q r
    obtain ⟨x, u, rfl, hx, hopen⟩ := word_head hw
    have hlength : r.length ≤ (u ++ r).length := List.length_append ▸ Nat.le_add_left ..
    exact skipValueIn_scalar hs hb hx hopen hlength hfuel enclosing p
  | _, r, .number hb hn hr, _, _, hfuel, enclosing, p => by
    have hs := skipScalar_number hn hr
    obtain ⟨x, u, rfl, hx, hopen⟩ := hn.head
    have hlength : r.length ≤ (u ++ r).length := List.length_append ▸ Nat.le_add_left ..
    exact skipValueIn_scalar hs hb hx hopen hlength hfuel enclosing p
  | _, r, .string (s := s) hb hs, _, _, hfuel, enclosing, p => by
    have hlength : r.length ≤ (s ++ '"' :: r).length := by
      simp only [List.length_append, List.length_cons]
      omega
    exact skipValueIn_scalar (x := '"') (fun q => hs.skip (q.after '"') r) hb rfl (by decide) hlength
      hfuel enclosing p
  | _, _, .list (t := t) hb h, n, fuel, hfuel, enclosing, p => by
    obtain ⟨fuel, rfl, hleft⟩ := exists_fuel hfuel
    obtain ⟨q, hq⟩ := (skipValueIn_open hb fuel enclosing p t).1
    obtain ⟨m, q', hm, hq'⟩ := h.skip hleft enclosing q
    exact ⟨m, q', hm, hq.trans hq'⟩
  | _, _, .object (t := t) hb h, n, fuel, hfuel, enclosing, p => by
    obtain ⟨fuel, rfl, hleft⟩ := exists_fuel hfuel
    obtain ⟨q, hq⟩ := (skipValueIn_open hb fuel enclosing p t).2
    obtain ⟨m, q', hm, hq'⟩ := h.skip hleft enclosing q
    exact ⟨m, q', hm, hq.trans hq'⟩

theorem AnyItems.skip : ∀ {first : Bool} {t r : Text}, AnyItems first t r → ∀ {n fuel : Nat},
    n + 2 * t.length + first.toNat ≤ fuel → ∀ (enclosing : List Bracket) (p : Position), ∃ m q,
      n + 2 * r.length ≤ m ∧
        Cursor.skipMore fuel (!first) (.list :: enclosing) ⟨p, t⟩ =
          Cursor.skipMore m true enclosing ⟨q, r⟩
  | first, _, r, .close hb, n, fuel, hfuel, enclosing, p => by
    obtain ⟨fuel, rfl, hleft⟩ := exists_fuel (Nat.le_of_add_right_le hfuel)
    obtain ⟨q, hq⟩ := skipMore_close .list hb fuel (!first) enclosing p r
    exact ⟨fuel, q, Nat.le_of_add_right_le hleft, hq⟩
  | first, s, r, .item (t := t) (u := u) hf hv h, n, fuel, hfuel, enclosing, p => by
    obtain ⟨b, x, t', ht, hb, hx, hclose⟩ := hv.head
    have hne : t ≠ [] := by
      rw [ht]
      exact List.append_ne_nil_of_right_ne_nil _ (List.cons_ne_nil x t')
    obtain ⟨fuel, rfl, hnext⟩ := hf.next_fuel hne hfuel
    obtain ⟨d, q, hd, hmore⟩ := skipMore_follows hf ht hb hx .list hclose (fuel + 1) enclosing p
    obtain ⟨m, q', hm, hvalue⟩ := hv.skip hnext (.list :: enclosing) q
    obtain ⟨m', q'', hm', hrest⟩ := h.skip hm enclosing q'
    exact ⟨m', q'', hm', hmore.trans ((skipValueIn_congr hd _ _).trans (hvalue.trans hrest))⟩

theorem AnyMembers.skip : ∀ {first : Bool} {t r : Text}, AnyMembers first t r → ∀ {n fuel : Nat},
    n + 2 * t.length + first.toNat ≤ fuel → ∀ (enclosing : List Bracket) (p : Position), ∃ m q,
      n + 2 * r.length ≤ m ∧
        Cursor.skipMore fuel (!first) (.object :: enclosing) ⟨p, t⟩ =
          Cursor.skipMore m true enclosing ⟨q, r⟩
  | first, _, r, .close hb, n, fuel, hfuel, enclosing, p => by
    obtain ⟨fuel, rfl, hleft⟩ := exists_fuel (Nat.le_of_add_right_le hfuel)
    obtain ⟨q, hq⟩ := skipMore_close .object hb fuel (!first) enclosing p r
    exact ⟨fuel, q, Nat.le_of_add_right_le hleft, hq⟩
  | first, s, r, .member (b := b) (t := t) hkey hb hf hv h, n, fuel, hfuel, enclosing, p => by
    obtain ⟨fuel, rfl, hnext⟩ := hf.next_fuel (List.cons_ne_nil _ _) hfuel
    have hvalue : n + 2 * t.length ≤ fuel + 1 := by
      simp only [List.length_append, List.length_cons] at hnext
      omega
    obtain ⟨d, q, hd, hmore⟩ := skipMore_follows (b := []) hf rfl .nil rfl .object (by decide)
      (fuel + 1) enclosing p
    obtain ⟨q₁, hq₁⟩ := skipKey_quoted (b := []) .nil hkey hb q t
    obtain ⟨m, q₂, hm, hq₂⟩ := hv.skip hvalue (.object :: enclosing) q₁
    obtain ⟨m', q₃, hm', hq₃⟩ := h.skip hm enclosing q₂
    refine ⟨m', q₃, hm', hmore.trans ?_⟩
    rw [List.nil_append] at hq₁
    simp only [skipKey_congr hd, hq₁, hq₂]
    exact hq₃

end

theorem AnyValue.skipValue (h : AnyValue t r) (p : Position) :
    ∃ q, Cursor.skipValue ⟨p, t⟩ = .ok ⟨q, r⟩ := by
  obtain ⟨m, q, -, hq⟩ := @AnyValue.skip t r h 2 (2 * t.length + 2) (Nat.add_comm ..).le [] p
  refine ⟨q, hq.trans ?_⟩
  rw [Cursor.skipMore.eq_def]

end PluginForge.Json
