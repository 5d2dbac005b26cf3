import PluginForge.Json.Reader
import PluginForge.Proofs.Json.Strings
import PluginForge.Proofs.Text.Basic

namespace PluginForge.Json

open Cursor (placed)

variable {α β ε : Type} {a : α} {b : β} {c c' c'' : Cursor} {inside : Bool} {read : Reader α} {s t : Text}
  {x : Char}

theorem except_bind_eq_ok {x : Except ε α} {f : α → Except ε β} :
    (x >>= f) = .ok b ↔ ∃ a, x = .ok a ∧ f a = .ok b := by
  cases x with
  | error e =>
    constructor
    · exact nofun
    · rintro ⟨_, h, -⟩
      cases h
  | ok a =>
    constructor
    · exact fun h => ⟨a, rfl, h⟩
    · rintro ⟨_, h, hf⟩
      cases h
      exact hf

theorem except_map_eq_ok {x : Except ε α} {f : α → β} (h : x.map f = .ok b) :
    ∃ a, x = .ok a ∧ f a = b := by
  cases x with
  | error e => cases h
  | ok a => exact ⟨a, rfl, Except.ok.inj h⟩

theorem Reader.run_eq_ok (h : read.run t = .ok a) :
    ∃ c, read (.ofText t) = .ok (a, c) ∧ c.skipBlanks.rest = [] := by
  rw [Reader.run] at h
  split at h
  · cases h
  · cases h
  · next a' c hread =>
    simp only at h
    split at h
    · next hend =>
      cases h
      exact ⟨c, hread, List.isEmpty_iff.1 hend⟩
    · cases h

/-- All quotes are closed, and semicolons stand between quotes only; `inside` tells whether the text
begins between quotes. -/
def Closed : (inside : Bool) → Text → Prop
  | inside, [] => inside = false
  | inside, c :: t => (c = ';' → inside) ∧ Closed (inside != (c == '"')) t

/-- A character that neither opens or closes a string nor has to stand in one. -/
def isPlain (c : Char) : Bool :=
  c != '"' && c != ';'

theorem Closed.append (hs : Closed inside s) (ht : Closed false t) : Closed inside (s ++ t) := by
  induction s generalizing inside with
  | nil =>
    rw [show inside = false from hs]
    exact ht
  | cons c s ih => exact ⟨hs.1, ih hs.2⟩

theorem Closed.not_closed_front (h : Closed inside (s ++ ';' :: t)) : ¬Closed inside s := by
  induction s generalizing inside with
  | nil =>
    have hinside : inside := h.1 rfl
    rw [hinside]
    exact nofun
  | cons c s ih =>
    intro hs
    exact ih h.2 hs.2

theorem closed_of_isPlain (h : t.all isPlain) : Closed false t := by
  induction t with
  | nil => rfl
  | cons c t ih =>
    rw [List.all_cons, Bool.and_eq_true] at h
    obtain ⟨hc, ht⟩ := h
    rw [isPlain, Bool.and_eq_true, bne_iff_ne, bne_iff_ne] at hc
    have hquote : (c == '"') = false := beq_eq_false_iff_ne.2 hc.1
    refine ⟨fun he => absurd he hc.2, ?_⟩
    rw [hquote]
    exact ih ht

theorem closed_string (h : '"' ∉ t) : Closed false ('"' :: t ++ ['"']) := by
  refine ⟨by decide, ?_⟩
  change Closed true (t ++ ['"'])
  induction t with
  | nil => exact ⟨by decide, rfl⟩
  | cons c t ih =>
    rw [List.mem_cons, not_or] at h
    have hquote : (c == '"') = false := beq_eq_false_iff_ne.2 (Ne.symm h.1)
    refine ⟨fun _ => rfl, ?_⟩
    rw [hquote]
    exact ih h.2

/-- One cursor stands behind another one. If the text holds no escapes, what lies between them has closed
quotes. -/
def Passes (c c' : Cursor) : Prop :=
  '\\' ∉ c.rest → ∃ t, c.rest = t ++ c'.rest ∧ Closed false t

namespace Passes

theorem refl (c : Cursor) : Passes c c := by
  intro _
  exact ⟨[], rfl, rfl⟩

theorem trans (h : Passes c c') (h' : Passes c' c'') : Passes c c'' := by
  intro hescape
  obtain ⟨s, hs, hclosed⟩ := h hescape
  have hescape' : '\\' ∉ c'.rest := by
    rw [hs, List.mem_append, not_or] at hescape
    exact hescape.2
  obtain ⟨t, ht, hclosed'⟩ := h' hescape'
  refine ⟨s ++ t, ?_, hclosed.append hclosed'⟩
  rw [hs, ht, List.append_assoc]

theorem of_isPlain (h : c.rest = t ++ c'.rest) (ht : t.all isPlain) : Passes c c' := by
  intro _
  exact ⟨t, h, closed_of_isPlain ht⟩

theorem advance (h : c.peek? = some x) (hx : isPlain x) : Passes c c.advance := by
  obtain ⟨position, rest⟩ := c
  cases rest with
  | nil => cases h
  | cons y rest =>
    cases h
    apply of_isPlain (t := [x]) rfl
    rw [List.all_cons, hx]
    rfl

theorem skipWhile {p : Char → Bool} (hp : ∀ x, p x → isPlain x) (c : Cursor) :
    Passes c (c.skipWhile p) := by
  apply of_isPlain (t := c.rest.takeWhile p)
  · exact (List.takeWhile_append_dropWhile).symm
  · exact List.all_eq_true.2 fun x hx => hp x (List.mem_takeWhile_imp hx)

theorem skipBlanks (c : Cursor) : Passes c c.skipBlanks := by
  apply skipWhile
  intro x hx
  simp only [Cursor.isBlank, Bool.or_eq_true, beq_iff_eq] at hx
  rcases hx with ((rfl | rfl) | rfl) | rfl <;> decide

theorem skipWord {word : Text} (hword : word.all isPlain) (h : c.skipWord word = .ok c') :
    Passes c c' := by
  induction word generalizing c with
  | nil =>
    cases h
    exact refl _
  | cons w word ih =>
    rw [List.all_cons, Bool.and_eq_true] at hword
    rw [Cursor.skipWord] at h
    split at h
    · cases h
    next x r hrest =>
    split at h
    · next hx =>
      have hpeek : c.peek? = some w := by
        rw [Cursor.peek?, hrest, hx]
        rfl
      exact (advance hpeek hword.1).trans (ih hword.2 h)
    · cases h

end Passes

theorem placed_eq_ok {r : Except Error α} (h : placed r = .ok a) : r = .ok a := by
  cases r with
  | error e => cases h
  | ok a => cases h; rfl

theorem place_eq_ok {behind : Cursor → Position} {r : Except Problem α} (h : place behind r = .ok a) :
    r = .ok a := by
  unfold place at h
  split at h
  · cases h
  · exact h

theorem readStringFrom_ok {p : Position} (hescape : '\\' ∉ t) (h : readStringFrom p t = .ok (s, c)) :
    ∃ u, t = u ++ '"' :: c.rest ∧ '"' ∉ u := by
  obtain ⟨u, rfl, hu⟩ := spellsText_of_readStringFrom h
  obtain ⟨rfl, hall⟩ := hu.eq_of_not_mem fun hm => hescape (List.mem_append_left _ hm)
  exact ⟨u, rfl, fun hm => (hall '"' hm).2.1 rfl⟩

theorem Passes.readString (hpeek : c.peek? = some '"') (h : c.readString = .ok (s, c')) :
    Passes c c' := by
  intro hescape
  obtain ⟨position, rest⟩ := c
  cases rest with
  | nil => cases hpeek
  | cons y rest =>
    cases hpeek
    rw [List.mem_cons, not_or] at hescape
    obtain ⟨u, hu, hfree⟩ := readStringFrom_ok hescape.2 h
    refine ⟨'"' :: u ++ ['"'], ?_, closed_string hfree⟩
    have hrest : rest = u ++ '"' :: c'.rest := hu
    rw [hrest, List.append_assoc]
    rfl

theorem isPlain_of_isDigit (h : isDigit x) : isPlain x := by
  rw [isPlain, Bool.and_eq_true, bne_iff_ne, bne_iff_ne]
  constructor
  · rintro rfl
    exact absurd h (by decide)
  · rintro rfl
    exact absurd h (by decide)

theorem Passes.digits (c : Cursor) : Passes c (c.skipWhile isDigit) :=
  .skipWhile (fun _ => isPlain_of_isDigit) c

theorem Passes.readWhole {strict : Bool} (h : c.readWhole strict = .ok (s, c')) : Passes c c' := by
  rw [Cursor.readWhole] at h
  split at h
  · cases h
  · next r hrest =>
    split at h
    · cases h
    · cases h
      have hpeek : c.peek? = some '0' := by
        rw [Cursor.peek?, hrest]
        rfl
      exact .advance hpeek (by decide)
  · split at h
    · cases h
      exact .digits c
    · cases h

theorem Passes.readFraction {strict : Bool} {fraction : Option Text}
    (h : c.readFraction strict = .ok (fraction, c')) : Passes c c' := by
  rw [Cursor.readFraction] at h
  split at h
  · next hpeek =>
    split at h
    next digits behind hdigits =>
    cases hdigits
    split at h
    · cases h
    · cases h
      exact (Passes.advance hpeek (by decide)).trans (.digits _)
  · cases h
    exact .refl _

theorem Passes.readExponentDigits {strict : Bool} (h : c.readExponentDigits strict = .ok (s, c')) :
    Passes c c' := by
  rw [Cursor.readExponentDigits] at h
  split at h
  · cases h
  · split at h
    · cases h
      exact .digits c
    · cases h

theorem Passes.readExponent {strict : Bool} {exponent : Option (Bool × Text)}
    (h : c.readExponent strict = .ok (exponent, c')) : Passes c c' := by
  rw [Cursor.readExponent] at h
  split at h
  · next hpeek =>
    have hletter : Passes c c.advance := by
      rcases hpeek with hpeek | hpeek
      · exact .advance hpeek (by decide)
      · exact .advance hpeek (by decide)
    simp only at h
    split at h
    · cases h
    next digits behind hdigits =>
    cases h
    apply hletter.trans
    split at hdigits
    · next hsign =>
      have hadvance : Passes c.advance c.advance.advance := by
        rcases hsign with hsign | hsign
        · exact .advance hsign (by decide)
        · exact .advance hsign (by decide)
      exact hadvance.trans (.readExponentDigits hdigits)
    · exact .readExponentDigits hdigits
  · cases h
    exact .refl _

theorem Passes.readNumeral {strict negative : Bool} {numeral : Numeral}
    (h : c.readNumeral strict negative = .ok (numeral, c')) : Passes c c' := by
  rw [Cursor.readNumeral] at h
  obtain ⟨⟨whole, behindWhole⟩, hwhole, h⟩ := except_bind_eq_ok.1 h
  obtain ⟨⟨fraction, behindFraction⟩, hfraction, h⟩ := except_bind_eq_ok.1 h
  obtain ⟨⟨exponent, behindExponent⟩, hexponent, h⟩ := except_bind_eq_ok.1 h
  cases h
  exact ((Passes.readWhole hwhole).trans (.readFraction hfraction)).trans (.readExponent hexponent)

theorem Passes.readNumber {number : Number} (h : c.readNumber = .ok (number, c')) : Passes c c' := by
  rw [Cursor.readNumber] at h
  obtain ⟨⟨numeral, behind⟩, hnumeral, h⟩ := except_bind_eq_ok.1 h
  have hpasses : Passes c behind := by
    split at hnumeral
    · next hsign => exact (Passes.advance hsign (by decide)).trans (.readNumeral hnumeral)
    · exact .readNumeral hnumeral
  simp only at h
  split at h
  · cases h
    exact hpasses
  · cases h

theorem Passes.seekElement {first found : Bool} (h : c.seekElement first = .ok (found, c')) :
    Passes c c' ∧ (found = false → c'.peek? = some ']') := by
  have hblanks := Passes.skipBlanks c
  rw [Cursor.seekElement] at h
  simp only at h
  split at h
  · cases h
  · next hpeek =>
    cases h
    exact ⟨hblanks, fun _ => hpeek⟩
  · next x _ hpeek =>
    split at h
    · cases h
      exact ⟨hblanks, nofun⟩
    · split at h
      · next hcomma =>
        rw [hcomma] at hpeek
        have hpasses := (hblanks.trans (.advance hpeek (by decide))).trans (.skipBlanks _)
        split at h
        · cases h
        · cases h
          exact ⟨hpasses, nofun⟩
        · cases h
      · cases h

/-- Whatever it reads, a reader passes over a text in which all quotes are closed. -/
def PassesOver (read : Reader α) : Prop :=
  ∀ c a c', read c = .ok (a, c') → Passes c c'

theorem PassesOver.elements (hr : PassesOver read) {fuel : Nat} {first : Bool} {as : List α}
    (h : Reader.elements read fuel first c = .ok (as, c')) :
    Passes c c' ∧ c'.peek? = some ']' := by
  induction fuel generalizing c first as with
  | zero => cases h
  | succ fuel ih =>
    rw [Reader.elements] at h
    obtain ⟨⟨found, sought⟩, hsought, h⟩ := except_bind_eq_ok.1 h
    obtain ⟨hpasses, hclose⟩ := Passes.seekElement (placed_eq_ok hsought)
    simp only at h
    split at h
    · obtain ⟨⟨a, behind⟩, hread, h⟩ := except_bind_eq_ok.1 h
      obtain ⟨⟨rest, last⟩, hrest, h⟩ := except_bind_eq_ok.1 h
      cases h
      obtain ⟨hlater, hclose⟩ := ih hrest
      exact ⟨(hpasses.trans (hr _ _ _ hread)).trans hlater, hclose⟩
    · next hfound =>
      cases h
      exact ⟨hpasses, hclose (Bool.eq_false_iff.2 hfound)⟩

theorem PassesOver.list (hr : PassesOver read) : PassesOver (Reader.list read) := by
  intro c as c' h
  rw [Reader.list] at h
  simp only at h
  split at h
  · next hpeek =>
    obtain ⟨⟨as', last⟩, hplace, h⟩ := except_bind_eq_ok.1 h
    cases h
    obtain ⟨hpasses, hclose⟩ := hr.elements (place_eq_ok hplace)
    have hopen := (Passes.skipBlanks c).trans (.advance hpeek (by decide))
    exact (hopen.trans hpasses).trans (.advance hclose (by decide))
  · cases h

theorem PassesOver.mem_elements (hr : PassesOver read) {fuel : Nat} {first : Bool} {as : List α}
    (hescape : '\\' ∉ c.rest) (h : Reader.elements read fuel first c = .ok (as, c')) (ha : a ∈ as) :
    ∃ d d', read d = .ok (a, d') ∧ d.rest <:+ c.rest := by
  induction fuel generalizing c first as with
  | zero => cases h
  | succ fuel ih =>
    rw [Reader.elements] at h
    obtain ⟨⟨found, sought⟩, hsought, h⟩ := except_bind_eq_ok.1 h
    obtain ⟨s, hs, -⟩ := (Passes.seekElement (placed_eq_ok hsought)).1 hescape
    have hsuffix : sought.rest <:+ c.rest := ⟨s, hs.symm⟩
    simp only at h
    split at h
    · obtain ⟨⟨a', behind⟩, hread, h⟩ := except_bind_eq_ok.1 h
      obtain ⟨⟨rest, last⟩, hrest, h⟩ := except_bind_eq_ok.1 h
      cases h
      rcases List.mem_cons.1 ha with rfl | ha
      · exact ⟨sought, behind, hread, hsuffix⟩
      · have hescape' : '\\' ∉ sought.rest := fun hm => hescape (hsuffix.subset hm)
        obtain ⟨t, ht, -⟩ := hr _ _ _ hread hescape'
        have hbehind : behind.rest <:+ c.rest := List.IsSuffix.trans ⟨t, ht.symm⟩ hsuffix
        obtain ⟨d, d', hd, hsuffix'⟩ := ih (fun hm => hescape (hbehind.subset hm)) hrest ha
        exact ⟨d, d', hd, hsuffix'.trans hbehind⟩
    · cases h
      cases ha

theorem PassesOver.mem_list (hr : PassesOver read) {as : List α} (hescape : '\\' ∉ t)
    (h : (Reader.list read).run t = .ok as) (ha : a ∈ as) :
    ∃ d d', read d = .ok (a, d') ∧ d.rest <:+ t := by
  obtain ⟨c, hread, -⟩ := Reader.run_eq_ok h
  rw [Reader.list] at hread
  simp only at hread
  split at hread
  · next hpeek =>
    obtain ⟨⟨as', last⟩, hplace, he⟩ := except_bind_eq_ok.1 hread
    cases he
    obtain ⟨s, hs, -⟩ := ((Passes.skipBlanks (.ofText t)).trans (.advance hpeek (by decide))) hescape
    have hsuffix : (Cursor.ofText t).skipBlanks.advance.rest <:+ t := ⟨s, hs.symm⟩
    obtain ⟨d, d', hd, hsuffix'⟩ :=
      hr.mem_elements (fun hm => hescape (hsuffix.subset hm)) (place_eq_ok hplace) ha
    exact ⟨d, d', hd, hsuffix'.trans hsuffix⟩
  · cases hread

/-- A text that is read as a whole has closed quotes, if it holds no escapes. -/
theorem PassesOver.closed (hr : PassesOver read) (hescape : '\\' ∉ t) (h : read.run t = .ok a) :
    Closed false t := by
  obtain ⟨c, hread, hend⟩ := Reader.run_eq_ok h
  obtain ⟨s, hs, hclosed⟩ := ((hr _ _ _ hread).trans (.skipBlanks c)) hescape
  rw [hend, List.append_nil] at hs
  have ht : t = s := hs
  rwa [ht]

end PluginForge.Json
