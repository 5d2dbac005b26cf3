import PluginForge.Proofs.Callback.BehindValue
import PluginForge.Proofs.Callback.Literals

namespace PluginForge.Callback

open Json (Cursor)

variable {a b back behind front name s segment t text value : Text} {c c' : Cursor} {parts : List Text}
  {literal : Literal} {type : Java.Ty}

theorem isNormal_of_not_mem (hquote : '\'' ∉ t) (hdot : '.' ∉ t) : IsNormal t :=
  ⟨hquote, isTagFree_of_dot_not_mem hdot⟩

theorem isNormal_nil : IsNormal [] :=
  isNormal_of_not_mem List.not_mem_nil List.not_mem_nil

theorem isNormal_of_all_isNumeral (h : t.all Json.isNumeral) : IsNormal t := by
  refine ⟨Text.not_mem_of_all h (by decide), ?_⟩
  apply isTagFree_of_not_mem (c := 'j')
  · exact fun type => by cases type <;> decide
  · exact Text.not_mem_of_all h (by decide)

theorem isNormal_identifier (h : Java.isIdentifier name) : IsNormal name := by
  have hall := Java.all_isIdentifierChar h
  exact isNormal_of_not_mem (Java.not_mem_of_all_isIdentifierChar hall (by decide))
    (Java.not_mem_of_all_isIdentifierChar hall (by decide))

theorem IsNormal.quoted (h : IsNormal s) : IsNormal ('"' :: s ++ ['"']) :=
  isNormal_nil.append_cons (h.append_cons isNormal_nil (by decide) (by decide)) (by decide) (by decide)

theorem IsNormal.join (h : ∀ part ∈ parts, IsNormal part) : IsNormal (Text.join ", " parts) := by
  refine ⟨fun hm => ?_, isTagFree_join fun part hpart => (h part hpart).2⟩
  rcases Text.mem_of_mem_join hm with hm | ⟨part, hpart, hm⟩
  · exact absurd hm (by decide)
  · exact (h part hpart).1 hm

theorem isNormal_newArray (element : Java.Scalar) (h : IsNormal t) :
    IsNormal (Java.newArray element t) := by
  have hfront : IsNormal ("new " ++ element.name ++ "[]".toList) := by
    cases element <;> exact isNormal_of_not_mem (by decide) (by decide)
  have harray := hfront.append_cons (c := '\x7b')
    (h.append_cons (c := '\x7d') isNormal_nil (by decide) (by decide)) (by decide) (by decide)
  have htext : Java.newArray element t =
      "new " ++ element.name ++ "[]".toList ++ '\x7b' :: (t ++ ['\x7d']) := by
    unfold Java.newArray
    simp only [List.append_assoc]
    rfl
  rwa [htext]

theorem isNormal_write {value : Scalar} (hescape : '\\' ∉ c.rest) (hnormal : IsNormal c.rest)
    (h : Literal.readScalar c = .ok (value, c')) : IsNormal value.write := by
  cases value with
  | string s =>
    obtain ⟨contents, hrest, hspells⟩ := spellsText_of_readScalar h
    obtain ⟨gap, hgap, -⟩ := skipBlanks_split c
    have hinside : contents <:+: c.rest := by
      rw [hgap, hrest]
      exact ⟨gap ++ ['"'], '"' :: c'.rest, by simp⟩
    obtain ⟨rfl, hall⟩ := hspells.eq_of_not_mem fun hm => hescape (hinside.subset hm)
    change IsNormal (Json.writeString contents)
    rw [Json.writeString_eq_self hall]
    exact (hnormal.mono hinside).quoted
  | boolean value => cases value <;> exact isNormal_of_not_mem (by decide) (by decide)
  | integer value => exact isNormal_of_all_isNumeral (Json.all_isNumeral_writeInt value)
  | float value => exact isNormal_of_all_isNumeral (Json.all_isNumeral_writeFloat value)

theorem isNormal_atom {atom : Atom} (h : IsNormal atom.text) : IsNormal atom.java := by
  rw [Atom.java]
  split
  · split
    · exact h
    · exact h.append_cons (c := 'L') isNormal_nil (by decide) (by decide)
  · exact h

theorem isNormal_literal (hescape : '\\' ∉ t) (hnormal : IsNormal t)
    (h : Literal.parse? t = some literal) (type : Java.Ty) : IsNormal (literal.java type) := by
  have htrim := Text.trim_isInfix t
  rw [Literal.parse?] at h
  split at h
  · split at h
    · next values hvalues =>
      cases h
      refine isNormal_newArray _ (IsNormal.join fun part hpart => ?_)
      obtain ⟨atom, hatom, rfl⟩ := List.mem_map.1 hpart
      obtain ⟨value, hvalue, rfl⟩ := List.mem_map.1 hatom
      have hescape' : '\\' ∉ Text.trim t := fun hm => hescape (htrim.subset hm)
      obtain ⟨d, d', hread, hsuffix⟩ := passesOver_readScalar.mem_list hescape' hvalues hvalue
      have hinside := hsuffix.isInfix.trans htrim
      exact isNormal_atom (isNormal_write (fun hm => hescape (hinside.subset hm))
        (hnormal.mono hinside) hread)
    · cases h
  · split at h
    · cases h
      exact isNormal_atom (hnormal.mono htrim)
    · cases h

theorem dropQuotes_isInfix (t : Text) : Statement.dropQuotes t <:+: t :=
  (List.rdropWhile_prefix _ _).isInfix.trans (List.dropWhile_suffix _).isInfix

theorem isNormal_arrayValue (element : Java.Scalar) (h : IsNormal segment) :
    IsNormal (Statement.arrayValue element segment) := by
  apply isNormal_newArray element
  split
  · refine IsNormal.join fun part hpart => ?_
    obtain ⟨item, hitem, rfl⟩ := List.mem_map.1 hpart
    obtain ⟨piece, hpiece, rfl⟩ := List.mem_map.1 (List.mem_filter.1 hitem).1
    have hinside := ((dropQuotes_isInfix _).trans (Text.trim_isInfix piece)).trans
      (Text.infix_of_mem_splitOn hpiece)
    exact (h.mono hinside).quoted
  · exact h.mono (Text.trim_isInfix segment)

theorem Declares.isNormal (h : Declares front behind type name value) (hescape : '\\' ∉ front)
    (hnormal : IsNormal front) : IsNormal value := by
  cases h with
  | @list left name gap segment behind element =>
    have hinside : segment <:+: left ++ '=' :: (gap ++ '[' :: (segment ++ [']'])) :=
      ⟨left ++ '=' :: (gap ++ ['[']), [']'], by simp⟩
    exact isNormal_arrayValue element (hnormal.mono hinside)
  | @literal left name source behind literal type _ _ _ _ hliteral =>
    have hinside : source <:+: left ++ '=' :: source := ⟨left ++ ['='], [], by simp⟩
    exact isNormal_literal (fun hm => hescape (hinside.subset hm)) (hnormal.mono hinside) hliteral type

theorem Declares.isIdentifier (h : Declares front behind type name value) : Java.isIdentifier name := by
  cases h with
  | list _ htarget => exact isIdentifier_of_arrayTarget? htarget
  | literal _ htarget => exact isIdentifier_of_keywordTarget? htarget

theorem head?_atom {P : Char → Prop} {atom : Atom} (hsuffix : P 'L') (h : ∀ c ∈ atom.text.head?, P c) :
    ∀ c ∈ atom.java.head?, P c := by
  rw [Atom.java]
  split
  · split
    · exact h
    · exact Text.forall_head?_append h fun c hc => by cases hc; exact hsuffix
  · exact h

theorem Declares.head?_value (h : Declares front behind type name value) :
    ∀ c ∈ value.head?, Text.isBlank c = false ∧ c ≠ '[' := by
  have hnew (element : Java.Scalar) (t : Text) :
      ∀ c ∈ (Java.newArray element t).head?, Text.isBlank c = false ∧ c ≠ '[' := by
    intro c hc
    cases hc
    decide
  cases h with
  | @list _ _ _ segment _ element => exact hnew element _
  | @literal _ _ source _ literal type _ _ _ _ hliteral =>
    rw [Literal.parse?] at hliteral
    split at hliteral
    · split at hliteral
      · cases hliteral
        exact hnew _ _
      · cases hliteral
    · next hbracket =>
      split at hliteral
      · cases hliteral
        have hhead : ∀ c ∈ (Text.trim source).head?, Text.isBlank c = false ∧ c ≠ '[' := by
          intro c hc
          refine ⟨Text.isBlank_head_trim source c hc, ?_⟩
          rintro rfl
          exact hbracket hc
        exact head?_atom (by decide) hhead
      · cases hliteral

end PluginForge.Callback
