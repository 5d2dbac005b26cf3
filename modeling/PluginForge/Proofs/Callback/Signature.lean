import Mathlib.Logic.Relation
import PluginForge.Proofs.Plugin.GuardLocal
import PluginForge.Proofs.Text.Trimming

namespace PluginForge

namespace Text

variable {a a' b b' front new old separator t tail : Text} {c : Char} {keeps : Char → Bool}

theorem append_separator_inj (hseparator : separator.head? = some c) (ha : c ∉ a) (ha' : c ∉ a')
    (h : a ++ (separator ++ b) = a' ++ (separator ++ b')) : a = a' ∧ b = b' := by
  obtain ⟨separator, rfl⟩ := List.head?_eq_some_iff.1 hseparator
  have hcut := (cut?_char_iff.2 ⟨rfl, ha⟩).symm.trans (cut?_char_iff.2 ⟨h, ha'⟩)
  obtain ⟨hfront, hback⟩ := Prod.mk.inj (Option.some.inj hcut)
  exact ⟨hfront, List.append_cancel_left hback⟩

theorem splitOn_filter (hc : keeps c) (t : Text) :
    splitOn c (t.filter keeps) = (splitOn c t).map (List.filter keeps) := by
  induction t with
  | nil => rfl
  | cons x t ih =>
    rw [List.filter_cons, splitOn]
    by_cases hx : x = c
    · rw [if_pos hx, hx, if_pos hc, splitOn, if_pos rfl, ih]
      rfl
    · rw [if_neg hx]
      cases hs : splitOn c t with
      | nil => exact absurd hs (splitOn_ne_nil c t)
      | cons piece pieces =>
        rw [hs] at ih
        simp only [List.map_cons, List.filter_cons]
        split
        · rw [splitOn, if_neg hx, ih]
          rfl
        · exact ih

theorem replaceFirst_append (hold : old.head? = some c) (h : c ∉ a) (new b : Text) :
    replaceFirst old new (a ++ (old ++ b)) = a ++ (new ++ b) := by
  obtain ⟨old, rfl⟩ := List.head?_eq_some_iff.1 hold
  induction a with
  | nil =>
    have hhead := dropHead?_append (c :: old) b
    rw [List.nil_append, List.cons_append] at *
    rw [replaceFirst, hhead]
    rfl
  | cons x a ih =>
    rw [List.mem_cons, not_or] at h
    rw [List.cons_append, replaceFirst, dropHead?, if_neg h.1, ih h.2]
    rfl

/-- Marks are filled one after another, if what begins a mark stands in no gap between them and in no
value. -/
theorem foldl_replaceFirst {slots : List (Text × Text × Text)} (hfront : c ∉ front)
    (hslots : ∀ slot ∈ slots, c ∉ slot.1 ∧ slot.2.1.head? = some c ∧ c ∉ slot.2.2) :
    slots.foldl (fun t slot => replaceFirst slot.2.1 slot.2.2 t)
        (front ++ (slots.flatMap (fun slot => slot.1 ++ slot.2.1) ++ tail)) =
      front ++ (slots.flatMap (fun slot => slot.1 ++ slot.2.2) ++ tail) := by
  induction slots generalizing front with
  | nil => rfl
  | cons slot slots ih =>
    obtain ⟨gap, mark, value⟩ := slot
    rw [List.forall_mem_cons] at hslots
    obtain ⟨⟨hgap, hmark, hvalue⟩, hslots⟩ := hslots
    have hgaps : c ∉ front ++ gap := List.mem_append.not.2 (not_or.2 ⟨hfront, hgap⟩)
    have hfilled : c ∉ front ++ gap ++ value := List.mem_append.not.2 (not_or.2 ⟨hgaps, hvalue⟩)
    have hfirst := replaceFirst_append hmark hgaps value
      (slots.flatMap (fun slot => slot.1 ++ slot.2.1) ++ tail)
    have hrest := ih hfilled hslots
    simp only [List.append_assoc] at hfirst hrest
    simp only [List.foldl_cons, List.flatMap_cons, List.append_assoc]
    rw [hfirst, hrest]

end Text

namespace Callback.Parameters

variable {after before line line' list name rest : Text} {p q : Parameters}

def firstNames (list : Text) : List Text :=
  ((Text.splitOn ',' list).map cleanName).take 4

/-- What is read of a line depends on its list of parameters alone, and on the first four of them. -/
theorem parse_eq_ok_iff (hbefore : '(' ∉ before) (hlist : ')' ∉ list) :
    parse (before ++ '(' :: (list ++ ')' :: after)) = .ok p ↔
      firstNames list = p.names ∧ [] ∉ p.names := by
  have hopen : Text.cut? (· == '(') (before ++ '(' :: (list ++ ')' :: after)) =
      some (before, list ++ ')' :: after) := Text.cut?_char_iff.2 ⟨rfl, hbefore⟩
  have hclose : Text.cut? (· == ')') (list ++ ')' :: after) = some (list, after) :=
    Text.cut?_char_iff.2 ⟨rfl, hlist⟩
  obtain ⟨sender, command, label, args⟩ := p
  simp only [parse, hopen, hclose, firstNames, names]
  split
  · next hnames =>
    rw [hnames]
    split
    · next hempty =>
      simp only [Bool.or_eq_true, List.isEmpty_iff] at hempty
      simp
      grind
    · next hfull =>
      simp only [Bool.or_eq_true, List.isEmpty_iff] at hfull
      simp
      grind
  · next hfew =>
    refine iff_of_false nofun ?_
    rintro ⟨hnames, -⟩
    have hsplit := List.take_append_drop 4 ((Text.splitOn ',' list).map cleanName)
    rw [hnames] at hsplit
    exact hfew _ _ _ _ _ hsplit.symm

theorem closed_of_parse (hbefore : '(' ∉ before) (h : parse (before ++ '(' :: rest) = .ok p) :
    ∃ list after, rest = list ++ ')' :: after ∧ ')' ∉ list := by
  have hopen : Text.cut? (· == '(') (before ++ '(' :: rest) = some (before, rest) :=
    Text.cut?_char_iff.2 ⟨rfl, hbefore⟩
  rw [parse, hopen] at h
  dsimp only at h
  split at h
  · cases h
  next list after hclose => exact ⟨list, after, Text.cut?_char_iff.1 hclose⟩

theorem exists_of_parse (h : parse line = .ok p) :
    ∃ before list after, line = before ++ '(' :: (list ++ ')' :: after) ∧ '(' ∉ before ∧
      ')' ∉ list := by
  have hopen : ∃ before rest, line = before ++ '(' :: rest ∧ '(' ∉ before := by
    rw [parse] at h
    split at h
    · cases h
    next before rest hopen => exact ⟨before, rest, Text.cut?_char_iff.1 hopen⟩
  obtain ⟨before, rest, rfl, hbefore⟩ := hopen
  obtain ⟨list, after, rfl, hlist⟩ := closed_of_parse hbefore h
  exact ⟨before, list, after, rfl, hbefore, hlist⟩

theorem not_mem_of_parse (h : parse line = .ok p) (hname : name ∈ p.names) : ',' ∉ name := by
  obtain ⟨before, list, after, rfl, hbefore, hlist⟩ := exists_of_parse h
  obtain ⟨hfirst, -⟩ := (parse_eq_ok_iff hbefore hlist).1 h
  rw [← hfirst] at hname
  obtain ⟨piece, hpiece, rfl⟩ := List.mem_map.1 (List.mem_of_mem_take hname)
  exact fun hmem => Text.not_mem_of_mem_splitOn hpiece (List.mem_of_mem_filter hmem)

/-- The texts of a signature in front of its names, and the placeholders of these. -/
def placeholders : List (Text × Text) :=
  [("public boolean onCommand(CommandSender ", "%sender%"), (", Command ", "%cmd%"),
    (", String ", "%label%"), (", String[] ", "%args%")]

theorem signatureTemplate_eq :
    signatureTemplate = placeholders.flatMap (fun slot => slot.1 ++ slot.2) ++ [')'] := by
  decide +kernel

/-- The placeholders do not disturb each other as long as no name looks like the beginning of one. -/
theorem signature_eq (hfree : ∀ name ∈ p.names, '%' ∉ name) :
    p.signature = "public boolean onCommand(CommandSender ".toList ++ p.sender ++ ", Command ".toList ++
      p.command ++ ", String ".toList ++ p.label ++ ", String[] ".toList ++ p.args ++ [')'] := by
  have hmarks : ∀ slot ∈ placeholders, '%' ∉ slot.1 ∧ slot.2.head? = some '%' := by decide +kernel
  have hslots : ∀ slot ∈ (placeholders.zip p.names).map fun slot => (slot.1.1, slot.1.2, slot.2),
      '%' ∉ slot.1 ∧ slot.2.1.head? = some '%' ∧ '%' ∉ slot.2.2 := by
    rw [List.forall_mem_map]
    intro slot hslot
    obtain ⟨hplaceholder, hname⟩ := List.of_mem_zip hslot
    exact ⟨(hmarks _ hplaceholder).1, (hmarks _ hplaceholder).2, hfree _ hname⟩
  have hfilled := @Text.foldl_replaceFirst [] [')'] '%' _ List.not_mem_nil hslots
  rw [signature, signatureTemplate_eq]
  refine hfilled.trans ?_
  simp only [placeholders, names, List.zip_cons_cons, List.zip_nil_right, List.map_cons, List.map_nil,
    List.flatMap_cons, List.flatMap_nil, List.append_nil, List.nil_append, List.append_assoc]

theorem signature_inj (hp : ∀ name ∈ p.names, ',' ∉ name ∧ '%' ∉ name)
    (hq : ∀ name ∈ q.names, ',' ∉ name ∧ '%' ∉ name) (h : p.signature = q.signature) : p = q := by
  rw [signature_eq fun name hname => (hp name hname).2, signature_eq fun name hname => (hq name hname).2] at h
  have hcomma : ∀ slot ∈ placeholders.tail, slot.1.head? = some ',' := by decide +kernel
  obtain ⟨sender, command, label, args⟩ := p
  obtain ⟨sender', command', label', args'⟩ := q
  simp only [names, List.forall_mem_cons] at hp hq
  obtain ⟨⟨hsender, -⟩, ⟨hcommand, -⟩, ⟨hlabel, -⟩, -⟩ := hp
  obtain ⟨⟨hsender', -⟩, ⟨hcommand', -⟩, ⟨hlabel', -⟩, -⟩ := hq
  simp only [placeholders, List.tail_cons, List.forall_mem_cons] at hcomma
  obtain ⟨hfirst, hsecond, hthird, -⟩ := hcomma
  simp only [List.append_assoc] at h
  obtain ⟨rfl, hrest₁⟩ :=
    Text.append_separator_inj hfirst hsender hsender' (List.append_cancel_left h)
  obtain ⟨rfl, hrest₂⟩ := Text.append_separator_inj hsecond hcommand hcommand' hrest₁
  obtain ⟨rfl, hrest₃⟩ := Text.append_separator_inj hthird hlabel hlabel' hrest₂
  rw [List.append_cancel_right hrest₃]

/-- A line is changed: by blanks in its list of parameters, by text in front of the list or behind it, or
by further parameters behind the fourth. -/
inductive Edit : Text → Text → Prop where
  | blanks {before front blanks back after : Text} (hbefore : '(' ∉ before)
      (hlist : ')' ∉ front ++ back) (hblanks : blanks.all Text.isBlank) :
      Edit (before ++ '(' :: (front ++ back ++ ')' :: after))
        (before ++ '(' :: (front ++ blanks ++ back ++ ')' :: after))
  | before {front inserted back rest : Text} (hbefore : '(' ∉ front ++ back)
      (hinserted : '(' ∉ inserted) :
      Edit (front ++ back ++ '(' :: rest) (front ++ inserted ++ back ++ '(' :: rest)
  | after {before list front inserted back : Text} (hbefore : '(' ∉ before) (hlist : ')' ∉ list) :
      Edit (before ++ '(' :: (list ++ ')' :: (front ++ back)))
        (before ++ '(' :: (list ++ ')' :: (front ++ inserted ++ back)))
  | further {before front inserted back after : Text} (hbefore : '(' ∉ before)
      (hlist : ')' ∉ front ++ back) (hfour : 4 ≤ (Text.splitOn ',' front).length)
      (hback : ∀ c ∈ back.head?, c = ',') (hinserted : ')' ∉ inserted) :
      Edit (before ++ '(' :: (front ++ back ++ ')' :: after))
        (before ++ '(' :: (front ++ ',' :: inserted ++ back ++ ')' :: after))

theorem firstNames_blanks {blanks front back : Text} (h : blanks.all Text.isBlank) :
    firstNames (front ++ blanks ++ back) = firstNames (front ++ back) := by
  have hclean (list : Text) : (Text.splitOn ',' list).map cleanName = Text.splitOn ',' (cleanName list) :=
    (Text.splitOn_filter (by decide) list).symm
  have hblanks : cleanName blanks = [] := by
    rw [cleanName, List.filter_eq_nil_iff]
    intro c hc
    rw [List.all_eq_true.1 h c hc]
    exact Bool.false_ne_true
  rw [firstNames, firstNames, hclean, hclean]
  simp only [cleanName, List.filter_append] at hblanks ⊢
  rw [hblanks, List.append_nil]

theorem firstNames_further {front back : Text} (hfour : 4 ≤ (Text.splitOn ',' front).length)
    (hback : ∀ c ∈ back.head?, c = ',') : firstNames (front ++ back) = firstNames front := by
  cases back with
  | nil => rw [List.append_nil]
  | cons c back =>
    rw [hback c rfl, firstNames, Text.splitOn_append_cons, List.map_append, List.take_append_of_le_length]
    · rfl
    · rwa [List.length_map]

theorem Edit.parse_eq (h : Edit line line') (hparse : parse line = .ok p) : parse line' = .ok p := by
  cases h with
  | @blanks before front blanks back after hbefore hlist hblanks =>
    have hlist' : ')' ∉ front ++ blanks ++ back := by
      simp only [List.mem_append, not_or] at hlist ⊢
      exact ⟨⟨hlist.1, fun hmem => absurd (List.all_eq_true.1 hblanks _ hmem) (by decide)⟩, hlist.2⟩
    rw [parse_eq_ok_iff hbefore hlist] at hparse
    rwa [parse_eq_ok_iff hbefore hlist', firstNames_blanks hblanks]
  | @before front inserted back rest hbefore hinserted =>
    have hbefore' : '(' ∉ front ++ inserted ++ back := by
      simp only [List.mem_append, not_or] at hbefore ⊢
      exact ⟨⟨hbefore.1, hinserted⟩, hbefore.2⟩
    obtain ⟨list, after, rfl, hlist⟩ := closed_of_parse hbefore hparse
    rw [parse_eq_ok_iff hbefore hlist] at hparse
    rwa [parse_eq_ok_iff hbefore' hlist]
  | after hbefore hlist =>
    rw [parse_eq_ok_iff hbefore hlist] at hparse ⊢
    exact hparse
  | @further before front inserted back after hbefore hlist hfour hback hinserted =>
    have hlist' : ')' ∉ front ++ ',' :: inserted ++ back := by
      simp only [List.mem_append, List.mem_cons, not_or] at hlist ⊢
      exact ⟨⟨hlist.1, by decide, hinserted⟩, hlist.2⟩
    have hmore : ∀ c ∈ (',' :: (inserted ++ back)).head?, c = ',' := by
      rintro c ⟨⟩
      rfl
    rw [parse_eq_ok_iff hbefore hlist, firstNames_further hfour hback] at hparse
    rwa [parse_eq_ok_iff hbefore hlist', List.append_assoc, List.cons_append,
      firstNames_further hfour hmore]

/-- Of four names without a percent sign the signature holds each at its place, no other names that a
line can have lead to the same one, and changes of the line that do not matter lead to the same names and
so to the same signature. -/
theorem signature_of_parse (h : parse line = .ok p) (hfree : ∀ name ∈ p.names, '%' ∉ name) :
    p.signature = "public boolean onCommand(CommandSender ".toList ++ p.sender ++ ", Command ".toList ++
        p.command ++ ", String ".toList ++ p.label ++ ", String[] ".toList ++ p.args ++ [')'] ∧
      (∀ line' q, parse line' = .ok q → (∀ name ∈ q.names, '%' ∉ name) →
        q.signature = p.signature → q = p) ∧
      ∀ line', Relation.ReflTransGen Edit line line' → parse line' = .ok p := by
  refine ⟨signature_eq hfree, ?_, ?_⟩
  · intro line' q hq hfree' hsame
    exact signature_inj (fun name hname => ⟨not_mem_of_parse hq hname, hfree' name hname⟩)
      (fun name hname => ⟨not_mem_of_parse h hname, hfree name hname⟩) hsame
  · intro line' hedits
    induction hedits with
    | refl => exact h
    | tail _ hedit ih => exact hedit.parse_eq ih

theorem signature_of_arrow :
    (parse "(s, c, l, a) => \x7b".toList = .ok ⟨['s'], ['c'], ['l'], ['a']⟩ ∧
      ∀ name ∈ (⟨['s'], ['c'], ['l'], ['a']⟩ : Parameters).names, '%' ∉ name) ∧
    signature ⟨['s'], ['c'], ['l'], ['a']⟩ =
      "public boolean onCommand(CommandSender s, Command c, String l, String[] a)".toList ∧
    parse "function(s, c, l, a, more) => \x7b".toList = .ok ⟨['s'], ['c'], ['l'], ['a']⟩ := by
  have hparse : parse "(s, c, l, a) => \x7b".toList = .ok ⟨['s'], ['c'], ['l'], ['a']⟩ := by
    decide +kernel
  have hfree : ∀ name ∈ (⟨['s'], ['c'], ['l'], ['a']⟩ : Parameters).names, '%' ∉ name := by decide
  obtain ⟨htext, -, hedits⟩ := signature_of_parse hparse hfree
  have hmore : Edit "(s, c, l, a) => \x7b".toList "(s, c, l, a, more) => \x7b".toList :=
    @Edit.further [] "s, c, l, a".toList " more".toList [] " => \x7b".toList List.not_mem_nil
      (by decide) (by decide) nofun (by decide)
  have hword : Edit "(s, c, l, a, more) => \x7b".toList "function(s, c, l, a, more) => \x7b".toList :=
    @Edit.before [] "function".toList [] "s, c, l, a, more) => \x7b".toList List.not_mem_nil (by decide)
  refine ⟨⟨hparse, hfree⟩, htext.trans (by decide +kernel), hedits _ ?_⟩
  exact (Relation.ReflTransGen.single hmore).tail hword

end Callback.Parameters

end PluginForge
