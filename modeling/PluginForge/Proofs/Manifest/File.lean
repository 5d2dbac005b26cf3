import PluginForge.Proofs.Manifest.Entry

namespace PluginForge.Manifest

open Yaml

variable {a line name t : Text} {c : Command} {ends : Char → Bool}

section Keys

def unquote (t : Text) : Text :=
  if t.head? = some '\'' then t.tail.takeWhile (· != '\'') else t

/-- The key of a line of a document: what stands in front of its colon. -/
def keyOf (line : Text) : Text :=
  line.takeWhile (· != ':')

/-- The key that stands in the column of a command's key, if the line does not begin with the colon of
an earlier one. -/
def commandKey? (line : Text) : Option Text :=
  let entry := line.drop 2
  if entry.head? = some ':' then none
  else some (unquote (keyOf ((Text.dropHead? "? " entry).getD entry)))

def commandKeys (ends : Char → Bool) (file : Text) : List Text :=
  let entries := ((linesAt ends file).dropWhile (· != "commands:".toList)).tail
  (entries.filter (standsAt 2)).filterMap commandKey?

theorem keyOf_append (h : ':' ∉ a) : keyOf (a ++ ':' :: t) = a := by
  rw [keyOf, List.takeWhile_append_of_pos, List.takeWhile_cons, bne_self_eq_false,
    if_neg Bool.false_ne_true, List.append_nil]
  rintro ch hch
  exact bne_iff_ne.2 fun he => h (he ▸ hch)

theorem keyOf_of_not_mem (h : ':' ∉ a) : keyOf a = a :=
  List.takeWhile_eq_self_iff.2 fun _ hch => bne_iff_ne.2 fun he => h (he ▸ hch)

theorem writeScalar_name_key (hn : Java.isIdentifier c.name) :
    ∃ ch rest, (writeScalar 2 c.name).text = ch :: rest ∧ isFiller ch = false ∧ ch ≠ '?' ∧
      ':' ∉ ch :: rest ∧ unquote (ch :: rest) = c.name := by
  have hplain (ch : Char) (hch : ch ∈ c.name) :=
    plain_of_isIdentifierChar (List.all_eq_true.1 (Java.all_isIdentifierChar hn) ch hch)
  have hcolon : ':' ∉ c.name := fun h => (hplain _ h).2.2.2.2 rfl
  rcases writeScalar_identifier hn 2 with hkey | hkey
  · cases hname : c.name with
    | nil => exact absurd hname (Java.isIdentifier_ne_nil hn)
    | cons ch rest =>
      have hch : ch ∈ c.name := by
        rw [hname]
        exact List.mem_cons_self
      obtain ⟨-, hspace, hbreak, hquote, -⟩ := hplain ch hch
      refine ⟨ch, rest, by rw [← hname, hkey], by rw [isFiller, hspace, hbreak]; rfl, ?_, ?_, ?_⟩
      · rintro rfl
        exact absurd (List.all_eq_true.1 (Java.all_isIdentifierChar hn) _ hch) (by decide)
      · rw [← hname]
        exact hcolon
      · rw [unquote, List.head?_cons, if_neg fun h => hquote (Option.some.inj h)]
  · refine ⟨'\'', c.name ++ "'", by rw [hkey]; rfl, rfl, by decide, fun h => ?_, ?_⟩
    · rcases List.mem_cons.1 h with h | h
      · exact absurd h (by decide)
      · rcases List.mem_append.1 h with h | h
        · exact hcolon h
        · exact absurd (List.mem_singleton.1 h) (by decide)
    · rw [unquote, List.head?_cons, if_pos rfl]
      refine (List.takeWhile_append_of_pos fun ch hch => ?_).trans (List.append_nil _)
      exact bne_iff_ne.2 (hplain ch hch).2.2.2.1

theorem standsAt_keyLines (hn : Java.isIdentifier c.name) (hline : line ∈ keyLines ends c) :
    standsAt 2 line := by
  obtain ⟨ch, rest, hkey, hfiller, -⟩ := writeScalar_name_key hn
  rw [keyLines, hkey] at hline
  split at hline
  · rw [List.mem_singleton.1 hline]
    exact standsAt_spaces_cons (n := 2) (c := ch) (t := rest ++ ":") hfiller
  · rcases List.mem_cons.1 hline with rfl | hline
    · exact standsAt_spaces_cons (n := 2) (c := '?') (t := " " ++ ch :: rest) (by decide)
    · rw [List.mem_singleton.1 hline]
      exact standsAt_spaces_cons (n := 2) (c := ':') (t := " usage: " ++ _) (by decide)

theorem filterMap_keyLines (hn : Java.isIdentifier c.name) (ends : Char → Bool) :
    (keyLines ends c).filterMap commandKey? = [c.name] := by
  obtain ⟨ch, rest, hkey, -, hmark, hcolon, hname⟩ := writeScalar_name_key hn
  have hfirst : ch ≠ ':' := fun he => hcolon (he ▸ List.mem_cons_self)
  rw [keyLines, hkey]
  split
  · have hread : commandKey? ("  " ++ (ch :: rest) ++ ":") = some c.name := by
      have hentry : ("  " ++ (ch :: rest) ++ ":" : Text).drop 2 = ch :: (rest ++ ":") := rfl
      rw [commandKey?, hentry]
      simp only [List.head?_cons, Option.some.injEq, if_neg hfirst]
      have hplain : Text.dropHead? "? " (ch :: (rest ++ ":")) = none :=
        if_neg (Ne.symm hmark)
      rw [hplain, Option.getD_none, ← List.cons_append]
      exact (congrArg unquote (keyOf_append hcolon)).trans hname
    rw [List.filterMap_cons, hread]
    rfl
  · have hread : commandKey? ("  ? " ++ (ch :: rest)) = some c.name := by
      have hentry : ("  ? " ++ (ch :: rest) : Text).drop 2 = "? " ++ (ch :: rest) := rfl
      rw [commandKey?, hentry]
      exact congrArg some ((congrArg unquote (keyOf_of_not_mem hcolon)).trans hname)
    rw [List.filterMap_cons, hread]
    rfl

/-- In the column of the keys there are the lines of the key alone. -/
theorem block_lines (he : EndsLines ends) (hn : Java.isIdentifier c.name)
    (h : ∀ t ∈ freeTexts c, closesLine t) :
    (linesAt ends (commandBlock c)).filter (standsAt 2) = keyLines ends c ∧
      ∀ line ∈ linesAt ends (commandBlock c), standsAt 2 line ∨ Clears 4 line := by
  obtain ⟨others, hlines, hothers⟩ := linesAt_blockRows he hn h
  have hstands (line : Text) (hline : line ∈ keyLines ends c) := standsAt_keyLines hn hline
  have hblock : linesAt ends (commandBlock c) = keyLines ends c ++ others ++ [[]] := by
    rw [← hlines]
    exact linesAt_unlines he (blockRows c)
  rw [hblock]
  constructor
  · rw [List.filter_append, List.filter_append, filter_standsAt_of_clears hothers (by decide),
      List.filter_eq_self.2 hstands]
    simp [standsAt, isEmptyLine]
  · intro line hline
    rcases List.mem_append.1 hline with hline | hline
    · exact (List.mem_append.1 hline).imp (hstands line) (hothers line)
    · rw [List.mem_singleton.1 hline]
      exact .inr .nil

end Keys

section Header

/-- The members of the header, in the order in which they are written. -/
def Header.members (h : Header) : List (Text × Text) :=
  [("name", h.name), ("main", h.main), ("version", h.version), ("author", h.author),
    ("description", h.description)]

/-- A key that a line can begin with. -/
def isLead (key : Text) : Bool :=
  key.head?.any (fun ch => !isFiller ch) && key.all fun ch => ch != ':' && !isBreak ch

def memberText (member : Text × Text) : Text :=
  member.1 ++ ": " ++ (writeScalar 2 member.2).closed

theorem Header.text_eq (h : Header) : h.text = h.members.flatMap memberText ++ commandsLine := by
  rw [Header.text, document_eq]
  rfl

theorem linesAt_member (he : EndsLines ends) (hkey : isLead name) (h : closesLine t) :
    ∃ row, memberText (name, t) = row ++ ['\n'] ∧
      ∃ line later, linesAt ends row = line :: later ∧ standsAt 0 line ∧ keyOf line = name ∧
        ∀ line ∈ later, Clears 2 line := by
  obtain ⟨m, hm, hhangs, -⟩ := Written.Keeps.scalar he h 2
  rw [isLead, Bool.and_eq_true, List.all_eq_true] at hkey
  obtain ⟨hhead, hall⟩ := hkey
  have hplain (ch : Char) (hch : ch ∈ name) : ch ≠ ':' ∧ isBreak ch = false := by
    have hboth := hall ch hch
    rw [Bool.and_eq_true, bne_iff_ne, Bool.not_eq_true'] at hboth
    exact hboth
  have hlead (ch : Char) (hch : ch ∈ name ++ ": ") : ends ch = false := by
    refine Bool.eq_false_iff.2 fun hend => ?_
    rcases List.mem_append.1 hch with hch | hch
    · exact Bool.eq_false_iff.1 (hplain ch hch).2 (he.isBreak hend)
    · exact Bool.eq_false_iff.1 (he.eq_false (t := ": ") (by decide) hch) hend
  refine ⟨name ++ ": " ++ m, ?_, _, _, linesAt_append hlead, ?_, ?_, hhangs⟩
  · rw [memberText, hm, List.append_assoc (name ++ _)]
  · cases name with
    | nil => cases hhead
    | cons ch rest =>
      have hfiller : isFiller ch = false := by simpa using hhead
      exact standsAt_spaces_cons (n := 0) (c := ch) (t := rest ++ ": " ++ firstLine ends m) hfiller
  · rw [List.append_assoc]
    exact keyOf_append fun h => (hplain _ h).1 rfl

theorem linesAt_members (he : EndsLines ends) {members : List (Text × Text)}
    (hkeys : ∀ member ∈ members, isLead member.1) (h : ∀ member ∈ members, closesLine member.2) :
    ∃ rows, members.flatMap memberText = Java.unlines rows ∧
      ((rows.flatMap (linesAt ends)).filter (standsAt 0)).map keyOf = members.map Prod.fst := by
  induction members with
  | nil => exact ⟨[], rfl, rfl⟩
  | cons member members ih =>
    obtain ⟨rows, hrows, hkeyed⟩ := ih (fun m hm => hkeys m (List.mem_cons_of_mem _ hm))
      fun m hm => h m (List.mem_cons_of_mem _ hm)
    obtain ⟨row, hrow, line, later, hlines, hline, hkey, hlater⟩ :=
      linesAt_member he (hkeys member List.mem_cons_self) (h member List.mem_cons_self)
    refine ⟨row :: rows, ?_, ?_⟩
    · rw [List.flatMap_cons, hrow, hrows]
      rfl
    · rw [List.flatMap_cons, hlines, List.filter_append, List.filter_cons, if_pos hline,
        filter_standsAt_of_clears hlater (by decide), List.singleton_append, List.map_cons, hkey,
        hkeyed, List.map_cons]

end Header

section File

variable {commands : List Command} {h : Header}

theorem flatMap_commandBlock (commands : List Command) :
    commands.flatMap commandBlock = Java.unlines (commands.flatMap blockRows) := by
  rw [Java.unlines, List.flatMap_assoc]
  rfl

theorem linesAt_blocks (he : EndsLines ends) (hn : ∀ c ∈ commands, Java.isIdentifier c.name)
    (ht : ∀ c ∈ commands, ∀ t ∈ freeTexts c, closesLine t) :
    let lines := (commands.flatMap blockRows).flatMap (linesAt ends)
    (∀ line ∈ lines, Clears 2 line) ∧
      (lines.filter (standsAt 2)).filterMap commandKey? = commands.map Command.name := by
  induction commands with
  | nil => exact ⟨nofun, rfl⟩
  | cons c commands ih =>
    obtain ⟨hclears, hkeys⟩ := ih (fun c hc => hn c (List.mem_cons_of_mem _ hc))
      fun c hc => ht c (List.mem_cons_of_mem _ hc)
    have hname := hn c List.mem_cons_self
    obtain ⟨others, hlines, hothers⟩ := linesAt_blockRows he hname (ht c List.mem_cons_self)
    simp only [List.flatMap_cons, List.flatMap_append, hlines]
    constructor
    · intro line hline
      rcases List.mem_append.1 hline with hline | hline
      · rcases List.mem_append.1 hline with hline | hline
        · have hstands := standsAt_keyLines hname hline
          rw [standsAt, Bool.and_eq_true, beq_iff_eq] at hstands
          exact .inr (Nat.le_of_eq hstands.2.symm)
        · exact (hothers line hline).mono (by decide)
      · exact hclears line hline
    · rw [List.filter_append, List.filter_append, filter_standsAt_of_clears hothers (by decide),
        List.append_nil, List.filter_eq_self.2 fun line hline => standsAt_keyLines hname hline,
        List.filterMap_append, filterMap_keyLines hname, hkeys]
      rfl

/-- The lines of the file in the first column begin with the keys of the header and the line of all
commands, and the keys below that line are the names of the commands. -/
theorem file_keys (he : EndsLines ends) (hh : ∀ member ∈ h.members, closesLine member.2)
    (hn : ∀ c ∈ commands, Java.isIdentifier c.name)
    (ht : ∀ c ∈ commands, ∀ t ∈ freeTexts c, closesLine t) :
    let file := h.text ++ commands.flatMap commandBlock
    (∃ heads, (linesAt ends file).filter (standsAt 0) = heads ++ ["commands:".toList] ∧
        heads.map keyOf = h.members.map Prod.fst) ∧
      commandKeys ends file = commands.map Command.name := by
  have hleads : ∀ member ∈ h.members, isLead member.1 := by
    simp only [Header.members, List.forall_mem_cons]
    exact ⟨by decide, by decide, by decide, by decide, by decide, nofun⟩
  have hline : linesAt ends "commands:" = ["commands:".toList] :=
    List.splitOnP_eq_singleton fun ch hch => he.eq_false (t := "commands:") (by decide) hch
  obtain ⟨rows, hrows, hkeyed⟩ := linesAt_members he hleads hh
  obtain ⟨hclears, hkeys⟩ := linesAt_blocks he hn ht
  have hfile : linesAt ends (h.text ++ commands.flatMap commandBlock) =
      rows.flatMap (linesAt ends) ++ "commands:".toList ::
        ((commands.flatMap blockRows).flatMap (linesAt ends) ++ [[]]) := by
    have htext : h.text = Java.unlines (rows ++ ["commands:".toList]) := by
      rw [Header.text_eq, hrows, Java.unlines, Java.unlines, List.flatMap_append]
      rfl
    rw [htext, linesAt_unlines_append he, flatMap_commandBlock, linesAt_unlines he,
      List.flatMap_append, List.flatMap_singleton, hline, List.append_assoc]
    rfl
  have hnew : ∀ line ∈ rows.flatMap (linesAt ends), line ≠ "commands:".toList := by
    rintro line hmem rfl
    have hkey : "commands".toList ∈ h.members.map Prod.fst := by
      rw [← hkeyed]
      exact List.mem_map.2 ⟨_, List.mem_filter.2 ⟨hmem, by decide⟩, by decide⟩
    revert hkey
    simp only [Header.members, List.map_cons, List.map_nil]
    decide
  constructor
  · refine ⟨(rows.flatMap (linesAt ends)).filter (standsAt 0), ?_, hkeyed⟩
    rw [hfile, List.filter_append, List.filter_cons, if_pos (by decide), List.filter_append,
      filter_standsAt_of_clears hclears (by decide)]
    rfl
  · have hbefore : (rows.flatMap (linesAt ends)).dropWhile (· != "commands:".toList) = [] :=
      List.dropWhile_eq_nil_iff.2 fun line hline => bne_iff_ne.2 (hnew line hline)
    have hentries : ((linesAt ends (h.text ++ commands.flatMap commandBlock)).dropWhile
        (· != "commands:".toList)).tail =
          (commands.flatMap blockRows).flatMap (linesAt ends) ++ [[]] := by
      rw [hfile, List.dropWhile_append, hbefore, List.isEmpty_nil, if_pos rfl,
        List.dropWhile_cons, if_neg (by decide), List.tail_cons]
    simp only [commandKeys, hentries, List.filter_append, List.filterMap_append, hkeys]
    exact List.append_nil _

end File

end PluginForge.Manifest
