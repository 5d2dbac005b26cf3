import PluginForge.Plugin.Manifest
import PluginForge.Proofs.Yaml.Identifier
import PluginForge.Proofs.Yaml.Layout

namespace PluginForge.Manifest

open Yaml

variable {a line m t : Text} {c : Command} {ends : Char → Bool} {w : Written}

/-- A member of an entry, below its key: its first line is indented, and its other lines are so further. -/
def IsMember (ends : Char → Bool) (m : Text) : Prop :=
  Clears 2 (firstLine ends m) ∧ Hangs ends 4 false m ∧ '\r' ∉ m

/-- The text is that of members below a key. -/
def AreMembers (ends : Char → Bool) (t : Text) : Prop :=
  ∃ ms, t = Java.unlines ms ∧ ∀ m ∈ ms, IsMember ends m

theorem AreMembers.append (ht : AreMembers ends t) (ha : AreMembers ends a) :
    AreMembers ends (t ++ a) := by
  obtain ⟨ms, rfl, hms⟩ := ht
  obtain ⟨ms', rfl, hms'⟩ := ha
  exact ⟨ms ++ ms', List.flatMap_append.symm, fun m hm =>
    (List.mem_append.1 hm).elim (hms m) (hms' m)⟩

theorem AreMembers.flatMap {α : Type} {items : List α} {f : α → Text}
    (h : ∀ item ∈ items, AreMembers ends (f item)) : AreMembers ends (items.flatMap f) := by
  induction items with
  | nil => exact ⟨[], rfl, nofun⟩
  | cons item items ih =>
    rw [List.flatMap_cons]
    exact (h item List.mem_cons_self).append (ih fun i hi => h i (List.mem_cons_of_mem item hi))

theorem AreMembers.of_keeps (he : EndsLines ends) (h : w.Keeps ends 4) :
    AreMembers ends (spaces 2 ++ w.closed) := by
  obtain ⟨m, hm, hhangs, hr⟩ := h
  have hspaces (c : Char) (hc : c ∈ spaces 2) : ends c = false := by
    rw [List.eq_of_mem_replicate hc]
    exact Bool.eq_false_iff.2 fun h => absurd (he.isBreak h) (by decide)
  refine ⟨[spaces 2 ++ m], ?_, fun m' hm' => ?_⟩
  · rw [hm, Java.unlines, List.flatMap_singleton, List.append_assoc]
    rfl
  · rw [List.mem_singleton.1 hm', IsMember, firstLine_append hspaces]
    refine ⟨.spaces 2 _, hhangs.append hspaces, fun h => ?_⟩
    rcases List.mem_append.1 h with h | h
    · exact absurd (List.eq_of_mem_replicate h) (by decide)
    · exact hr h

def fields (c : Command) : List (Text × Leaf) :=
  [("usage", .text c.usage), ("description", .text c.description),
    ("aliases", .list (c.aliases.getD []))]

/-- The texts that a command's author is free to choose. -/
def freeTexts (c : Command) : List Text :=
  c.usage :: c.description :: c.aliases.getD []

theorem keeps_usage (he : EndsLines ends) (h : closesLine t) :
    (writeMember writeLeaf 2 ("usage", .text t)).Keeps ends 4 :=
  .behind he (a := "usage:") (by decide) (.behind he (a := " ") (by decide) (.scalar he h 4))

theorem keeps_description (he : EndsLines ends) (h : closesLine t) :
    (writeMember writeLeaf 2 ("description", .text t)).Keeps ends 4 :=
  .behind he (a := "description:") (by decide) (.behind he (a := " ") (by decide) (.scalar he h 4))

theorem areMembers_aliases (he : EndsLines ends) {items : List Text}
    (h : ∀ item ∈ items, closesLine item) :
    AreMembers ends (spaces 2 ++ (writeMember writeLeaf 2 ("aliases", .list items)).closed) := by
  cases items with
  | nil => exact .of_keeps he (.of_text (t := "aliases: []") (by decide) he)
  | cons first items =>
    have hkey : AreMembers ends (spaces 2 ++ Written.closed ⟨"aliases:", false⟩) :=
      .of_keeps he (.of_text (by decide) he)
    have hitem (item : Text) (hitem : item ∈ first :: items) :
        AreMembers ends (spaces 2 ++ ((writeScalar 4 item).behind "- ").closed) :=
      .of_keeps he (.behind he (by decide) (.scalar he (h item hitem) 4))
    have hitems := AreMembers.flatMap hitem
    have hclosed : (writeMember writeLeaf 2 ("aliases", .list (first :: items))).closed =
        Written.closed ⟨"aliases:", false⟩ ++ (first :: items).flatMap fun item =>
          spaces 2 ++ ((writeScalar 4 item).behind "- ").closed := by
      refine (closed_behind "aliases:" (writeLines 2 ⟨[], false⟩
        ((first :: items).map fun item => (writeScalar 4 item).behind "- "))).trans ?_
      rw [closed_writeLines, List.flatMap_map]
      rfl
    rw [hclosed, ← List.append_assoc]
    exact hkey.append hitems

/-- The lines that begin in the column of a command's key: the key, or for a long one the key and the
usage behind its colon. -/
def keyLines (ends : Char → Bool) (c : Command) : List Text :=
  let key := (writeScalar 2 c.name).text
  if Text.utf8Length c.name ≤ simpleKeyLimit then ["  " ++ key ++ ":"]
  else ["  ? " ++ key, "  : usage: " ++ firstLine ends (writeScalar 4 c.usage).closed]

def blockRows (c : Command) : List Text :=
  (Text.lines (commandDocument c)).map fun row => spaces 2 ++ row

/-- The lines of a row of an entry in the block of the entry. -/
def rowLines (ends : Char → Bool) (m : Text) : List Text :=
  (Text.splitOn '\n' m).flatMap fun row => linesAt ends (spaces 2 ++ row)

theorem rowLines_of_hangs (he : EndsLines ends) (h : Hangs ends 4 false m) :
    ∃ later, rowLines ends m = (spaces 2 ++ firstLine ends m) :: later ∧
      ∀ line ∈ later, Clears 4 line := by
  obtain ⟨later, hlines, hlater⟩ := linesAt_indented he 2 m
  refine ⟨later, hlines, fun line hline => ?_⟩
  rcases hlater line hline with hline | ⟨plain, hplain, rfl⟩
  · exact h line hline
  · exact ((h plain hplain).indent 2).mono (by decide)

theorem rowLines_of_line (he : EndsLines ends) (h : ∀ c ∈ m, isBreak c = false) :
    rowLines ends m = [spaces 2 ++ m] := by
  have hends (c : Char) (hc : c ∈ spaces 2 ++ m) : ends c = false := by
    refine Bool.eq_false_iff.2 fun hend => ?_
    rcases List.mem_append.1 hc with hc | hc
    · rw [List.eq_of_mem_replicate hc] at hend
      exact absurd (he.isBreak hend) (by decide)
    · exact Bool.eq_false_iff.1 (h c hc) (he.isBreak hend)
  have hfeed : '\n' ∉ m := fun hc => absurd (h _ hc) (by decide)
  rw [rowLines, Text.splitOn_eq_splitOn, List.splitOn_eq_singleton hfeed, List.flatMap_singleton]
  exact List.splitOnP_eq_singleton hends

theorem IsMember.clears (he : EndsLines ends) (h : IsMember ends m) (hline : line ∈ rowLines ends m) :
    Clears 4 line := by
  obtain ⟨hfirst, hhangs, -⟩ := h
  obtain ⟨later, hlines, hlater⟩ := rowLines_of_hangs he hhangs
  rw [hlines] at hline
  rcases List.mem_cons.1 hline with rfl | hline
  · exact hfirst.indent 2
  · exact hlater line hline

theorem linesAt_blockRows_of_eq (he : EndsLines ends) {heads : List Text} {rest : Text}
    (hdoc : commandDocument c = Java.unlines heads ++ rest) (hheads : ∀ m ∈ heads, '\r' ∉ m)
    (hrest : AreMembers ends rest) :
    ∃ others, (blockRows c).flatMap (linesAt ends) = heads.flatMap (rowLines ends) ++ others ∧
      ∀ line ∈ others, Clears 4 line := by
  obtain ⟨ms, rfl, hms⟩ := hrest
  have hrows : Java.unlines heads ++ Java.unlines ms = Java.unlines (heads ++ ms) :=
    List.flatMap_append.symm
  have hreturn (m : Text) (hm : m ∈ heads ++ ms) : '\r' ∉ m :=
    (List.mem_append.1 hm).elim (hheads m) fun hm => (hms m hm).2.2
  refine ⟨ms.flatMap (rowLines ends), ?_, fun line hline => ?_⟩
  · rw [blockRows, hdoc, hrows, lines_unlines hreturn, List.flatMap_map, List.flatMap_assoc,
      ← List.flatMap_append]
    rfl
  · obtain ⟨m, hm, hline⟩ := List.mem_flatMap.1 hline
    exact (hms m hm).clears he hline

def fieldLines (fields : List (Text × Leaf)) : Text :=
  fields.flatMap fun field => spaces 2 ++ (writeMember writeLeaf 2 field).closed

theorem areMembers_fieldLines (he : EndsLines ends) (h : ∀ t ∈ freeTexts c, closesLine t) :
    AreMembers ends (fieldLines (fields c).tail) := by
  refine .flatMap fun field hfield => ?_
  rcases List.mem_cons.1 hfield with rfl | hfield
  · exact .of_keeps he (keeps_description he (h _ (by simp [freeTexts])))
  · rw [List.mem_singleton.1 hfield]
    exact areMembers_aliases he fun item hitem => h item (by simp [freeTexts, hitem])

theorem closed_below_key (c : Command) :
    (writeNode 0 false (.record (fields c))).closed = "\n" ++ fieldLines (fields c) := by
  refine (closed_writeLines 2 ⟨[], false⟩ ((fields c).map (writeMember writeLeaf 2))).trans ?_
  rw [List.flatMap_map]
  rfl

theorem closed_behind_colon (c : Command) :
    (writeNode 0 true (.record (fields c))).closed =
      " usage: " ++ (writeScalar 4 c.usage).closed ++ fieldLines (fields c).tail := by
  refine (closed_writeLines 2 ((writeMember writeLeaf 2 ("usage", .text c.usage)).behind " ")
    ((fields c).tail.map (writeMember writeLeaf 2))).trans ?_
  rw [List.flatMap_map]
  rfl

theorem commandDocument_eq (c : Command) :
    commandDocument c = (writeMember writeNode 0 (c.name, .record (fields c))).closed :=
  (document_eq _).trans (List.flatMap_singleton ..)

theorem writeScalar_name (hn : Java.isIdentifier c.name) :
    ∃ key, writeScalar 2 c.name = ⟨key, false⟩ ∧ ∀ c ∈ key, isBreak c = false := by
  have hname (ch : Char) (hch : ch ∈ c.name) : isBreak ch = false :=
    (plain_of_isIdentifierChar (List.all_eq_true.1 (Java.all_isIdentifierChar hn) ch hch)).2.2.1
  have hquote (ch : Char) (hch : ch ∈ ("'" : Text)) : isBreak ch = false := by
    rw [List.mem_singleton.1 hch]
    rfl
  rcases writeScalar_identifier hn 2 with hkey | hkey
  · exact ⟨_, hkey, hname⟩
  · refine ⟨_, hkey, fun ch hch => ?_⟩
    rw [List.mem_append, List.mem_append] at hch
    exact hch.elim (·.elim (hquote ch) (hname ch)) (hquote ch)

theorem isSimpleKey_name (hn : Java.isIdentifier c.name) :
    isSimpleKey c.name = decide (Text.utf8Length c.name ≤ simpleKeyLimit) := by
  have hbreaks : c.name.any isBreak = false := by
    rw [List.any_eq_false]
    intro ch hch
    rw [(plain_of_isIdentifierChar
      (List.all_eq_true.1 (Java.all_isIdentifierChar hn) ch hch)).2.2.1]
    exact Bool.false_ne_true
  rw [isSimpleKey, hbreaks, Bool.not_false, Bool.and_true]

theorem linesAt_blockRows_short (he : EndsLines ends) (hn : Java.isIdentifier c.name)
    (h : ∀ t ∈ freeTexts c, closesLine t) (hshort : Text.utf8Length c.name ≤ simpleKeyLimit) :
    ∃ others, (blockRows c).flatMap (linesAt ends) =
        ["  " ++ (writeScalar 2 c.name).text ++ ":"] ++ others ∧
      ∀ line ∈ others, Clears 4 line := by
  have husage : closesLine c.usage := h _ List.mem_cons_self
  have hfields : AreMembers ends (fieldLines (fields c)) :=
    (AreMembers.of_keeps he (keeps_usage he husage)).append (areMembers_fieldLines he h)
  obtain ⟨key, hkey, hbreak⟩ := writeScalar_name hn
  have hcolon (ch : Char) (hch : ch ∈ key ++ ":") : isBreak ch = false := by
    rcases List.mem_append.1 hch with hch | hch
    · exact hbreak ch hch
    · rw [List.mem_singleton.1 hch]
      rfl
  have hrows : commandDocument c = Java.unlines [key ++ ":"] ++ fieldLines (fields c) := by
    rw [commandDocument_eq, writeMember, hkey]
    simp only [isSimpleKey_name hn, if_pos (decide_eq_true hshort)]
    rw [closed_behind, closed_below_key, ← List.append_assoc, Java.unlines, List.flatMap_singleton]
  have hreturn (m : Text) (hm : m ∈ [key ++ ":"]) : '\r' ∉ m := fun hr => by
    rw [List.mem_singleton.1 hm] at hr
    exact absurd (hcolon _ hr) (by decide)
  have hblock := linesAt_blockRows_of_eq he hrows hreturn hfields
  rw [List.flatMap_singleton, rowLines_of_line he hcolon] at hblock
  rw [hkey]
  exact hblock

theorem linesAt_blockRows_long (he : EndsLines ends) (hn : Java.isIdentifier c.name)
    (h : ∀ t ∈ freeTexts c, closesLine t) (hlong : ¬Text.utf8Length c.name ≤ simpleKeyLimit) :
    ∃ others, (blockRows c).flatMap (linesAt ends) =
        ["  ? " ++ (writeScalar 2 c.name).text,
          "  : usage: " ++ firstLine ends (writeScalar 4 c.usage).closed] ++ others ∧
      ∀ line ∈ others, Clears 4 line := by
  obtain ⟨m, hm, hhangs, hr⟩ := Written.Keeps.scalar he (h _ List.mem_cons_self) 4
  obtain ⟨key, hkey, hbreak⟩ := writeScalar_name hn
  have hmark (ch : Char) (hch : ch ∈ "? " ++ key) : isBreak ch = false := by
    rcases List.mem_append.1 hch with hch | hch
    · have hquestion : breakless "? " := by decide
      exact breakless_iff.1 hquestion ch hch
    · exact hbreak ch hch
  have hcolon : breakless ": usage: " := by decide
  have hends (ch : Char) (hch : ch ∈ (": usage: " : Text)) : ends ch = false :=
    he.eq_false hcolon hch
  have hrows : commandDocument c =
      Java.unlines ["? " ++ key, ": usage: " ++ m] ++ fieldLines (fields c).tail := by
    rw [commandDocument_eq, writeMember, hkey]
    simp only [isSimpleKey_name hn, if_neg (mt of_decide_eq_true hlong)]
    rw [closed_line, closed_behind, closed_behind, closed_behind_colon, hm]
    simp [Java.unlines, Written.closed, spaces]
  have hreturn (m' : Text) (hm' : m' ∈ ["? " ++ key, ": usage: " ++ m]) : '\r' ∉ m' := fun hr' => by
    rcases List.mem_cons.1 hm' with rfl | hm'
    · exact absurd (hmark _ hr') (by decide)
    · rw [List.mem_singleton.1 hm'] at hr'
      rcases List.mem_append.1 hr' with hr' | hr'
      · exact absurd (breakless_iff.1 hcolon _ hr') (by decide)
      · exact hr hr'
  obtain ⟨others, hlines, hothers⟩ :=
    linesAt_blockRows_of_eq he hrows hreturn (areMembers_fieldLines he h)
  obtain ⟨later, hlater, hclears⟩ := rowLines_of_hangs he (hhangs.append hends)
  rw [List.flatMap_cons, List.flatMap_singleton, rowLines_of_line he hmark, hlater,
    firstLine_append hends] at hlines
  refine ⟨later ++ others, ?_, fun line hline => ?_⟩
  · rw [hlines, hkey, hm, firstLine_append_end he.lineFeed]
    rfl
  · exact (List.mem_append.1 hline).elim (hclears line) (hothers line)

/-- The lines of a block are those of its key, and lines that are indented further. -/
theorem linesAt_blockRows (he : EndsLines ends) (hn : Java.isIdentifier c.name)
    (h : ∀ t ∈ freeTexts c, closesLine t) :
    ∃ others, (blockRows c).flatMap (linesAt ends) = keyLines ends c ++ others ∧
      ∀ line ∈ others, Clears 4 line := by
  rw [keyLines]
  by_cases hshort : Text.utf8Length c.name ≤ simpleKeyLimit
  · rw [if_pos hshort]
    exact linesAt_blockRows_short he hn h hshort
  · rw [if_neg hshort]
    exact linesAt_blockRows_long he hn h hshort

end PluginForge.Manifest
