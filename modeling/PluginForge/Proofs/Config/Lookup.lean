import PluginForge.Config.Lookup
import PluginForge.Proofs.Action
import PluginForge.Proofs.Files.Changes

namespace PluginForge

namespace Files

variable {at' : Location} {name : Text} {p q : Path} {t t' : Tree}

namespace Path

/-- The path that is reached from another one by going to the parent some times. -/
def above : Nat → Path → Option Path
  | 0, p => some p
  | n + 1, p => p.parent?.bind (above n)

theorem ancestors_eq (p : Path) : p.ancestors = p :: p.parent?.elim [] ancestors := by
  rw [ancestors]
  split
  · next hparent => exact congrArg (fun parent? => p :: Option.elim parent? [] ancestors) hparent.symm
  · next parent hparent =>
    exact congrArg (fun parent? => p :: Option.elim parent? [] ancestors) hparent.symm

theorem above_eq_getElem? (n : Nat) (p : Path) : above n p = p.ancestors[n]? := by
  induction n generalizing p with
  | zero =>
    rw [ancestors_eq]
    rfl
  | succ n ih =>
    rw [above, ancestors_eq, List.getElem?_cons_succ]
    cases p.parent? with
    | none => rfl
    | some parent => exact ih parent

/-- Every parent is a shorter text, so there are not many of them. -/
theorem length_ancestors (p : Path) : p.ancestors.length ≤ p.text.length + 1 := by
  induction hl : p.text.length using Nat.strongRecOn generalizing p with
  | ind n ih =>
    rw [ancestors_eq, List.length_cons]
    cases hparent : p.parent? with
    | none => exact Nat.succ_le_succ (Nat.zero_le n)
    | some parent =>
      have hlength := length_parent? hparent
      have hparents := ih _ (hl ▸ hlength) parent rfl
      rw [Option.elim_some]
      omega

theorem steps_above {n : Nat} (h : above n p = some q) : q.steps <+: p.steps := by
  rw [above_eq_getElem?] at h
  exact steps_of_mem_ancestors (List.mem_of_getElem? h)

end Path

namespace Tree

/-- A path leads to a directory, which is where its steps start if it has none. -/
def LeadsTo (t : Tree) (p : Path) (at' : Location) : Prop :=
  '\x00' ∉ p.text ∧ t.walk [] p.steps = .ok at' ∧ t.node? at' = some .directory

def HasEntry (t : Tree) (p : Path) (name : Text) : Prop :=
  ∃ at', t.LeadsTo p at' ∧ (t.node? (at' ++ [name])).isSome

theorem LeadsTo.eq_names (h : t.LeadsTo p at') : at' = p.names :=
  walk_eq_follow h.2.1

theorem exists?_join (hn : isEntryName name) (hl : Text.utf8Length name ≤ nameLimit)
    (hnul : '\x00' ∉ name) : t.exists? (p.join name) ↔ t.HasEntry p name := by
  have hnul' : (p.join name).text.contains '\x00' = false ↔ '\x00' ∉ p.text := by
    rw [← Bool.not_eq_true, List.contains_iff_mem, not_iff_not]
    refine ⟨fun h => ?_, fun h => mem_text_join hn (.inl h)⟩
    rcases mem_of_mem_text_join hn h with h | h | h
    · exact h
    · exact absurd h (by decide)
    · exact absurd h hnul
  constructor
  · intro h
    obtain ⟨⟨place, node⟩, hfind⟩ := exists_ok_of_isOk h
    obtain ⟨htarget, hnode⟩ := find_eq_ok.1 hfind
    obtain ⟨hwalk, hd⟩ := walk_of_target_join hn htarget
    rw [target_eq_names htarget, names_join hn] at hnode
    refine ⟨p.names, ⟨hnul'.1 (target_eq_ok.1 htarget).1, hwalk, hd⟩, Option.isSome_of_eq_some hnode⟩
  · rintro ⟨at', hleads, hentry⟩
    obtain rfl := hleads.eq_names
    obtain ⟨node, hnode⟩ := Option.isSome_iff_exists.1 hentry
    have htarget := target_join hleads.2.1 hleads.2.2 hn hl (hnul'.2 hleads.1)
    rw [← names_join hn] at hnode
    rw [exists?, find_eq_ok.2 ⟨htarget, hnode⟩]
    rfl

end Tree

end Files

section FirstOf

variable {α β : Type} {b : β} {f g : α → Option β} {l : List α}

theorem findSome?_eq_some_iff_getElem? :
    l.findSome? f = some b ↔
      ∃ (n : Nat) (a : α), l[n]? = some a ∧ f a = some b ∧
        ∀ m < n, ∀ x, l[m]? = some x → f x = none := by
  rw [List.findSome?_eq_some_iff]
  constructor
  · rintro ⟨before, a, after, rfl, hfa, hnone⟩
    refine ⟨before.length, a, List.getElem?_append_right (Nat.le_refl _) |>.trans (by simp), hfa, ?_⟩
    intro m hm x hx
    rw [List.getElem?_append_left hm] at hx
    exact hnone x (List.mem_of_getElem? hx)
  · rintro ⟨n, a, ha, hfa, hnone⟩
    obtain ⟨hn, rfl⟩ := List.getElem?_eq_some_iff.1 ha
    refine ⟨l.take n, l[n], l.drop (n + 1), ?_, hfa, ?_⟩
    · rw [← List.drop_eq_getElem_cons hn, List.take_append_drop]
    · intro x hx
      obtain ⟨m, hm⟩ := List.mem_iff_getElem?.1 hx
      rw [List.getElem?_take] at hm
      split at hm
      · next hlt => exact hnone m hlt x hm
      · cases hm

theorem findSome?_congr
    (h : ∀ (n : Nat) (a : α), l[n]? = some a → (∀ m < n, ∀ x, l[m]? = some x → f x = none) →
      g a = f a) :
    l.findSome? g = l.findSome? f := by
  induction l with
  | nil => rfl
  | cons a l ih =>
    have hhead : g a = f a := h 0 a rfl fun m hm => absurd hm (Nat.not_lt_zero m)
    rw [List.findSome?_cons, List.findSome?_cons, hhead]
    cases hfa : f a with
    | some b => rfl
    | none =>
      refine ih fun n x hx hnone => h (n + 1) x hx fun m hm y hy => ?_
      cases m with
      | zero =>
        cases hy
        exact hfa
      | succ m => exact hnone m (Nat.lt_of_succ_lt_succ hm) y hy

end FirstOf

namespace Config

open Files (Location Path Tree)

variable {name : Text} {p q start : Path} {t t' : Tree}

/-- One of the names of a configuration file is an entry of the directory that a path leads to. -/
def HasFile (t : Tree) (p : Path) : Prop :=
  ∃ name ∈ fileNames, t.HasEntry p name

/-- A name is that of the configuration file of a directory. -/
def Prefers (t : Tree) (p : Path) (name : Text) : Prop :=
  t.HasEntry p name ∧
    (name = ".plugsmith.json" ∨ name = "plugsmith.json" ∧ ¬t.HasEntry p ".plugsmith.json")

/-- A path is looked at: it is among a path and its parents, and none that is nearer has a configuration
file. -/
def LooksAt (t : Tree) (start p : Path) : Prop :=
  ∃ n, start.above n = some p ∧ ∀ m < n, ∀ q, start.above m = some q → ¬HasFile t q

theorem fileNames_names (h : name ∈ fileNames) :
    Files.isEntryName name ∧ Text.utf8Length name ≤ Tree.nameLimit ∧ '\x00' ∉ name := by
  have hnames : ∀ name ∈ fileNames, Files.isEntryName name ∧
      Text.utf8Length name ≤ Tree.nameLimit ∧ '\x00' ∉ name := by decide
  exact hnames name h

theorem exists?_fileName (h : name ∈ fileNames) (t : Tree) (p : Path) :
    t.exists? (p.join name) ↔ t.HasEntry p name := by
  obtain ⟨hn, hl, hnul⟩ := fileNames_names h
  exact Tree.exists?_join hn hl hnul

theorem inDirectory?_eq_none : inDirectory? t p = none ↔ ¬HasFile t p := by
  rw [inDirectory?, List.find?_eq_none, List.forall_mem_map, HasFile]
  simp only [not_exists, not_and]
  exact forall₂_congr fun name hname => not_congr (exists?_fileName hname t p)

theorem inDirectory?_eq_some :
    inDirectory? t p = some q ↔ ∃ name, Prefers t p name ∧ q = p.join name := by
  have hfirst := @exists?_fileName ".plugsmith.json" (by decide) t p
  have hsecond := @exists?_fileName "plugsmith.json" (by decide) t p
  rw [inDirectory?, fileNames, List.map_cons, List.map_singleton, List.find?_cons, List.find?_singleton]
  constructor
  · intro h
    split at h
    · next hexists =>
      cases h
      exact ⟨_, ⟨hfirst.1 hexists, .inl rfl⟩, rfl⟩
    next hmissing =>
    split at h
    · next hexists =>
      cases h
      refine ⟨_, ⟨hsecond.1 hexists, .inr ⟨rfl, fun hentry => ?_⟩⟩, rfl⟩
      rw [hfirst.2 hentry] at hmissing
      cases hmissing
    · cases h
  · rintro ⟨name, ⟨hentry, rfl | ⟨rfl, hmissing⟩⟩, rfl⟩
    · rw [hfirst.2 hentry]
    · rw [Bool.eq_false_iff.2 fun h => hmissing (hfirst.1 h), if_pos (hsecond.2 hentry)]

theorem inDirectory?_congr (h : ∀ name ∈ fileNames, t'.HasEntry p name ↔ t.HasEntry p name) :
    inDirectory? t' p = inDirectory? t p := by
  have hexists : ∀ name ∈ fileNames, t'.exists? (p.join name) = t.exists? (p.join name) := by
    intro name hname
    rw [Bool.eq_iff_iff, exists?_fileName hname, exists?_fileName hname]
    exact h name hname
  rw [fileNames, List.forall_mem_cons, List.forall_mem_singleton] at hexists
  simp only [inDirectory?, fileNames, List.map_cons, List.map_nil, List.find?_cons, List.find?_nil,
    hexists.1, hexists.2]

/-- A state has further entries. None of them is named like a configuration file and stands where a path
leads that is looked at, and no directory is among them if the path takes steps upwards. -/
structure AddedApart (start : Path) (t t' : Tree) : Prop where
  kept : ∀ at' node, t.node? at' = some node → t'.node? at' = some node
  directories : ['.', '.'] ∈ start.steps → Tree.KeepsDirectories t' t
  apart : ∀ at' name, t.node? (at' ++ [name]) = none → (t'.node? (at' ++ [name])).isSome →
    name ∈ fileNames → ∀ p, LooksAt t start p → p.names ≠ at'

theorem AddedApart.hasEntry_iff (h : AddedApart start t t') (hp : LooksAt t start p)
    (hname : name ∈ fileNames) : t'.HasEntry p name ↔ t.HasEntry p name := by
  constructor
  · rintro ⟨at', hleads, hentry⟩
    have hat := hleads.eq_names
    have hold : (t.node? (at' ++ [name])).isSome := by
      by_contra hnew
      exact h.apart at' name (Option.not_isSome_iff_eq_none.1 hnew) hentry hname p hp hat.symm
    have hd := Tree.node?_of_below hold (List.cons_ne_nil _ _)
    refine ⟨at', ⟨hleads.1, ?_, hd⟩, hold⟩
    by_cases hup : ['.', '.'] ∈ start.steps
    · exact Tree.walk_keep (h.directories hup) hleads.2.1
    · -- Without steps upwards the way leads through directories above the end.
      obtain ⟨n, habove, -⟩ := hp
      have hinside : ['.', '.'] ∉ p.steps := fun hmem => hup ((Path.steps_above habove).subset hmem)
      refine Tree.walk_congr hleads.2.1 fun way hway _ => ?_
      obtain ⟨rest, hrest⟩ := hway
      have hprefix : Files.follow [] way <+: at' := by
        rw [hat, Files.names_eq_follow, ← hrest, Files.follow_append]
        exact Files.prefix_follow
          (fun hmem => hinside (hrest ▸ List.mem_append_right way hmem)) _
      by_cases hend : Files.follow [] way = at'
      · rw [hend]
        exact hd
      · exact Tree.node?_above (Option.isSome_of_eq_some hd) hprefix hend
  · rintro ⟨at', hleads, hentry⟩
    obtain ⟨node, hnode⟩ := Option.isSome_iff_exists.1 hentry
    have hkeeps : Tree.KeepsDirectories t t' := fun at' hd => h.kept at' _ hd
    exact ⟨at', ⟨hleads.1, Tree.walk_keep hkeeps hleads.2.1, hkeeps at' hleads.2.2⟩,
      Option.isSome_of_eq_some (h.kept _ node hnode)⟩

/-- The search goes from a path to its parents, of which there are no more than the path has characters, and
finds the preferred configuration file of the first that leads to a directory with one. It fails only if
none does. What it finds stays the same when other files are added, and when configuration files are added
to directories to which only paths lead that are farther away. -/
theorem find?_nearest (t : Tree) (start : Path) :
    (∃ n ≤ start.text.length + 1, ∀ m, start.above m = none ↔ n ≤ m) ∧
      (∀ p, find? t start = some p ↔
        ∃ directory name, LooksAt t start directory ∧ Prefers t directory name ∧
          p = directory.join name) ∧
      (find? t start = none ↔ ∀ n directory, start.above n = some directory → ¬HasFile t directory) ∧
      ∀ t', AddedApart start t t' → find? t' start = find? t start := by
  have hlooks {n : Nat} {p : Path} (hp : start.ancestors[n]? = some p)
      (hnearer : ∀ m < n, ∀ q, start.ancestors[m]? = some q → inDirectory? t q = none) :
      LooksAt t start p := by
    refine ⟨n, (Path.above_eq_getElem? n start).trans hp, fun m hm q hq => ?_⟩
    rw [Path.above_eq_getElem?] at hq
    exact inDirectory?_eq_none.1 (hnearer m hm q hq)
  refine ⟨⟨_, start.length_ancestors, fun m => ?_⟩, fun p => ?_, ?_, fun t' hadded => ?_⟩
  · rw [Path.above_eq_getElem?, List.getElem?_eq_none_iff]
  · rw [find?, findSome?_eq_some_iff_getElem?]
    constructor
    · rintro ⟨n, directory, hdirectory, hfound, hnearer⟩
      obtain ⟨name, hprefers, rfl⟩ := inDirectory?_eq_some.1 hfound
      exact ⟨directory, name, hlooks hdirectory hnearer, hprefers, rfl⟩
    · rintro ⟨directory, name, ⟨n, hdirectory, hnearer⟩, hprefers, rfl⟩
      rw [Path.above_eq_getElem?] at hdirectory
      refine ⟨n, directory, hdirectory, inDirectory?_eq_some.2 ⟨name, hprefers, rfl⟩, ?_⟩
      intro m hm q hq
      exact inDirectory?_eq_none.2 (hnearer m hm q ((Path.above_eq_getElem? m start).trans hq))
  · rw [find?, List.findSome?_eq_none_iff]
    constructor
    · intro h n directory hdirectory
      rw [Path.above_eq_getElem?] at hdirectory
      exact inDirectory?_eq_none.1 (h directory (List.mem_of_getElem? hdirectory))
    · intro h directory hmem
      obtain ⟨n, hn⟩ := List.mem_iff_getElem?.1 hmem
      exact inDirectory?_eq_none.2 (h n directory ((Path.above_eq_getElem? n start).trans hn))
  · rw [find?, find?]
    refine findSome?_congr fun n p hp hnearer => inDirectory?_congr fun name hname => ?_
    exact hadded.hasEntry_iff (hlooks hp hnearer) hname

def settled : Tree :=
  (Tree.empty.put ["a".toList] .directory).put ["a".toList, "plugsmith.json".toList]
    (.file (Text.toUtf8 "\x7b\x7d"))

def unsettled : Tree :=
  settled.put [".plugsmith.json".toList] (.file (Text.toUtf8 "\x7b\x7d"))

theorem names_ne_of_looksAt (h : LooksAt settled ⟨"a/b"⟩ p) : p.names ≠ [] := by
  obtain ⟨n, habove, hnearer⟩ := h
  match n with
  | 0 =>
    cases habove
    decide
  | 1 =>
    have hparent : Path.above 1 ⟨"a/b"⟩ = some ⟨"a"⟩ := by decide
    cases hparent.symm.trans habove
    decide
  | n + 2 =>
    have hfound : inDirectory? settled ⟨"a"⟩ ≠ none := by decide +kernel
    have hmissing := hnearer 1 (Nat.one_lt_succ_succ n) ⟨"a"⟩ (by decide)
    exact absurd (inDirectory?_eq_none.2 hmissing) hfound

theorem find?_nearest_settled :
    AddedApart ⟨"a/b"⟩ settled unsettled ∧
      find? settled ⟨"a/b"⟩ = some ⟨"a/plugsmith.json"⟩ ∧
      find? unsettled ⟨"a/b"⟩ = some ⟨"a/plugsmith.json"⟩ := by
  have hhold : settled.CanHold [".plugsmith.json".toList] (.file (Text.toUtf8 "\x7b\x7d")) := by
    decide +kernel
  have hnew : settled.node? [".plugsmith.json".toList] = none := by decide +kernel
  have hadded : AddedApart ⟨"a/b"⟩ settled unsettled := by
    refine ⟨?_, ?_, ?_⟩
    · intro at' node hnode
      rw [unsettled, Tree.node?_put hhold, if_neg, hnode]
      rintro rfl
      cases hnew.symm.trans hnode
    · intro hup
      exact absurd hup (by decide)
    · intro at' name hnone hsome _ p hlooks
      rw [unsettled, Tree.node?_put hhold] at hsome
      split at hsome
      · next hplace =>
        have hroot : at' ++ [name] = [] ++ [".plugsmith.json".toList] := hplace
        rw [(List.append_inj' hroot rfl).1]
        exact names_ne_of_looksAt hlooks
      · rw [hnone] at hsome
        cases hsome
  have hfound : find? settled ⟨"a/b"⟩ = some ⟨"a/plugsmith.json"⟩ := by decide +kernel
  obtain ⟨-, -, -, hframe⟩ := find?_nearest settled ⟨"a/b"⟩
  exact ⟨hadded, hfound, (hframe unsettled hadded).trans hfound⟩

end Config

end PluginForge
