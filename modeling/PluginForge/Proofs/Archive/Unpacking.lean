import PluginForge.Proofs.Archive.Names
import PluginForge.Proofs.Archive.Zip
import PluginForge.Proofs.Files.Listing
import PluginForge.Proofs.Text.Trimming

namespace PluginForge.Archive

open Files (Listing Lists Location Node Path Tree isEntryName)

variable {at' names target : Location} {compression : Config.Compression} {e : Entry} {node : Node}
  {source : Path} {t t' : Tree} {top : Text}

/-- What an entry stands for: the names of directories end in a slash. -/
def Entry.toNode (e : Entry) : Node :=
  if e.isDirectory then .directory else .file e.content

/-- The names below a prefix that lead to what an entry stands for, if it is named below the prefix. -/
def place? (top name : Text) : Option Location :=
  match Text.dropHead? top name with
  | some [] => some []
  | some ('/' :: rest) => some (Files.Path.mk rest).steps
  | _ => none

/-- Creates what an entry below a prefix stands for. There must be a directory for it, and nothing in its
place. -/
def unpackEntry (top : Text) (target : Location) (t : Tree) (e : Entry) : Option Tree := do
  let names ← place? top e.name
  if t.CanHold (target ++ names) e.toNode ∧ (t.node? (target ++ names)).isNone then
    some (t.put (target ++ names) e.toNode)
  else none

/-- Creates what the entries below a prefix stand for, one after another, at and below a place. -/
def unpack (top : Text) (target : Location) (entries : List Entry) (t : Tree) : Option Tree :=
  entries.foldlM (unpackEntry top target) t

theorem name_entryOf_cons (compression : Config.Compression) (top name : Text) (names : Location)
    (node : Node) :
    (entryOf compression top (name :: names, node)).name =
      top ++ '/' :: (entryOf compression name (names, node)).name := by
  cases node <;> simp [entryOf, entryName]

theorem place?_entryOf (compression : Config.Compression) (top : Text) (node : Node)
    (hn : ∀ name ∈ names, isEntryName name) :
    place? top (entryOf compression top (names, node)).name = some names := by
  rw [place?]
  cases names with
  | nil =>
    cases node with
    | directory =>
      rw [entryOf, entryName, List.flatMap_nil, List.append_nil, Text.dropHead?_append]
      rfl
    | file content =>
      rw [entryOf, entryName, List.flatMap_nil, Text.dropHead?_append]
  | cons name names =>
    rw [name_entryOf_cons, Text.dropHead?_append]
    exact congrArg some (steps_entryOf compression node (hn name List.mem_cons_self)
      fun other hother => hn other (List.mem_cons_of_mem name hother))

theorem getLast?_entryName (ht : top.getLast? ≠ some '/') (hn : ∀ name ∈ names, isEntryName name) :
    (entryName top names).getLast? ≠ some '/' := by
  rcases List.eq_nil_or_concat names with rfl | ⟨init, name, rfl⟩
  · rwa [entryName, List.flatMap_nil, List.append_nil]
  · obtain ⟨-, hne, hslash⟩ := Files.isEntryName_iff.1 (hn name (by simp))
    obtain ⟨stem, c, rfl⟩ := (List.eq_nil_or_concat name).resolve_left hne
    have hname : entryName top (init.concat (stem.concat c)) = entryName top init ++ '/' :: stem ++ [c] := by
      simp [entryName]
    rw [hname, List.getLast?_concat, ne_eq, Option.some.injEq]
    rintro rfl
    exact hslash (by simp)

theorem toNode_entryOf (compression : Config.Compression) (ht : top.getLast? ≠ some '/')
    (hn : ∀ name ∈ names, isEntryName name) (node : Node) :
    (entryOf compression top (names, node)).toNode = node := by
  cases node with
  | directory => simp [Entry.toNode, Entry.isDirectory, entryOf]
  | file content =>
    have hfile : (entryOf compression top (names, .file content)).isDirectory = false := by
      rw [Entry.isDirectory, beq_eq_false_iff_ne]
      exact getLast?_entryName ht hn
    rw [Entry.toNode, hfile]
    rfl

/-- The prefix of a directory's entries: no slash is doubled behind it. -/
def trimmed (top : Text) : Text :=
  Text.dropEndWhile (· == '/') top

theorem getLast?_trimmed (top : Text) : (trimmed top).getLast? ≠ some '/' := by
  rw [trimmed, Text.dropEndWhile_eq_rdropWhile]
  intro hlast
  have hne : top.rdropWhile (· == '/') ≠ [] := by
    intro hnil
    rw [hnil] at hlast
    cases hlast
  have hnot := List.rdropWhile_last_not (· == '/') top hne
  rw [List.getLast?_eq_some_getLast hne, Option.some.injEq] at hlast
  rw [hlast] at hnot
  exact hnot rfl

theorem nodup_names_below (t : Tree) (at' : Location) (compression : Config.Compression) (top : Text) :
    (((t.below at').map (entryOf compression top)).map Entry.name).Nodup := by
  refine List.pairwise_map.2 (List.pairwise_map.2 ?_)
  apply (List.pairwise_map.1 (t.nodup_below at')).imp_of_mem
  rintro ⟨names, node⟩ ⟨names', node'⟩ hbelow hbelow' hne he
  have hplace := place?_entryOf compression top node fun _ hn => Tree.isEntryName_of_mem_below hbelow hn
  rw [he, place?_entryOf compression top node' fun _ hn => Tree.isEntryName_of_mem_below hbelow' hn]
    at hplace
  exact hne (Option.some.inj hplace).symm

theorem addDirectory_empty (h : t.find source = .ok (at', node)) (compression : Config.Compression)
    (top : Text) :
    (empty compression).addDirectory t source top =
      (.ok (), ⟨compression, (t.below at').map (entryOf compression (trimmed top))⟩) := by
  rw [addDirectory, h]
  exact pushAll_ok (nodup_names_below t at' compression (trimmed top))

theorem unpackEntry_entryOf (ht : top.getLast? ≠ some '/') (hn : ∀ name ∈ names, isEntryName name)
    (hhold : t.CanHold (target ++ names) node) (hfree : t.node? (target ++ names) = none) :
    unpackEntry top target t (entryOf compression top (names, node)) =
      some (t.put (target ++ names) node) := by
  rw [unpackEntry, place?_entryOf compression top node hn, toNode_entryOf compression ht hn]
  exact if_pos ⟨hhold, Option.isNone_iff_eq_none.2 hfree⟩

/-- The entries for all that stands at and below a place rebuild it wherever there is room for it. -/
theorem unpack_below (ht : top.getLast? ≠ some '/') (hnode : t.node? at' = some node)
    (hhold : t'.CanHold target node) (hfree : t'.node? target = none) :
    ∃ t'', unpack top target ((t.below at').map (entryOf compression top)) t' = some t'' ∧
      t'.SameOutside target t'' ∧
      ∀ names, t''.node? (target ++ names) = t.node? (at' ++ names) := by
  have hempty (names : Location) (hnames : names ≠ []) : t'.node? (target ++ names) = none := by
    apply Tree.node?_eq_none _ (List.prefix_append target names)
    · exact fun he => hnames (List.self_eq_append_right.1 he)
    · rw [hfree]
      exact nofun
  have hunpack : ∃ t'', unpack top target ((t.below at').map (entryOf compression top)) t' = some t'' ∧
      Tree.Copied target (t.below at') t' t'' := by
    obtain ⟨rest, hbelow⟩ := Tree.below_eq_cons hnode
    rw [← List.append_nil target] at hhold hfree
    rw [unpack, List.foldlM_map]
    nth_rewrite 1 [hbelow]
    rw [List.foldlM_cons, unpackEntry_entryOf ht (List.forall_mem_nil _) hhold hfree]
    rw [List.append_nil] at hhold ⊢
    refine (Tree.Copied.root hhold hempty).foldlM (fun t' names node hmem hhold hfree => ?_)
      (List.cons_ne_nil _ _) hbelow
    exact unpackEntry_entryOf ht (fun _ hn => Tree.isEntryName_of_mem_below hmem hn) hhold hfree
  obtain ⟨t'', hunpack, hcopied⟩ := hunpack
  exact ⟨t'', hunpack, hcopied.outside, hcopied.node?_eq⟩

/-- Packing a directory neither loses nor invents anything. What a reader finds in the finished archive is
one entry for each place at and below the directory, with a name of its own; the entries are the visits of any
listing of the directory, once each of its directories is sorted by the bytes of the names; and unpacking
them where there is room for the directory rebuilds it, and changes nothing else. -/
theorem addDirectory_tree {read : Reader} {write : Writer} (hread : Understands read write)
    (h : t.find source = .ok (at', node)) (compression : Config.Compression) (top : Text) :
    ∃ a, (empty compression).addDirectory t source top = (.ok (), a) ∧
      (Fits a.entries → ∃ bytes, a.finish write = .ok bytes) ∧
      (∀ bytes, a.finish write = .ok bytes → read bytes = some a.entries) ∧
      a.names.Nodup ∧
      (∀ e, e ∈ a.entries ↔ ∃ names found, t.node? (at' ++ names) = some found ∧
        e = entryOf compression (trimmed top) (names, found)) ∧
      (∃ l, Lists t at' l) ∧
      (∀ l, Lists t at' l → a.entries = l.sorted.visits.map (entryOf compression (trimmed top))) ∧
      ∀ target t', t'.CanHold target node → t'.node? target = none →
        ∃ t'', unpack (trimmed top) target a.entries t' = some t'' ∧ t'.SameOutside target t'' ∧
          ∀ names, t''.node? (target ++ names) = t.node? (at' ++ names) := by
  have hnode := (Tree.find_eq_ok.1 h).2
  have hdistinct := nodup_names_below t at' compression (trimmed top)
  refine ⟨_, addDirectory_empty h compression top, hread.finish_of_fits hdistinct,
    fun _ => hread.read_finish hdistinct, hdistinct, fun e => ?_,
    Files.exists_lists (Option.isSome_of_eq_some hnode), fun l hl => ?_,
    fun target t' hhold hfree => unpack_below (getLast?_trimmed top) hnode hhold hfree⟩
  · rw [List.mem_map]
    constructor
    · rintro ⟨⟨names, found⟩, hmem, rfl⟩
      exact ⟨names, found, Tree.mem_below.1 hmem, rfl⟩
    · rintro ⟨names, found, hfound, rfl⟩
      exact ⟨(names, found), Tree.mem_below.2 hfound, rfl⟩
  · rw [hl.below_eq]

/-- A directory with a name that begins another one: `a` and what is in it come before `a.b`, although the
bytes of `a.b` come before those of `a/x`. -/
def prefixed : Tree :=
  (((Tree.empty.put ["d"] .directory).put ["d", "a"] .directory).put ["d", "a", "x"]
    (.file ByteArray.empty)).put ["d", "a.b"] (.file ByteArray.empty)

theorem addDirectory_tree_prefixed :
    prefixed.find ⟨"d"⟩ = .ok (["d".toList], .directory) ∧
      ∃ a bytes entries, (empty .stored).addDirectory prefixed ⟨"d"⟩ "top//" = (.ok (), a) ∧
        a.finish Zip.write = .ok bytes ∧ Zip.read bytes = some entries ∧
        entries.map Entry.name =
          ["top/".toList, "top/a/".toList, "top/a/x".toList, "top/a.b".toList] := by
  have hfind : prefixed.find ⟨"d"⟩ = .ok (["d".toList], .directory) := rfl
  obtain ⟨a, hadd, hfits, hread, -⟩ := addDirectory_tree Zip.understands hfind .stored "top//"
  refine ⟨hfind, ?_⟩
  cases hadd
  obtain ⟨bytes, hbytes⟩ := hfits (by decide +kernel)
  exact ⟨_, bytes, _, rfl, hbytes, hread bytes hbytes, rfl⟩

end PluginForge.Archive
