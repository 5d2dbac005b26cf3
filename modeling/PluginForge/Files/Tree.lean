import PluginForge.Files.Error
import PluginForge.Table

namespace PluginForge.Files

/-- The names on the way from the root to a place. -/
abbrev Location := List Text

inductive Node where
  | directory
  | file (content : ByteArray)

def Node.isDirectory : Option Node → Bool
  | some .directory => true
  | _ => false

theorem Node.isDirectory_iff {node : Option Node} : isDirectory node ↔ node = some .directory := by
  match node with
  | none | some (.file _) => simp [isDirectory]
  | some .directory => simp [isDirectory]

/-- A step that leads to a place of its own. -/
def isName (step : Text) : Bool :=
  step != ['.'] && step != ['.', '.']

/-- A name that an entry of a directory can have. -/
def isEntryName (name : Text) : Bool :=
  isName name && !name.isEmpty && !name.contains '/'

/-- What stands at a place; the root is a directory that needs no entry. -/
def nodeIn (nodes : Table Location Node) (at' : Location) : Option Node :=
  if at' = [] then some .directory else nodes.get? at'

/-- Every entry has a name of its own, and stands in a directory. -/
def Rooted (nodes : Table Location Node) : Prop :=
  ∀ key, (nodes.get? key).isSome →
    ∃ at' name, key = at' ++ [name] ∧ isEntryName name ∧ nodeIn nodes at' = some .directory

structure Tree where
  nodes : Table Location Node
  rooted : Rooted nodes

theorem nodeIn_eq_get? {nodes : Table Location Node} {at' : Location} (h : at' ≠ []) :
    nodeIn nodes at' = nodes.get? at' :=
  if_neg h

theorem Rooted.empty : Rooted Table.empty :=
  fun _ h => nomatch h

/-- Entries may be taken away as long as no directory goes without what it holds. -/
theorem Rooted.keep {nodes : Table Location Node} (h : Rooted nodes) {p : Location → Bool}
    (hp : ∀ at' name, p (at' ++ [name]) → p at' ∨ at' = []) : Rooted (nodes.keep p) := by
  intro key hk
  rw [Table.get?_keep] at hk
  split at hk
  · next hkey =>
    obtain ⟨at', name, rfl, hn, hd⟩ := h key hk
    refine ⟨at', name, rfl, hn, ?_⟩
    by_cases ha : at' = []
    · exact if_pos ha
    · rw [nodeIn_eq_get? ha, Table.get?_keep, if_pos ((hp at' name hkey).resolve_right ha)]
      rwa [nodeIn_eq_get? ha] at hd
  · cases hk

/-- An entry may be added to a directory unless a directory would become a file. -/
theorem Rooted.insert {nodes : Table Location Node} (h : Rooted nodes) {at' : Location}
    {name : Text} {node : Node} (hn : isEntryName name)
    (hd : nodeIn nodes at' = some .directory)
    (hr : node = .directory ∨ nodes.get? (at' ++ [name]) ≠ some .directory) :
    Rooted (nodes.insert (at' ++ [name]) node) := by
  have keeps {a : Location} (ha : nodeIn nodes a = some .directory) :
      nodeIn (nodes.insert (at' ++ [name]) node) a = some .directory := by
    by_cases he : a = []
    · exact if_pos he
    · rw [nodeIn_eq_get? he] at ha ⊢
      rw [Table.get?_insert]
      split
      · next heq =>
        subst heq
        exact congrArg some (hr.resolve_right fun hne => hne ha)
      · exact ha
  intro key hk
  rw [Table.get?_insert] at hk
  split at hk
  · next heq => exact ⟨at', name, heq, hn, keeps hd⟩
  · obtain ⟨a, n, rfl, hn', ha⟩ := h key hk
    exact ⟨a, n, rfl, hn', keeps ha⟩

namespace Tree

def empty : Tree :=
  ⟨Table.empty, .empty⟩

def node? (t : Tree) (at' : Location) : Option Node :=
  nodeIn t.nodes at'

/-- A node can be put at a place: there is a directory for it, and no directory becomes a file. -/
def CanHold (t : Tree) (at' : Location) (node : Node) : Prop :=
  match at'.getLast? with
  | none => False
  | some name =>
    isEntryName name ∧ Node.isDirectory (t.node? at'.dropLast) ∧
      (Node.isDirectory (t.node? at') → Node.isDirectory (some node))

instance (t : Tree) (at' : Location) (node : Node) : Decidable (t.CanHold at' node) := by
  unfold CanHold
  split <;> infer_instance

theorem rooted_insert {t : Tree} {at' : Location} {node : Node} (h : t.CanHold at' node) :
    Rooted (t.nodes.insert at' node) := by
  unfold CanHold at h
  split at h
  · exact h.elim
  · next name hl =>
    obtain ⟨hn, hd, hr⟩ := h
    obtain ⟨parent, rfl⟩ := List.getLast?_eq_some_iff.1 hl
    rw [List.dropLast_concat] at hd
    refine t.rooted.insert hn (Node.isDirectory_iff.1 hd) ?_
    by_cases hold : Node.isDirectory (t.node? (parent ++ [name]))
    · exact .inl (Option.some.inj (Node.isDirectory_iff.1 (hr hold)))
    · refine .inr fun he => hold (Node.isDirectory_iff.2 ?_)
      rwa [node?, nodeIn_eq_get? (by simp)]

/-- Puts a node at a place, instead of one that stands there; nothing changes where it cannot be. -/
def put (t : Tree) (at' : Location) (node : Node) : Tree :=
  if h : t.CanHold at' node then ⟨t.nodes.insert at' node, rooted_insert h⟩ else t

@[simp] theorem node?_root (t : Tree) : t.node? [] = some .directory :=
  rfl

theorem ne_root {t : Tree} {at' : Location} {node : Node} (h : t.CanHold at' node) : at' ≠ [] := by
  rintro rfl
  exact h

theorem node?_put {t : Tree} {at' : Location} {node : Node} (h : t.CanHold at' node)
    (other : Location) :
    (t.put at' node).node? other = if other = at' then some node else t.node? other := by
  rw [put, dif_pos h]
  by_cases ho : other = []
  · rw [ho, if_neg (ne_root h).symm]
    rfl
  · simp only [node?, nodeIn_eq_get? ho]
    exact Table.get?_insert at' node t.nodes other

/-- Takes away a place and all that is below it. -/
def remove (t : Tree) (at' : Location) : Tree where
  nodes := t.nodes.keep fun key => !at'.isPrefixOf key
  rooted := t.rooted.keep fun a name h => by
    simp only [Bool.not_eq_true', Bool.eq_false_iff, ne_eq, List.isPrefixOf_iff_prefix] at h ⊢
    exact .inl fun hp => h (hp.trans (List.prefix_append a [name]))

theorem node?_remove (t : Tree) (at' : Location) {other : Location} (h : other ≠ []) :
    (t.remove at').node? other = if at'.isPrefixOf other then none else t.node? other := by
  simp only [node?, nodeIn_eq_get? h]
  refine (Table.get?_keep _ t.nodes other).trans ?_
  cases at'.isPrefixOf other <;> rfl

/-- Takes away all that is below a place. -/
def clear (t : Tree) (at' : Location) : Tree where
  nodes := t.nodes.keep fun key => !at'.isPrefixOf key || key == at'
  rooted := t.rooted.keep fun a name h => by
    simp only [Bool.or_eq_true, Bool.not_eq_true', Bool.eq_false_iff, ne_eq, beq_iff_eq,
      List.isPrefixOf_iff_prefix] at h ⊢
    refine .inl (.inl fun hp => ?_)
    rcases h with h | h
    · exact h (hp.trans (List.prefix_append a [name]))
    · have := hp.length_le
      rw [← h, List.length_append, List.length_singleton] at this
      omega

/-- The names behind a place that lead to a place at or below it. -/
def relative? : (above key : Location) → Option Location
  | [], key => some key
  | _ :: _, [] => none
  | a :: above, k :: key => if a = k then relative? above key else none

/-- Everything that stands somewhere: the root, which needs no entry, and all entries. -/
def listed (t : Tree) : List (Location × Node) :=
  ([], .directory) :: t.nodes.entries

/-- What stands at and below a place, seen from it: each directory comes before what it holds, and the
entries of a directory come in the order of their names. -/
def below (t : Tree) (at' : Location) : List (Location × Node) :=
  t.listed.filterMap fun entry =>
    (relative? at' entry.1).map fun location => (location, entry.2)

/-- Moves a place and all that is below it to another place, instead of what stands there. -/
def move (t : Tree) (source target : Location) : Tree :=
  (t.below source).foldl (fun t entry => t.put (target ++ entry.1) entry.2) (t.remove source)

def isEmptyDirectory (t : Tree) (at' : Location) : Bool :=
  (t.below at').all fun entry => entry.1.isEmpty

end Tree

end PluginForge.Files
