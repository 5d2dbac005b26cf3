import Mathlib.Order.Bounds.Basic
import PluginForge.Proofs.Callback.Initializer

namespace PluginForge

namespace Java.Scalar

/-- The types that hold all values of a type: wider ones for a number, and no others for a string or a
boolean. -/
def wider : Scalar → List Scalar
  | .int => [.int, .long, .double]
  | .long => [.long, .double]
  | .double => [.double]
  | .string => [.string]
  | .boolean => [.boolean]

instance : PartialOrder Scalar where
  le a b := b ∈ a.wider
  le_refl a := by cases a <;> decide
  le_trans a b c := by cases a <;> cases b <;> cases c <;> decide
  le_antisymm a b := by cases a <;> cases b <;> decide

instance : DecidableLE Scalar := fun a b => inferInstanceAs (Decidable (b ∈ a.wider))

theorem not_isBot (a : Scalar) : ¬IsBot a := by
  intro h
  have hstring := h .string
  have hboolean := h .boolean
  revert hstring hboolean
  cases a <;> decide

end Java.Scalar

namespace Callback

open Java.Scalar (not_isBot)

variable {a b c element first : Java.Scalar} {items other : List Atom} {A B : Set Java.Scalar}
  {ty : Java.Ty}

theorem le_iff_widen? : a ≤ b ↔ widen? a b = some b := by
  cases a <;> cases b <;> decide

theorem widen?_of_le (ha : a ≤ c) (hb : b ≤ c) : ∃ w ∈ widen? a b, w ≤ c := by
  revert ha hb
  cases a <;> cases b <;> cases c <;> decide

theorem eq_or_eq_of_widen? (h : widen? a b = some c) : c = a ∨ c = b := by
  revert h
  cases a <;> cases b <;> cases c <;> decide

/-- Two types widen to their least upper bound, and to nothing if they have none. -/
theorem widen?_eq_some_iff : widen? a b = some c ↔ IsLUB {a, b} c := by
  have hlub {w : Java.Scalar} (hw : widen? a b = some w) : IsLUB {a, b} w := by
    obtain ⟨ha, hb⟩ := widen?_upper hw
    refine ⟨?_, fun x hx => ?_⟩
    · rintro x (rfl | rfl)
      · exact le_iff_widen?.2 ha
      · exact le_iff_widen?.2 hb
    · obtain ⟨w', hw', hle⟩ := widen?_of_le (hx (.inl rfl)) (hx (.inr rfl))
      cases hw.symm.trans hw'
      exact hle
  refine ⟨hlub, fun h => ?_⟩
  obtain ⟨w, hw, -⟩ := widen?_of_le (h.1 (.inl rfl)) (h.1 (.inr rfl))
  rw [h.unique (hlub hw)]
  exact hw

/-- The types that the items of a list have as declarations of their own. -/
def itemTypes (items : List Atom) : Set Java.Scalar :=
  {type | ∃ item ∈ items, (Literal.atom item).type? = some (.scalar type)}

theorem mem_itemTypes : a ∈ itemTypes items ↔ ∃ item ∈ items, item.type = a := by
  simp [itemTypes, Literal.type?]

theorem itemTypes_cons (item : Atom) (items : List Atom) :
    itemTypes (item :: items) = insert item.type (itemTypes items) := by
  ext a
  rw [Set.mem_insert_iff, mem_itemTypes, mem_itemTypes, List.exists_mem_cons_iff, eq_comm]

theorem itemTypes_append (items other : List Atom) :
    itemTypes (items ++ other) = itemTypes items ∪ itemTypes other := by
  ext a
  simp only [mem_itemTypes, Set.mem_union, List.mem_append, or_and_right, exists_or]

theorem isLUB_union_iff (hA : IsLUB A a) : IsLUB (A ∪ B) c ↔ IsLUB (insert a B) c := by
  have hbounds : upperBounds (A ∪ B) = upperBounds (insert a B) := by
    rw [upperBounds_union, upperBounds_insert, hA.upperBounds_eq]
  rw [IsLUB, IsLUB, hbounds]

theorem foldlM_widen?_iff :
    items.foldlM (fun type item => widen? type item.type) first = some element ↔
      IsLUB (insert first (itemTypes items)) element := by
  induction items generalizing first with
  | nil =>
    have hfirst : IsLUB (insert first (itemTypes [])) first := by
      simp [itemTypes, isLUB_singleton]
    rw [List.foldlM_nil, Option.pure_def, Option.some.injEq]
    exact ⟨fun h => h ▸ hfirst, fun h => hfirst.unique h⟩
  | cons item items ih =>
    have hset : insert first (insert item.type (itemTypes items)) =
        {first, item.type} ∪ itemTypes items := by
      rw [Set.insert_union, Set.singleton_union]
    rw [List.foldlM_cons, itemTypes_cons]
    cases hw : widen? first item.type with
    | none =>
      refine iff_of_false nofun fun h => ?_
      obtain ⟨w, hw', -⟩ := widen?_of_le (h.1 (.inl rfl)) (h.1 (.inr (.inl rfl)))
      cases hw.symm.trans hw'
    | some w =>
      rw [hset, isLUB_union_iff (widen?_eq_some_iff.1 hw)]
      exact ih

/-- A list has the least upper bound of the types of its items as type of its elements. The empty list has
none, since no type lies below all others. -/
theorem type?_eq_some_iff :
    (Literal.array items).type? = some ty ↔
      ∃ element, ty = .array element ∧ IsLUB (itemTypes items) element := by
  cases items with
  | nil =>
    have hempty : itemTypes [] = ∅ := by simp [itemTypes]
    refine iff_of_false nofun ?_
    rintro ⟨element, -, h⟩
    rw [hempty, isLUB_empty_iff] at h
    exact not_isBot element h
  | cons first rest =>
    rw [Literal.type?, itemTypes_cons, Option.map_eq_some_iff]
    simp only [foldlM_widen?_iff]
    exact exists_congr fun element => and_comm.trans (and_congr_left' eq_comm)

theorem type?_eq_array_iff :
    (Literal.array items).type? = some (.array element) ↔ IsLUB (itemTypes items) element := by
  rw [type?_eq_some_iff]
  simp

theorem mem_itemTypes_of_foldlM
    (h : items.foldlM (fun type item => widen? type item.type) first = some element) :
    element ∈ insert first (itemTypes items) := by
  induction items generalizing first with
  | nil =>
    cases h
    exact .inl rfl
  | cons item items ih =>
    obtain ⟨w, hw, h⟩ := Option.bind_eq_some_iff.1 h
    rw [itemTypes_cons]
    rcases ih h with rfl | hmem
    · rcases eq_or_eq_of_widen? hw with rfl | rfl
      · exact .inl rfl
      · exact .inr (.inl rfl)
    · exact .inr (.inr hmem)

theorem mem_itemTypes_of_type? (h : (Literal.array items).type? = some (.array element)) :
    element ∈ itemTypes items := by
  cases items with
  | nil => cases h
  | cons first rest =>
    obtain ⟨e, hfold, he⟩ := Option.map_eq_some_iff.1 h
    cases he
    rw [itemTypes_cons]
    exact mem_itemTypes_of_foldlM hfold

theorem exists_foldlM_widen? (hfirst : first ≤ c) (hitems : c ∈ upperBounds (itemTypes items)) :
    ∃ element, items.foldlM (fun type item => widen? type item.type) first = some element := by
  induction items generalizing first with
  | nil => exact ⟨first, rfl⟩
  | cons item items ih =>
    rw [itemTypes_cons, upperBounds_insert] at hitems
    obtain ⟨w, hw, hle⟩ := widen?_of_le hfirst hitems.1
    obtain ⟨element, h⟩ := ih hle hitems.2
    exact ⟨element, Option.bind_eq_some_iff.2 ⟨w, hw, h⟩⟩

theorem exists_isLUB_iff :
    (∃ element, IsLUB (itemTypes items) element) ↔ items ≠ [] ∧ BddAbove (itemTypes items) := by
  simp only [← type?_eq_array_iff]
  constructor
  · rintro ⟨element, h⟩
    refine ⟨?_, element, (type?_eq_array_iff.1 h).1⟩
    rintro rfl
    cases h
  · rintro ⟨hne, c, hc⟩
    obtain ⟨first, rest, rfl⟩ := List.exists_cons_of_ne_nil hne
    rw [itemTypes_cons, upperBounds_insert] at hc
    obtain ⟨element, h⟩ := exists_foldlM_widen? hc.1 hc.2
    exact ⟨element, Option.map_eq_some_iff.2 ⟨element, h, rfl⟩⟩

inductive Kind where
  | string
  | boolean
  | number
  deriving DecidableEq

def Scalar.kind : Scalar → Kind
  | .string _ => .string
  | .boolean _ => .boolean
  | .integer _ => .number
  | .float _ => .number

def Kind.widest : Kind → Java.Scalar
  | .string => .string
  | .boolean => .boolean
  | .number => .double

theorem le_widest_iff {kind : Kind} (item : Atom) : item.type ≤ kind.widest ↔ item.value.kind = kind := by
  obtain ⟨value, text⟩ := item
  cases value with
  | integer v =>
    simp only [Atom.type, Scalar.kind]
    split <;> cases kind <;> decide
  | _ => cases kind <;> simp only [Atom.type, Scalar.kind] <;> decide

theorem exists_le_widest (a : Java.Scalar) : ∃ kind : Kind, a ≤ kind.widest := by
  cases a with
  | string => exact ⟨.string, by decide⟩
  | boolean => exact ⟨.boolean, by decide⟩
  | _ => exact ⟨.number, by decide⟩

theorem bddAbove_iff :
    BddAbove (itemTypes items) ↔ ∃ kind, ∀ item ∈ items, item.value.kind = kind := by
  constructor
  · rintro ⟨c, hc⟩
    obtain ⟨kind, hkind⟩ := exists_le_widest c
    refine ⟨kind, fun item hitem => (le_widest_iff item).1 ?_⟩
    exact (hc (mem_itemTypes.2 ⟨item, hitem, rfl⟩)).trans hkind
  · rintro ⟨kind, h⟩
    refine ⟨kind.widest, fun a ha => ?_⟩
    obtain ⟨item, hitem, rfl⟩ := mem_itemTypes.1 ha
    exact (le_widest_iff item).2 (h item hitem)

theorem type?_congr (h : itemTypes items = itemTypes other) :
    (Literal.array items).type? = (Literal.array other).type? := by
  ext ty
  rw [type?_eq_some_iff, type?_eq_some_iff, h]

theorem itemTypes_perm (h : items.Perm other) : itemTypes items = itemTypes other := by
  ext a
  simp only [mem_itemTypes, h.mem_iff]

theorem isLUB_union_iff_widen? (hA : IsLUB A a) (hB : IsLUB B b) :
    IsLUB (A ∪ B) c ↔ widen? a b = some c := by
  rw [isLUB_union_iff hA, ← Set.union_singleton, isLUB_union_iff hB, Set.pair_comm,
    widen?_eq_some_iff]

/-- A list that is split into parts, which are not empty and may be split further. -/
inductive Splitting where
  | part (first : Atom) (rest : List Atom)
  | join (left right : Splitting)

namespace Splitting

def whole : Splitting → List Atom
  | part first rest => first :: rest
  | join left right => left.whole ++ right.whole

/-- The type that the types of the parts widen to. -/
def type? : Splitting → Option Java.Ty
  | part first rest => (Literal.array (first :: rest)).type?
  | join left right => do
    let a ← left.type?
    let b ← right.type?
    (widen? a.element b.element).map .array

theorem whole_ne_nil (s : Splitting) : s.whole ≠ [] := by
  induction s with
  | part first rest => exact List.cons_ne_nil first rest
  | join left right hleft _ => exact List.append_ne_nil_of_left_ne_nil hleft _

theorem exists_isLUB (s : Splitting) (hc : c ∈ upperBounds (itemTypes s.whole)) :
    ∃ a, IsLUB (itemTypes s.whole) a :=
  exists_isLUB_iff.2 ⟨s.whole_ne_nil, c, hc⟩

theorem type?_eq (s : Splitting) : s.type? = (Literal.array s.whole).type? := by
  induction s with
  | part first rest => rfl
  | join left right hleft hright =>
    ext ty
    rw [type?_eq_some_iff, whole, itemTypes_append]
    simp only [type?, hleft, hright, Option.bind_eq_bind, Option.bind_eq_some_iff,
      Option.map_eq_some_iff, type?_eq_some_iff]
    constructor
    · rintro ⟨-, ⟨a, rfl, ha⟩, -, ⟨b, rfl, hb⟩, c, hc, rfl⟩
      exact ⟨c, rfl, (isLUB_union_iff_widen? ha hb).2 hc⟩
    · rintro ⟨c, rfl, hc⟩
      have hbounds := hc.1
      rw [upperBounds_union] at hbounds
      obtain ⟨a, ha⟩ := left.exists_isLUB hbounds.1
      obtain ⟨b, hb⟩ := right.exists_isLUB hbounds.2
      exact ⟨_, ⟨a, rfl, ha⟩, _, ⟨b, rfl, hb⟩, c, (isLUB_union_iff_widen? ha hb).1 hc, rfl⟩

end Splitting

/-- The type of a list is the least upper bound of the types of its items. There is one exactly if the list
is not empty and its items are of one kind; it is the type of an item, to which all others widen, and it
does not depend on the order of the items or on how the list is split. -/
theorem list_type (items : List Atom) :
    (∀ ty, (Literal.array items).type? = some ty ↔
      ∃ element, ty = .array element ∧ IsLUB (itemTypes items) element) ∧
    ((Literal.array items).type?.isSome ↔
      items ≠ [] ∧ ∃ kind, ∀ item ∈ items, item.value.kind = kind) ∧
    (∀ element, (Literal.array items).type? = some (.array element) →
      element ∈ itemTypes items ∧ ∀ type ∈ itemTypes items, widen? type element = some element) ∧
    (∀ other, items.Perm other → (Literal.array other).type? = (Literal.array items).type?) ∧
    ∀ s : Splitting, s.whole = items → s.type? = (Literal.array items).type? := by
  refine ⟨fun ty => type?_eq_some_iff, ?_, fun element h => ?_, fun other h => ?_, ?_⟩
  · rw [← bddAbove_iff, ← exists_isLUB_iff, Option.isSome_iff_exists]
    simp only [type?_eq_some_iff, exists_comm (α := Java.Ty), exists_eq_left]
  · refine ⟨mem_itemTypes_of_type? h, fun type htype => le_iff_widen?.1 ?_⟩
    exact (type?_eq_array_iff.1 h).1 htype
  · exact type?_congr (itemTypes_perm h).symm
  · rintro s rfl
    exact s.type?_eq

end Callback

end PluginForge
