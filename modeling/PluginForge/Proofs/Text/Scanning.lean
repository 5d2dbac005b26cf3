import PluginForge.Proofs.Text.Replacing

namespace PluginForge.Text

structure Replacement where
  old : Text
  new : Text
  deriving DecidableEq, Repr

def Replacement.apply (t : Text) (rule : Replacement) : Text :=
  replaceAll rule.old rule.new t

/-- The rest of a scan that makes several replacements at once, after `skip` characters that belong to a piece
already replaced. -/
def replaceEachFrom (rules : List Replacement) : (skip : Nat) → Text → Text
  | _, [] => []
  | skip + 1, _ :: r => replaceEachFrom rules skip r
  | 0, c :: r =>
    match rules.find? fun rule => rule.old.isPrefixOf (c :: r) with
    | some rule => rule.new ++ replaceEachFrom rules (rule.old.length - 1) r
    | none => c :: replaceEachFrom rules 0 r

/-- Replaces the pieces of all replacements in one scan from left to right. -/
def replaceEach (rules : List Replacement) (t : Text) : Text :=
  replaceEachFrom rules 0 t

variable {a b s t : Text} {c e x : Char} {rule : Replacement} {order rules : List Replacement}

theorem prefix_of_prefix_append (he : e ∉ b) (h : s ++ [e] <+: a ++ b) : s ++ [e] <+: a := by
  rcases List.prefix_or_prefix_of_prefix h (List.prefix_append a b) with hp | ⟨u, hu⟩
  · exact hp
  · rw [← hu, List.prefix_append_right_inj] at h
    rcases List.eq_nil_or_concat u with rfl | ⟨v, y, rfl⟩
    · exact ⟨[], by rw [List.append_nil, ← hu, List.append_nil]⟩
    · rw [List.concat_eq_append, ← List.append_assoc] at hu
      rw [List.concat_eq_append, (List.cons_eq_cons.1 (List.append_inj' hu rfl).2).1] at h
      exact absurd (h.subset (List.mem_append_right v List.mem_cons_self)) he

theorem replaceEachFrom_skip (rules : List Replacement) (a t : Text) :
    replaceEachFrom rules a.length (a ++ t) = replaceEach rules t := by
  induction a with
  | nil => rfl
  | cons c a ih => exact ih

theorem replaceEach_match (hold : rule.old ≠ [])
    (h : (rules.find? fun other => other.old.isPrefixOf (rule.old ++ t)) = some rule) :
    replaceEach rules (rule.old ++ t) = rule.new ++ replaceEach rules t := by
  obtain ⟨c, rest, hrest⟩ := List.exists_cons_of_ne_nil hold
  have hlength : rule.old.length - 1 = rest.length := by rw [hrest]; rfl
  have hskip := replaceEachFrom_skip rules rest t
  rw [hrest, List.cons_append] at h
  rw [hrest, List.cons_append, replaceEach, replaceEachFrom, h, ← hskip, ← hlength]

theorem replaceEach_miss (h : ∀ rule ∈ rules, ¬rule.old <+: c :: t) :
    replaceEach rules (c :: t) = c :: replaceEach rules t := by
  have hnone : (rules.find? fun rule => rule.old.isPrefixOf (c :: t)) = none :=
    List.find?_eq_none.2 fun rule hrule => mt List.isPrefixOf_iff_prefix.1 (h rule hrule)
  rw [replaceEach, replaceEachFrom, hnone]
  rfl

theorem replaceEach_eq_self (h : ∀ rule ∈ rules, ¬rule.old <:+: t) : replaceEach rules t = t := by
  induction t with
  | nil => rfl
  | cons c t ih =>
    rw [replaceEach_miss fun rule hrule hp => h rule hrule hp.isInfix,
      ih fun rule hrule hi => h rule hrule (hi.trans (List.suffix_cons c t).isInfix)]

/-- Every piece begins with a character that it does not hold again, and ends with one that no replacement puts
in. What is put in ends with a character that no piece holds. No piece begins with another. -/
structure Independent (c e x : Char) (rules : List Replacement) : Prop where
  begins : ∀ rule ∈ rules, rule.old.head? = some c ∧ c ∉ rule.old.tail
  ends : ∀ rule ∈ rules, rule.old.getLast? = some e
  puts : ∀ rule ∈ rules, rule.new.getLast? = some x ∧ e ∉ rule.new.dropLast
  clear : ∀ rule ∈ rules, x ∉ rule.old
  apart : ∀ rule ∈ rules, ∀ other ∈ rules, rule.old <+: other.old → rule = other

namespace Independent

theorem exists_cons (h : Independent c e x rules) (hrule : rule ∈ rules) :
    ∃ rest, rule.old = c :: rest ∧ c ∉ rest := by
  obtain ⟨hhead, hrest⟩ := h.begins rule hrule
  obtain ⟨rest, hold⟩ := List.head?_eq_some_iff.1 hhead
  rw [hold] at hrest
  exact ⟨rest, hold, hrest⟩

theorem ne_nil (h : Independent c e x rules) (hrule : rule ∈ rules) : rule.old ≠ [] := by
  obtain ⟨rest, hold, -⟩ := h.exists_cons hrule
  rw [hold]
  exact List.cons_ne_nil c rest

theorem exists_new (h : Independent c e x rules) (hrule : rule ∈ rules) :
    ∃ front, rule.new = front ++ [x] ∧ e ∉ front := by
  obtain ⟨hlast, hfront⟩ := h.puts rule hrule
  obtain ⟨front, hnew⟩ := List.getLast?_eq_some_iff.1 hlast
  rw [hnew, List.dropLast_concat] at hfront
  exact ⟨front, hnew, hfront⟩

theorem find?_old (h : Independent c e x rules) (hrule : rule ∈ rules) (t : Text) :
    (rules.find? fun other => other.old.isPrefixOf (rule.old ++ t)) = some rule := by
  have hprefix : rule.old <+: rule.old ++ t := List.prefix_append rule.old t
  cases hfind : rules.find? fun other => other.old.isPrefixOf (rule.old ++ t) with
  | none =>
    have hmiss := List.find?_eq_none.1 hfind rule hrule
    exact absurd (List.isPrefixOf_iff_prefix.2 hprefix) hmiss
  | some other =>
    have hother := List.mem_of_find?_eq_some hfind
    have hfound := List.find?_some hfind
    rw [List.isPrefixOf_iff_prefix] at hfound
    rcases List.prefix_or_prefix_of_prefix hfound hprefix with hp | hp
    · rw [h.apart other hother rule hrule hp]
    · rw [h.apart rule hrule other hother hp]

theorem replaceEach_old (h : Independent c e x rules) (hrule : rule ∈ rules) (t : Text) :
    replaceEach rules (rule.old ++ t) = rule.new ++ replaceEach rules t :=
  replaceEach_match (h.ne_nil hrule) (h.find?_old hrule t)

/-- A scan falls apart where no piece goes on. -/
theorem replaceEach_append (h : Independent c e x rules)
    (hend : ∀ s, s <:+ a → s ≠ [] → ∀ rule ∈ rules, rule.old <+: s ++ b → rule.old <+: s) :
    replaceEach rules (a ++ b) = replaceEach rules a ++ replaceEach rules b := by
  induction hn : a.length using Nat.strongRecOn generalizing a with
  | ind n ih =>
    cases a with
    | nil => rfl
    | cons y a =>
      by_cases hp : ∃ rule ∈ rules, rule.old <+: y :: a
      · obtain ⟨rule, hrule, r, hr⟩ := hp
        have hlength : r.length < n := by
          have hpos := List.length_pos_iff.2 (h.ne_nil hrule)
          rw [← hn, ← hr, List.length_append]
          omega
        have hrest := ih r.length hlength
          (fun s hs => hend s (hs.trans ⟨rule.old, hr⟩)) rfl
        rw [← hr, List.append_assoc, h.replaceEach_old hrule, h.replaceEach_old hrule, hrest,
          List.append_assoc]
      · have hmiss : ∀ rule ∈ rules, ¬rule.old <+: y :: a := fun rule hrule hold =>
          hp ⟨rule, hrule, hold⟩
        have hmiss' : ∀ rule ∈ rules, ¬rule.old <+: y :: (a ++ b) := fun rule hrule hold =>
          hmiss rule hrule (hend (y :: a) List.suffix_rfl (List.cons_ne_nil y a) rule hrule hold)
        have hrest := ih a.length (by rw [← hn, List.length_cons]; exact Nat.lt_succ_self _)
          (fun s hs => hend s (hs.trans (List.suffix_cons y a))) rfl
        rw [List.cons_append, replaceEach_miss hmiss', replaceEach_miss hmiss, hrest,
          List.cons_append]

theorem replaceEach_append_old (h : Independent c e x rules) (hrule : rule ∈ rules) (a b : Text) :
    replaceEach rules (a ++ (rule.old ++ b)) =
      replaceEach rules a ++ (rule.new ++ replaceEach rules b) := by
  rw [← h.replaceEach_old hrule]
  apply h.replaceEach_append
  intro s _ hs other hother hp
  obtain ⟨rest, hold, -⟩ := h.exists_cons hrule
  obtain ⟨rest', hold', hc⟩ := h.exists_cons hother
  obtain ⟨y, s, rfl⟩ := List.exists_cons_of_ne_nil hs
  rw [hold, hold', List.cons_append, List.cons_append, List.cons_prefix_cons] at hp
  rw [hold', List.cons_prefix_cons]
  exact ⟨hp.1, prefix_of_prefix_append_cons hc hp.2⟩

theorem replaceEach_append_front (h : Independent c e x rules) {front : Text} (he : e ∉ front) (a : Text) :
    replaceEach rules (a ++ front) = replaceEach rules a ++ front := by
  have hends (rule : Replacement) (hrule : rule ∈ rules) : ∃ r, rule.old = r ++ [e] :=
    List.getLast?_eq_some_iff.1 (h.ends rule hrule)
  have hself : replaceEach rules front = front := by
    refine replaceEach_eq_self fun rule hrule hi => ?_
    obtain ⟨r, hold⟩ := hends rule hrule
    rw [hold] at hi
    exact he (hi.subset (List.mem_append_right r List.mem_cons_self))
  rw [h.replaceEach_append fun s _ _ rule hrule hp => ?_, hself]
  obtain ⟨r, hold⟩ := hends rule hrule
  rw [hold] at hp ⊢
  exact prefix_of_prefix_append he hp

theorem replaceEach_append_cons (h : Independent c e x rules) (a b : Text) :
    replaceEach rules (a ++ x :: b) = replaceEach rules a ++ x :: replaceEach rules b := by
  have hmiss : ∀ rule ∈ rules, ¬rule.old <+: x :: b := by
    intro rule hrule hp
    have hnil := prefix_of_prefix_append_cons (a := []) (h.clear rule hrule) hp
    exact h.ne_nil hrule (List.prefix_nil.1 hnil)
  rw [h.replaceEach_append fun s _ _ rule hrule => prefix_of_prefix_append_cons (h.clear rule hrule),
    replaceEach_miss hmiss]

theorem replaceEach_append_new (h : Independent c e x rules) (hrule : rule ∈ rules) (a b : Text) :
    replaceEach rules (a ++ (rule.new ++ b)) =
      replaceEach rules a ++ (rule.new ++ replaceEach rules b) := by
  obtain ⟨front, hnew, he⟩ := h.exists_new hrule
  have hleft : a ++ (rule.new ++ b) = a ++ front ++ x :: b := by
    rw [hnew, List.append_assoc, List.append_assoc]
    rfl
  rw [hleft, h.replaceEach_append_cons, h.replaceEach_append_front he, hnew, List.append_assoc,
    List.append_assoc]
  rfl

/-- A scan does not see whether one of its replacements has been made before. -/
theorem replaceEach_apply (h : Independent c e x rules) (hrule : rule ∈ rules) (t : Text) :
    replaceEach rules (rule.apply t) = replaceEach rules t := by
  refine replaceAll_induction (P := fun t r => replaceEach rules r = replaceEach rules t)
    (h.ne_nil hrule) (fun _ _ => rfl) (fun a b r _ ih => ?_) t
  rw [h.replaceEach_append_new hrule, h.replaceEach_append_old hrule, ih]

theorem replaceEach_foldl (h : Independent c e x rules) (horder : ∀ rule ∈ order, rule ∈ rules)
    (t : Text) : replaceEach rules (order.foldl Replacement.apply t) = replaceEach rules t := by
  induction order generalizing t with
  | nil => rfl
  | cons rule order ih =>
    rw [List.forall_mem_cons] at horder
    rw [List.foldl_cons, ih horder.2, h.replaceEach_apply horder.1]

theorem not_infix_foldl (h : Independent c e x rules) (horder : ∀ rule ∈ order, rule ∈ rules)
    (hrule : rule ∈ rules) (ht : rule ∈ order ∨ ¬rule.old <:+: t) :
    ¬rule.old <:+: order.foldl Replacement.apply t := by
  induction order generalizing t with
  | nil => exact ht.resolve_left List.not_mem_nil
  | cons other order ih =>
    rw [List.forall_mem_cons] at horder
    rw [List.mem_cons, or_assoc, or_left_comm] at ht
    refine ih horder.2 (ht.imp_right fun ht => ?_)
    obtain ⟨front, hnew, he⟩ := h.exists_new horder.1
    rw [Replacement.apply, hnew]
    exact not_infix_replaceAll (h.ne_nil horder.1) (h.clear rule hrule)
      (List.getLast?_eq_some_iff.1 (h.ends rule hrule)) he (ht.imp_left (congrArg Replacement.old))

theorem foldl_eq_replaceEach (h : Independent c e x rules) (horder : order.Perm rules) (t : Text) :
    order.foldl Replacement.apply t = replaceEach rules t := by
  have hmem : ∀ rule ∈ order, rule ∈ rules := fun _ hrule => horder.mem_iff.1 hrule
  rw [← h.replaceEach_foldl hmem t, replaceEach_eq_self]
  exact fun rule hrule => h.not_infix_foldl hmem hrule (.inl (horder.mem_iff.2 hrule))

end Independent

/-- A change of characters touches neither what a replacement looks for nor what it puts in. -/
structure Replacement.Ignores (rule : Replacement) (f : Char → Char) : Prop where
  old : ∀ c, f c ≠ c → c ∉ rule.old ∧ f c ∉ rule.old
  new : rule.new.map f = rule.new

variable {f : Char → Char}

theorem isPrefixOf_map {old : Text} (h : ∀ c, f c ≠ c → c ∉ old ∧ f c ∉ old) (t : Text) :
    old.isPrefixOf (t.map f) = old.isPrefixOf t := by
  induction old generalizing t with
  | nil => rfl
  | cons o old ih =>
    cases t with
    | nil => rfl
    | cons c t =>
      have hold : ∀ c, f c ≠ c → c ∉ old ∧ f c ∉ old := fun c hc =>
        (h c hc).imp (mt (List.mem_cons_of_mem o)) (mt (List.mem_cons_of_mem o))
      rw [List.map_cons, List.isPrefixOf, List.isPrefixOf, ih hold]
      by_cases hc : f c = c
      · rw [hc]
      · obtain ⟨hbefore, hbehind⟩ := h c hc
        rw [beq_false_of_ne (List.ne_of_not_mem_cons hbefore).symm,
          beq_false_of_ne (List.ne_of_not_mem_cons hbehind).symm]

theorem replaceFrom_map (h : rule.Ignores f) (skip : Nat) (t : Text) :
    replaceFrom rule.old rule.new skip (t.map f) = (replaceFrom rule.old rule.new skip t).map f := by
  induction t generalizing skip with
  | nil => rw [List.map_nil, replaceFrom_nil, List.map_nil]
  | cons c t ih =>
    cases skip with
    | succ skip => exact ih skip
    | zero =>
      have hprefix := isPrefixOf_map h.old (c :: t)
      rw [List.map_cons] at hprefix
      rw [List.map_cons, replaceFrom, replaceFrom, hprefix, ih, ih]
      split
      · rw [List.map_append, h.new]
      · rw [List.map_cons]

theorem foldl_map_of_ignores (h : ∀ rule ∈ order, rule.Ignores f) (t : Text) :
    order.foldl Replacement.apply (t.map f) = (order.foldl Replacement.apply t).map f := by
  induction order generalizing t with
  | nil => rfl
  | cons rule order ih =>
    rw [List.forall_mem_cons] at h
    have hfirst : Replacement.apply (t.map f) rule = (Replacement.apply t rule).map f :=
      replaceFrom_map h.1 0 t
    rw [List.foldl_cons, List.foldl_cons, hfirst, ih h.2]

end PluginForge.Text
