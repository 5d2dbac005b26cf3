import PluginForge.Files.Tree
import PluginForge.Proofs.Text.Basic

namespace PluginForge.Files

variable {at' : Location} {name step : Text} {names steps : List Text} {p : Path}

theorem isEntryName_iff : isEntryName name ↔ isName name ∧ name ≠ [] ∧ '/' ∉ name := by
  simp [isEntryName, and_assoc]

theorem mem_steps (h : step ∈ p.steps) : step ≠ [] ∧ '/' ∉ step := by
  obtain ⟨h, hne⟩ := List.mem_filter.1 h
  exact ⟨by simpa using hne, Text.not_mem_of_mem_splitOn h⟩

theorem steps_name (h : isEntryName name) : (Path.mk name).steps = [name] := by
  obtain ⟨-, hne, hslash⟩ := isEntryName_iff.1 h
  rw [Path.steps, Text.splitOn_eq_splitOn, List.splitOn_eq_singleton hslash]
  simp [hne]

theorem steps_slash (a b : Text) :
    (Path.mk (a ++ '/' :: b)).steps = (Path.mk a).steps ++ (Path.mk b).steps := by
  rw [Path.steps, Text.splitOn_append_cons, List.filter_append]
  rfl

theorem steps_join_of_relative {text : Text} (h : text.head? ≠ some '/') :
    (p.join text).steps = p.steps ++ (Path.mk text).steps := by
  rw [Path.join, if_neg h]
  split
  · next hend =>
    rw [Bool.or_eq_true, List.isEmpty_iff, beq_iff_eq] at hend
    rcases hend with hend | hend
    · rw [Path.steps, Path.steps, hend]
      rfl
    · obtain ⟨init, hinit⟩ := List.getLast?_eq_some_iff.1 hend
      have hp : p = ⟨init ++ ['/']⟩ := congrArg Path.mk hinit
      rw [hp]
      simp only [List.append_assoc, List.singleton_append]
      rw [steps_slash, steps_slash, List.append_assoc]
      rfl
  · exact steps_slash p.text text

theorem head?_ne_slash (h : isEntryName name) : name.head? ≠ some '/' := fun hh =>
  (isEntryName_iff.1 h).2.2 (List.mem_of_mem_head? hh)

theorem steps_join (h : isEntryName name) : (p.join name).steps = p.steps ++ [name] := by
  rw [steps_join_of_relative (head?_ne_slash h), steps_name h]

theorem mem_text_join {c : Char} (hn : isEntryName name) (h : c ∈ p.text ∨ c ∈ name) :
    c ∈ (p.join name).text := by
  rw [Path.join, if_neg (head?_ne_slash hn)]
  split
  · exact List.mem_append.2 h
  · exact List.mem_append.2 (h.imp_right (List.mem_cons_of_mem _))

theorem mem_of_mem_text_join {c : Char} (hn : isEntryName name) (h : c ∈ (p.join name).text) :
    c ∈ p.text ∨ c = '/' ∨ c ∈ name := by
  rw [Path.join, if_neg (head?_ne_slash hn)] at h
  split at h
  · exact (List.mem_append.1 h).imp_right .inr
  · exact (List.mem_append.1 h).imp_right List.mem_cons.1

theorem mem_text_join_join {inner : Text} {c : Char} (hinner : isEntryName inner)
    (hn : isEntryName name) (hc : c ≠ '/') (h : c ∈ (p.join name).text) :
    c ∈ ((p.join inner).join name).text := by
  apply mem_text_join hn
  rcases mem_of_mem_text_join hn h with h | h | h
  · exact .inl (mem_text_join hinner (.inl h))
  · exact absurd h hc
  · exact .inr h

theorem getLast?_text_join (hn : isEntryName name) : (p.join name).text.getLast? = name.getLast? := by
  cases hsome : name.getLast? with
  | none => exact absurd (List.getLast?_eq_none_iff.1 hsome) (isEntryName_iff.1 hn).2.1
  | some last =>
    rw [Path.join, if_neg (head?_ne_slash hn)]
    split <;> simp [List.getLast?_append, List.getLast?_cons, hsome]

theorem isEmpty_text_join (hn : isEntryName name) : (p.join name).text.isEmpty = false := by
  rw [List.isEmpty_eq_false_iff]
  intro hnil
  have hlast := getLast?_text_join (p := p) hn
  rw [hnil] at hlast
  exact (isEntryName_iff.1 hn).2.1 (List.getLast?_eq_none_iff.1 hlast.symm)

theorem endsInSlash_join (hn : isEntryName name) : (p.join name).endsInSlash = false := by
  rw [Path.endsInSlash, getLast?_text_join hn]
  exact Bool.eq_false_iff.2 fun h =>
    (isEntryName_iff.1 hn).2.2 (List.mem_of_getLast? (beq_iff_eq.1 h))

/-- Where steps lead to if every step on the way is a directory. -/
def follow (at' : Location) (steps : List Text) : Location :=
  steps.foldl
    (fun names step =>
      if step = ['.'] then names else if step = ['.', '.'] then names.dropLast else names ++ [step])
    at'

theorem names_eq_follow (p : Path) : p.names = follow [] p.steps := rfl

theorem follow_append (a b : List Text) : follow at' (a ++ b) = follow (follow at' a) b :=
  List.foldl_append

theorem follow_name (h : isName name) : follow at' [name] = at' ++ [name] := by
  simp only [isName, Bool.and_eq_true, bne_iff_ne, ne_eq] at h
  rw [follow, List.foldl_cons, List.foldl_nil, if_neg h.1, if_neg h.2]

theorem names_join (h : isEntryName name) : (p.join name).names = p.names ++ [name] := by
  rw [names_eq_follow, steps_join h, follow_append, follow_name (isEntryName_iff.1 h).1]
  rfl

theorem names_join_text (p : Path) (text : Text) :
    (p.join text).names =
      follow (if text.head? = some '/' then [] else p.names) (Path.mk text).steps := by
  split
  · next habsolute =>
    rw [Path.join, if_pos habsolute]
    rfl
  · next hrelative =>
    rw [names_eq_follow, steps_join_of_relative hrelative, follow_append]
    rfl

theorem joinAll_concat (p : Path) (names : List Text) (name : Text) :
    p.joinAll (names ++ [name]) = (p.joinAll names).join name := by
  rw [Path.joinAll, Path.joinAll, List.foldl_append]
  rfl

theorem steps_joinAll (h : ∀ name ∈ names, isEntryName name) :
    (p.joinAll names).steps = p.steps ++ names := by
  induction names generalizing p with
  | nil => exact (List.append_nil _).symm
  | cons name names ih =>
    rw [Path.joinAll, List.foldl_cons]
    refine (ih fun n hn => h n (List.mem_cons_of_mem name hn)).trans ?_
    rw [steps_join (h name List.mem_cons_self), List.append_assoc]
    rfl

theorem follow_names (h : ∀ name ∈ names, isEntryName name) (at' : Location) :
    follow at' names = at' ++ names := by
  induction names generalizing at' with
  | nil => exact (List.append_nil at').symm
  | cons name names ih =>
    have hfirst : follow at' (name :: names) = follow (follow at' [name]) names :=
      follow_append [name] names
    rw [hfirst, follow_name (isEntryName_iff.1 (h name List.mem_cons_self)).1,
      ih fun n hn => h n (List.mem_cons_of_mem name hn), List.append_assoc]
    rfl

theorem names_joinAll (h : ∀ name ∈ names, isEntryName name) :
    (p.joinAll names).names = p.names ++ names := by
  rw [names_eq_follow, steps_joinAll h, follow_append, follow_names h]
  rfl

theorem head?_append_ne_slash (h : isEntryName name) (rest : Text) :
    (name ++ rest).head? ≠ some '/' := by
  obtain ⟨c, tail, hname⟩ := List.exists_cons_of_ne_nil (isEntryName_iff.1 h).2.1
  have hhead := head?_ne_slash h
  rw [hname] at hhead ⊢
  exact hhead

theorem join_join {text : Text} (hn : isEntryName name) (ht : text.head? ≠ some '/') :
    (p.join name).join text = p.join (name ++ '/' :: text) := by
  have hends := endsInSlash_join (p := p) hn
  rw [Path.endsInSlash] at hends
  rw [Path.join, if_neg ht, isEmpty_text_join hn, hends, Bool.or_false, if_neg Bool.false_ne_true]
  rw [Path.join, if_neg (head?_ne_slash hn), Path.join,
    if_neg (head?_append_ne_slash hn _)]
  split
  · rw [List.append_assoc]
  · rw [List.append_assoc, List.cons_append]

theorem head?_join_ne_slash (h : isEntryName name) :
    (Text.join "/" (name :: names)).head? ≠ some '/' := by
  cases names with
  | nil =>
    rw [Text.join, List.intercalate_singleton]
    exact head?_ne_slash h
  | cons next names =>
    rw [Text.join_cons_cons, List.append_assoc]
    exact head?_append_ne_slash h _

/-- Names can be joined one after another, or all at once. -/
theorem joinAll_eq_join (h : ∀ name ∈ names, isEntryName name) (hne : names ≠ []) :
    p.joinAll names = p.join (Text.join "/" names) := by
  induction names generalizing p with
  | nil => exact absurd rfl hne
  | cons name names ih =>
    have hrest : ∀ n ∈ names, isEntryName n := fun n hn => h n (List.mem_cons_of_mem name hn)
    rw [Path.joinAll, List.foldl_cons]
    cases names with
    | nil =>
      rw [Text.join, List.intercalate_singleton]
      rfl
    | cons next names =>
      have hhead : (Text.join "/" (next :: names)).head? ≠ some '/' :=
        head?_join_ne_slash (hrest next List.mem_cons_self)
      rw [Text.join_cons_cons, List.append_assoc]
      exact (ih hrest (List.cons_ne_nil _ _)).trans (join_join (h name List.mem_cons_self) hhead)

end PluginForge.Files
