import PluginForge.Archive.Basic
import PluginForge.Proofs.Files.Below
import PluginForge.Proofs.Files.Frame

namespace PluginForge.Archive

open Files (Location Node Path Tree isEntryName)

variable {a : Archive} {at' names : Location} {compression : Config.Compression}
  {entries : List Entry} {name top : Text} {tops : List Text} {t : Tree}

theorem entryName_eq_join (top : Text) (names : Location) :
    entryName top names = Text.join ['/'] (top :: names) := by
  induction names generalizing top with
  | nil => simp [entryName, Text.join]
  | cons name names ih =>
    rw [Text.join_cons_cons, ← ih, entryName, entryName, List.flatMap_cons]
    simp

/-- The name of an entry tells the place that it stands for. -/
theorem steps_entryOf (compression : Config.Compression) (node : Node) (ht : isEntryName top)
    (hn : ∀ name ∈ names, isEntryName name) :
    (Files.Path.mk (entryOf compression top (names, node)).name).steps = top :: names := by
  have hall : ∀ name ∈ top :: names, name ≠ [] ∧ '/' ∉ name := fun name hname => by
    rcases List.mem_cons.1 hname with rfl | hname
    · exact (Files.isEntryName_iff.1 ht).2
    · exact (Files.isEntryName_iff.1 (hn name hname)).2
  have hsplit : Text.splitOn '/' (entryName top names) = top :: names := by
    rw [entryName_eq_join]
    exact Text.splitOn_join (fun name hname => (hall name hname).2) (List.cons_ne_nil _ _)
  have hkept : (top :: names).filter (fun piece => !piece.isEmpty) = top :: names :=
    List.filter_eq_self.2 fun name hname => by simpa using (hall name hname).1
  cases node with
  | file content => rw [Path.steps, entryOf, hsplit, hkept]
  | directory =>
    have hend : entryName top names ++ "/".toList = entryName top names ++ '/' :: [] := rfl
    rw [Path.steps, entryOf, hend, Text.splitOn_append_cons, List.filter_append, hsplit, hkept]
    exact List.append_nil _

theorem head?_steps_of_mem_below (ht : isEntryName top)
    (h : name ∈ ((t.below at').map (entryOf compression top)).map Entry.name) :
    (Files.Path.mk name).steps.head? = some top := by
  obtain ⟨entry, hentry, rfl⟩ := List.mem_map.1 h
  obtain ⟨⟨names, node⟩, hbelow, rfl⟩ := List.mem_map.1 hentry
  rw [steps_entryOf compression node ht fun _ hn => Tree.isEntryName_of_mem_below hbelow hn]
  rfl

theorem nodup_entryNames (ht : isEntryName top) (t : Tree) (at' : Location)
    (compression : Config.Compression) :
    (((t.below at').map (entryOf compression top)).map Entry.name).Nodup := by
  refine List.pairwise_map.2 (List.pairwise_map.2 ?_)
  apply (List.pairwise_map.1 (t.nodup_below at')).imp_of_mem
  rintro ⟨names, node⟩ ⟨names', node'⟩ hbelow hbelow' hne he
  have hsteps := steps_entryOf compression node ht fun _ hn => Tree.isEntryName_of_mem_below hbelow hn
  have hsteps' := steps_entryOf compression node' ht fun _ hn => Tree.isEntryName_of_mem_below hbelow' hn
  rw [he, hsteps'] at hsteps
  exact hne (List.cons.inj hsteps).2.symm

theorem push_error {e : Entry} {failure : Failure} (h : a.push e = .error failure) :
    ∃ name, failure = .duplicateEntry name := by
  rw [push] at h
  split at h <;> cases h
  exact ⟨_, rfl⟩

theorem pushAll_error {a' : Archive} {failure : Failure}
    (h : a.pushAll entries = (.error failure, a')) : ∃ name, failure = .duplicateEntry name := by
  induction entries generalizing a with
  | nil => cases h
  | cons e entries ih =>
    rw [pushAll] at h
    split at h
    · next he =>
      cases h
      exact push_error he
    · exact ih h

theorem pushAll_ok (h : (a.names ++ entries.map Entry.name).Nodup) :
    a.pushAll entries = (.ok (), { a with entries := a.entries ++ entries }) := by
  induction entries generalizing a with
  | nil => rw [pushAll, List.append_nil]
  | cons e es ih =>
    have hnew : a.names.contains e.name = false := by
      rw [Bool.eq_false_iff, ne_eq, List.contains_iff_mem]
      exact fun hmem => (List.nodup_append.1 h).2.2 _ hmem _ List.mem_cons_self rfl
    rw [pushAll, push, hnew, if_neg Bool.false_ne_true]
    simp only
    rw [ih]
    · rw [List.append_assoc]
      rfl
    · rwa [names, List.map_append, List.append_assoc]

theorem finish_error {write : Writer} {failure : Failure} (h : a.finish write = .error failure) :
    ∃ reason, write a.entries = .error reason ∧ failure = .archive reason := by
  rw [finish] at h
  cases hwrite : write a.entries with
  | ok bytes =>
    rw [hwrite] at h
    cases h
  | error reason =>
    rw [hwrite] at h
    cases h
    exact ⟨reason, rfl, rfl⟩

theorem finish_eq_ok {write : Writer} {bytes : ByteArray} :
    a.finish write = .ok bytes ↔ write a.entries = .ok bytes := by
  rw [finish]
  cases write a.entries with
  | ok content => exact ⟨fun h => by cases h; rfl, fun h => by cases h; rfl⟩
  | error reason => exact ⟨nofun, nofun⟩

namespace Understands

variable {bytes : ByteArray} {read : Reader} {write : Writer}

theorem read_finish (h : Understands read write) (hd : a.names.Nodup)
    (hfinish : a.finish write = .ok bytes) : read bytes = some a.entries :=
  h.readBack a.entries bytes hd (finish_eq_ok.1 hfinish)

theorem finish_of_fits (h : Understands read write) (hd : a.names.Nodup) (hfits : Fits a.entries) :
    ∃ bytes, a.finish write = .ok bytes := by
  obtain ⟨bytes, hwrite⟩ := h.accepts a.entries hd hfits
  exact ⟨bytes, finish_eq_ok.2 hwrite⟩

end Understands

/-- No two entries have the same name, and each of them is at or below one of the given parts. -/
structure Parted (a : Archive) (tops : List Text) : Prop where
  distinct : a.names.Nodup
  below : ∀ name ∈ a.names, ∃ top ∈ tops, (Files.Path.mk name).steps.head? = some top

namespace Parted

theorem empty (compression : Config.Compression) : Parted (.empty compression) [] where
  distinct := List.nodup_nil
  below := nofun

theorem not_mem (h : a.Parted tops) (hnew : top ∉ tops)
    (hn : (Files.Path.mk name).steps.head? = some top) : name ∉ a.names := by
  intro hm
  obtain ⟨other, hother, hhead⟩ := h.below name hm
  rw [hn] at hhead
  cases hhead
  exact hnew hother

theorem push (h : a.Parted tops) (hnew : top ∉ tops) (hd : (entries.map Entry.name).Nodup)
    (hn : ∀ name ∈ entries.map Entry.name, (Files.Path.mk name).steps.head? = some top) :
    Parted { a with entries := a.entries ++ entries } (top :: tops) := by
  constructor
  · rw [names, List.map_append]
    refine List.nodup_append.2 ⟨h.distinct, hd, ?_⟩
    rintro name hold other hother rfl
    exact h.not_mem hnew (hn name hother) hold
  · intro name hname
    rw [names, List.map_append, List.mem_append] at hname
    rcases hname with hname | hname
    · obtain ⟨other, hother, hhead⟩ := h.below name hname
      exact ⟨other, List.mem_cons_of_mem _ hother, hhead⟩
    · exact ⟨top, List.mem_cons_self, hn name hname⟩

theorem addDirectory (h : a.Parted tops) (source : Path) (t : Tree) (top : Text)
    (ht : isEntryName top) (hnew : top ∉ tops) :
    (∃ e, a.addDirectory t source top = (.error (.files e), a)) ∨
      ∃ node a', t.find source = .ok (source.names, node) ∧
        a' = { a with
          entries := a.entries ++ (t.below source.names).map (entryOf a.compression top) } ∧
        a.addDirectory t source top = (.ok (), a') ∧ a'.Parted (top :: tops) := by
  rw [Archive.addDirectory]
  cases hfind : t.find source with
  | error e => exact .inl ⟨_, rfl⟩
  | ok found =>
    obtain ⟨at', node⟩ := found
    obtain rfl := Tree.target_eq_names (Tree.find_eq_ok.1 hfind).1
    have hparted := h.push hnew (nodup_entryNames ht t source.names a.compression)
      fun name hname => head?_steps_of_mem_below ht hname
    have hnodup := hparted.distinct
    rw [names, List.map_append] at hnodup
    simp only [Text.dropEndWhile_of_not_mem (Files.isEntryName_iff.1 ht).2.2]
    exact .inr ⟨node, _, rfl, rfl, pushAll_ok hnodup, hparted⟩

theorem addFile (h : a.Parted tops) (source : Path) (t : Tree) (top : Text)
    (ht : isEntryName top) (hnew : top ∉ tops) :
    (∃ e, a.addFile t source top = .error (.files e)) ∨
      ∃ content a', t.read source = .ok content ∧
        a' = { a with entries := a.entries ++ [⟨top, a.compression, content⟩] } ∧
        a.addFile t source top = .ok a' ∧ a'.Parted (top :: tops) := by
  rw [Archive.addFile]
  cases t.read source with
  | error e => exact .inl ⟨e, rfl⟩
  | ok content =>
    have hhead : (Files.Path.mk top).steps.head? = some top := by
      rw [Files.steps_name ht]
      rfl
    have hcontains : a.names.contains top = false := by
      rw [Bool.eq_false_iff, ne_eq, List.contains_iff_mem]
      exact h.not_mem hnew hhead
    refine .inr ⟨content, _, rfl, rfl, ?_, ?_⟩
    · simp only [Archive.push, hcontains, if_neg Bool.false_ne_true]
    · refine h.push hnew (List.pairwise_singleton _ top) ?_
      intro name hname
      rwa [List.mem_singleton.1 hname]

end Parted

end PluginForge.Archive
