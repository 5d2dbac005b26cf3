import PluginForge.Proofs.Build.Obtaining

namespace PluginForge

open Files (Path Tree isEntryName names_join)

/-- The library has a plain name, and what is not wanted of a checkout is named inside the checkout. -/
structure Config.Library.IsPlain (library : Config.Library) : Prop where
  directory : isEntryName library.directory
  prune : ∀ text ∈ library.prune, Files.staysInside text

namespace Build

/-- The tools keep to their places: fetching changes nothing but its destination, and compiling the
sources of a plugin nothing but the directory of the first segment of its package. -/
structure Toolchain.KeepsOutside (tools : Toolchain) (d : Details) : Prop where
  fetch : ∀ l library destination t t', tools.fetch l library destination t = (.ok (), t') →
    t.SameOutside destination.names t'
  compile : ∀ l t t', tools.compile l d.entryPointPath t = (.ok (), t') →
    t.SameOutside d.sourceRoot.names t'

namespace SupportLibrary

variable {d : Details} {l : Layout} {library : Config.Library} {scratch stray : Path}
  {tools : Toolchain} {w w' : Workshop}

/-- What a library goes through that is obtained: it is fetched, the checkout is pruned, and the library's
directory is moved from there. -/
theorem obtain_steps (hlib : library.IsPlain)
    (h : obtain tools l library scratch w = (.ok (), w')) :
    ∃ fetched t, tools.fetch l library (scratch.join checkoutName) w.files = (.ok (), fetched) ∧
      fetched.SameOutside (scratch.join checkoutName).names t ∧
      t.isDirectory ((scratch.join checkoutName).join library.directory) ∧
      t.rename ((scratch.join checkoutName).join library.directory) l.cachePath = .ok w'.files := by
  obtain ⟨result, t', hobtains, hobtain⟩ := obtain_obtains tools l library scratch w
  cases h.symm.trans hobtain
  cases hobtains with
  | @moved fetched pruned _ hfetch hprune hfound hmoved =>
    have hsame := Files.sameOutside_prune (p := scratch.join checkoutName) hlib.prune fetched
    rw [hprune] at hsame
    exact ⟨fetched, pruned, hfetch, hsame, hfound, hmoved⟩

theorem obtain_ok (hlib : library.IsPlain) (ht : tools.KeepsOutside d)
    (h : obtain tools l library scratch w = (.ok (), w')) :
    ∃ t, w.files.SameOutside (scratch.join checkoutName).names t ∧
      t.isDirectory ((scratch.join checkoutName).join library.directory) ∧
      t.rename ((scratch.join checkoutName).join library.directory) l.cachePath = .ok w'.files := by
  obtain ⟨fetched, t, hfetched, hpruned, hmoved⟩ := obtain_steps hlib h
  exact ⟨t, (ht.fetch _ _ _ _ _ hfetched).trans hpruned, hmoved⟩

theorem names_checkout (p : Path) (n : Nat) :
    ((p.join (Files.scratchName n)).join checkoutName).names =
      p.names ++ [Files.scratchName n, checkoutName] := by
  rw [names_join (by decide), names_join (Files.isEntryName_scratchName n)]
  simp

theorem names_found (hlib : library.IsPlain) (p : Path) (n : Nat) :
    (((p.join (Files.scratchName n)).join checkoutName).join library.directory).names =
      p.names ++ [Files.scratchName n, checkoutName, library.directory] := by
  rw [names_join hlib.directory, names_checkout]
  simp

/-- A library that is worked out in a checkout goes from there to its place. -/
theorem exchange {n : Nat} {made t t' : Tree} (hlib : library.IsPlain)
    (hcache : l.cachePath = d.path.join library.directory)
    (habsent : w.files.isDirectory l.cachePath = false)
    (hmade : w.files.makeDirectory (d.path.join (Files.scratchName n)) = .ok made)
    (hworked : made.SameOutside ((d.path.join (Files.scratchName n)).join checkoutName).names t)
    (hfound : t.isDirectory
      (((d.path.join (Files.scratchName n)).join checkoutName).join library.directory))
    (hmoved : t.rename (((d.path.join (Files.scratchName n)).join checkoutName).join library.directory)
      l.cachePath = .ok t') :
    Files.Exchange d.path (Files.scratchName n) library.directory [checkoutName] w.files made t t' where
  scratchName := Files.isEntryName_scratchName n
  dirName := hlib.directory
  absent := hcache ▸ habsent
  made := hmade
  worked := by
    rw [names_checkout] at hworked
    exact hworked
  deep := List.cons_ne_nil _ _
  found := by
    have hd := (Tree.isDirectory_iff.1 hfound).2
    rw [names_found hlib] at hd
    exact hd
  moved := by
    refine ⟨_, names_found hlib _ _, fun hnul => ?_, hcache ▸ hmoved⟩
    apply Files.mem_text_join_join (by decide) hlib.directory (by decide)
    exact Files.mem_text_join_join (Files.isEntryName_scratchName n) hlib.directory (by decide) hnul

theorem fetch_ok (hlib : library.IsPlain) (ht : tools.KeepsOutside d) (hl : l.workingRoot = d.path)
    (hcache : l.cachePath = d.path.join library.directory)
    (habsent : w.files.isDirectory l.cachePath = false)
    (h : Work.withScratch l.workingRoot (obtain tools l library) w = (.ok (), w')) :
    w'.files.node? l.cachePath.names = some .directory ∧
      w.files.SameOutside l.cachePath.names w'.files := by
  rw [hl] at h
  obtain ⟨scratch, made, done, hmade, hobtain, hfiles⟩ := Work.withScratch_ok h
  obtain ⟨n, rfl, hmade⟩ := Files.makeScratch_ok hmade
  obtain ⟨t, hworked, hfound, hmoved⟩ := obtain_ok hlib ht hobtain
  have hexchange := exchange hlib hcache habsent hmade hworked hfound hmoved
  rw [hfiles, hcache, names_join hlib.directory]
  exact hexchange.frame

theorem names_stray_ne (hlib : library.IsPlain) (hn : isEntryName d.name) :
    (d.root.join library.directory).names ≠ (d.path.join library.directory).names := by
  intro he
  have hlength := congrArg List.length he
  rw [names_join hlib.directory, names_join hlib.directory, Details.root, names_join hn] at hlength
  simp at hlength

/-- The support library is at its place in the end. Nothing else has changed, unless it was moved there
from the project, where it had been left. -/
theorem ensure_ok (hlib : library.IsPlain) (ht : tools.KeepsOutside d)
    (hn : isEntryName d.name) (hl : Layout.ofDetails library d = .ok l)
    (h : ensure tools l library w = (.ok (), w')) :
    w'.files.node? l.cachePath.names = some .directory ∧
      (¬Strayed l w.files ∧ w.files.SameOutside l.cachePath.names w'.files ∨
        Strayed l w.files ∧
          Tree.Renamed w.files (d.root.join library.directory).names l.cachePath.names w'.files) := by
  obtain ⟨-, hworking, -, hcache, hstray⟩ := Layout.ofDetails_ok hl
  rcases ensure_cases h with ⟨hthere, rfl⟩ | ⟨habsent, ⟨stray, hp, hd, hmoved⟩ | ⟨hnone, hfetched⟩⟩
  · refine ⟨(Tree.isDirectory_iff.1 hthere).2, .inl ⟨fun hstrayed => ?_, .refl _ _⟩⟩
    rw [hstrayed.1] at hthere
    cases hthere
  · have hstrayed : Strayed l w.files := ⟨habsent, stray, hp, hd⟩
    rw [hstray stray hp] at hd hmoved
    have hne := hcache ▸ names_stray_ne hlib hn
    obtain ⟨hrenamed, -⟩ := Tree.rename_renamed hmoved (Tree.isDirectory_iff.1 hd).2 hne
    exact ⟨hrenamed.there, .inr ⟨hstrayed, hrenamed⟩⟩
  · obtain ⟨hthere, hsame⟩ := fetch_ok hlib ht hworking hcache habsent hfetched
    refine ⟨hthere, .inl ⟨?_, hsame⟩⟩
    rintro ⟨-, stray, hp, hd⟩
    exact hnone stray hp hd

end SupportLibrary

end Build

end PluginForge
