import PluginForge.Proofs.Build.Pruned

namespace PluginForge

open Files (Location Node OnWay Path Reaches Tree isEntryName names_join prune)

variable {at' : Location} {d : Details} {l : Layout} {library : Config.Library} {made t t' : Tree}
  {n : Nat} {root scratch stray : Path} {tools : Toolchain}

namespace Build.SupportLibrary

variable {result : Except Failure Unit} {w w' : Workshop}

/-- The way to where plugins are built passes through the library that an interrupted build has left. -/
def StrayOnWay (l : Layout) (t : Tree) : Prop :=
  ∃ at', OnWay l.workingRoot at' ∧ InStray l t at'

/-- What has become of the library that was prepared: it stays, has come back with all that belongs to it, or
is what was fetched, but for what is not wanted of it. Its path leads to it unless that has come back which
the path passes through, and preparing it again changes nothing. -/
structure Supplied (tools : Toolchain) (l : Layout) (library : Config.Library) (w w' : Workshop) :
    Prop where
  there : w'.files.node? l.cachePath.names = some .directory
  cached : w.files.isDirectory l.cachePath → w' = w
  restored : ∀ stray, w.files.isDirectory l.cachePath = false → l.strayPath = some stray →
    w.files.isDirectory stray → ∀ names,
      w'.files.node? (l.cachePath.names ++ names) = w.files.node? (stray.names ++ names) ∧
        w'.files.node? (stray.names ++ names) = none
  fetched : Missing l w.files → ∃ scratch fetched,
    CheckedOut tools l library w.files scratch fetched ∧ ∀ names node,
      w'.files.node? (l.cachePath.names ++ names) = some node ↔
        fetched.node? (((scratch.join checkoutName).join library.directory).names ++ names) = some node ∧
          ¬∃ text ∈ library.prune, Reaches ((scratch.join checkoutName).join text) fetched
            (((scratch.join checkoutName).join library.directory).names ++ names)
  reachable : w'.files.isDirectory l.cachePath ↔ ¬StrayOnWay l w.files
  again : (ensure tools l library w').2 = w'

theorem supplied_of_cached (h : w.files.isDirectory l.cachePath) : Supplied tools l library w w where
  there := (Tree.isDirectory_iff.1 h).2
  cached _ := rfl
  restored _ habsent := absurd h (Bool.eq_false_iff.1 habsent)
  fetched hmissing := absurd h hmissing.not_cached
  reachable := by
    refine iff_of_true h ?_
    rintro ⟨_, -, hstray⟩
    exact hstray.not_cached h
  again := by rw [ensure_of_cached h]

section Restoring

variable (hlib : library.IsPlain) (hn : Java.isIdentifier d.name)
  (hl : Layout.ofDetails library d = .ok l) (hp : l.strayPath = some stray)

include hlib hn hl hp

theorem not_cache_prefix_stray (hs : stray.names <+: at') : ¬l.cachePath.names <+: at' := by
  obtain ⟨below, rfl⟩ := hs
  rw [(Layout.ofDetails_ok hl).2.2.2.2 stray hp, names_join hlib.directory, List.append_assoc]
  exact Layout.not_cache_prefix_root hl hn hlib.directory

variable (hd : t.isDirectory stray) (hmoved : t.rename stray l.cachePath = .ok t')

include hd hmoved

theorem stray_renamed : Tree.Renamed t stray.names l.cachePath.names t' ∧
    Findable d.path library.directory ∧ t.walk [] d.path.steps = .ok d.path.names ∧
      t.node? d.path.names = some .directory := by
  obtain ⟨-, -, -, hcache, hstray⟩ := Layout.ofDetails_ok hl
  have hne : stray.names ≠ l.cachePath.names := fun he =>
    not_cache_prefix_stray hlib hn hl hp List.prefix_rfl (he ▸ List.prefix_rfl)
  obtain ⟨hrenamed, hnul, _, _, hholder, -⟩ :=
    Tree.rename_renamed hmoved (Tree.isDirectory_iff.1 hd).2 hne
  rw [hcache] at hholder
  obtain ⟨-, -, hwalk, hroot, hshort⟩ := Tree.holder_join hlib.directory hholder
  refine ⟨hrenamed, ⟨?_, hshort⟩, hwalk, hroot⟩
  rw [hstray stray hp, ← Bool.not_eq_true, List.contains_iff_mem] at hnul
  rw [← Bool.not_eq_true, List.contains_iff_mem]
  exact fun hmem => hnul
    (Files.mem_text_join_join (isEntryName_of_isIdentifier hn) hlib.directory (by decide) hmem)

/-- The library that has come back can be found unless the way to it was through its old place. -/
theorem restored_reachable :
    t'.isDirectory l.cachePath ↔ ¬∃ at', OnWay l.workingRoot at' ∧ stray.names <+: at' := by
  obtain ⟨hrenamed, hfind, hwalk, hroot⟩ := stray_renamed hlib hn hl hp hd hmoved
  obtain ⟨-, hworking, -, hcache, -⟩ := Layout.ofDetails_ok hl
  rw [hworking]
  constructor
  · rintro hthere ⟨at', hway, hinside⟩
    rw [hcache] at hthere
    have hon : OnWay (d.path.join library.directory) at' := by
      apply hway.mono
      rw [Files.steps_join hlib.directory]
      exact List.prefix_append _ _
    have hnode := Tree.node?_of_isDirectory hlib.directory hthere hon
    rw [hrenamed.gone at' hinside (not_cache_prefix_stray hlib hn hl hp hinside)] at hnode
    cases hnode
  · intro hoff
    have hkept {at' : Location} (hway : OnWay d.path at') : t'.node? at' = some .directory := by
      have hnode := Tree.node?_onWay hwalk hroot hway
      rw [Tree.rename_keeps hmoved (Tree.isDirectory_iff.1 hd).2
        (fun hinside => hoff ⟨at', hway, hinside⟩) (Option.isSome_of_eq_some hnode), hnode]
    rw [hcache]
    refine hfind.isDirectory hlib.directory ?_ (hkept (Files.onWay_names List.prefix_rfl))
      (hcache ▸ hrenamed.there)
    exact Tree.walk_congr hwalk fun way hstart _ => hkept ⟨way, hstart, rfl⟩

theorem restored_again (calls : List Call) (isCancelled : Bool) :
    (ensure tools l library ⟨t', calls, isCancelled⟩).2 = ⟨t', calls, isCancelled⟩ := by
  obtain ⟨hrenamed, hfind, -, -⟩ := stray_renamed hlib hn hl hp hd hmoved
  obtain ⟨-, hworking, -, hcache, -⟩ := Layout.ofDetails_ok hl
  cases hthere : t'.isDirectory l.cachePath with
  | true => rw [ensure_of_cached hthere]
  | false =>
    have hmissing : Missing l t' := by
      refine ⟨hthere, fun other hother => ?_⟩
      rw [Bool.eq_false_iff]
      intro hstray
      cases hp.symm.trans hother
      have hnode := (Tree.isDirectory_iff.1 hstray).2
      rw [hrenamed.gone _ List.prefix_rfl (not_cache_prefix_stray hlib hn hl hp List.prefix_rfl)] at hnode
      cases hnode
    rcases ensure_missing_cases (w := ⟨t', calls, isCancelled⟩) tools library hmissing with
      ⟨e, -, hfailed⟩ | ⟨scratch, made, result, done, hmade, -, -⟩
    · rw [hfailed]
    · rw [hworking] at hmade
      obtain ⟨n, rfl, hmade⟩ := Files.makeScratch_ok hmade
      obtain ⟨hwalk, hroot, -⟩ :=
        Tree.target_makeDirectory_join (Files.isEntryName_scratchName n) hmade
      have hfound := hfind.isDirectory hlib.directory hwalk hroot (hcache ▸ hrenamed.there)
      rw [← hcache, hthere] at hfound
      cases hfound

theorem supplied_of_stray (habsent : t.isDirectory l.cachePath = false) (calls : List Call)
    (isCancelled : Bool) :
    Supplied tools l library ⟨t, calls, isCancelled⟩ ⟨t', calls, isCancelled⟩ := by
  obtain ⟨hrenamed, -⟩ := stray_renamed hlib hn hl hp hd hmoved
  refine ⟨hrenamed.there, fun hcached => absurd hcached (Bool.eq_false_iff.1 habsent),
    fun other _ hother _ names => ?_, fun hmissing => absurd hd (hmissing.not_left hp), ?_,
    restored_again hlib hn hl hp hd hmoved calls isCancelled⟩
  · cases hp.symm.trans hother
    refine ⟨hrenamed.contents names, ?_⟩
    have hinside := List.prefix_append stray.names names
    exact hrenamed.gone _ hinside (not_cache_prefix_stray hlib hn hl hp hinside)
  · rw [restored_reachable hlib hn hl hp hd hmoved]
    refine not_congr (exists_congr fun at' => and_congr_right fun _ => ?_)
    constructor
    · exact fun hinside => ⟨habsent, stray, hp, hd, hinside⟩
    · rintro ⟨-, other, hother, -, hinside⟩
      cases hp.symm.trans hother
      exact hinside

end Restoring

section Fetching

variable (hmade : t.makeDirectory (root.join (Files.scratchName n)) = .ok made)

include hmade

theorem checkout_way
    (hway : OnWay ((root.join (Files.scratchName n)).join checkoutName) at')
    (hinside : ((root.join (Files.scratchName n)).join checkoutName).names <+: at') :
    at' = ((root.join (Files.scratchName n)).join checkoutName).names := by
  have hname := Files.isEntryName_scratchName n
  have hcheckout : isEntryName checkoutName := by decide
  obtain ⟨way, hstart, rfl⟩ := hway
  rw [Files.steps_join hcheckout, List.prefix_concat_iff] at hstart
  rcases hstart with rfl | hstart
  · rw [Files.names_eq_follow, Files.steps_join hcheckout]
  rw [Files.steps_join hname, List.prefix_concat_iff] at hstart
  rcases hstart with rfl | hstart
  · have hscratch : Files.follow [] (root.steps ++ [Files.scratchName n]) =
        (root.join (Files.scratchName n)).names := by
      rw [Files.names_eq_follow, Files.steps_join hname]
    rw [hscratch, names_join hcheckout] at hinside
    have hlength := hinside.length_le
    rw [List.length_append, List.length_singleton] at hlength
    omega
  · obtain ⟨hwalk, hroot, -⟩ := Tree.target_makeDirectory_join hname hmade
    have hd := Tree.node?_onWay hwalk hroot ⟨way, hstart, rfl⟩
    have hscratch : root.names ++ [Files.scratchName n] <+: Files.follow [] way := by
      rw [names_checkout] at hinside
      exact (Files.prefix_siblings.2 rfl).trans hinside
    rw [Files.node?_scratch hname hmade hscratch] at hd
    cases hd

/-- What is left of a checkout is what none of the unwanted paths leads to. -/
theorem node?_checkout {fetched pruned : Tree} {node : Node} (hlib : library.IsPlain)
    (hprune : prune ((root.join (Files.scratchName n)).join checkoutName) library.prune fetched =
      (.ok (), pruned)) :
    pruned.node? at' = some node ↔ fetched.node? at' = some node ∧
      ¬∃ text ∈ library.prune,
        Reaches (((root.join (Files.scratchName n)).join checkoutName).join text) fetched at' := by
  have hcheckout : Files.endsInName ((root.join (Files.scratchName n)).join checkoutName) := by
    rw [Files.endsInName, Files.steps_join (by decide), List.getLast?_concat]
    rfl
  obtain ⟨hgone, hkept⟩ := Files.node?_prune ((root.join (Files.scratchName n)).join checkoutName)
    library.prune fetched at'
  rw [hprune] at hgone hkept
  rw [← Files.prunes_iff hcheckout (fun at' => checkout_way hmade) hlib.prune hprune]
  constructor
  · intro hnode
    have hnot := fun hprunes => Option.some_ne_none node (hnode.symm.trans (hgone hprunes))
    exact ⟨(hkept hnot).symm.trans hnode, hnot⟩
  · rintro ⟨hnode, hnot⟩
    exact (hkept hnot).trans hnode

end Fetching

section Obtaining

variable (hlib : library.IsPlain) (ht : tools.FetchesBelow) (hl : Layout.ofDetails library d = .ok l)
  (hmade : Files.makeScratch l.workingRoot w.files = (.ok scratch, made))

include hlib ht

theorem prune_sameOutside {fetched pruned : Tree} {outcome : Except Failure Unit}
    {ended : Except Files.Error Unit}
    (hfetch : tools.fetch l library (scratch.join checkoutName) t = (outcome, fetched))
    (hprune : prune (scratch.join checkoutName) library.prune fetched = (ended, pruned)) :
    t.SameOutside (scratch.join checkoutName).names pruned := by
  have hfetched := ht l library (scratch.join checkoutName) t
  have hpruned := Files.sameOutside_prune (p := scratch.join checkoutName) hlib.prune fetched
  rw [hfetch] at hfetched
  rw [hprune] at hpruned
  exact hfetched.trans hpruned

include hmade

theorem removePath_of_error {failure : Failure}
    (h : Obtains tools l library scratch made (.error failure) t') :
    (Files.removePath scratch t').2 = w.files := by
  have hworked : made.SameOutside (scratch.join checkoutName).names t' := by
    cases h with
    | unfetched hfetch =>
      have hfetched := ht l library (scratch.join checkoutName) made
      rwa [hfetch] at hfetched
    | unpruned hfetch hprune | absent hfetch hprune | unmoved hfetch hprune =>
      exact prune_sameOutside hlib ht hfetch hprune
  obtain ⟨n, rfl, hmade⟩ := Files.makeScratch_ok hmade
  rw [names_checkout] at hworked
  exact Files.removePath_scratch (Files.isEntryName_scratchName n) hmade hworked (List.cons_ne_nil _ _)

include hl

/-- A library that was obtained stands at its place, and nothing else has changed. -/
theorem supplied_of_obtains (hmissing : Missing l w.files)
    (h : Obtains tools l library scratch made (.ok ()) t') (calls : List Call) (isCancelled : Bool) :
    Supplied tools l library w ⟨(Files.removePath scratch t').2, calls, isCancelled⟩ ∧
      w.files.SameOutside l.cachePath.names (Files.removePath scratch t').2 ∧
      (Files.removePath scratch t').2.node? scratch.names = none := by
  obtain ⟨-, hworking, -, hcache, -⟩ := Layout.ofDetails_ok hl
  cases h with
  | @moved fetched pruned _ hfetch hprune hfound hmoved =>
    have hchecked : CheckedOut tools l library w.files scratch fetched :=
      ⟨hmissing, made, hmade, hfetch⟩
    rw [hworking] at hmade
    obtain ⟨n, rfl, hmade⟩ := Files.makeScratch_ok hmade
    have hworked := prune_sameOutside hlib ht hfetch hprune
    have hexchange := exchange hlib hcache hmissing.1 hmade hworked hfound hmoved
    have hplace : l.cachePath.names = d.path.names ++ [library.directory] := by
      rw [hcache, names_join hlib.directory]
    obtain ⟨hthere, hsame⟩ := hexchange.frame
    have hfind := hexchange.isDirectory
    rw [← hplace] at hthere hsame
    rw [← hcache] at hfind
    refine ⟨?_, hsame, ?_⟩
    · refine ⟨hthere, fun hcached => absurd hcached hmissing.not_cached,
        fun stray _ hp hd => absurd hd (hmissing.not_left hp), fun _ => ?_, ?_, ?_⟩
      · refine ⟨_, fetched, hchecked, fun names node => ?_⟩
        rw [hplace, hexchange.contents, ← node?_checkout hmade hlib hprune, names_found hlib]
        rfl
      · exact iff_of_true hfind fun ⟨_, _, hstray⟩ => hmissing.not_inStray hstray
      · rw [ensure_of_cached hfind]
    · rw [hexchange.node?_removed, names_join (Files.isEntryName_scratchName n)]
      exact if_pos List.prefix_rfl

end Obtaining

theorem node?_checkout_made (hmade : Files.makeScratch root t = (.ok scratch, made)) :
    t.node? scratch.names = none ∧ made.node? (scratch.join checkoutName).names = none := by
  obtain ⟨n, rfl, hmade⟩ := Files.makeScratch_ok hmade
  have hname := Files.isEntryName_scratchName n
  refine ⟨(Tree.makeDirectory_ok hmade).1, ?_⟩
  rw [Files.node?_made hname hmade, names_checkout, if_neg (by simp)]
  exact Files.node?_scratch hname hmade (Files.prefix_siblings.2 rfl)

/-- What preparing the support library has done. A library that is at its place is used, and one that an
interrupted build has left is moved. The tools are asked at most once, and exactly if the library is missing and
a scratch directory can be made, for a place where nothing stands; nothing is left of that directory, and the
result is that of the first step that fails. A success supplies the library, and a failure leaves all files as
they were. Either way nothing has changed but the place of the library and the place that it has come back
from. -/
structure Outcome (tools : Toolchain) (l : Layout) (library : Config.Library) (w : Workshop)
    (result : Except Failure Unit) (w' : Workshop) : Prop where
  used : w.files.isDirectory l.cachePath → result = .ok ()
  moved : ∀ stray, w.files.isDirectory l.cachePath = false → l.strayPath = some stray →
    w.files.isDirectory stray → result = (Files.rename stray l.cachePath w.files).1.mapError .files
  unneeded : ¬Missing l w.files → w'.calls = w.calls
  needed : Missing l w.files →
    (∃ e, Files.makeScratch l.workingRoot w.files = (.error e, w.files) ∧
        result = .error (.files e) ∧ w' = w) ∨
      ∃ scratch made, Files.makeScratch l.workingRoot w.files = (.ok scratch, made) ∧
        made.node? (scratch.join checkoutName).names = none ∧
        w'.calls = w.calls ++ [.fetch library (scratch.join checkoutName)] ∧
        w'.files.node? scratch.names = none ∧ ∃ t', Obtains tools l library scratch made result t'
  supplied : result = .ok () → Supplied tools l library w w'
  failed : ∀ failure, result = .error failure → w'.files = w.files
  outside : ∀ at', ¬l.cachePath.names <+: at' → ¬InStray l w.files at' →
    w'.files.node? at' = w.files.node? at'

theorem outcome_of_cached (h : w.files.isDirectory l.cachePath) :
    Outcome tools l library w (.ok ()) w where
  used _ := rfl
  moved _ habsent := absurd h (Bool.eq_false_iff.1 habsent)
  unneeded _ := rfl
  needed hmissing := absurd h hmissing.not_cached
  supplied _ := supplied_of_cached h
  failed := nofun
  outside _ _ _ := rfl

theorem outcome_of_stray (hlib : library.IsPlain) (hn : Java.isIdentifier d.name)
    (hl : Layout.ofDetails library d = .ok l) (habsent : w.files.isDirectory l.cachePath = false)
    (hp : l.strayPath = some stray) (hd : w.files.isDirectory stray)
    (h : Work.onFiles (Files.rename stray l.cachePath) w = (result, w')) :
    Outcome tools l library w result w' := by
  have hfound : ¬Missing l w.files := fun hmissing => hmissing.not_left hp hd
  have hused (hcached : w.files.isDirectory l.cachePath) : result = .ok () :=
    absurd hcached (Bool.eq_false_iff.1 habsent)
  rw [Work.onFiles_eq] at h
  have hresult (other : Path) (_ : w.files.isDirectory l.cachePath = false)
      (hother : l.strayPath = some other) (_ : w.files.isDirectory other) :
      result = (Files.rename other l.cachePath w.files).1.mapError .files := by
    cases hp.symm.trans hother
    exact (congrArg Prod.fst h).symm
  rw [Files.rename, Files.Action.change] at h
  cases hmoved : w.files.rename stray l.cachePath with
  | error e =>
    rw [hmoved] at h
    cases h
    refine ⟨hused, hresult, fun _ => rfl, fun hmissing => absurd hmissing hfound, fun hok => ?_,
      fun _ _ => rfl, fun _ _ _ => rfl⟩
    cases hok
  | ok t' =>
    rw [hmoved] at h
    cases h
    refine ⟨hused, hresult, fun _ => rfl, fun hmissing => absurd hmissing hfound,
      fun _ => supplied_of_stray hlib hn hl hp hd hmoved habsent _ _, fun failure herror => ?_,
      fun at' hcache hstray => ?_⟩
    · cases herror
    · obtain ⟨hrenamed, -⟩ := stray_renamed hlib hn hl hp hd hmoved
      exact hrenamed.outside at' (fun hinside => hstray ⟨habsent, stray, hp, hd, hinside⟩) hcache

theorem outcome_of_missing (hlib : library.IsPlain) (ht : tools.FetchesBelow)
    (hl : Layout.ofDetails library d = .ok l) (hmissing : Missing l w.files)
    (h : ensure tools l library w = (result, w')) : Outcome tools l library w result w' := by
  have hused (hcached : w.files.isDirectory l.cachePath) : result = .ok () :=
    absurd hcached hmissing.not_cached
  have hresult (other : Path) (_ : w.files.isDirectory l.cachePath = false)
      (hother : l.strayPath = some other) (hd : w.files.isDirectory other) :
      result = (Files.rename other l.cachePath w.files).1.mapError .files :=
    absurd hd (hmissing.not_left hother)
  rcases ensure_missing_cases tools library hmissing with
    ⟨e, hfailed, hensure⟩ | ⟨scratch, made, _, t', hmade, hobtains, hensure⟩
  · cases hensure.symm.trans h
    exact ⟨hused, hresult, fun _ => rfl, fun _ => .inl ⟨e, hfailed, rfl, rfl⟩, nofun, fun _ _ => rfl,
      fun _ _ _ => rfl⟩
  cases hensure.symm.trans h
  obtain ⟨hfree, hnew⟩ := node?_checkout_made hmade
  cases result with
  | error failure =>
    have hundone := removePath_of_error hlib ht hmade hobtains
    have hscratch : (Files.removePath scratch t').2.node? scratch.names = none := by
      rw [hundone, hfree]
    exact ⟨hused, hresult, fun hfound => absurd hmissing hfound,
      fun _ => .inr ⟨scratch, made, hmade, hnew, rfl, hscratch, t', hobtains⟩, nofun, fun _ _ => hundone,
      fun _ _ _ => by rw [hundone]⟩
  | ok _ =>
    obtain ⟨hsupplied, hsame, hscratch⟩ :=
      supplied_of_obtains hlib ht hl hmade hmissing hobtains _ w.isCancelled
    exact ⟨hused, hresult, fun hfound => absurd hmissing hfound,
      fun _ => .inr ⟨scratch, made, hmade, hnew, rfl, hscratch, t', hobtains⟩, fun _ => hsupplied, nofun,
      fun at' hcache _ => hsame at' hcache⟩

/-- Preparing a support library with a plain name, of which nothing outside the checkout is unwanted, by
tools that write below their destination only. -/
theorem ensure_supplies (hlib : library.IsPlain) (ht : tools.FetchesBelow)
    (hn : Java.isIdentifier d.name) (hl : Layout.ofDetails library d = .ok l) (w : Workshop) :
    Outcome tools l library w (ensure tools l library w).1 (ensure tools l library w).2 := by
  rcases cached_or_strayed_or_missing l w.files with hcached | ⟨habsent, stray, hp, hd⟩ | hmissing
  · rw [ensure_of_cached hcached]
    exact outcome_of_cached hcached
  · rw [ensure_of_stray habsent hp hd]
    exact outcome_of_stray hlib hn hl habsent hp hd rfl
  · exact outcome_of_missing hlib ht hl hmissing rfl

theorem ensure_supplies_demo :
    Layout.ofDetails Config.bare.library (.ofName "Demo") = .ok demoLayout ∧
      Config.bare.library.IsPlain ∧ Assembly.confinedTools.FetchesBelow ∧
      ∃ w', ensure Assembly.confinedTools demoLayout Config.bare.library noted = (.ok (), w') ∧
        w'.files.isDirectory demoLayout.cachePath ∧
        w'.files.node? ["notes.txt".toList] = noted.files.node? ["notes.txt".toList] ∧
        (ensure Assembly.confinedTools demoLayout Config.bare.library w').2 = w' := by
  have hl : Layout.ofDetails Config.bare.library (.ofName "Demo") = .ok demoLayout := rfl
  have hplain : Config.bare.library.IsPlain := Assembly.isPlain_default
  have ht := Assembly.confinedTools_fetchesBelow
  have hname : Java.isIdentifier (Details.ofName "Demo").name := by decide
  have hok : (ensure Assembly.confinedTools demoLayout Config.bare.library noted).1.isOk := by
    decide +kernel
  obtain ⟨_, w', hensure⟩ := exists_eq_ok_of_isOk hok
  have houtcome := ensure_supplies hplain ht hname hl noted
  rw [hensure] at houtcome
  have hoff : ¬StrayOnWay demoLayout noted.files := by
    rintro ⟨at', -, hinside⟩
    exact not_inStray_noted at' hinside
  have hsupplied := houtcome.supplied rfl
  have hnotes : ¬demoLayout.cachePath.names <+: ["notes.txt".toList] := by decide
  have hkept := houtcome.outside _ hnotes (not_inStray_noted _)
  exact ⟨hl, hplain, ht, w', hensure, hsupplied.reachable.2 hoff, hkept, hsupplied.again⟩

/-- A plugin whose path goes into the library that an interrupted build has left, and back. -/
def strayed : Details :=
  { Details.ofName "Demo" with path := ⟨"Demo/org/../.."⟩ }

def strayedLayout : Layout where
  workingRoot := ⟨"Demo/org/../.."⟩
  pluginRoot := ⟨"Demo/org/../../Demo"⟩
  cachePath := ⟨"Demo/org/../../org"⟩
  strayPath := some ⟨"Demo/org/../../Demo/org"⟩

def strayedWorkshop : Workshop :=
  .ofFiles ((Tree.empty.put ["Demo".toList] .directory).put
    ["Demo".toList, Config.libraryDirectory] .directory)

/-- When the library has come back, the path that passed through its old place leads nowhere. -/
theorem ensure_supplies_unreachable :
    Layout.ofDetails Config.bare.library strayed = .ok strayedLayout ∧ Java.isIdentifier strayed.name ∧
      Config.bare.library.IsPlain ∧ Assembly.confinedTools.FetchesBelow ∧
      (ensure Assembly.confinedTools strayedLayout Config.bare.library strayedWorkshop).1.isOk ∧
      (ensure Assembly.confinedTools strayedLayout Config.bare.library
        strayedWorkshop).2.files.isDirectory strayedLayout.cachePath = false := by
  refine ⟨rfl, by decide, Assembly.isPlain_default, Assembly.confinedTools_fetchesBelow, ?_, ?_⟩
  · decide +kernel
  · decide +kernel

end Build.SupportLibrary

end PluginForge
