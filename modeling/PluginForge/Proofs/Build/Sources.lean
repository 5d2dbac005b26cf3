import PluginForge.Build.Assembly
import PluginForge.Proofs.Plugin.EntryPoint
import PluginForge.Proofs.Plugin.Places
import PluginForge.Proofs.Plugin.Registration

namespace PluginForge.Build

open Files (Path Tree Writes)

variable {α : Type} {a : α} {w w' : Workshop} {l : Layout} {d : Details} {plugin : Plugin}
  {tools : Toolchain} {config : Config} {artifact : Artifact} {write : Archive.Writer}

theorem adapt_ok {action : Files.Action α} {t t' : Tree}
    (h : (action.adapt Failure.files) t = (.ok a, t')) : action t = (.ok a, t') := by
  have hadapt : (action.adapt Failure.files) t =
      ((action t).1.mapError .files, (action t).2) := rfl
  rw [hadapt] at h
  cases hr : action t with
  | mk result files =>
    rw [hr] at h
    cases result with
    | error e => cases h
    | ok value =>
      cases h
      rfl

theorem adapt_error {action : Files.Action α} {failure : Failure} {t t' : Tree}
    (h : (action.adapt Failure.files) t = (.error failure, t')) :
    ∃ e, failure = .files e ∧ action t = (.error e, t') := by
  have hadapt : (action.adapt Failure.files) t =
      ((action t).1.mapError .files, (action t).2) := rfl
  rw [hadapt] at h
  cases hr : action t with
  | mk result files =>
    rw [hr] at h
    cases result with
    | error e =>
      cases h
      exact ⟨e, rfl, rfl⟩
    | ok value => cases h

theorem Work.act_ok {action : Action α} (h : Work.act action w = (.ok a, w')) :
    action w.files = (.ok a, w'.files) ∧ w'.calls = w.calls := by
  rw [Work.act] at h
  split at h
  next hr =>
  cases h
  exact ⟨hr, rfl⟩

theorem Work.onFiles_eq (action : Files.Action α) (w : Workshop) :
    Work.onFiles action w =
      ((action w.files).1.mapError .files, { w with files := (action w.files).2 }) :=
  rfl

theorem Work.onFiles_ok {action : Files.Action α} (h : Work.onFiles action w = (.ok a, w')) :
    action w.files = (.ok a, w'.files) ∧ w'.calls = w.calls := by
  obtain ⟨hact, hcalls⟩ := Work.act_ok h
  exact ⟨adapt_ok hact, hcalls⟩

theorem Work.isDirectory_ok {p : Path} {found : Bool}
    (h : Work.onFiles (Files.isDirectory p) w = (.ok found, w')) :
    found = w.files.isDirectory p ∧ w' = w := by
  cases h
  exact ⟨rfl, rfl⟩

theorem Work.rename_ok {p q : Path} (h : Work.onFiles (Files.rename p q) w = (.ok (), w')) :
    w.files.rename p q = .ok w'.files :=
  Files.change_ok (Work.onFiles_ok h).1

theorem Work.liftM_ok {x : Except Failure α} (h : (liftM x : Work α) w = (.ok a, w')) :
    x = .ok a ∧ w' = w := by
  cases h
  exact ⟨rfl, rfl⟩

theorem Work.compile_ok {p : Path} (h : Work.compile tools l p w = (.ok (), w')) :
    tools.compile l p w.files = (.ok (), w'.files) ∧
      w'.calls = w.calls ++ [.compile l p w.files] := by
  rw [Work.compile] at h
  obtain ⟨_, _, hget, h⟩ := bind_eq_ok.1 h
  cases hget
  obtain ⟨_, noted, hnote, h⟩ := bind_eq_ok.1 h
  cases hnote
  exact Work.act_ok h

theorem Work.withScratch_ok {root : Path} {task : Path → Work α}
    (h : Work.withScratch root task w = (.ok a, w')) :
    ∃ scratch made done, Files.makeScratch root w.files = (.ok scratch, made.files) ∧
      task scratch made = (.ok a, done) ∧
      w'.files = (Files.removePath scratch done.files).2 := by
  rw [Work.withScratch] at h
  obtain ⟨scratch, made, hmade, h⟩ := bind_eq_ok.1 h
  split at h
  next result done htask =>
  cases h
  exact ⟨scratch, made, done, (Work.onFiles_ok hmade).1, htask, rfl⟩

theorem Work.writeText_ok {p : Path} {text : Text}
    (h : Work.onFiles (Files.writeText p text) w = (.ok (), w')) :
    Writes w.files [(p, Text.toUtf8 text)] w'.files ∧ w'.calls = w.calls := by
  obtain ⟨hwrite, hcalls⟩ := Work.onFiles_ok h
  exact ⟨.write .nil (Files.writeText_ok hwrite), hcalls⟩

theorem Work.ensureDirectory_ok {p : Path}
    (h : Work.onFiles (Files.ensureDirectory p) w = (.ok (), w')) :
    Writes w.files [] w'.files ∧ w'.calls = w.calls := by
  obtain ⟨hmade, hcalls⟩ := Work.onFiles_ok h
  have hgrown := Files.ensureDirectory_grown p w.files
  rw [hmade] at hgrown
  exact ⟨.grown .nil hgrown, hcalls⟩

theorem Layout.ofDetails_ok {library : Config.Library} (h : Layout.ofDetails library d = .ok l) :
    d.name ≠ library.directory ∧ l.workingRoot = d.path ∧ l.pluginRoot = d.root ∧
      l.cachePath = d.path.join library.directory ∧
      ∀ stray, l.strayPath = some stray → stray = d.root.join library.directory := by
  rw [Layout.ofDetails] at h
  split at h
  · cases h
  next hne =>
  cases h
  refine ⟨hne, rfl, rfl, rfl, fun stray hstray => ?_⟩
  simp only at hstray
  split at hstray
  · cases hstray
  · exact (Option.some.inj hstray).symm

namespace Assembly

def commandFiles (plugin : Plugin) : List (Path × ByteArray) :=
  plugin.commands.filterMap fun c =>
    c.commandClass.map fun commandClass =>
      (plugin.details.commandPath c.name, Text.toUtf8 commandClass.source)

def sourceFiles (plugin : Plugin) (l : Layout) : List (Path × ByteArray) :=
  commandFiles plugin ++
    [(plugin.details.entryPointPath,
        Text.toUtf8 (plugin.entryPoint.source (registeredNames plugin))),
      ((buildManifestDirectory l).join BuildManifest.fileName,
        Text.toUtf8 (BuildManifest.text plugin.details.mainClass))]

theorem ensureProject_ok (h : ensureProject plugin w = (.ok (), w')) :
    Writes w.files (Project.manifestFile plugin) w'.files ∧ w'.calls = w.calls := by
  rw [ensureProject] at h
  cases hr : Project.ensure ⟨plugin, w.files⟩ with
  | mk result project =>
    rw [hr] at h
    cases h
    exact ⟨(Project.ensure_ok hr).2, rfl⟩

theorem writeCommands_ok (h : writeCommands plugin w = (.ok (), w')) :
    Writes w.files (commandFiles plugin) w'.files ∧ w'.calls = w.calls := by
  rw [writeCommands] at h
  rw [commandFiles]
  generalize plugin.commands = commands at h ⊢
  induction commands generalizing w with
  | nil =>
    cases h
    exact ⟨.nil, rfl⟩
  | cons c commands ih =>
    rw [List.forM] at h
    obtain ⟨_, between, hfirst, h⟩ := bind_eq_ok.1 h
    obtain ⟨hrest, hcalls⟩ := ih h
    cases hc : c.commandClass with
    | none =>
      rw [hc] at hfirst
      cases hfirst
      rw [List.filterMap_cons_none (by rw [hc]; rfl)]
      exact ⟨hrest, hcalls⟩
    | some commandClass =>
      rw [hc] at hfirst
      obtain ⟨hwrite, hcalls'⟩ := Work.writeText_ok hfirst
      rw [List.filterMap_cons_some (by rw [hc]; rfl)]
      exact ⟨hwrite.append hrest, hcalls.trans hcalls'⟩

theorem writeSources_ok (h : writeSources plugin l w = (.ok (), w')) :
    Writes w.files (sourceFiles plugin l) w'.files ∧ w'.calls = w.calls := by
  rw [writeSources] at h
  obtain ⟨_, _, hcommands, h⟩ := bind_eq_ok.1 h
  obtain ⟨_, _, hentry, h⟩ := bind_eq_ok.1 h
  rw [writeBuildManifest] at h
  obtain ⟨_, _, hmade, hmanifest⟩ := bind_eq_ok.1 h
  obtain ⟨hcommands, hcalls₁⟩ := writeCommands_ok hcommands
  obtain ⟨hentry, hcalls₂⟩ := Work.writeText_ok hentry
  obtain ⟨hmade, hcalls₃⟩ := Work.ensureDirectory_ok hmade
  obtain ⟨hmanifest, hcalls₄⟩ := Work.writeText_ok hmanifest
  refine ⟨?_, hcalls₄.trans (hcalls₃.trans (hcalls₂.trans hcalls₁))⟩
  exact hcommands.append (hentry.append (hmade.append hmanifest))

theorem pack_files {compression : Config.Compression} {archive : Archive}
    (h : pack compression plugin l w = (.ok archive, w')) : w' = w :=
  (Prod.mk.inj h).2.symm

/-- What a build does in front of the compiler. -/
def writeProject (tools : Toolchain) (config : Config) (plugin : Plugin) : Work Layout := do
  let l ← (Layout.ofDetails config.library plugin.details : Except Failure Layout)
  ensureProject plugin
  Work.onFiles (Files.ensureDirectory plugin.details.commandsDirectory)
  SupportLibrary.ensure tools l config.library
  writeSources plugin l
  return l

/-- What a build does up to the compiler. -/
def compileProject (tools : Toolchain) (config : Config) (plugin : Plugin) : Work Layout := do
  let l ← writeProject tools config plugin
  Work.compile tools l plugin.details.entryPointPath
  return l

/-- Packs the classes that the compiler has left, without the sources. -/
def packProject (config : Config) (plugin : Plugin) (l : Layout) : Work Archive := do
  discard (Work.onFiles
    (Files.removeWithExtension plugin.details.sourceRoot Details.sourceExtension))
  pack config.compression plugin l

/-- Puts an archive in its place, and deletes the project. -/
def storeArchive (write : Archive.Writer) (plugin : Plugin) (l : Layout) (archive : Archive) :
    Work Artifact := do
  let bytes ← (archive.finish write : Except Failure ByteArray)
  let path := l.workingRoot.join plugin.details.archiveName
  Work.onFiles (Files.write path bytes)
  Work.onFiles (Files.removePath l.pluginRoot)
  cancelSchedule plugin
  return ⟨path, bytes.size, registeredNames plugin⟩

theorem run_eq (write : Archive.Writer) (tools : Toolchain) (config : Config) (plugin : Plugin) :
    run write tools config plugin = (do
      let l ← compileProject tools config plugin
      let archive ← packProject config plugin l
      storeArchive write plugin l archive) := by
  simp only [run, compileProject, writeProject, packProject, storeArchive, bind_assoc, pure_bind]

/-- The workshop after each step of a build: with the manifest, with the directories for the sources, with
the support library, with the sources, with the classes, without the sources, with the archive, and
without the project; and the archive with its bytes. -/
structure Stages where
  begun : Workshop
  staged : Workshop
  prepared : Workshop
  written : Workshop
  compiled : Workshop
  stripped : Workshop
  packed : Workshop
  cleaned : Workshop
  archive : Archive
  bytes : ByteArray

/-- A build that succeeds goes through these stages. -/
structure Stages.Passed (s : Stages) (write : Archive.Writer) (tools : Toolchain) (config : Config)
    (plugin : Plugin) (l : Layout) (artifact : Artifact) (w w' : Workshop) : Prop where
  layout : Layout.ofDetails config.library plugin.details = .ok l
  begun : ensureProject plugin w = (.ok (), s.begun)
  staged : Work.onFiles (Files.ensureDirectory plugin.details.commandsDirectory) s.begun =
    (.ok (), s.staged)
  prepared : SupportLibrary.ensure tools l config.library s.staged = (.ok (), s.prepared)
  written : writeSources plugin l s.prepared = (.ok (), s.written)
  compiled : Work.compile tools l plugin.details.entryPointPath s.written = (.ok (), s.compiled)
  stripped : ∃ count, Work.onFiles
    (Files.removeWithExtension plugin.details.sourceRoot Details.sourceExtension) s.compiled =
      (.ok count, s.stripped)
  archive : pack config.compression plugin l s.stripped = (.ok s.archive, s.stripped)
  finished : s.archive.finish write = .ok s.bytes
  packed : Work.onFiles
    (Files.write (l.workingRoot.join plugin.details.archiveName) s.bytes) s.stripped =
      (.ok (), s.packed)
  cleaned : Work.onFiles (Files.removePath l.pluginRoot) s.packed = (.ok (), s.cleaned)
  files : w'.files = s.cleaned.files
  calls : w'.calls = s.cleaned.calls
  path : artifact.path = l.workingRoot.join plugin.details.archiveName
  size : artifact.size = s.bytes.size
  registered : artifact.registered = registeredNames plugin

theorem run_passed (h : run write tools config plugin w = (.ok artifact, w')) :
    ∃ l s, Stages.Passed s write tools config plugin l artifact w w' := by
  rw [run] at h
  obtain ⟨l, _, hlayout, h⟩ := bind_eq_ok.1 h
  obtain ⟨_, begun, hbegun, h⟩ := bind_eq_ok.1 h
  obtain ⟨_, staged, hstaged, h⟩ := bind_eq_ok.1 h
  obtain ⟨_, prepared, hprepared, h⟩ := bind_eq_ok.1 h
  obtain ⟨_, written, hwritten, h⟩ := bind_eq_ok.1 h
  obtain ⟨_, compiled, hcompiled, h⟩ := bind_eq_ok.1 h
  obtain ⟨_, stripped, hstripped, h⟩ := bind_eq_ok.1 h
  obtain ⟨archive, _, harchive, h⟩ := bind_eq_ok.1 h
  obtain ⟨bytes, _, hbytes, h⟩ := bind_eq_ok.1 h
  obtain ⟨_, packed, hpacked, h⟩ := bind_eq_ok.1 h
  obtain ⟨_, cleaned, hcleaned, h⟩ := bind_eq_ok.1 h
  obtain ⟨_, _, hcancel, h⟩ := bind_eq_ok.1 h
  obtain ⟨hlayout, hstart⟩ := Work.liftM_ok hlayout
  rw [hstart] at hbegun
  obtain ⟨count, hstripped, -⟩ := map_eq_ok.1 hstripped
  cases pack_files harchive
  obtain ⟨hfinished, hsame⟩ := Work.liftM_ok hbytes
  cases hsame
  cases hcancel
  cases h
  exact ⟨l, ⟨begun, staged, prepared, written, compiled, stripped, packed, cleaned, archive, bytes⟩,
    hlayout, hbegun, hstaged, hprepared, hwritten, hcompiled, ⟨count, hstripped⟩, harchive, hfinished,
    hpacked, hcleaned, rfl, rfl, rfl, rfl, rfl⟩

namespace Stages.Passed

variable {s : Stages} (h : s.Passed write tools config plugin l artifact w w')

include h

theorem compileProject_eq : compileProject tools config plugin w = (.ok l, s.compiled) := by
  have hlayout : (liftM (Layout.ofDetails config.library plugin.details) : Work Layout) w =
      (.ok l, w) := by
    rw [h.layout]
    rfl
  have hwritten : writeProject tools config plugin w = (.ok l, s.written) := by
    rw [writeProject, bind_of_ok hlayout, bind_of_ok h.begun, bind_of_ok h.staged,
      bind_of_ok h.prepared, bind_of_ok h.written]
    rfl
  rw [compileProject, bind_of_ok hwritten, bind_of_ok h.compiled]
  rfl

theorem packProject_eq : packProject config plugin l s.compiled = (.ok s.archive, s.stripped) := by
  obtain ⟨count, hstripped⟩ := h.stripped
  have hdiscarded : (discard (Work.onFiles (Files.removeWithExtension plugin.details.sourceRoot
      Details.sourceExtension)) : Work PUnit) s.compiled = (.ok (), s.stripped) :=
    map_eq_ok.2 ⟨count, hstripped, rfl⟩
  rw [packProject, bind_of_ok hdiscarded, h.archive]

end Stages.Passed

/-- A build that succeeds has written nothing but the manifest in front of the support library, and
nothing but the source files behind it; the compiler is asked last. -/
theorem run_ok (h : run write tools config plugin w = (.ok artifact, w')) :
    ∃ l staged prepared compiled,
      Layout.ofDetails config.library plugin.details = .ok l ∧
      Writes w.files (Project.manifestFile plugin) staged.files ∧
      staged.calls = w.calls ∧
      SupportLibrary.ensure tools l config.library staged = (.ok (), prepared) ∧
      Writes prepared.files (sourceFiles plugin l) compiled ∧
      w'.calls = prepared.calls ++ [.compile l plugin.details.entryPointPath compiled] ∧
      artifact.registered = registeredNames plugin := by
  obtain ⟨l, s, h⟩ := run_passed h
  obtain ⟨hbegun, hcalls₁⟩ := ensureProject_ok h.begun
  obtain ⟨hstaged, hcalls₂⟩ := Work.ensureDirectory_ok h.staged
  obtain ⟨hwritten, hcalls₃⟩ := writeSources_ok h.written
  have hcalls₄ := (Work.compile_ok h.compiled).2
  obtain ⟨_, hstripped⟩ := h.stripped
  have hcalls₅ := (Work.onFiles_ok hstripped).2
  have hcalls₆ := (Work.onFiles_ok h.packed).2
  have hcalls₇ := (Work.onFiles_ok h.cleaned).2
  refine ⟨l, s.staged, s.prepared, s.written.files, h.layout, ?_, hcalls₂.trans hcalls₁, h.prepared,
    hwritten, ?_, h.registered⟩
  · have hmanifest := hbegun.append hstaged
    rwa [List.append_nil] at hmanifest
  · rw [h.calls, hcalls₇, hcalls₆, hcalls₅, hcalls₄, hcalls₃]

end Assembly

end PluginForge.Build
