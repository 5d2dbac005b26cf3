import PluginForge.Proofs.Plugin.CommandNames
import PluginForge.Proofs.Plugin.Failure
import PluginForge.Proofs.Text.Lines

namespace PluginForge

namespace Java

variable {className simple : Text} {imports : List Text}

def simpleName (name : Text) : Text :=
  (Text.splitOn '.' name).getLastD []

theorem simpleName_append (package : Text) (h : '.' ∉ simple) :
    simpleName (package ++ '.' :: simple) = simple := by
  rw [simpleName, Text.splitOn_append_cons, Text.splitOn_of_not_mem h, List.getLastD_concat]

/-- Within a source file no two imports go by the same simple name, and none goes by that of the class. -/
def ClashFree (imports : List Text) (className : Text) : Prop :=
  (imports.map simpleName ++ [className]).Nodup

instance : Decidable (ClashFree imports className) :=
  inferInstanceAs (Decidable (_ : List Text).Nodup)

theorem clashFree_iff :
    ClashFree imports className ↔
      (imports.map simpleName).Nodup ∧ className ∉ imports.map simpleName := by
  rw [ClashFree, ← List.concat_eq_append, List.nodup_concat, and_comm]

/-- A source file imports classes and declares one under a name. -/
def Declares (source : Text) (imports : List Text) (className : Text) : Prop :=
  ∃ package parents members,
    source = unlines (classSource package imports ("public class " ++ className ++ parents) members) ∧
      parents.head? = some ' '

end Java

open Java (ClashFree Declares simpleName)

variable {c : Command} {k : CommandClass} {name plugin : Text} {p : Plugin}

namespace CommandClass

/-- The simple names that the class of a registered command imports. -/
def importedNames : List Text :=
  fixedImports.map simpleName ++ [EntryPoint.className]

example : importedNames = ["Command", "CommandExecutor", "CommandSender", "Player", "Plugin"] := by
  decide

/-- A class that has been put into the packages of plugins, one after another. -/
structure Stamped (k : CommandClass) (declared : Text) (plugins : List Text) : Prop where
  named : k.IsNamed declared
  imports : k.imports = fixedImports ++ plugins.map fun plugin : Text => plugin ++ ".Plugin"

theorem Stamped.ofHandler (name : Text) (method : Java.Method) : (ofHandler name method).Stamped name [] :=
  ⟨⟨rfl, rfl, rfl⟩, (List.append_nil _).symm⟩

theorem Stamped.stamp {declared : Text} {plugins : List Text} (h : k.Stamped declared plugins)
    (plugin : Text) : (k.stamp plugin).Stamped declared (plugins ++ [plugin]) := by
  refine ⟨⟨h.named.header, h.named.signature, h.named.registration⟩, ?_⟩
  rw [CommandClass.stamp, h.imports, List.map_append, ← List.append_assoc]
  rfl

theorem Stamped.guarded {declared : Text} {plugins : List Text} (h : k.Stamped declared plugins)
    (handler : Java.Method) : { k with handler }.Stamped declared plugins :=
  ⟨⟨h.named.header, h.named.signature, h.named.registration⟩, h.imports⟩

theorem IsNamed.declares (h : k.IsNamed name) : Declares k.source k.imports name := by
  refine ⟨k.package, " implements CommandExecutor", k.constructor.member ++ [[]] ++ k.handler.member,
    ?_, rfl⟩
  rw [source, h.header]

theorem Stamped.simpleNames {declared : Text} {plugins : List Text} (h : k.Stamped declared plugins) :
    k.imports.map simpleName =
      fixedImports.map simpleName ++ plugins.map fun _ => EntryPoint.className := by
  have hname (plugin : Text) : simpleName (plugin ++ ".Plugin") = EntryPoint.className :=
    Java.simpleName_append plugin (by decide)
  rw [h.imports, List.map_append, List.map_map]
  simp only [Function.comp_def, hname]

theorem Stamped.clashFree_iff {declared : Text} {plugins : List Text}
    (h : k.Stamped declared (plugins ++ [plugin])) :
    ClashFree k.imports declared ↔ declared ∉ importedNames ∧ plugins = [] := by
  have hnames := h.simpleNames
  rw [List.map_append, List.map_singleton, ← List.append_assoc] at hnames
  rw [Java.clashFree_iff, hnames]
  cases plugins with
  | nil =>
    have hdistinct : importedNames.Nodup := by decide
    rw [List.map_nil, List.append_nil]
    exact ⟨fun h => ⟨h.2, rfl⟩, fun h => ⟨hdistinct, h.1⟩⟩
  | cons plugin plugins =>
    refine iff_of_false (fun h => ?_) (fun h => nomatch h.2)
    have htwice := (List.nodup_append.1 h.1).2.2 EntryPoint.className
      (List.mem_append_right _ List.mem_cons_self) _ List.mem_cons_self
    exact htwice rfl

end CommandClass

/-- The commands that calls lead to: a new one, one after a further step that may have failed, and a copy
of one that has been registered. -/
inductive Command.Described : Command → Prop where
  | ofName (name : Text) : Described (.ofName name)
  | step {c : Command} (hc : Described c) (step : Step) : Described (step.perform c).2
  | registered {c : Command} (hc : Described c) (plugin : Text) : Described (c.stamp plugin)

/-- The plugins that calls lead to, whether they succeed or not, when their commands are such ones. -/
inductive Plugin.Described : Plugin → Prop where
  | begun {d : Details} {p : Plugin} (h : ofDetails d = .ok p) : Described p
  | ensured {p : Plugin} {files : Files.Tree} {result : Except Failure Unit} {project : Project}
      (hp : Described p) (h : Project.ensure ⟨p, files⟩ = (result, project)) :
      Described project.plugin
  | registered {p : Plugin} {c : Command} {files : Files.Tree} {result : Except Failure Unit}
      {project : Project} (hp : Described p) (hc : c.Described)
      (h : Project.register c ⟨p, files⟩ = (result, project)) : Described project.plugin
  | scheduled {p : Plugin} (hp : Described p) : Described { p with isScheduled := true }

theorem Command.commandClass_perform {step : Step} (hk : (step.perform c).2.commandClass = some k) :
    (∃ handler, k = .ofHandler c.name handler) ∨
      ∃ old handler, c.commandClass = some old ∧ k = { old with handler } := by
  cases hhandler : step.handler? with
  | some handler =>
    rw [perform_handler hhandler] at hk
    cases hk
    exact .inl ⟨_, rfl⟩
  | none =>
    rw [(perform_kept hhandler c).2] at hk
    obtain ⟨old, hold, rfl⟩ := Option.map_eq_some_iff.1 hk
    obtain ⟨handler, hguarded⟩ := old.exists_guardedBy c.sender step.guard?.toList
    exact .inr ⟨old, handler, hold, hguarded⟩

/-- The class of a command is named by its last handler, and imports the plugins' own classes that the
command has been registered with since. -/
theorem Command.Described.stamped (h : c.Described) (hk : c.commandClass = some k) :
    ∃ declared plugins, k.Stamped declared plugins := by
  induction h generalizing k with
  | ofName name => cases hk
  | @step c _ step ih =>
    rcases commandClass_perform hk with ⟨handler, rfl⟩ | ⟨old, handler, hold, rfl⟩
    · exact ⟨_, [], .ofHandler c.name handler⟩
    · obtain ⟨declared, plugins, hstamped⟩ := ih hold
      exact ⟨declared, plugins, hstamped.guarded handler⟩
  | registered _ plugin ih =>
    rw [Plugin.commandClass_stamp] at hk
    obtain ⟨k, hclass, rfl⟩ := Option.map_eq_some_iff.1 hk
    obtain ⟨declared, plugins, hstamped⟩ := ih hclass
    exact ⟨declared, _, hstamped.stamp plugin⟩

namespace EntryPoint

/-- The simple names that an entry point without commands uses. -/
def importedNames : List Text :=
  fixedImports.map simpleName ++ [className]

example : importedNames = ["Bukkit", "JavaPlugin", "Plugin"] := by
  decide

theorem declares_ofPackage (package : Text) (imports commandClasses : List Text) :
    Declares ({ ofPackage package with imports }.source commandClasses) imports className :=
  ⟨package, " extends JavaPlugin", _, rfl, rfl⟩

end EntryPoint

namespace Plugin

open Project (importName)

/-- The commands of a plugin have been registered with it under different names, and its entry point imports
their classes, and perhaps others, by names. -/
structure Importing (p : Plugin) (names : List Text) : Prop where
  commands : ∀ c ∈ p.commands, ∃ given : Command,
    given.Described ∧ c = given.stamp p.details.qualifiedName
  classes : p.commandClasses = p.commands.map Command.name
  distinct : p.commandClasses.Nodup
  runnable : (p.runnable.map Command.name).Sublist names
  valid : ∀ name ∈ names, Java.isIdentifier name
  entryPoint : p.entryPoint =
    { EntryPoint.ofPackage p.details.qualifiedName with
      imports := EntryPoint.fixedImports ++ names.map (importName p.details) }

variable {names : List Text}

theorem Importing.valid_append (h : p.Importing names) (hn : Java.isIdentifier c.name) :
    ∀ name ∈ names ++ (if c.commandClass.isSome then [c.name] else []), Java.isIdentifier name := by
  intro name hname
  rcases List.mem_append.1 hname with hname | hname
  · exact h.valid name hname
  · split at hname
    · rw [List.mem_singleton.1 hname]
      exact hn
    · cases hname

theorem Importing.attach (h : p.Importing names) (hc : c.Described) (hn : Java.isIdentifier c.name)
    (hd : c.name ∉ p.commandClasses) :
    (Project.attached (c.stamp p.details.qualifiedName) { p with hasManifest := true }).Importing
      (names ++ if c.commandClass.isSome then [c.name] else []) where
  commands := by
    rw [Project.attached_commands, Project.attached_details]
    intro other hother
    rcases List.mem_append.1 hother with hother | hother
    · exact h.commands other hother
    · exact ⟨c, hc, List.mem_singleton.1 hother⟩
  classes := by
    rw [Project.attached_commandClasses, Project.attached_commands, List.map_append, h.classes]
    rfl
  distinct := by
    rw [Project.attached_commandClasses, ← List.concat_eq_append, List.nodup_concat]
    exact ⟨hd, h.distinct⟩
  runnable := by
    have hruns := isSome_commandClass_stamp c p.details.qualifiedName
    rw [Plugin.runnable, Project.attached_commands, List.filter_append, List.map_append]
    refine h.runnable.append ?_
    rw [List.filter_cons, List.filter_nil, hruns]
    split <;> exact .refl _
  valid := h.valid_append hn
  entryPoint := by
    rw [Project.attached_entryPoint, Project.attached_details, isSome_commandClass_stamp,
      h.entryPoint, List.map_append, ← List.append_assoc]
    cases c.commandClass.isSome <;> rfl

theorem Importing.abandon (h : p.Importing names) (hn : Java.isIdentifier c.name) :
    (Project.abandoned c p).Importing (names ++ if c.commandClass.isSome then [c.name] else []) := by
  have hvalid := h.valid_append hn
  rw [Project.abandoned]
  cases hs : c.commandClass.isSome with
  | false =>
    rw [if_neg Bool.false_ne_true, if_neg Bool.false_ne_true, List.append_nil]
    exact ⟨h.commands, h.classes, h.distinct, h.runnable, h.valid, h.entryPoint⟩
  | true =>
    rw [hs] at hvalid
    refine ⟨h.commands, h.classes, h.distinct, h.runnable.trans (List.sublist_append_left _ _),
      hvalid, ?_⟩
    rw [if_pos rfl, if_pos rfl, Project.importCommand, h.entryPoint, List.map_append,
      ← List.append_assoc]
    rfl

theorem isIdentifier_of_admits {project : Project} (h : Project.admits c project) :
    Java.isIdentifier c.name := by
  rw [Project.admits, Bool.and_eq_true] at h
  obtain ⟨_, hcheck⟩ := exists_ok_of_isOk h.1
  exact (Project.checkName_ok (Prod.ext hcheck rfl)).2.1

theorem Described.importing (h : p.Described) : ∃ names, p.Importing names := by
  induction h with
  | begun h =>
    obtain ⟨-, -, -, rfl⟩ := ofDetails_ok h
    exact ⟨[], nofun, rfl, List.nodup_nil, .slnil, nofun, rfl⟩
  | @ensured p files result project _ h ih =>
    obtain ⟨names, himporting⟩ := ih
    refine ⟨names, ?_⟩
    cases result with
    | error failure =>
      rw [(Project.ensure_error h).2]
      exact himporting
    | ok _ =>
      rw [(Project.ensure_ok h).1]
      exact ⟨himporting.commands, himporting.classes, himporting.distinct, himporting.runnable,
        himporting.valid, himporting.entryPoint⟩
  | @registered p c files result project _ hc h ih =>
    obtain ⟨names, himporting⟩ := ih
    cases result with
    | error failure =>
      rw [Project.register_error h]
      split
      · next hadmits => exact ⟨_, himporting.abandon (isIdentifier_of_admits hadmits)⟩
      · exact ⟨names, himporting⟩
    | ok _ =>
      obtain ⟨hn, hd, hplugin⟩ := Project.register_ok h
      rw [hplugin]
      exact ⟨_, himporting.attach hc hn hd⟩
  | scheduled _ ih =>
    obtain ⟨names, himporting⟩ := ih
    exact ⟨names, himporting.commands, himporting.classes, himporting.distinct, himporting.runnable,
      himporting.valid, himporting.entryPoint⟩

/-- Names stay behind only where a registration has failed at the manifest. -/
theorem Importing.names_eq (h : p.Importing names) (hp : p.Registered) :
    names = p.runnable.map Command.name := by
  have hinjective : Function.Injective (importName p.details) :=
    fun _ _ he => List.append_cancel_left he
  have himports := congrArg EntryPoint.imports (h.entryPoint.symm.trans hp.consistent.entryPoint)
  have hnames := List.append_cancel_left himports
  refine List.map_injective_iff.2 hinjective (hnames.trans ?_)
  rw [List.map_map]
  rfl

/-- The entry point does not clash, unless it imports a class twice or under a name that it uses itself. -/
theorem Importing.clashFree_iff (h : p.Importing names) :
    ClashFree p.entryPoint.imports EntryPoint.className ↔
      names.Nodup ∧ ∀ name ∈ names, name ∉ EntryPoint.importedNames := by
  have hname : ∀ name ∈ names, simpleName (importName p.details name) = name := by
    intro name hname
    have hdot : '.' ∉ name :=
      Java.not_mem_of_all_isIdentifierChar (Java.all_isIdentifierChar (h.valid name hname)) (by decide)
    have himport : importName p.details name =
        p.details.qualifiedName ++ ".commands".toList ++ '.' :: name := by
      rw [importName, List.append_assoc, List.append_assoc]
      rfl
    rw [himport, Java.simpleName_append _ hdot]
  have hnames : p.entryPoint.imports.map simpleName = EntryPoint.fixedImports.map simpleName ++ names := by
    rw [h.entryPoint, List.map_append, List.map_map]
    exact congrArg _ ((List.map_congr_left hname).trans (List.map_id' names))
  have hdistinct : (EntryPoint.fixedImports.map simpleName).Nodup := by decide
  have hclass : EntryPoint.className ∉ EntryPoint.fixedImports.map simpleName := by decide
  rw [Java.clashFree_iff, hnames, List.nodup_append, EntryPoint.importedNames]
  simp only [List.mem_append, List.mem_singleton, not_or]
  constructor
  · rintro ⟨⟨-, hnodup, hapart⟩, -, hother⟩
    refine ⟨hnodup, fun name hmem => ⟨fun hfixed => hapart _ hfixed _ hmem rfl, ?_⟩⟩
    rintro rfl
    exact hother hmem
  · rintro ⟨hnodup, hapart⟩
    refine ⟨⟨hdistinct, hnodup, ?_⟩, hclass, fun hmem => (hapart _ hmem).2 rfl⟩
    rintro _ hfixed name hmem rfl
    exact (hapart _ hmem).1 hfixed

theorem Importing.nodup_runnable (h : p.Importing names) : (p.runnable.map Command.name).Nodup := by
  have hdistinct := h.distinct
  rw [h.classes] at hdistinct
  exact hdistinct.sublist (List.filter_sublist.map Command.name)

/-- The sources of a plugin that calls have led to are free of clashes, except where the class of a command
goes by a name that the file uses itself, or where something is imported twice: the plugin's own class by a
copy of a registered command, or the class of a command whose registration had failed at the manifest. -/
theorem Described.sources_clashFree (h : p.Described) :
    (∀ c ∈ p.commands, ∀ k, c.commandClass = some k → ∃ declared, k.IsNamed declared ∧
      Declares k.source k.imports declared ∧
      (ClashFree k.imports declared ↔ declared ∉ CommandClass.importedNames ∧
        k.imports = CommandClass.fixedImports ++ [p.details.mainClass])) ∧
    ∃ names, (p.runnable.map Command.name).Nodup ∧ (p.runnable.map Command.name).Sublist names ∧
      (p.Registered → names = p.runnable.map Command.name) ∧
      p.entryPoint.imports = EntryPoint.fixedImports ++ names.map (importName p.details) ∧
      Declares (p.entryPoint.source (Build.Assembly.registeredNames p)) p.entryPoint.imports
        EntryPoint.className ∧
      (ClashFree p.entryPoint.imports EntryPoint.className ↔
        names.Nodup ∧ ∀ name ∈ names, name ∉ EntryPoint.importedNames) := by
  obtain ⟨names, himporting⟩ := h.importing
  refine ⟨?_, names, himporting.nodup_runnable, himporting.runnable, himporting.names_eq, ?_, ?_,
    himporting.clashFree_iff⟩
  · intro c hc k hk
    obtain ⟨given, hgiven, rfl⟩ := himporting.commands c hc
    rw [commandClass_stamp] at hk
    obtain ⟨k, hclass, rfl⟩ := Option.map_eq_some_iff.1 hk
    obtain ⟨declared, plugins, hstamped⟩ := hgiven.stamped hclass
    have hlast := hstamped.stamp p.details.qualifiedName
    refine ⟨declared, hlast.named, hlast.named.declares,
      hlast.clashFree_iff.trans (and_congr_right fun _ => ?_)⟩
    have hmain : p.details.qualifiedName ++ ".Plugin".toList = p.details.mainClass := by
      rw [Details.mainClass, List.append_assoc]
      rfl
    rw [hlast.imports, List.append_right_inj, List.map_append, List.map_singleton, hmain]
    refine ⟨fun hnone => by rw [hnone]; rfl, fun honce => ?_⟩
    have hlength := congrArg List.length honce
    rw [List.length_append, List.length_map] at hlength
    exact List.eq_nil_of_length_eq_zero (Nat.add_right_cancel hlength)
  · rw [himporting.entryPoint]
  · rw [himporting.entryPoint]
    exact EntryPoint.declares_ofPackage _ _ _

def withIdle (name : Text) : Project :=
  (Project.register ((Command.ofName name).after [.onUse Command.idleSource]) Command.emptyProject).2

theorem register_idle (name : Text)
    (h : (Project.register ((Command.ofName name).after [.onUse Command.idleSource])
      Command.emptyProject).1.isOk) :
    (withIdle name).plugin.Registered ∧ (withIdle name).plugin.Described ∧
      (withIdle name).plugin.details.mainClass = "com.Demo.Plugin".toList ∧
      (withIdle name).plugin.runnable.map Command.name = [name] ∧
      (withIdle name).plugin.entryPoint.imports =
        EntryPoint.fixedImports ++ ["com.Demo.commands.".toList ++ name] ∧
      ∃ c ∈ (withIdle name).plugin.commands, ∃ k, c.name = name ∧ c.commandClass = some k ∧
        k.IsNamed name ∧ k.imports = CommandClass.fixedImports ++ ["com.Demo.Plugin".toList] := by
  have hbegun : ofDetails (.ofName "Demo") = .ok Command.emptyProject.plugin := by rfl
  have hcommand : ((Command.ofName name).after [.onUse Command.idleSource]).Described :=
    .step (.ofName name) _
  obtain ⟨_, hok⟩ := exists_ok_of_isOk h
  have hregister : Project.register ((Command.ofName name).after [.onUse Command.idleSource])
      ⟨Command.emptyProject.plugin, .empty⟩ = (.ok (), withIdle name) := Prod.ext hok rfl
  obtain ⟨method, hclass⟩ : ∃ method,
      ((Command.ofName name).after [.onUse Command.idleSource]).commandClass =
        some (.ofHandler name method) := ⟨_, rfl⟩
  have hrecords := Project.register_records hclass hregister
  have hdetails := (Project.register_commands hregister).1
  refine ⟨.accepted (.begun hbegun) hregister, .registered (.begun hbegun) hcommand hregister, ?_, ?_,
    hrecords.imports, _, ?_, _, hrecords.called, hrecords.commandClass,
    CommandClass.isNamed_ofHandler _ _ _, rfl⟩
  · rw [hdetails]
    rfl
  · rw [runnable, hrecords.commands]
    rfl
  · rw [hrecords.commands]
    exact List.mem_append_right _ List.mem_cons_self

theorem sources_clashFree_hello :
    (withIdle "hello").plugin.Described ∧
      (∃ c ∈ (withIdle "hello").plugin.commands, ∃ k, c.commandClass = some k ∧
        Declares k.source k.imports "hello" ∧ ClashFree k.imports "hello") ∧
      ClashFree (withIdle "hello").plugin.entryPoint.imports EntryPoint.className := by
  obtain ⟨hregistered, hdescribed, hmain, hrunnable, -, c, hc, k, -, hk, hnamed, himports⟩ :=
    register_idle "hello" (by decide +kernel)
  obtain ⟨hcommands, names, -, -, hnames, -, -, hentry⟩ := Described.sources_clashFree hdescribed
  obtain ⟨declared, hdeclared, hdeclares, hclass⟩ := hcommands c hc k hk
  rw [hmain] at hclass
  rw [hnamed.unique hdeclared] at hdeclares hclass
  refine ⟨hdescribed, ⟨c, hc, k, hk, hdeclares, hclass.2 ⟨by decide, himports⟩⟩, hentry.2 ?_⟩
  rw [hnames hregistered, hrunnable]
  decide

/-- The name of a command passes all checks, and is that of a class that its own source imports, or that of a
class that the entry point imports. -/
theorem sources_clash_of_names :
    (∃ p : Plugin, p.Registered ∧ p.Described ∧ ∃ c ∈ p.commands, ∃ k, c.name = "Player" ∧
      c.commandClass = some k ∧ Declares k.source k.imports "Player" ∧
        ¬ClashFree k.imports "Player") ∧
    ∃ p : Plugin, p.Registered ∧ p.Described ∧ p.runnable.map Command.name = ["Bukkit".toList] ∧
      ¬ClashFree p.entryPoint.imports EntryPoint.className := by
  obtain ⟨hregistered, hdescribed, -, -, -, c, hc, k, hname, hk, hnamed, himports⟩ :=
    register_idle "Player" (by decide +kernel)
  obtain ⟨hregistered', hdescribed', -, hrunnable, hentry, -⟩ := register_idle "Bukkit" (by decide +kernel)
  refine ⟨⟨_, hregistered, hdescribed, c, hc, k, hname, hk, hnamed.declares, ?_⟩,
    _, hregistered', hdescribed', hrunnable, ?_⟩
  · rw [himports]
    decide
  · rw [hentry]
    decide

end Plugin

end PluginForge
