import PluginForge.Proofs.Build.Stages
import PluginForge.Proofs.Java.Lines
import PluginForge.Proofs.Manifest.History
import PluginForge.Proofs.Plugin.Command
import PluginForge.Proofs.Plugin.Imports

namespace PluginForge

open Guard (Capability Registry StandsIn)

namespace Guard

variable {body name sender tag : Text} {capability : Capability} {registry : Registry}

theorem targetType_mem_words_inject (hget : registry.get? tag = some capability)
    (htype : Java.isIdentifier capability.targetType) (body sender : Text) :
    capability.targetType ∈ words (inject registry body sender tag) := by
  have hself := words_run (Java.isIdentifier_ne_nil htype) (Java.all_isIdentifierChar htype)
  rw [inject_of_some hget, guardBody, preamble_eq_weave]
  refine mem_words_weave isDivider_preambleParts (capability.targetType, " ") List.mem_cons_self ?_
  rw [hself]
  exact List.mem_singleton_self _

theorem mem_words_inject (hs : sender.all Java.isIdentifierChar) (hn : name.all Java.isIdentifierChar)
    (hne : name ≠ sender) (h : name ∈ words body) (registry : Registry) (tag : Text) :
    name ∈ words (inject registry body sender tag) := by
  cases hget : registry.get? tag with
  | none =>
    rw [inject_of_none hget]
    exact h
  | some capability =>
    obtain ⟨hlocal, hlocal', -⟩ := freshLocal_localBase body tag
    rw [inject_of_some hget, guardBody]
    refine mem_words_preamble (ne_nil_of_mem_words h) hn (.inr (.inr ?_))
    by_cases hsender : sender = []
    · rw [rename, if_pos hsender]
      exact h
    · rw [words_rename hsender hs hlocal hlocal']
      exact List.mem_map.2 ⟨name, h, if_neg hne⟩

theorem mem_words_foldl_inject (hs : sender.all Java.isIdentifierChar)
    (hn : name.all Java.isIdentifierChar) (hne : name ≠ sender) (h : name ∈ words body)
    (calls : List (Registry × Text)) :
    name ∈ words (calls.foldl (fun body call => inject call.1 body sender call.2) body) := by
  induction calls generalizing body with
  | nil => exact h
  | cons call calls ih => exact ih (mem_words_inject hs hn hne h call.1 call.2)

/-- Behind all guards, the body still names the type of each. -/
theorem standsIn_targetType {call : Registry × Text} {calls : List (Registry × Text)}
    (hs : sender.all Java.isIdentifierChar) (hcall : call ∈ calls)
    (hget : call.1.get? call.2 = some capability) (htype : Java.isIdentifier capability.targetType)
    (hne : capability.targetType ≠ sender) (body : Text) :
    StandsIn capability.targetType
      (calls.foldl (fun body call => inject call.1 body sender call.2) body) := by
  have hn := Java.all_isIdentifierChar htype
  obtain ⟨before, later, rfl⟩ := List.append_of_mem hcall
  rw [← mem_words_iff hn, List.foldl_append, List.foldl_cons]
  exact mem_words_foldl_inject hs hn hne (targetType_mem_words_inject hget htype _ _) later

end Guard

namespace Java

variable {imports : List Text} {package : Text}

/-- The names that the first lines import, up to a line that imports nothing. -/
def leadingImports : List Text → List Text
  | [] => []
  | line :: lines =>
    match Text.dropHead? "import " line with
    | none => []
    | some name => name.dropLast :: leadingImports lines

/-- The names that a source imports, behind the line that names its package. -/
def importsOf (source : Text) : List Text :=
  leadingImports (Text.splitOn '\n' source).tail

theorem leadingImports_append (imports lines : List Text) :
    leadingImports ((imports.map fun name : Text => "import " ++ name ++ ";") ++ lines) =
      imports ++ leadingImports lines := by
  induction imports with
  | nil => rfl
  | cons name imports ih =>
    have hline : Text.dropHead? "import " ("import " ++ name ++ ";") = some (name ++ [';']) := rfl
    rw [List.map_cons, List.cons_append, leadingImports, hline]
    simp only [List.dropLast_concat, ih, List.cons_append]

/-- A source imports what it is written with, if no name breaks its line. -/
theorem importsOf_classSource (hpackage : '\n' ∉ package) (himports : ∀ name ∈ imports, '\n' ∉ name)
    (rest : Text) (members : List Text) :
    importsOf (unlines (classSource package imports ("public class " ++ rest) members)) = imports := by
  have hlines : ∀ line ∈ preface package imports, '\n' ∉ line := by
    rw [preface, List.forall_mem_cons]
    refine ⟨newline_not_mem_append (newline_not_mem_append (by decide) hpackage) (by decide), ?_⟩
    intro line hline
    obtain ⟨name, hname, rfl⟩ := List.mem_map.1 hline
    exact newline_not_mem_append (newline_not_mem_append (by decide) (himports name hname)) (by decide)
  have hheader (t : Text) : leadingImports (Text.splitOn '\n' ('p' :: t)) = [] := by
    rw [Text.splitOn, if_neg (by decide)]
    split <;> rfl
  rw [importsOf, classSource, List.append_assoc, unlines, List.flatMap_append,
    ← unlines, splitOn_unlines_append hlines, preface, List.cons_append, List.tail_cons,
    leadingImports_append]
  exact (congrArg (imports ++ ·) (hheader _)).trans (List.append_nil imports)

end Java

variable {c guarded : Command} {k : CommandClass} {name plugin sender : Text} {p : Plugin}
  {project project' : Project}

theorem Plugin.Reachable.newline_not_mem_qualifiedName (h : p.Reachable) :
    '\n' ∉ p.details.qualifiedName := by
  obtain ⟨hname, hpackage⟩ := h.details_valid
  exact newline_not_mem_append
    (newline_not_mem_append (Project.newline_not_mem_of_isQualifiedName hpackage) (by decide))
    (Project.newline_not_mem_of_isIdentifier hname)

namespace CommandClass

theorem Stamped.mem_simpleNames {declared : Text} {plugins : List Text}
    (h : k.Stamped declared (plugins ++ [plugin])) :
    name ∈ k.imports.map Java.simpleName ↔ name ∈ importedNames := by
  rw [h.simpleNames, importedNames, List.mem_append, List.mem_append, List.map_append, List.mem_append,
    List.map_singleton]
  refine or_congr_right (or_iff_right_of_imp fun hname => ?_)
  obtain ⟨_, -, rfl⟩ := List.mem_map.1 hname
  exact List.mem_singleton_self _

theorem Stamped.importsOf_source {declared : Text} {plugins : List Text} (h : k.Stamped declared plugins)
    (hpackage : '\n' ∉ k.package) (hplugins : ∀ plugin ∈ plugins, '\n' ∉ plugin) :
    Java.importsOf k.source = k.imports := by
  have himports : ∀ name ∈ k.imports, '\n' ∉ name := by
    rw [h.imports]
    intro name hname
    rcases List.mem_append.1 hname with hname | hname
    · have hfixed : ∀ name ∈ fixedImports, '\n' ∉ name := by decide
      exact hfixed name hname
    · obtain ⟨plugin, hplugin, rfl⟩ := List.mem_map.1 hname
      exact newline_not_mem_append (hplugins plugin hplugin) (by decide)
  rw [source, h.named.header, List.append_assoc]
  exact Java.importsOf_classSource hpackage himports _ _

end CommandClass

namespace Command

/-- The commands that calls lead to, with copies of those that have been registered with plugins that calls
lead to. -/
inductive Reachable : Command → Prop where
  | ofName (name : Text) : Reachable (.ofName name)
  | step {c : Command} (hc : Reachable c) (step : Step) : Reachable (step.perform c).2
  | registered {c : Command} {p : Plugin} (hc : Reachable c) (hp : p.Reachable) :
    Reachable (c.stamp p.details.qualifiedName)

theorem Reachable.together (h : c.Reachable) : c.Together := by
  induction h with
  | ofName name => rfl
  | step _ step ih => exact perform_together step ih
  | registered _ _ ih => exact ih.trans (Plugin.isSome_commandClass_stamp _ _).symm

theorem Reachable.stamped (h : c.Reachable) (hk : c.commandClass = some k) :
    ∃ declared plugins, k.Stamped declared plugins ∧ ∀ plugin ∈ plugins, '\n' ∉ plugin := by
  induction h generalizing k with
  | ofName name => cases hk
  | @step c _ step ih =>
    rcases commandClass_perform hk with ⟨handler, rfl⟩ | ⟨old, handler, hold, rfl⟩
    · exact ⟨_, [], .ofHandler c.name handler, nofun⟩
    · obtain ⟨declared, plugins, hstamped, hplugins⟩ := ih hold
      exact ⟨declared, plugins, hstamped.guarded handler, hplugins⟩
  | registered _ hp ih =>
    rw [Plugin.commandClass_stamp] at hk
    obtain ⟨k, hclass, rfl⟩ := Option.map_eq_some_iff.1 hk
    obtain ⟨declared, plugins, hstamped, hplugins⟩ := ih hclass
    refine ⟨declared, _, hstamped.stamp _, ?_⟩
    rw [List.forall_mem_append, List.forall_mem_singleton]
    exact ⟨hplugins, hp.newline_not_mem_qualifiedName⟩

theorem Reachable.mem_importsOf (hc : c.Reachable) (hp : p.Reachable) (hk : c.commandClass = some k)
    (handler : Java.Method) (name : Text) :
    name ∈ (Java.importsOf ({ k with handler }.stamp p.details.qualifiedName).source).map Java.simpleName ↔
      name ∈ CommandClass.importedNames := by
  obtain ⟨declared, plugins, hstamped, hplugins⟩ := hc.stamped hk
  have hname := hp.newline_not_mem_qualifiedName
  have hlast := (hstamped.guarded handler).stamp p.details.qualifiedName
  have hbreaks : ∀ plugin ∈ plugins ++ [p.details.qualifiedName], '\n' ∉ plugin := by
    rw [List.forall_mem_append, List.forall_mem_singleton]
    exact ⟨hplugins, hname⟩
  rw [hlast.importsOf_source (newline_not_mem_append hname (by decide)) hbreaks, hlast.mem_simpleNames]

/-- However a command has been guarded before it was registered, its source imports the type of a guard
exactly if that has one of the five names that every such source imports. -/
theorem Reachable.guardType_imported_iff (hc : c.Reachable) (hsender : c.sender = some sender)
    (hp : project.plugin.Reachable) (calls : List (Registry × Text))
    (hguards : calls.foldlM (fun c call => c.executeType call.1 call.2) c = .ok guarded)
    (hregister : Project.register guarded project = (.ok (), project')) :
    ∃ k, Project.Records project project' (guarded.stamp project.plugin.details.qualifiedName) k
        guarded.name ∧
      ∀ call ∈ calls, ∀ capability : Capability, call.1.get? call.2 = some capability →
        Java.isIdentifier capability.targetType →
        (sender.all Java.isIdentifierChar → capability.targetType ≠ sender →
          StandsIn capability.targetType k.handler.body) ∧
        (capability.targetType ∈ (Java.importsOf k.source).map Java.simpleName ↔
          capability.targetType ∈ CommandClass.importedNames) := by
  have htogether := hc.together
  rw [Together, hsender] at htogether
  obtain ⟨k, hclass⟩ := Option.isSome_iff_exists.1 htogether.symm
  rw [executeType_run hsender hclass] at hguards
  cases hguards
  refine ⟨_, Project.register_records rfl hregister, fun call hcall capability hget htype => ⟨?_, ?_⟩⟩
  · intro hs hne
    exact Guard.standsIn_targetType hs hcall hget htype hne _
  · exact hc.mem_importsOf hp hclass _ _

/-- A command that does nothing, guarded with the tag of a registry. -/
def guardedHello (registry : Registry) (tag : Text) : Command :=
  (ofName "hello").after [.onUse idleSource, .executeType registry tag]

theorem executeType_hello (registry : Registry) (tag : Text) :
    [(registry, tag)].foldlM (fun c call => c.executeType call.1 call.2)
      ((ofName "hello").after [.onUse idleSource]) = .ok (guardedHello registry tag) := by
  rfl

theorem reachable_hello : ((ofName "hello").after [.onUse idleSource]).Reachable :=
  .step (.ofName "hello") _

theorem guardType_imported_player :
    ∃ project' k, Project.register (guardedHello .builtin "player") emptyProject = (.ok (), project') ∧
      Project.Records emptyProject project' ((guardedHello .builtin "player").stamp "com.Demo") k "hello" ∧
      StandsIn "Player" k.handler.body ∧ "Player".toList ∈ (Java.importsOf k.source).map Java.simpleName := by
  have hbegun : emptyProject.plugin.Reachable := .begun (d := .ofName "Demo") rfl
  have hget : Registry.builtin.get? "player" = some .player := by decide
  obtain ⟨_, hok⟩ := exists_ok_of_isOk
    (x := (Project.register (guardedHello .builtin "player") emptyProject).1) (by decide +kernel)
  have hregister : Project.register (guardedHello .builtin "player") emptyProject = (.ok (), _) :=
    Prod.ext hok rfl
  obtain ⟨k, hrecords, htypes⟩ := reachable_hello.guardType_imported_iff rfl hbegun
    [(.builtin, "player")] (executeType_hello .builtin "player") hregister
  obtain ⟨hstands, himported⟩ := htypes _ List.mem_cons_self .player hget (by decide)
  exact ⟨_, k, hregister, hrecords, hstands (by decide) (by decide), himported.2 (by decide)⟩

/-- The type of a configured guard is not imported: its name stands in a source that imports nothing so
called. -/
theorem guardType_not_imported :
    let console : Capability := ⟨"ConsoleCommandSender", "Console only"⟩
    let registry : Registry := Registry.builtin.insert "console" console
    registry.get? "console" = some console ∧ Java.isIdentifier console.targetType ∧
      ∃ project' k, Project.register (guardedHello registry "console") emptyProject = (.ok (), project') ∧
        Project.Records emptyProject project' ((guardedHello registry "console").stamp "com.Demo") k
          "hello" ∧
        StandsIn console.targetType k.handler.body ∧
        console.targetType ∉ (Java.importsOf k.source).map Java.simpleName := by
  intro console registry
  have hbegun : emptyProject.plugin.Reachable := .begun (d := .ofName "Demo") rfl
  have hget : registry.get? "console" = some console := by decide
  have htype : Java.isIdentifier console.targetType := by decide
  obtain ⟨_, hok⟩ := exists_ok_of_isOk
    (x := (Project.register (guardedHello registry "console") emptyProject).1) (by decide +kernel)
  have hregister : Project.register (guardedHello registry "console") emptyProject = (.ok (), _) :=
    Prod.ext hok rfl
  refine ⟨hget, htype, _, _, hregister, Project.register_records rfl hregister, ?_, ?_⟩
  · have hcall : (registry, "console".toList) ∈ [(registry, "console".toList)] := List.mem_singleton_self _
    exact Guard.standsIn_targetType (by decide) hcall hget htype (by decide) _
  · exact fun himported =>
      absurd ((reachable_hello.mem_importsOf hbegun rfl _ _).1 himported) (by decide)

end Command

end PluginForge
