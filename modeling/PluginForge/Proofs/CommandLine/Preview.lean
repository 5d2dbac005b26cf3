import PluginForge.Archive.Zip
import PluginForge.CommandLine.Session
import PluginForge.Proofs.Action
import PluginForge.Proofs.Callback.Body
import PluginForge.Proofs.Java.Lines
import PluginForge.Proofs.Plugin.GuardLocal

namespace PluginForge

open Files (Path Tree)

namespace Callback

theorem Parameters.subset_of_parse {line : Text} {p : Parameters} (h : parse line = .ok p) :
    ∀ name ∈ p.names, name ⊆ line := by
  rw [parse] at h
  split at h
  · cases h
  next rest hrest =>
  split at h
  · cases h
  next list _ hlist =>
  have hsubset : list ⊆ line :=
    List.Subset.trans (Text.subset_of_cut? hlist).1 (Text.subset_of_cut? hrest).2
  have hclean : ∀ name ∈ (Text.splitOn ',' list).map cleanName, name ⊆ line := by
    intro name hname c hc
    obtain ⟨piece, hpiece, rfl⟩ := List.mem_map.1 hname
    exact hsubset (Text.mem_of_mem_splitOn hpiece (List.mem_of_mem_filter hc))
  split at h
  · next sender command label args more hnames =>
    rw [hnames] at hclean
    split at h
    · cases h
    cases h
    intro name hname
    apply hclean
    exact List.mem_append_left more hname
  · cases h

theorem newline_not_mem_signature {p : Parameters} (h : ∀ name ∈ p.names, '\n' ∉ name) :
    '\n' ∉ p.signature := by
  simp only [Parameters.names, List.forall_mem_cons] at h
  obtain ⟨hsender, hcommand, hlabel, hargs, -⟩ := h
  intro hmem
  rcases Text.mem_of_mem_replaceFirst hmem with hmem | hmem
  · exact hargs hmem
  rcases Text.mem_of_mem_replaceFirst hmem with hmem | hmem
  · exact hlabel hmem
  rcases Text.mem_of_mem_replaceFirst hmem with hmem | hmem
  · exact hcommand hmem
  rcases Text.mem_of_mem_replaceFirst hmem with hmem | hmem
  · exact hsender hmem
  · exact absurd hmem (by decide)

theorem newline_not_mem_signature_ofSource {source : Text} {handler : Handler}
    (h : Handler.ofSource source = .ok handler) : '\n' ∉ handler.signature := by
  obtain ⟨first, rest, parameters, statements, hlines, hparameters, -, rfl⟩ := ofSource_parts h
  apply newline_not_mem_signature
  intro name hname hmem
  have hfirst : first ∈ Text.lines (Text.trim source) := by
    rw [hlines]
    exact List.mem_cons_self
  exact Text.not_mem_of_mem_lines hfirst (Parameters.subset_of_parse hparameters name hname hmem)

end Callback

namespace Command

variable {c : Command} {registry : Guard.Registry} {source : Text} {tag : Option Text}

/-- Lets a command run a callback, guarded with the capability of a tag if there is one. -/
def running (registry : Guard.Registry) (c : Command) (source : Text) (tag : Option Text) :
    Except Failure Command := do
  let c ← c.onUse source
  match tag with
  | none => return c
  | some tag => c.executeType registry tag

/-- The body of a handler behind the guard of a tag, if there is one. -/
def guardedBody (registry : Guard.Registry) (handler : Callback.Handler) : Option Text → Text
  | none => handler.body
  | some tag => Guard.inject registry handler.body handler.parameters.sender tag

/-- Whether a command can run a callback depends on the callback alone. -/
theorem running_eq (registry : Guard.Registry) (c : Command) (source : Text) (tag : Option Text) :
    running registry c source tag =
      match Callback.Handler.ofSource source with
      | .error fault => .error (.callback fault)
      | .ok handler => .ok { c with
          sender := some handler.parameters.sender
          commandClass := some
            (.ofHandler c.name ⟨handler.signature, guardedBody registry handler tag⟩) } := by
  rw [running, onUse]
  cases Callback.Handler.ofSource source with
  | error fault => rfl
  | ok handler =>
    cases tag <;> rfl

end Command

namespace Descriptor.CommandEntry

variable {base : Path} {entry : CommandEntry} {source : Text} {t : Tree}

def described (entry : CommandEntry) : Command :=
  { Command.ofName entry.name with
    usage := entry.usage.getD (Command.ofName entry.name).usage
    description := entry.description.getD (Command.ofName entry.name).description
    aliases := entry.aliases }

theorem toCommand_eq (registry : Guard.Registry) (h : entry.source? t base = .ok (some source)) :
    entry.toCommand t base registry =
      (Command.running registry entry.described source entry.executeType).mapError .ofFailure := by
  rw [toCommand, h, Command.running, described]
  simp only [bind, Except.bind]
  generalize Command.onUse _ source = ran
  cases ran with
  | error failure => rfl
  | ok c => cases entry.executeType <;> rfl

end Descriptor.CommandEntry

namespace CommandLine

open Descriptor (CommandEntry)

variable {base : Path} {entry : CommandEntry} {source : Text} {t : Tree}

/-- The handler of a command that runs a callback, guarded with the capability of a tag if there is one. -/
def handlerOf (registry : Guard.Registry) (name source : Text) (tag : Option Text) :
    Except Failure Java.Method := do
  let c ← Command.running registry (.ofName name) source tag
  match c.commandClass with
  | none => .error (.missingHandler name)
  | some commandClass => return commandClass.handler

theorem handlerOf_eq (registry : Guard.Registry) (name source : Text) (tag : Option Text) :
    handlerOf registry name source tag =
      match Callback.Handler.ofSource source with
      | .error fault => .error (.callback fault)
      | .ok handler => .ok ⟨handler.signature, Command.guardedBody registry handler tag⟩ := by
  rw [handlerOf, Command.running_eq]
  cases Callback.Handler.ofSource source <;> rfl

/-- What is previewed is the handler of the command, with the capabilities of the settings that are found
if there is a tag. -/
theorem preview_eq {cwd : Path} {file : Text} (name? : Option Text) {registry : Guard.Registry}
    {tag : Option Text} (hsource : t.readText (resolve cwd file) = .ok source)
    (hconfig : ∀ tag', tag = some tag' →
      ∃ config, Config.load t cwd = .ok config ∧ config.registry = registry) :
    match handlerOf registry (name?.getD ((Path.fileStem? ⟨file⟩).getD "command")) source tag with
    | .ok method => preview cwd t file tag name? = .ok method
    | .error _ => ∃ report, preview cwd t file tag name? = .error report := by
  rw [handlerOf, Command.running, preview, hsource]
  simp only [bind, Except.bind, Except.mapError]
  generalize Command.onUse _ source = ran
  cases ran with
  | error failure => exact ⟨_, rfl⟩
  | ok c =>
    cases tag with
    | none =>
      simp only [pure, Except.pure]
      cases c.commandClass with
      | none => exact ⟨_, rfl⟩
      | some commandClass => rfl
    | some tag =>
      obtain ⟨config, hload, hregistry⟩ := hconfig tag rfl
      rw [hload, ← hregistry]
      simp only
      cases c.executeType config.registry tag with
      | error failure => exact ⟨_, rfl⟩
      | ok c =>
        simp only
        cases c.commandClass with
        | none => exact ⟨_, rfl⟩
        | some commandClass => rfl

/-- A preview fails for the same callbacks as the description of a command does. If both succeed, the class
of the command shows the previewed method, before and after it is put into the package of a plugin. -/
theorem preview_shown_in_class (registry : Guard.Registry)
    (h : entry.source? t base = .ok (some source)) :
    (handlerOf registry entry.name source entry.executeType).isOk =
      (entry.toCommand t base registry).isOk ∧
    (∀ method c, handlerOf registry entry.name source entry.executeType = .ok method →
      entry.toCommand t base registry = .ok c →
      (∀ line ∈ Text.splitOn '\n' method.text, line.all Text.isBlank → line = []) ∧
      ∃ commandClass, c.commandClass = some commandClass ∧ commandClass.Shows method ∧
        ∀ plugin, (commandClass.stamp plugin).Shows method) ∧
    ∀ write programs cwd t' file name?, t'.readText (resolve cwd file) = .ok source →
      name?.getD ((Path.fileStem? ⟨file⟩).getD "command") = entry.name →
      (∀ tag, entry.executeType = some tag →
        ∃ config, Config.load t' cwd = .ok config ∧ config.registry = registry) →
      match handlerOf registry entry.name source entry.executeType with
      | .ok method =>
        Request.reply write programs cwd t' (.transpile file entry.executeType name?) = .said t' [method.text]
      | .error _ => ∃ report,
        Request.reply write programs cwd t' (.transpile file entry.executeType name?) =
          .failed t' report := by
  refine ⟨?_, ?_, ?_⟩
  · rw [handlerOf_eq, CommandEntry.toCommand_eq registry h, Command.running_eq]
    cases Callback.Handler.ofSource source <;> rfl
  · intro method c hmethod hc
    rw [handlerOf_eq] at hmethod
    rw [CommandEntry.toCommand_eq registry h, Command.running_eq] at hc
    cases hsource : Callback.Handler.ofSource source with
    | error fault =>
      rw [hsource] at hmethod
      cases hmethod
    | ok handler =>
      rw [hsource] at hmethod hc
      cases hmethod
      cases hc
      have hsignature := Callback.newline_not_mem_signature_ofSource hsource
      refine ⟨?_, _, rfl, CommandClass.shows_handler hsignature, ?_⟩
      · intro line hline
        rw [Java.Method.splitOn_text hsignature] at hline
        exact Java.Method.eq_nil_of_mem_rows hline
      · intro plugin
        exact CommandClass.shows_handler (c := CommandClass.stamp _ plugin) hsignature
  · intro write programs cwd t' file name? hread hname hconfig
    have hpreview := preview_eq name? hread hconfig
    rw [hname] at hpreview
    cases hmethod : handlerOf registry entry.name source entry.executeType with
    | error failure =>
      rw [hmethod] at hpreview
      obtain ⟨report, hpreview⟩ := hpreview
      apply Exists.intro report
      rw [Request.reply, hpreview]
    | ok method =>
      rw [hmethod] at hpreview
      rw [Request.reply, hpreview]

def pausing : Text :=
  "(s, c, l, a) => \x7b\n  s.sendMessage(l)\n\n\x7d"

/-- A command that lets players run the callback. -/
def greeting : CommandEntry where
  name := "hello"
  usage := none
  description := none
  aliases := none
  handler := none
  handlerSource := some pausing
  executeType := some "player"

def callbacks : Tree :=
  (Tree.empty.put ["work".toList] .directory).put ["work".toList, "hello.js".toList]
    (.file (Text.toUtf8 pausing))

theorem preview_shown_in_class_greeting :
    ∃ method c commandClass,
      greeting.toCommand .empty ⟨[]⟩ .builtin = .ok c ∧ c.commandClass = some commandClass ∧
      commandClass.Shows method ∧
      Request.reply Archive.Zip.write .empty ⟨"/work"⟩ callbacks
        (.transpile "hello.js" (some "player") none) = .said callbacks [method.text] := by
  have hsource : greeting.source? .empty ⟨[]⟩ = .ok (some pausing) := rfl
  obtain ⟨-, hshows, hreply⟩ := preview_shown_in_class .builtin hsource
  obtain ⟨method, hmethod⟩ := exists_ok_of_isOk
    (x := handlerOf .builtin greeting.name pausing greeting.executeType) (by decide +kernel)
  obtain ⟨c, hc⟩ := exists_ok_of_isOk (x := greeting.toCommand .empty ⟨[]⟩ .builtin)
    (by decide +kernel)
  obtain ⟨-, commandClass, hclass, hshown, -⟩ := hshows method c hmethod hc
  have hsettings : Config.load callbacks ⟨"/work"⟩ = .ok .default := by
    have hnone : Config.find? callbacks ⟨"/work"⟩ = none := by decide +kernel
    rw [Config.load, hnone]
  have hread : callbacks.readText (resolve ⟨"/work"⟩ "hello.js") = .ok pausing := by decide +kernel
  have hsaid := hreply Archive.Zip.write .empty ⟨"/work"⟩ callbacks "hello.js" none hread
    (by decide +kernel) fun _ _ => ⟨.default, hsettings, rfl⟩
  rw [hmethod] at hsaid
  exact ⟨method, c, commandClass, hc, hclass, hshown, hsaid⟩

end CommandLine

end PluginForge
