import PluginForge.Config.Lookup
import PluginForge.Proofs.Documents
import PluginForge.Proofs.Json.AnyOrder

namespace PluginForge.Config

open Files (Path Tree)
open Json

structure Compiler.Given where
  command : Option Text
  extraArgs : Option (List Text)

structure Library.Given where
  repository : Option Text
  branch : Option Text
  directory : Option Text
  prune : Option (List Text)

/-- The sections that a document gives, and for each the fields that it gives there. -/
structure Given where
  compiler : Option Compiler.Given
  git : Option (Option Text)
  library : Option Library.Given
  capabilities : Option Guard.Registry
  archive : Option (Option Compression)

def Compiler.Given.value (given : Compiler.Given) : Compiler where
  command := given.command.getD Compiler.default.command
  extraArgs := given.extraArgs.getD Compiler.default.extraArgs

def Library.Given.value (given : Library.Given) : Library where
  repository := given.repository.getD Library.default.repository
  branch := given.branch.getD Library.default.branch
  directory := given.directory.getD Library.default.directory
  prune := given.prune.getD Library.default.prune

/-- The settings with the given values, and with the default of each field that is not given. -/
def Given.config (given : Given) : Config where
  compiler := (given.compiler.map Compiler.Given.value).getD .default
  git := (given.git.map fun command => command.getD bare.git).getD bare.git
  library := (given.library.map Library.Given.value).getD .default
  capabilities := given.capabilities.getD Table.empty
  compression :=
    (given.archive.map fun compression => compression.getD bare.compression).getD bare.compression

def textsForm (items : List Text) : Form :=
  .list (items.map .text)

def Compiler.Given.form (given : Compiler.Given) : Form :=
  .record [("command", given.command.map .text), ("extra_args", given.extraArgs.map textsForm)]

def gitForm (command : Option Text) : Form :=
  .record [("command", command.map .text)]

def Library.Given.form (given : Library.Given) : Form :=
  .record [("repository", given.repository.map .text), ("branch", given.branch.map .text),
    ("directory", given.directory.map .text), ("prune", given.prune.map textsForm)]

def capabilityForm (capability : Guard.Capability) : Form :=
  .record [("target_type", some (.text capability.targetType)),
    ("rejection_message", some (.text capability.rejection))]

def capabilitiesForm (registry : Guard.Registry) : Form := fun t r =>
  ∃ entries : List (Text × Guard.Capability), entries.Perm registry.entries ∧
    Form.object (entries.map fun entry => (entry.1, capabilityForm entry.2)) t r

/-- The name of a compression, each of its letters small or capital. -/
def Compression.form (compression : Compression) : Form := fun t r =>
  ∃ word, List.Forall₂ (fun c d => c = d ∨ c = d.toUpper) word compression.name ∧ Form.text word t r

def archiveForm (compression : Option Compression) : Form :=
  .record [("compression", compression.map Compression.form)]

def Given.form (given : Given) : Form :=
  .record [("compiler", given.compiler.map Compiler.Given.form), ("git", given.git.map gitForm),
    ("support_library", given.library.map Library.Given.form),
    ("capabilities", given.capabilities.map capabilitiesForm),
    ("archive", given.archive.map archiveForm)]

variable {α β : Type} {read : Reader α}

theorem rel_map {form : β → Form} {value : β → α} (h : ∀ b, ReadsForm read (form b) (value b))
    (b? : Option β) : Option.Rel (ReadsForm read) (b?.map form) (b?.map value) := by
  cases b? with
  | none => exact .none
  | some b => exact .some (h b)

theorem rel_self {form : α → Form} (h : ∀ a, ReadsForm read (form a) a) (a? : Option α) :
    Option.Rel (ReadsForm read) (a?.map form) a? := by
  have hrel := @rel_map α α read form id h a?
  rwa [Option.map_id] at hrel

def Compiler.Given.entries (given : Compiler.Given) : List (Entry Compiler) :=
  [.optional "command" Compiler.command (fun compiler command => { compiler with command })
      (rel_self (readsForm_text .string) given.command) fun _ => rfl,
    .optional "extra_args" Compiler.extraArgs (fun compiler extraArgs => { compiler with extraArgs })
      (rel_self (readsForm_texts .string) given.extraArgs) fun _ => rfl]

theorem readsForm_compiler (given : Compiler.Given) :
    ReadsForm compilerShape.read given.form given.value := by
  refine @Entry.readsForm _ compilerShape given.entries rfl (by decide) ?_
  simp only [Compiler.Given.entries, List.pairwise_cons, List.forall_mem_cons]
  exact ⟨⟨fun _ => rfl, nofun⟩, nofun, .nil⟩

def gitEntries (command : Option Text) : List (Entry Text) :=
  [.optional "command" id (fun _ command => command) (rel_self (readsForm_text .string) command)
    fun _ => rfl]

theorem readsForm_git (command : Option Text) :
    ReadsForm gitShape.read (gitForm command) (command.getD bare.git) :=
  @Entry.readsForm _ gitShape (gitEntries command) rfl (by decide) (List.pairwise_singleton ..)

def Library.Given.entries (given : Library.Given) : List (Entry Library) :=
  [.optional "repository" Library.repository (fun library repository => { library with repository })
      (rel_self (readsForm_text .string) given.repository) fun _ => rfl,
    .optional "branch" Library.branch (fun library branch => { library with branch })
      (rel_self (readsForm_text .string) given.branch) fun _ => rfl,
    .optional "directory" Library.directory (fun library directory => { library with directory })
      (rel_self (readsForm_text .string) given.directory) fun _ => rfl,
    .optional "prune" Library.prune (fun library prune => { library with prune })
      (rel_self (readsForm_texts .string) given.prune) fun _ => rfl]

theorem readsForm_library (given : Library.Given) :
    ReadsForm libraryShape.read given.form given.value := by
  refine @Entry.readsForm _ libraryShape given.entries rfl (by decide) ?_
  simp only [Library.Given.entries, List.pairwise_cons, List.forall_mem_cons]
  exact ⟨⟨fun _ => rfl, fun _ => rfl, fun _ => rfl, nofun⟩, ⟨fun _ => rfl, fun _ => rfl, nofun⟩,
    ⟨fun _ => rfl, nofun⟩, nofun, .nil⟩

def capabilityEntries (capability : Guard.Capability) : List (Entry Guard.Capability) :=
  [.required "target_type" (fun capability targetType => { capability with targetType })
      (readsForm_text .string capability.targetType),
    .required "rejection_message" (fun capability rejection => { capability with rejection })
      (readsForm_text .string capability.rejection)]

theorem readsForm_capability (capability : Guard.Capability) :
    ReadsForm capabilityShape.read (capabilityForm capability) capability := by
  refine @Entry.readsForm _ capabilityShape (capabilityEntries capability) rfl (by decide) ?_
  simp only [capabilityEntries, List.pairwise_cons, List.forall_mem_cons]
  exact ⟨⟨fun _ => rfl, nofun⟩, nofun, .nil⟩

theorem readsForm_capabilities (registry : Guard.Registry) :
    ReadsForm readCapabilities (capabilitiesForm registry) registry := by
  apply ReadsForm.of_form
  rintro t r ⟨entries, hperm, hobject⟩
  refine ⟨_, ?_, hobject⟩
  rw [← Table.insertAll_perm hperm]
  apply readsForm_map
  rw [List.forall₂_map_left_iff, List.forall₂_same]
  exact fun entry _ => ⟨rfl, readsForm_capability entry.2⟩

theorem map_toLower_anyCase {word name : Text}
    (h : List.Forall₂ (fun c d => c = d ∨ c = d.toUpper) word name)
    (hname : name.all fun d => d.toLower = d ∧ d.toUpper.toLower = d) : word.map Char.toLower = name := by
  induction h with
  | nil => rfl
  | cons hc _ ih =>
    rw [List.all_cons, Bool.and_eq_true, decide_eq_true_eq] at hname
    obtain ⟨⟨hlower, hupper⟩, hname⟩ := hname
    rw [List.map_cons, ih hname]
    rcases hc with rfl | rfl
    · rw [hlower]
    · rw [hupper]

theorem Compression.ofName?_anyCase {compression : Compression} {word : Text}
    (h : List.Forall₂ (fun c d => c = d ∨ c = d.toUpper) word compression.name) :
    Compression.ofName? word = some compression := by
  have hlower : word.map Char.toLower = compression.name := by
    apply map_toLower_anyCase h
    cases compression <;> rfl
  have hname : compression.name.map Char.toLower = compression.name := by
    cases compression <;> rfl
  have hfound := Compression.ofName?_name compression
  rw [ofName?, hname, ← hlower] at hfound
  exact hfound

theorem readsForm_compression (compression : Compression) :
    ReadsForm readCompression compression.form compression where
  length_le := by
    rintro t r ⟨word, -, h⟩
    exact (readsForm_text .string word).length_le h
  reads := by
    rintro t r ⟨word, hword, h⟩ p
    obtain ⟨q, hq⟩ := (readsForm_text .string word).reads h p
    refine ⟨q, ?_⟩
    rw [readCompression, text, hq]
    simp only [Except.bind, Compression.ofName?_anyCase hword]

def archiveEntries (compression : Option Compression) : List (Entry Compression) :=
  [.optional "compression" id (fun _ compression => compression)
    (rel_self readsForm_compression compression) fun _ => rfl]

theorem readsForm_archive (compression : Option Compression) :
    ReadsForm archiveShape.read (archiveForm compression) (compression.getD bare.compression) :=
  @Entry.readsForm _ archiveShape (archiveEntries compression) rfl (by decide)
    (List.pairwise_singleton ..)

def Given.entries (given : Given) : List (Entry Config) :=
  [.optional "compiler" Config.compiler (fun config compiler => { config with compiler })
      (rel_map readsForm_compiler given.compiler) fun _ => rfl,
    .optional "git" Config.git (fun config git => { config with git })
      (rel_map readsForm_git given.git) fun _ => rfl,
    .optional "support_library" Config.library (fun config library => { config with library })
      (rel_map readsForm_library given.library) fun _ => rfl,
    .optional "capabilities" Config.capabilities
      (fun config capabilities => { config with capabilities })
      (rel_self readsForm_capabilities given.capabilities) fun _ => rfl,
    .optional "archive" Config.compression (fun config compression => { config with compression })
      (rel_map readsForm_archive given.archive) fun _ => rfl]

theorem readsForm_given (given : Given) : ReadsForm shape.read given.form given.config := by
  refine @Entry.readsForm _ shape given.entries rfl (by decide) ?_
  simp only [Given.entries, List.pairwise_cons, List.forall_mem_cons]
  exact ⟨⟨fun _ => rfl, fun _ => rfl, fun _ => rfl, fun _ => rfl, nofun⟩,
    ⟨fun _ => rfl, fun _ => rfl, fun _ => rfl, nofun⟩, ⟨fun _ => rfl, fun _ => rfl, nofun⟩,
    ⟨fun _ => rfl, nofun⟩, nofun, .nil⟩

/-- Settings are loaded from a file as the defaults with the values over them that the file gives, in
whichever order and letter case it gives them and whatever it holds besides. A build then knows the
capability of each tag that the settings configure and, unless they configure its tag, the built-in
one. -/
theorem loadFile_overlay :
    (∀ (given : Given) (text gap : Text) (t : Tree) (p : Path), given.form text gap → IsGap gap →
      t.read p = .ok (Text.toUtf8 text) → loadFile t p = .ok given.config) ∧
    ∀ (config : Config) (tag : Text),
      config.registry.get? tag =
        (config.capabilities.get? tag).or (if tag = Guard.playerTag then some .player else none) ∧
      (tag ∈ config.registry.keys ↔ tag ∈ config.capabilities.keys ∨ tag = Guard.playerTag) := by
  constructor
  · intro given text gap t p hform hgap hread
    have hparse : ofText text = .ok given.config := (readsForm_given given).run hform hgap
    rw [loadFile, Tree.readText, hread]
    simp only [Text.ofUtf8?_toUtf8, hparse]
    rfl
  · intro config tag
    have hget : config.registry.get? tag =
        (config.capabilities.get? tag).or (if tag = Guard.playerTag then some .player else none) := by
      rw [registry, Table.get?_insertAll config.capabilities.nodup_keys, Guard.Registry.builtin,
        Table.get?_insert, Table.get?_empty]
      rfl
    refine ⟨hget, ?_⟩
    rw [Table.mem_keys, Table.mem_keys, hget, Option.isSome_or, Bool.or_eq_true]
    refine or_congr_right ?_
    split
    · next h => exact iff_of_true rfl h
    · next h => exact iff_of_false Bool.false_ne_true h

def operator : Guard.Capability :=
  ⟨"Operator", "No"⟩

def partly : Given where
  compiler := some ⟨none, some ["-g"]⟩
  git := none
  library := none
  capabilities := some (Table.empty.insert "op" operator)
  archive := some (some .stored)

/-- An unknown key comes first, no object has its keys in the order of the record's fields, and the name
of the compression is in capitals. -/
def partlyText : Text :=
  "\x7b\"x\":[null,1.5],\"archive\":\x7b\"compression\":\"STORED\"\x7d,\"capabilities\":" ++
    "\x7b\"op\":\x7b\"rejection_message\":\"No\",\"target_type\":\"Operator\"\x7d\x7d," ++
    "\"compiler\":\x7b\"extra_args\":[\"-g\"]\x7d\x7d\n"

theorem loadFile_overlay_partly :
    partly.form partlyText "\n" ∧ IsGap "\n" ∧
      (Tree.empty.put ["a.json".toList] (.file (Text.toUtf8 partlyText))).read ⟨"a.json"⟩ =
        .ok (Text.toUtf8 partlyText) ∧
      loadFile (Tree.empty.put ["a.json".toList] (.file (Text.toUtf8 partlyText))) ⟨"a.json"⟩ =
        .ok ⟨⟨"javac", ["-g"]⟩, "git", .default, Table.empty.insert "op" operator, .stored⟩ := by
  have hstart : ∀ s, Follows true s s := fun _ => .first (b := []) .nil
  have hnumber : IsNumber "1.5" :=
    @IsNumber.mk [] "1" ".5" [] (.inl rfl)
      (.digits ⟨List.cons_ne_nil _ _, List.all_eq_true.1 rfl⟩ (by decide))
      (.digits ⟨List.cons_ne_nil _ _, List.all_eq_true.1 rfl⟩) .absent
  have hunknown : ∀ r, AnyValue ("[null,1.5]" ++ r) r := by
    intro r
    refine .list (b := []) .nil (.item (hstart _) (.word (b := []) (w := "null") .nil (by decide)) ?_)
    refine .item (.comma _) (.number (b := []) (n := "1.5") .nil hnumber ?_) (.close (b := []) .nil)
    intro x hx
    cases hx
    decide
  have harchive : ∀ r,
      archiveForm (some .stored) ("\x7b\"compression\":\"STORED\"\x7d" ++ r) r := by
    intro r
    refine ⟨[], _, nofun, .refl _, .mk (b := []) .nil ?_⟩
    refine .member (u := "compression") (b := []) (.self rfl) .nil (hstart _) ?_
      (.close (b := []) .nil)
    exact ⟨"STORED", by decide, .mk (b := []) (u := "STORED") .nil (.self rfl)⟩
  have hoperator : ∀ r, capabilityForm operator
      ("\x7b\"rejection_message\":\"No\",\"target_type\":\"Operator\"\x7d" ++ r) r := by
    intro r
    refine ⟨[], _, nofun, List.reverse_perm _, .mk (b := []) .nil ?_⟩
    refine .member (u := "rejection_message") (b := []) (.self rfl) .nil (hstart _)
      (.mk (b := []) (u := "No") .nil (.self rfl)) ?_
    exact .member (u := "target_type") (b := []) (.self rfl) .nil (.comma _)
      (.mk (b := []) (u := "Operator") .nil (.self rfl)) (.close (b := []) .nil)
  have hcompiler : ∀ r,
      Compiler.Given.form ⟨none, some ["-g"]⟩ ("\x7b\"extra_args\":[\"-g\"]\x7d" ++ r) r := by
    intro r
    refine ⟨[], _, nofun, .refl _, .mk (b := []) .nil ?_⟩
    refine .member (u := "extra_args") (b := []) (.self rfl) .nil (hstart _) ?_
      (.close (b := []) .nil)
    refine .mk (b := []) .nil (.item (hstart _) ?_ (.close (b := []) .nil))
    exact .mk (b := []) (u := "-g") .nil (.self rfl)
  have hform : partly.form partlyText "\n" := by
    refine ⟨["x"], _, by decide, List.reverse_perm _, .mk (b := []) .nil ?_⟩
    refine .member (u := "x") (b := []) (.self rfl) .nil (hstart _) (hunknown _) ?_
    refine .member (u := "archive") (b := []) (.self rfl) .nil (.comma _) (harchive _) ?_
    refine .member (u := "capabilities") (b := []) (.self rfl) .nil (.comma _)
      ⟨_, .refl _, .mk (b := []) .nil (.member (u := "op") (b := []) (.self rfl) .nil (hstart _)
        (hoperator _) (.close (b := []) .nil))⟩ ?_
    refine .member (u := "compiler") (b := []) (.self rfl) .nil (.comma _) (hcompiler _) ?_
    exact .close (b := []) .nil
  have hgap : IsGap "\n" := by decide
  have hread : (Tree.empty.put ["a.json".toList] (.file (Text.toUtf8 partlyText))).read ⟨"a.json"⟩ =
      .ok (Text.toUtf8 partlyText) := rfl
  exact ⟨hform, hgap, hread, loadFile_overlay.1 partly partlyText "\n" _ _ hform hgap hread⟩

end PluginForge.Config
