import PluginForge.Config.Lookup
import PluginForge.Config.Writer
import PluginForge.Plugin.Descriptor
import PluginForge.Proofs.Files.Writes
import PluginForge.Proofs.Json.Records
import PluginForge.Proofs.Table

namespace PluginForge

open Json Files

theorem Json.reads_texts {read : Reader Text} (h : ∀ s, Reads read (.string s) s) (items : List Text) :
    Reads (.list read) (.list (items.map .string)) items := by
  apply Reads.list
  induction items with
  | nil => exact .nil
  | cons s items ih => exact .cons (h s) ih

namespace Config

theorem fills_unlessEmpty {ρ α : Type} {name : Text} {write : List α → Value} {items : List α}
    {fields : List (Json.Field ρ)} {members : List (Text × Value)} {β : Type} {read : Reader β}
    {put : ρ → β → ρ} {record record' : ρ} {b : β} (hread : Reads read (write items) b)
    (hempty : items = [] → put record b = record) (h : Fills fields members (put record b) record') :
    Fills (.optional name read put :: fields) (unlessEmpty name write items ++ members)
      record record' := by
  rw [unlessEmpty]
  split
  · next hitems =>
    rw [hempty (List.isEmpty_iff.1 hitems)] at h
    exact .absent rfl h
  · exact .optional hread h

theorem reads_listValue (items : List Text) : Reads (.list text) (listValue items) items :=
  reads_texts (reads_text _) items

theorem reads_compiler (compiler : Compiler) :
    Reads compilerShape.read (compilerValue compiler) compiler := by
  apply Fills.reads compilerShape _ (by decide)
  apply Fills.optional (reads_text _ _)
  rw [← List.append_nil (unlessEmpty _ _ _)]
  apply fills_unlessEmpty (reads_listValue compiler.extraArgs)
  · intro hitems
    rw [hitems]
    rfl
  · exact .nil

theorem reads_git (git : Text) :
    Reads gitShape.read (.object [("command", .string git)]) git := by
  apply Fills.reads gitShape _ (by decide)
  exact .optional (reads_text _ _) .nil

theorem reads_library (library : Library) :
    Reads libraryShape.read (libraryValue library) library := by
  apply Fills.reads libraryShape _ (by decide)
  apply Fills.optional (reads_text _ _)
  apply Fills.optional (reads_text _ _)
  apply Fills.optional (reads_text _ _)
  apply Fills.optional (reads_listValue library.prune)
  exact .nil

theorem reads_capability (capability : Guard.Capability) :
    Reads capabilityShape.read (capabilityValue capability) capability := by
  apply Fills.reads capabilityShape _ (by decide)
  apply Fills.required (reads_text _ _)
  apply Fills.required (reads_text _ _)
  exact .nil

theorem reads_capabilities (registry : Guard.Registry) :
    Reads readCapabilities (capabilitiesValue registry.entries) registry := by
  have h : Reads readCapabilities (capabilitiesValue registry.entries)
      (Table.empty.insertAll registry.entries) := by
    apply Reads.map
    induction registry.entries with
    | nil => exact .nil
    | cons entry entries ih => exact .cons ⟨rfl, reads_capability entry.2⟩ ih
  rwa [Table.insertAll_entries] at h

theorem Compression.ofName?_name (compression : Compression) :
    Compression.ofName? compression.name = some compression := by
  cases compression <;> rfl

theorem reads_compression (compression : Compression) :
    Reads readCompression (.string compression.name) compression := by
  intro p s r hv
  obtain ⟨q, hq⟩ := reads_text .string compression.name p s r hv
  refine ⟨q, ?_⟩
  rw [readCompression, text, hq]
  simp only [Except.bind, Compression.ofName?_name]

theorem reads_archive (compression : Compression) :
    Reads archiveShape.read (.object [("compression", .string compression.name)]) compression := by
  apply Fills.reads archiveShape _ (by decide)
  exact .optional (reads_compression _) .nil

/-- Settings are what the document that gives them is read as. -/
theorem reads_toValue (config : Config) : Reads shape.read config.toValue config := by
  apply Fills.reads shape _ (by decide)
  rw [List.append_assoc]
  apply Fills.optional (reads_compiler _)
  apply Fills.optional (reads_git _)
  apply Fills.optional (reads_library _)
  apply fills_unlessEmpty (reads_capabilities config.capabilities)
  · intro hentries
    have hempty : config.capabilities = Table.empty := Table.ext hentries
    rw [hempty]
    rfl
  · exact .optional (reads_archive _) .nil

theorem loadFile_save {config : Config} {p : Path} {t t' : Tree} (h : config.save p t = (.ok (), t')) :
    loadFile t' p = .ok config := by
  have hread : t'.read p = .ok (Text.toUtf8 config.toText) := (Tree.write_written (writeText_ok h)).read
  have hparse : ofText config.toText = .ok config := by
    apply (reads_toValue config).run
    rw [toText, ← List.append_nil (config.toValue.pretty 0)]
    exact config.toValue.pretty_spells 0 []
  rw [loadFile, Tree.readText, hread]
  simp only [Text.ofUtf8?_toUtf8, hparse]
  rfl

end Config

namespace Descriptor

theorem fills_member {ρ α : Type} {name : Text} {write : α → Value} {value : Option α}
    {fields : List (Json.Field ρ)} {members : List (Text × Value)} {read : Reader α}
    {put : ρ → Option α → ρ} {record record' : ρ} (hread : ∀ a, Reads read (write a) a)
    (hnone : put record none = record) (h : Fills fields members (put record value) record') :
    Fills (.nullable name read put :: fields) (member name write value ++ members)
      record record' := by
  cases value with
  | none =>
    rw [hnone] at h
    exact .absent rfl h
  | some a => exact .member ((hread a).option.into_field name put record) h

theorem reads_command (c : CommandEntry) : Reads commandShape.read c.toValue c := by
  apply Fills.reads commandShape _ (by decide)
  simp only [List.append_assoc]
  rw [← List.append_nil (textMember "execute_type" _)]
  apply Fills.required (reads_text _ _)
  apply fills_member (reads_text _) rfl
  apply fills_member (reads_text _) rfl
  apply fills_member (reads_texts (reads_text _)) rfl
  apply fills_member (reads_text _) rfl
  apply fills_member (reads_text _) rfl
  apply fills_member (reads_text _) rfl
  exact .nil

theorem reads_commands (commands : List CommandEntry) :
    Reads (.list commandShape.read) (.list (commands.map CommandEntry.toValue)) commands := by
  apply Reads.list
  induction commands with
  | nil => exact .nil
  | cons c commands ih => exact .cons (reads_command c) ih

/-- An entry is what the document that describes it is read as. -/
theorem reads_plugin (p : PluginEntry) : Reads pluginShape.read p.toValue p := by
  apply Fills.reads pluginShape _ (by decide)
  simp only [List.append_assoc]
  apply Fills.required (reads_text _ _)
  apply fills_member (reads_text _) rfl
  apply fills_member (reads_text _) rfl
  apply fills_member (reads_text _) rfl
  apply fills_member (reads_text _) rfl
  apply fills_member (reads_text _) rfl
  apply Fills.optional (reads_commands p.commands)
  exact .nil

theorem run_toValue (p : PluginEntry) :
    pluginShape.read.run p.toValue.compact = .ok p ∧
      ∀ depth, pluginShape.read.run (p.toValue.pretty depth) = .ok p := by
  constructor
  · apply (reads_plugin p).run
    rw [← List.append_nil p.toValue.compact]
    exact p.toValue.compact_spells []
  · intro depth
    apply (reads_plugin p).run
    rw [← List.append_nil (p.toValue.pretty depth)]
    exact p.toValue.pretty_spells depth []

end Descriptor

/-- Reading undoes writing for the documents of the library. Settings are the same after they have been
saved to a file and loaded from it, and a description of a plugin is the same after it has been written
out, with blanks or without, and read. -/
theorem documents_read_back :
    (∀ (config : Config) (p : Path) (t t' : Tree), config.save p t = (.ok (), t') →
      Config.loadFile t' p = .ok config) ∧
    ∀ entry : Descriptor.PluginEntry,
      Descriptor.pluginShape.read.run (entry.toValue.pretty 0) = .ok entry ∧
      Descriptor.pluginShape.read.run entry.toValue.compact = .ok entry := by
  constructor
  · intro config p t t' h
    exact Config.loadFile_save h
  · intro entry
    obtain ⟨hcompact, hpretty⟩ := Descriptor.run_toValue entry
    exact ⟨hpretty 0, hcompact⟩

/-- Saving settings without any capability does not bring the default one back. -/
theorem documents_read_back_bare :
    Config.bare.save ⟨"a.json"⟩ .empty = (.ok (), (Config.bare.save ⟨"a.json"⟩ .empty).2) ∧
      Config.loadFile (Config.bare.save ⟨"a.json"⟩ .empty).2 ⟨"a.json"⟩ = .ok .bare := by
  have hsave : (Config.bare.save ⟨"a.json"⟩ .empty).1 = .ok () := rfl
  have h : Config.bare.save ⟨"a.json"⟩ .empty = (.ok (), _) := Prod.ext hsave rfl
  exact ⟨h, documents_read_back.1 _ _ _ _ h⟩

end PluginForge
