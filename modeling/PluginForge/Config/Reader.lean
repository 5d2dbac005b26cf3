import PluginForge.Config.Basic
import PluginForge.Json.Record

namespace PluginForge.Config

open Json

def text : Reader Text :=
  Reader.text .string

def compilerShape : Shape Compiler where
  name := "CompilerConfig"
  initial := .default
  fields :=
    [.optional "command" text fun compiler command => { compiler with command },
      .optional "extra_args" (.list text) fun compiler extraArgs => { compiler with extraArgs }]

def gitShape : Shape Text where
  name := "GitConfig"
  initial := bare.git
  fields := [.optional "command" text fun _ command => command]

def libraryShape : Shape Library where
  name := "SupportLibraryConfig"
  initial := .default
  fields :=
    [.optional "repository" text fun library repository => { library with repository },
      .optional "branch" text fun library branch => { library with branch },
      .optional "directory" text fun library directory => { library with directory },
      .optional "prune" (.list text) fun library prune => { library with prune }]

def capabilityShape : Shape Guard.Capability where
  name := "Capability"
  initial := ⟨[], []⟩
  fields :=
    [.required "target_type" text fun capability targetType => { capability with targetType },
      .required "rejection_message" text fun capability rejection => { capability with rejection }]

def readCompression : Reader Compression := fun c =>
  (text c).bind fun (word, c) =>
    match Compression.ofName? word with
    | some compression => .ok (compression, c)
    | none => .error (.unplaced (.unknownVariant word (Compression.all.map Compression.name)) c)

def archiveShape : Shape Compression where
  name := "ArchiveConfig"
  initial := bare.compression
  fields := [.optional "compression" readCompression fun _ compression => compression]

def readCapabilities : Reader Guard.Registry :=
  .map capabilityShape.read Table.empty fun tag capability known => known.insert tag capability

/-- The settings that a document gives, over the bare ones. -/
def shape : Shape Config where
  name := "Config"
  initial := bare
  fields :=
    [.optional "compiler" compilerShape.read fun config compiler => { config with compiler },
      .optional "git" gitShape.read fun config git => { config with git },
      .optional "support_library" libraryShape.read fun config library => { config with library },
      .optional "capabilities" readCapabilities fun config capabilities =>
        { config with capabilities },
      .optional "archive" archiveShape.read fun config compression => { config with compression }]

def ofText (t : Text) : Except Error Config :=
  shape.read.run t

end PluginForge.Config
