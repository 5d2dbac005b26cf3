import PluginForge.Proofs.Archive.Names
import PluginForge.Proofs.Build.Sources

namespace PluginForge.Build.Assembly

open Archive (Entry entryOf)
open Files (Location Node)

variable {archive : Archive} {compression : Config.Compression} {l : Layout} {plugin : Plugin}
  {w w' : Workshop}

/-- The parts of an archive: the tree of the build manifest, the manifest, and the tree of the first
segment of the package. -/
def parts (compression : Config.Compression) (d : Details) (manifest : ByteArray)
    (buildManifest package : List (Location × Node)) : List Entry :=
  buildManifest.map (entryOf compression BuildManifest.directory) ++
    [⟨Manifest.fileName, compression, manifest⟩] ++ package.map (entryOf compression d.packageRoot)

/-- Packing fails for the files alone: the three parts of the archive have no name in common. -/
theorem pack_cases (hp : Java.isQualifiedName plugin.details.package)
    (compression : Config.Compression) (l : Layout) (w : Workshop) :
    (∃ e, pack compression plugin l w = (.error (.files e), w)) ∨
      ∃ manifest source archive,
        w.files.read (l.pluginRoot.join Manifest.fileName) = .ok manifest ∧
        w.files.find plugin.details.sourceRoot = .ok (plugin.details.sourceRoot.names, source) ∧
        archive.names.Nodup ∧
        archive.entries = parts compression plugin.details manifest
          (w.files.below (buildManifestDirectory l).names)
          (w.files.below plugin.details.sourceRoot.names) ∧
        pack compression plugin l w = (.ok archive, w) := by
  have hroot := Details.isIdentifier_packageRoot hp
  have hne {name : Text} (hn : Java.isIdentifier name = false) :
      plugin.details.packageRoot ≠ name := fun he => by rw [he, hn] at hroot; cases hroot
  have hnew : plugin.details.packageRoot ∉ [Manifest.fileName, BuildManifest.directory] := by
    rw [List.mem_cons, List.mem_singleton, not_or]
    exact ⟨hne (by decide), hne (by decide)⟩
  rw [pack]
  simp only [bind, Except.bind]
  rcases (Archive.Parted.empty compression).addDirectory (buildManifestDirectory l) w.files
    BuildManifest.directory (by decide) (by decide) with ⟨e, he⟩ | ⟨-, a, -, ha, he, hparted⟩
  · rw [he]
    exact .inl ⟨e, rfl⟩
  rw [he]
  rcases hparted.addFile (l.pluginRoot.join Manifest.fileName) w.files Manifest.fileName (by decide)
    (by decide) with ⟨e, he⟩ | ⟨manifest, a', hmanifest, ha', he, hparted⟩
  · simp only [he]
    exact .inl ⟨e, rfl⟩
  simp only [he]
  rcases hparted.addDirectory plugin.details.sourceRoot w.files plugin.details.packageRoot
    (isEntryName_of_isIdentifier hroot) hnew with ⟨e, he⟩ | ⟨source, a'', hsource, ha'', he, hparted⟩
  · rw [he]
    exact .inl ⟨e, rfl⟩
  · rw [he]
    refine .inr ⟨manifest, source, a'', hmanifest, hsource, hparted.distinct, ?_, rfl⟩
    subst ha
    subst ha'
    subst ha''
    rfl

theorem pack_ok (hp : Java.isQualifiedName plugin.details.package)
    (h : pack compression plugin l w = (.ok archive, w')) :
    ∃ manifest source, w.files.read (l.pluginRoot.join Manifest.fileName) = .ok manifest ∧
      w.files.find plugin.details.sourceRoot = .ok (plugin.details.sourceRoot.names, source) ∧
      archive.names.Nodup ∧
      archive.entries = parts compression plugin.details manifest
        (w.files.below (buildManifestDirectory l).names)
        (w.files.below plugin.details.sourceRoot.names) := by
  obtain ⟨e, he⟩ | ⟨manifest, source, archive', hmanifest, hsource, hdistinct, hentries, he⟩ :=
    pack_cases hp compression l w
  · cases h.symm.trans he
  · cases h.symm.trans he
    exact ⟨manifest, source, hmanifest, hsource, hdistinct, hentries⟩

end PluginForge.Build.Assembly
