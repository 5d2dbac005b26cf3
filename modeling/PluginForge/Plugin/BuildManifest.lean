import PluginForge.Text.Basic

namespace PluginForge.BuildManifest

/-- The directory of the archive that holds the build manifest. -/
def directory : Text :=
  "META-INF"

def fileName : Text :=
  "MANIFEST.MF"

/-- The text that names the class that an archive is started with. -/
def text (mainClass : Text) : Text :=
  "Manifest-Version: 1.0\nMain-Class: " ++ mainClass ++ "\n"

end PluginForge.BuildManifest
