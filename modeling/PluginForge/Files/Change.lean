import PluginForge.Files.Tree

namespace PluginForge.Files

inductive Change where
  | delete (at' : Location)
  | makeDirectory (at' : Location)
  | write (at' : Location) (content : ByteArray)

namespace Change

/-- A node stands for the same thing as another one. -/
def isSame : Node → Option Node → Bool
  | .directory, some .directory => true
  | .file a, some (.file b) => a.toList == b.toList
  | _, _ => false

/-- What has to be deleted, what is in a directory before the directory itself. -/
def deletions (before after : Tree) : List Change :=
  (before.nodes.entries.filterMap fun entry =>
    match entry.2, after.node? entry.1 with
    | _, none | .directory, some (.file _) | .file _, some .directory => some (.delete entry.1)
    | _, _ => none).reverse

/-- What has to be created or written, a directory before what is in it. -/
def creations (before after : Tree) : List Change :=
  after.nodes.entries.filterMap fun entry =>
    if isSame entry.2 (before.node? entry.1) then none
    else
      match entry.2 with
      | .directory => some (.makeDirectory entry.1)
      | .file content => some (.write entry.1 content)

/-- The changes that lead from one state to another, in an order in which they can be made. -/
def between (before after : Tree) : List Change :=
  deletions before after ++ creations before after

end Change

end PluginForge.Files
