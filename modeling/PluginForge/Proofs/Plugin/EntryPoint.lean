import PluginForge.Plugin.EntryPoint
import PluginForge.Java.Identifier
import PluginForge.Proofs.Text.Basic

namespace PluginForge.EntryPoint

variable {name : Text} {names : List Text}

theorem registration_eq (name : Text) :
    registration name = "new ".toList ++ (name ++ "(this);".toList) :=
  List.append_assoc _ _ _

theorem registration_line (h : Java.isIdentifier name) :
    registration name ≠ [] ∧ '\n' ∉ registration name ∧
      (registration name).getLast? ≠ some '\r' := by
  have hall := List.all_eq_true.1 (Java.all_isIdentifierChar h)
  rw [registration_eq]
  refine ⟨?_, ?_, ?_⟩
  · simp
  · simp only [List.mem_append, not_or]
    exact ⟨by decide, fun hc => absurd (hall _ hc) (by decide), by decide⟩
  · rw [List.getLast?_append, List.getLast?_append]
    exact fun he => absurd (Option.some.inj he) (by decide)

/-- The line of the source file that creates a command class. -/
def creation (commandClass : Text) : Text :=
  "        new " ++ commandClass ++ "(this);"

theorem creation_eq (name : Text) :
    creation name = "        new ".toList ++ (name ++ "(this);".toList) :=
  List.append_assoc _ _ _

/-- The lines of the source file in front of those that create the command classes. -/
def opening (e : EntryPoint) : List Text :=
  Java.preface e.package e.imports ++
    [e.header ++ " \x7b", "    @Override", "    public void onEnable() \x7b"]

/-- The lines of the source file behind those that create the command classes. -/
def closing : List Text :=
  ["    \x7d", "\x7d"]

theorem indentLine_registration (name : Text) :
    Text.indentLine (Java.indent ++ Java.indent) (registration name) = creation name := by
  have hindent : Java.indent ++ Java.indent ++ "new ".toList = "        new ".toList := by decide
  have hnew : ("new ".toList).all Text.isBlank = false := by decide
  have hall : (registration name).all Text.isBlank = false := by
    rw [registration_eq, List.all_append, hnew, Bool.false_and]
  rw [Text.indentLine, hall, if_neg Bool.false_ne_true, registration_eq, creation_eq,
    ← List.append_assoc, hindent]

/-- The file of an entry point creates its command classes one after another when it is enabled, and
does nothing else. -/
theorem source_eq (e : EntryPoint) (h : ∀ name ∈ names, Java.isIdentifier name) :
    e.source names = Java.unlines (e.opening ++ names.map creation ++ closing) := by
  have hlines : Text.lines (onEnable names).body = names.map registration :=
    Text.lines_join fun part hpart => by
      obtain ⟨name, hname, rfl⟩ := List.mem_map.1 hpart
      exact registration_line (h name hname)
  have hcreate : (names.map registration).map (Text.indentLine (Java.indent ++ Java.indent)) =
      names.map creation := by
    rw [List.map_map]
    exact List.map_congr_left fun name _ => indentLine_registration name
  rw [source, Java.classSource, Java.Method.member, hlines, hcreate, opening]
  simp only [List.append_assoc, List.cons_append, List.nil_append]
  rfl

end PluginForge.EntryPoint
