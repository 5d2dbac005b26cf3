import PluginForge.Build.Toolchain
import PluginForge.Proofs.Build.Obstacles

namespace PluginForge.Build

open Files (Path Tree)

variable {config : Config} {failure : Failure} {l : Layout} {plugin : Plugin} {programs : Programs}
  {t t' : Tree} {tool : Tool} {w w' : Workshop} {write : Archive.Writer}

/-- Why a tool fails: its program is not found, it cannot be given its arguments, or it ends badly. The
program itself may fail for the files. -/
inductive Tool.Fails (programs : Programs) (tool : Tool) (t : Tree) : Failure → Prop where
  | notFound (h : programs t tool.program = none) : Fails programs tool t (.toolNotFound tool.program)
  | nul (h : ∃ arg ∈ tool.args, '\x00' ∈ arg) : Fails programs tool t .nulInArgument
  | files (e : Files.Error) : Fails programs tool t (.files e)
  | badly (o : Program.Outcome) (h : o.status.isSuccess = false) :
    Fails programs tool t (.toolFailed tool.program o.status.message (complaint o))

theorem Tool.execute_error (h : tool.execute programs t = (.error failure, t')) :
    Fails programs tool t failure := by
  have hget : (get : Action Tree) t = (.ok t, t) := rfl
  rw [execute, bind_of_ok hget] at h
  cases hprogram : programs t tool.program with
  | none =>
    rw [hprogram] at h
    cases h
    exact .notFound hprogram
  | some run =>
    rw [hprogram] at h
    simp only at h
    split at h
    · next hnul =>
      cases h
      obtain ⟨arg, harg, hmem⟩ := List.any_eq_true.1 hnul
      exact .nul ⟨arg, harg, List.contains_iff_mem.1 hmem⟩
    · rcases bind_eq_error.1 h with hrun | ⟨o, _, _, h⟩
      · obtain ⟨e, rfl, -⟩ := adapt_error hrun
        exact .files e
      · split at h
        · next hbad =>
          cases h
          exact .badly o (by simpa using hbad)
        · cases h

theorem Tool.Fails.not_isDeferral (h : tool.Fails programs t failure) : ¬failure.IsDeferral := by
  cases h <;> exact not_false

theorem Toolchain.not_canFail_system (hown : failure.IsDeferral) :
    ¬(Toolchain.system programs config).CanFail failure := by
  have htool {tool : Tool} {t t' : Tree}
      (h : (discard (tool.execute programs) : Action PUnit) t = (.error failure, t')) : False :=
    (Tool.execute_error (map_eq_error.1 h)).not_isDeferral hown
  rintro (⟨l, library, destination, t, h⟩ | ⟨l, entryPoint, t, h⟩)
  · exact htool (Prod.ext h rfl)
  · rcases bind_eq_error.1 (Prod.ext h rfl) with hclasspath | ⟨tool, _, -, h⟩
    · rw [compileTool, Layout.classpath] at hclasspath
      split at hclasspath
      · cases hclasspath
        exact hown
      · cases hclasspath
    · exact htool h

/-- With programs as tools, no build looks like one that was cancelled or whose plugin never came. -/
theorem Assembly.run_system_error
    (h : run write (.system programs config) config plugin w = (.error failure, w')) :
    ¬failure.IsDeferral := by
  intro hown
  exact Toolchain.not_canFail_system hown (deferral_run w w' failure h hown)

end PluginForge.Build
