import PluginForge.Build.Assembly

namespace PluginForge.Build

/-- How far the building side of a deferred build has come. -/
inductive Phase where
  | idle
  | checked
  | received (plugin : Plugin)
  | done

/-- A build that waits for its plugin from another party: whether that party can still hand it over, the
plugin on its way, how far the building side has come, and the workshop that both share. -/
structure Deferred where
  hasSignal : Bool
  sent : Option Plugin
  phase : Phase
  workshop : Workshop

/-- What a step of the building side leads to: it goes on, it has to wait for the other side, or it is
over. -/
inductive Progress where
  | goesOn
  | waits
  | over (result : Except Failure Artifact)

namespace Deferred

def start (files : Files.Tree) : Deferred :=
  ⟨true, none, .idle, .ofFiles files⟩

def isCancelled (d : Deferred) : Bool :=
  d.workshop.isCancelled

/-- The building side has neither come to an end nor been given up. -/
def hasBuild (d : Deferred) : Bool :=
  match d.phase with
  | .done => false
  | _ => true

/-- Cancels the build; the answer tells whether it was not cancelled before. -/
def cancel (d : Deferred) : Bool × Deferred :=
  (!d.isCancelled, { d with workshop := { d.workshop with isCancelled := true } })

/-- Hands over the plugin, which belongs to this build from then on. This uses up the signal, and fails
when there is no building side any more. -/
def ready (d : Deferred) (plugin : Plugin) : Except Failure Unit × Deferred :=
  let d := { d with hasSignal := false }
  if d.hasBuild then (.ok (), { d with sent := some { plugin with isScheduled := true } })
  else (.error .cancelled, d)

def dropSignal (d : Deferred) : Deferred :=
  { d with hasSignal := false }

def dropBuild (d : Deferred) : Deferred :=
  { d with phase := .done }

def finish (d : Deferred) (result : Except Failure Artifact) : Progress × Deferred :=
  (.over result, d.dropBuild)

/-- One step of the building side: it looks whether it is cancelled, receives the plugin, and looks again
before it builds. -/
def step (write : Archive.Writer) (tools : Toolchain) (config : Config) (d : Deferred) :
    Progress × Deferred :=
  match d.phase with
  | .idle =>
    if d.isCancelled then d.finish (.error .cancelled) else (.goesOn, { d with phase := .checked })
  | .checked =>
    match d.sent with
    | some plugin => (.goesOn, { d with sent := none, phase := .received plugin })
    | none => if d.hasSignal then (.waits, d) else d.finish (.error .abandoned)
  | .received plugin =>
    if d.isCancelled then d.finish (.error .cancelled)
    else
      match Assembly.run write tools config plugin d.workshop with
      | (result, workshop) => { d with workshop }.finish result
  | .done => (.waits, d)

/-- Lets the building side go on as far as it can; the three steps that it has are enough. -/
def wait (write : Archive.Writer) (tools : Toolchain) (config : Config) (d : Deferred) :
    Progress × Deferred :=
  match d.step write tools config with
  | (.goesOn, d) =>
    match d.step write tools config with
    | (.goesOn, d) => d.step write tools config
    | result => result
  | result => result

end Deferred

end PluginForge.Build
