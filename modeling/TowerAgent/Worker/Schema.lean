import TowerAgent.Plan.Resolve
import TowerAgent.Workflow.Definition

/-! The repository worker's own configuration: the schema of a workflow file, the typed jobs it
compiles to, and the catalog of profiles the host keeps out of it. -/
namespace TowerAgent.Worker
open Lib
open Std (ExtTreeMap)

/-- The only schema version this build understands. -/
def schemaVersion : UInt32 := 1

/-- What a step does, as a file says it. -/
inductive JobEntry where
  | agent (profile prompt : String)
  | mechanical (op : String) (args : ExtTreeMap String String)

structure StepEntry where
  id : String
  needs : List String
  job : JobEntry

/-- A phase runs after the one before it; its steps are independent. -/
structure PhaseEntry where
  step : List StepEntry

structure WorkflowHeader where
  id : String
  version : String
  deriving DecidableEq

/-- One workflow file: its steps in a list, or in a list of phases. -/
structure WorkflowFile where
  schemaVersion : UInt32
  workflow : WorkflowHeader
  step : List StepEntry := []
  phase : List PhaseEntry := []

/-- Where something was found. -/
structure Location where
  file : String
  path : String
  deriving DecidableEq, Repr

def Location.display (location : Location) : String := location.file ++ ":" ++ location.path

/-- One reason a configuration could not be compiled. -/
structure Diagnostic where
  location : Location
  message : String
  deriving DecidableEq, Repr

def Diagnostic.display (diagnostic : Diagnostic) : String :=
  diagnostic.location.display ++ ": " ++ diagnostic.message

/-- The operations the host implements, a closed set. -/
inductive MechanicalOp where
  | readBranch
  | countFiles
  | collect
  deriving DecidableEq, Repr

def MechanicalOp.parse (name : String) : Option MechanicalOp :=
  if name = "read_branch" then some .readBranch
  else if name = "count_files" then some .countFiles
  else if name = "collect" then some .collect
  else none

/-- What one compiled step does. -/
inductive Job where
  | agent (profile prompt : String) (provider : Plan.ProviderId)
  | mechanical (op : MechanicalOp) (args : ExtTreeMap String String)

/-- The host's profiles, by the name a file uses for them. -/
structure ProfileCatalog where
  profiles : ExtTreeMap String Plan.Profile := ∅

namespace ProfileCatalog

/-- A profile of the shipped catalog: a name and the provider it selects. -/
def named (name : String) (provider : Plan.ProviderId) : Plan.Profile :=
  ⟨name,{ provider := some provider }⟩

/-- The catalog this example ships with. -/
def exampleCatalog : ProfileCatalog :=
  ⟨((∅ : ExtTreeMap String Plan.Profile).insert "reviewer" (named "reviewer" .claude)).insert
    "implementer" (named "implementer" .codex)⟩

def get (catalog : ProfileCatalog) (name : String) : Option Plan.Profile := catalog.profiles[name]?

def names (catalog : ProfileCatalog) : List String := catalog.profiles.keys

end ProfileCatalog
end TowerAgent.Worker
