import TowerAgent.Lib.Fallible
import TowerAgent.Workflow.Identifier

/-! Workflow definitions and their compilation: identifiers, duplicate and missing edges, then a
topological order by repeatedly taking the least step whose needs have all been taken. -/
namespace TowerAgent.Workflow
open Lib
open Std (ExtTreeMap ExtTreeSet)

variable {J : Type}

/-- An authoring-time step; its texts are validated when a workflow is built. -/
structure StepSpec (J : Type) where
  id : String
  needs : List String
  job : J
  deriving DecidableEq, Repr

/-- One validated step; its needs are in step-id order. -/
structure StepDefinition (J : Type) where
  id : StepId
  needs : List StepId
  job : J

/-- A validated, normalized DAG with an opaque job at each step. -/
structure WorkflowDefinition (J : Type) where
  id : WorkflowId
  version : WorkflowVersion
  steps : ExtTreeMap StepId (StepDefinition J)
  topologicalOrder : List StepId

inductive WorkflowDefinitionError where
  | invalidIdentifier (error : InvalidIdentifier)
  | noSteps
  | singleStepHasDependencies
  | pipelineStepHasDependencies (step : String)
  | duplicateStep (step : StepId)
  | duplicateDependency (step dependency : StepId)
  | missingDependency (step dependency : StepId)
  | selfDependency (step : StepId)
  | cycle (steps : List StepId)

/-- The text of a definition error; `debug` is the derived `Debug` text of a list of step ids. -/
def WorkflowDefinitionError.display (debug : List StepId → String) :
    WorkflowDefinitionError → String
  | .invalidIdentifier error => error.display
  | .noSteps => "workflow must contain at least one step"
  | .singleStepHasDependencies => "a single-step workflow cannot declare dependencies"
  | .pipelineStepHasDependencies step =>
    "pipeline step `" ++ step ++ "` cannot declare explicit dependencies"
  | .duplicateStep step => "duplicate step id `" ++ step.value ++ "`"
  | .duplicateDependency step dependency =>
    "step `" ++ step.value ++ "` repeats dependency `" ++ dependency.value ++ "`"
  | .missingDependency step dependency =>
    "step `" ++ step.value ++ "` refers to missing dependency `" ++ dependency.value ++ "`"
  | .selfDependency step => "step `" ++ step.value ++ "` depends on itself"
  | .cycle steps => "workflow contains a cycle involving " ++ debug steps

/-- The ways a Rust function of this crate can abort instead of returning. -/
inductive Panic where
  /-- An `expect` on an absent value, with its message. -/
  | expect (message : String)
  /-- Indexing a map at an absent key. -/
  | index
  /-- An unsigned subtraction below zero. -/
  | underflow
  deriving DecidableEq, Repr

abbrev Panics := Except Panic

/-- `Identifier.new` under `?`. -/
def identifier {kind : String} (value : String) :
    Except WorkflowDefinitionError (Identifier kind) :=
  match Identifier.new value with
  | .ok id => .ok id
  | .error e => .error (.invalidIdentifier e)

/-- The dependency texts of one step, in authoring order, stopping at the first refusal. -/
def parseNeeds (step : StepId) :
    ExtTreeSet StepId → List String → Except WorkflowDefinitionError (List StepId)
  | _,[] => .ok []
  | seen,text::texts => do
    let dependency ← identifier text
    if dependency ∈ seen then
      .error (.duplicateDependency step dependency)
    else
      let rest ← parseNeeds step (seen.insert dependency) texts
      .ok (dependency::rest)

/-- One specification validated on its own, its needs sorted. -/
def normalize (spec : StepSpec J) : Except WorkflowDefinitionError (StepDefinition J) := do
  let id ← identifier spec.id
  let needs ← parseNeeds id ∅ spec.needs
  .ok ⟨id,needs.insertionSort (· ≤ ·),spec.job⟩

/-- The first loop of `compile`: normalize each specification and insert it under its id. -/
def collectSteps : ExtTreeMap StepId (StepDefinition J) → List (StepSpec J) →
    Except WorkflowDefinitionError (ExtTreeMap StepId (StepDefinition J))
  | steps,[] => .ok steps
  | steps,spec::specs => do
    let definition ← normalize spec
    if definition.id ∈ steps then
      .error (.duplicateStep definition.id)
    else
      collectSteps (steps.insert definition.id definition) specs

/-- Record one step as a successor of each of its needs. -/
def connectNeeds (step : StepId) : ExtTreeMap StepId (List StepId) → List StepId →
    Except WorkflowDefinitionError (ExtTreeMap StepId (List StepId))
  | outgoing,[] => .ok outgoing
  | outgoing,dependency::needs =>
    if dependency = step then
      .error (.selfDependency step)
    else
      match outgoing[dependency]? with
      | none => .error (.missingDependency step dependency)
      | some successors =>
        connectNeeds step (outgoing.insert dependency (successors ++ [step])) needs

/-- The second loop of `compile`, over the steps in id order. -/
def connect : ExtTreeMap StepId (List StepId) → List (StepDefinition J) →
    Except WorkflowDefinitionError (ExtTreeMap StepId (List StepId))
  | outgoing,[] => .ok outgoing
  | outgoing,step::steps => do
    let outgoing ← connectNeeds step.id outgoing step.needs
    connect outgoing steps

/-- Each successor list sorted. -/
def sortSuccessors (outgoing : ExtTreeMap StepId (List StepId)) :
    ExtTreeMap StepId (List StepId) :=
  outgoing.map (fun _ successors => successors.insertionSort (· ≤ ·))

/-- Decrement the counter of each successor; one that reaches zero becomes ready.
`compile` and `execute` run this loop with their own `expect` message. -/
def countDown (message : String) :
    ExtTreeMap StepId ℕ × ExtTreeSet StepId → List StepId →
      Panics (ExtTreeMap StepId ℕ × ExtTreeSet StepId)
  | state,[] => .ok state
  | (counts,ready),successor::successors =>
    match counts[successor]? with
    | none => .error (.expect message)
    | some 0 => .error .underflow
    | some (count+1) =>
      countDown message
        (counts.insert successor count,if count = 0 then ready.insert successor else ready)
        successors

/-- The locals of the ordering loop. -/
structure OrderState where
  ready : ExtTreeSet StepId
  indegree : ExtTreeMap StepId ℕ
  topologicalOrder : List StepId

/-- One turn of `while let Some(step_id) = ready.pop_first()`. -/
def orderBody (outgoing : ExtTreeMap StepId (List StepId)) (state : OrderState) :
    Panics (Option OrderState) :=
  match popFirst state.ready with
  | none => .ok none
  | some (step,ready) =>
    match outgoing[step]? with
    | none => .error .index
    | some successors => do
      let (indegree,ready) ← countDown "validated successor must have an indegree"
        (state.indegree,ready) successors
      .ok (some ⟨ready,indegree,state.topologicalOrder ++ [step]⟩)

/-- Everything `compile` checks before it orders the steps. -/
def validate (id version : String) (specs : List (StepSpec J)) :
    Except WorkflowDefinitionError
      (WorkflowId × WorkflowVersion × ExtTreeMap StepId (StepDefinition J) ×
        ExtTreeMap StepId (List StepId)) := do
  let id ← identifier id
  let version ← identifier version
  if specs.isEmpty then
    .error .noSteps
  else
    let steps ← collectSteps ∅ specs
    let outgoing ← connect (steps.map (fun _ _ => [])) (valuesOf steps)
    .ok (id,version,steps,sortSuccessors outgoing)

/-- The counters both loops start from: how many needs each step has. -/
def needCounts (steps : ExtTreeMap StepId (StepDefinition J)) : ExtTreeMap StepId ℕ :=
  steps.map (fun _ step => step.needs.length)

/-- The steps whose counter is zero. -/
def zeroCounts (counts : ExtTreeMap StepId ℕ) : ExtTreeSet StepId :=
  collectSet (keysWhere counts (· == 0))

/-- The ordering loop, with one turn for each step and one to notice the exit. -/
def order (steps : ExtTreeMap StepId (StepDefinition J))
    (outgoing : ExtTreeMap StepId (List StepId)) : Panics OrderState :=
  iterate (orderBody outgoing) (steps.size+1)
    ⟨zeroCounts (needCounts steps),needCounts steps,[]⟩

/-- Validate identities and dependencies, then order the steps or report what a cycle blocks. -/
def compile (id version : String) (specs : List (StepSpec J)) :
    Panics (Except WorkflowDefinitionError (WorkflowDefinition J)) :=
  match validate id version specs with
  | .error e => .ok (.error e)
  | .ok (id,version,steps,outgoing) => do
    let final ← order steps outgoing
    if final.topologicalOrder.length ≠ steps.size then
      .ok (.error (.cycle (keysWhere final.indegree (fun count => decide (0 < count)))))
    else
      .ok (.ok ⟨id,version,steps,final.topologicalOrder⟩)

/-- General DAG authoring syntax. -/
structure DagBuilder (J : Type) where
  id : String
  version : String
  steps : List (StepSpec J)

namespace DagBuilder

def new (id version : String) : DagBuilder J := ⟨id,version,[]⟩

def step (b : DagBuilder J) (spec : StepSpec J) : DagBuilder J :=
  { b with steps := b.steps ++ [spec] }

def build (b : DagBuilder J) : Panics (Except WorkflowDefinitionError (WorkflowDefinition J)) :=
  compile b.id b.version b.steps

end DagBuilder

namespace WorkflowDefinition

def step (d : WorkflowDefinition J) (id : StepId) : Option (StepDefinition J) := d.steps[id]?

/-- The steps no other step needs, in step-id order. -/
def leaves (d : WorkflowDefinition J) : List (StepDefinition J) :=
  let dependencies := collectSet ((valuesOf d.steps).flatMap StepDefinition.needs)
  (valuesOf d.steps).filter (fun step => decide (step.id ∉ dependencies))

end WorkflowDefinition
end TowerAgent.Workflow
