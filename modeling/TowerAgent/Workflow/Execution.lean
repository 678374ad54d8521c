import TowerAgent.Lib.Machine
import TowerAgent.Workflow.Frontier

/-! The non-durable workflow runner: the loop of `execute` and the `dispatch_step` futures it
polls, as one machine that moves between the points where another thread can be observed. -/
namespace TowerAgent.Workflow
open Lib
open Std (ExtTreeMap ExtTreeSet)

variable {I J O E : Type}

/-- Host-local controls of a run. The caller's cancellation token is part of the machine state,
and an instant is a count of clock ticks. -/
structure WorkflowContext where
  runId : WorkflowRunId
  deadline : Option ℕ

structure WorkflowRequest (I J : Type) where
  context : WorkflowContext
  definition : WorkflowDefinition J
  input : I

/-- The request a step's dispatcher receives; its cancellation token is the step's own one. -/
structure StepCall (I J O : Type) where
  runId : WorkflowRunId
  workflowId : WorkflowId
  workflowVersion : WorkflowVersion
  stepId : StepId
  input : I
  job : J
  dependencies : ExtTreeMap StepId O
  deadline : Option ℕ

structure WorkflowOutcome (O : Type) where
  runId : WorkflowRunId
  workflowId : WorkflowId
  workflowVersion : WorkflowVersion
  outputs : ExtTreeMap StepId O
  leafOutputs : ExtTreeMap StepId O

structure StepFailure (E : Type) where
  stepId : StepId
  error : E

inductive WorkflowFailure (E O : Type) where
  | cancelled (runId : WorkflowRunId) (workflowId : WorkflowId) (workflowVersion : WorkflowVersion)
      (completed : ExtTreeMap StepId O) (settledFailures : List (StepFailure E))
  | deadlineExceeded (runId : WorkflowRunId) (workflowId : WorkflowId)
      (workflowVersion : WorkflowVersion) (completed : ExtTreeMap StepId O)
      (settledFailures : List (StepFailure E))
  | stepsFailed (runId : WorkflowRunId) (workflowId : WorkflowId)
      (workflowVersion : WorkflowVersion) (completed : ExtTreeMap StepId O)
      (failures : List (StepFailure E))
  | incomplete (runId : WorkflowRunId) (workflowId : WorkflowId) (workflowVersion : WorkflowVersion)
      (completed : ExtTreeMap StepId O) (pending : List StepId)

inductive StepSettlement (O E : Type) where
  /-- Cancellation won before the dispatcher was called. -/
  | notCalled
  | settled (result : Except E O)

inductive StopReason where
  | externalCancellation
  | deadline
  | stepFailure
  deriving DecidableEq, Repr

/-- Where a `dispatch_step` future stands. Between polls it is at `select` or `calling`. -/
inductive Phase where
  /-- At the head of the `select!`, about to look at the step's token. -/
  | select
  /-- The token was not cancelled; about to poll the dispatcher's readiness. -/
  | selectReady
  /-- Ready; about to look at the token once more. -/
  | readied
  /-- About to invoke `call`. -/
  | checked
  /-- Awaiting the future `call` returned. -/
  | calling
  deriving DecidableEq, Repr

/-- An admitted step: the call it will make and its progress. -/
structure Flight (I J O : Type) where
  call : StepCall I J O
  phase : Phase

def Flight.id (f : Flight I J O) : StepId := f.call.stepId

/-- Where the loop of `execute` stands. -/
inductive Pc (I J O E : Type) where
  /-- Before the loop, about to look at the caller's token. -/
  | start
  /-- Before the loop, about to look at the clock. -/
  | startDeadline
  /-- The head of the admission loop and its look at the caller's token. -/
  | admitStep
  /-- The admission loop's look at the clock. -/
  | admitDeadline
  /-- About to take the least ready step. -/
  | admitPop
  /-- After the admission loop. -/
  | gate
  /-- At the head of the `select!` over cancellation, deadline and settlement. -/
  | await
  /-- About to poll the deadline timer. -/
  | awaitDeadline
  /-- Inside `in_flight.next()`. -/
  | drive
  /-- Polling one flight, taken out of the in-flight set meanwhile. -/
  | polling (flight : Flight I J O)
  /-- A flight has completed. -/
  | settle (id : StepId) (settlement : StepSettlement O E)
  | finished (result : Except (WorkflowFailure E O) (WorkflowOutcome O))
  | panicked (panic : Panic)

/-- The locals of `execute`, the tokens and the clock. -/
structure State (I J O E : Type) where
  /-- The caller's token reads as cancelled. -/
  callerCancelled : Bool
  /-- The caller's `cancel` has returned, hence has reached every descendant token. -/
  cancelReturned : Bool
  now : ℕ
  /-- `run_cancellation.cancel()` has been called and has returned. -/
  runCancelled : Bool
  remaining : ExtTreeMap StepId ℕ
  outgoing : ExtTreeMap StepId (List StepId)
  ready : ExtTreeSet StepId
  inFlight : List (Flight I J O)
  outputs : ExtTreeMap StepId O
  failures : List (StepFailure E)
  stopReason : Option StopReason
  pc : Pc I J O E

inductive ReadyPoll (E : Type) where
  | pending
  | ok
  | err (error : E)

inductive CallPoll (O E : Type) where
  | pending
  | settled (result : Except E O)

/-- What happens in one step, with every choice that is not the runner's own. -/
inductive Event (O E : Type) where
  /-- The caller cancels its token. -/
  | cancelCaller
  /-- That cancellation has reached every descendant. -/
  | cancelReturned
  | tick (n : ℕ)
  /-- The loop goes on to its next point. -/
  | advance
  /-- The loop admits a step. -/
  | admitStep (id : StepId)
  /-- The deadline timer is polled. -/
  | timer (fired : Bool)
  /-- `in_flight.next()` picks a flight to poll. -/
  | poll (index : ℕ)
  /-- `in_flight.next()` has nothing more to poll and the task sleeps. -/
  | park
  /-- A flight looks at its step's token. -/
  | readToken (id : StepId) (cancelled : Bool)
  | pollReady (id : StepId) (answer : ReadyPoll E)
  /-- A flight invokes the dispatcher's `call`. -/
  | call (id : StepId)
  | pollCall (id : StepId) (answer : CallPoll O E)

/-- The outputs under the given keys, each of which must be there. -/
def gather (message : String) (outputs : ExtTreeMap StepId O) :
    List StepId → Panics (ExtTreeMap StepId O)
  | [] => .ok ∅
  | id::ids =>
    match outputs[id]? with
    | none => .error (.expect message)
    | some output => do
      let rest ← gather message outputs ids
      .ok (rest.insert id output)

/-- Push one step onto the successor list of each of its needs. -/
def pushSuccessor (step : StepId) : ExtTreeMap StepId (List StepId) → List StepId →
    Panics (ExtTreeMap StepId (List StepId))
  | outgoing,[] => .ok outgoing
  | outgoing,dependency::needs =>
    match outgoing[dependency]? with
    | none => .error (.expect "validated dependency must exist")
    | some successors => pushSuccessor step (outgoing.insert dependency (successors ++ [step])) needs

def pushSuccessors : ExtTreeMap StepId (List StepId) → List (StepDefinition J) →
    Panics (ExtTreeMap StepId (List StepId))
  | outgoing,[] => .ok outgoing
  | outgoing,step::steps => do
    let outgoing ← pushSuccessor step.id outgoing step.needs
    pushSuccessors outgoing steps

/-- The successor table `execute` rebuilds from the definition. -/
def successorTable (steps : ExtTreeMap StepId (StepDefinition J)) :
    Panics (ExtTreeMap StepId (List StepId)) := do
  let outgoing ← pushSuccessors (steps.map (fun _ _ => [])) (valuesOf steps)
  .ok (sortSuccessors outgoing)

section Execute
variable (max : ℕ) (request : WorkflowRequest I J)

/-- The locals before the first look at the caller's token. -/
def initial : State I J O E :=
  let counts := needCounts request.definition.steps
  let state : State I J O E := ⟨false,false,0,false,counts,∅,zeroCounts counts,[],∅,[],none,.start⟩
  match successorTable request.definition.steps with
  | .ok outgoing => { state with outgoing }
  | .error panic => { state with pc := .panicked panic }

/-- Latch a stop reason and cancel the run's own token. -/
def State.latch (s : State I J O E) (reason : StopReason) : State I J O E :=
  { s with stopReason := some reason, runCancelled := true }

/-- `Instant::now() >= deadline`, when there is a deadline. -/
def expired (s : State I J O E) : Bool := request.context.deadline.any (fun d => decide (d ≤ s.now))

/-- The call built for a step taken from the ready set. -/
def makeCall (s : State I J O E) (id : StepId) : Panics (StepCall I J O) :=
  match request.definition.step id with
  | none => .error (.expect "ready step must exist in a validated definition")
  | some step => do
    let dependencies ← gather "ready step dependencies must have completed" s.outputs step.needs
    .ok ⟨request.context.runId,request.definition.id,request.definition.version,id,request.input,
      step.job,dependencies,request.context.deadline⟩

/-- `execute` after its loop. -/
def conclude (s : State I J O E) : Panics (Except (WorkflowFailure E O) (WorkflowOutcome O)) :=
  let runId := request.context.runId
  let d := request.definition
  let failures := s.failures.insertionSort (fun left right => left.stepId ≤ right.stepId)
  match s.stopReason with
  | some .externalCancellation => .ok (.error (.cancelled runId d.id d.version s.outputs failures))
  | some .deadline => .ok (.error (.deadlineExceeded runId d.id d.version s.outputs failures))
  | some .stepFailure => .ok (.error (.stepsFailed runId d.id d.version s.outputs failures))
  | none =>
    if s.outputs.size ≠ d.steps.size then
      .ok (.error (.incomplete runId d.id d.version s.outputs
        (((valuesOf d.steps).filter (fun step => decide (step.id ∉ s.outputs))).map
          StepDefinition.id)))
    else do
      let leafOutputs ← gather "completed workflow must contain every leaf" s.outputs
        (d.leaves.map StepDefinition.id)
      .ok (.ok ⟨runId,d.id,d.version,s.outputs,leafOutputs⟩)

/-- Record a completed flight. -/
def record (s : State I J O E) (id : StepId) : StepSettlement O E → Panics (State I J O E)
  | .notCalled => .ok s
  | .settled (.ok output) =>
    let s := { s with outputs := s.outputs.insert id output }
    if s.stopReason.isNone then
      match s.outgoing[id]? with
      | none => .error .index
      | some successors => do
        let (remaining,ready) ← countDown "validated successor must exist"
          (s.remaining,s.ready) successors
        .ok { s with remaining, ready }
    else
      .ok s
  | .settled (.error error) =>
    let s := { s with failures := s.failures ++ [StepFailure.mk id error] }
    .ok (if s.stopReason.isNone then s.latch .stepFailure else s)

/-- Continue at a point, or abort. -/
def State.goto (s : State I J O E) (pc : Pc I J O E) : State I J O E := { s with pc }

def State.land (s : State I J O E) (r : Panics (State I J O E)) : State I J O E :=
  match r with
  | .ok s' => s'
  | .error panic => s.goto (.panicked panic)

/-- The next point of the loop where the loop alone decides it. -/
def advance (s : State I J O E) : Option (State I J O E) :=
  match s.pc with
  | .start =>
    if s.callerCancelled then some ((s.latch .externalCancellation).goto .admitStep)
    else some (s.goto .startDeadline)
  | .startDeadline =>
    if expired request s then some ((s.latch .deadline).goto .admitStep) else some (s.goto .admitStep)
  | .admitStep =>
    if s.stopReason.isNone && decide (s.inFlight.length < max) then
      if s.callerCancelled then some ((s.latch .externalCancellation).goto .gate)
      else some (s.goto .admitDeadline)
    else
      some (s.goto .gate)
  | .admitDeadline =>
    if expired request s then some ((s.latch .deadline).goto .gate) else some (s.goto .admitPop)
  | .admitPop => if (popFirst s.ready).isNone then some (s.goto .gate) else none
  | .gate =>
    if s.inFlight.isEmpty then
      some (s.land ((conclude request s).map (fun result => s.goto (.finished result))))
    else
      some (s.goto .await)
  | .await =>
    if s.stopReason.isSome then some (s.goto .drive)
    else if s.callerCancelled then some ((s.latch .externalCancellation).goto .admitStep)
    else if request.context.deadline.isSome then some (s.goto .awaitDeadline)
    else some (s.goto .drive)
  | .settle id settlement =>
    some (s.land ((record s id settlement).map (fun s' => s'.goto .admitStep)))
  | _ => none

/-- Take the least ready step and put its flight in. -/
def admitStep (s : State I J O E) (id : StepId) : Option (State I J O E) :=
  match s.pc,popFirst s.ready with
  | .admitPop,some (step,ready) =>
    if step = id then
      some (s.land ((makeCall request s id).map (fun call =>
        { s with ready, inFlight := s.inFlight ++ [Flight.mk call .select], pc := .admitStep })))
    else none
  | _,_ => none

/-- Whether a look at a step's token may answer so. A running cancellation reaches the tokens
below the caller's at any moment before it returns. -/
def tokenMayRead (s : State I J O E) (cancelled : Bool) : Bool :=
  if cancelled then s.callerCancelled || s.runCancelled
  else !s.cancelReturned && !s.runCancelled

/-- The flight returns `Pending` and goes back into the set. -/
def State.suspend (s : State I J O E) (f : Flight I J O) : State I J O E :=
  { s with inFlight := s.inFlight ++ [f], pc := .drive }

/-- One event inside the flight being polled. -/
def flightStep (s : State I J O E) (f : Flight I J O) : Event O E → Option (State I J O E)
  | .readToken id cancelled =>
    if id = f.id ∧ tokenMayRead s cancelled = true then
      match f.phase with
      | .select =>
        some (s.goto (if cancelled then .settle id .notCalled
          else .polling { f with phase := .selectReady }))
      | .readied =>
        some (s.goto (if cancelled then .settle id .notCalled
          else .polling { f with phase := .checked }))
      | _ => none
    else none
  | .pollReady id answer =>
    if id = f.id ∧ f.phase = .selectReady then
      match answer with
      | .pending => some (s.suspend { f with phase := .select })
      | .ok => some (s.goto (.polling { f with phase := .readied }))
      | .err error => some (s.goto (.settle id (.settled (.error error))))
    else none
  | .call id =>
    if id = f.id ∧ f.phase = .checked then some (s.goto (.polling { f with phase := .calling }))
    else none
  | .pollCall id answer =>
    if id = f.id ∧ f.phase = .calling then
      match answer with
      | .pending => some (s.suspend f)
      | .settled result => some (s.goto (.settle id (.settled result)))
    else none
  | _ => none

/-- The deadline branch of the `select!`; a timer never fires early, and may fire late. -/
def timer (s : State I J O E) (fired : Bool) : Option (State I J O E) :=
  match s.pc with
  | .awaitDeadline =>
    if fired then
      if expired request s then some ((s.latch .deadline).goto .admitStep) else none
    else some (s.goto .drive)
  | _ => none

/-- `in_flight.next()` polls one of its flights. -/
def poll (s : State I J O E) (index : ℕ) : Option (State I J O E) :=
  match s.pc,s.inFlight[index]? with
  | .drive,some f => some { s with inFlight := s.inFlight.eraseIdx index, pc := .polling f }
  | _,_ => none

/-- `in_flight.next()` returns `Pending`; the task is polled again later. -/
def park (s : State I J O E) : Option (State I J O E) :=
  match s.pc with
  | .drive => some (s.goto .await)
  | _ => none

/-- One step of the runner and its surroundings. -/
def executeStep (s : State I J O E) (event : Event O E) : Option (State I J O E) :=
  match event with
  | .cancelCaller => some { s with callerCancelled := true }
  | .cancelReturned => if s.callerCancelled then some { s with cancelReturned := true } else none
  | .tick n => some { s with now := s.now + n }
  | .advance => advance max request s
  | .admitStep id => admitStep request s id
  | .timer fired => timer request s fired
  | .poll index => poll s index
  | .park => park s
  | event =>
    match s.pc with
    | .polling f => flightStep s f event
    | _ => none

/-- A call of the workflow service. -/
def execute : Machine (State I J O E) (Event O E) := ⟨initial request,executeStep max request⟩

end Execute
end TowerAgent.Workflow
