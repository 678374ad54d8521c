import TowerAgent.Local.Fencing

/-! The transport around the run store: dispatchers that register a step and enqueue its reference
twice, workers that claim what the queue delivers, and the loss of either at any point. -/
namespace TowerAgent.Local
open Kernel Workflow
open Lib (Machine)

def jobRefSchemaVersion : UInt16 := 1

namespace StepJobRef

def forCall {Options : Type} (call : LocalStepCall Options) : StepJobRef where
  schemaVersion := jobRefSchemaVersion
  runId := call.runId.value
  workflowId := call.workflowId.value
  workflowVersion := call.workflowVersion.value
  stepId := call.stepId.value

/-- As `{:?}` prints it; `quote` prints a string so. -/
def debug (quote : String → String) (r : StepJobRef) : String :=
  "StepJobRef \x7b schema_version: " ++ toString r.schemaVersion.toNat ++ ", run_id: " ++
    quote r.runId ++ ", workflow_id: " ++ quote r.workflowId ++ ", workflow_version: " ++
    quote r.workflowVersion ++ ", step_id: " ++ quote r.stepId ++ " \x7d"

end StepJobRef

def debugEpoch (epoch : ℕ) : String := "ClaimEpoch(" ++ toString epoch ++ ")"

def RecordState.debug : RecordState → String
  | .pending => "Pending"
  | .claimed epoch => "Claimed(" ++ debugEpoch epoch ++ ")"
  | .launched epoch => "Launched(" ++ debugEpoch epoch ++ ")"
  | .terminal epoch => "Terminal(" ++ debugEpoch epoch ++ ")"
  | .uncertain epoch => "Uncertain(" ++ debugEpoch epoch ++ ")"

/-- A claim that is refused, and where its record stood. -/
def refusal (quote : String → String) (claim : StepClaim) (state : RecordState) : String :=
  claim.reference.debug quote ++ " at epoch " ++ debugEpoch claim.epoch ++ " from " ++ state.debug

def StoreError.display (quote : String → String) : StoreError → String
  | .collision stepId => "logical identity collision for workflow step \x60" ++ stepId ++ "\x60"
  | .missing reference => "missing host record for " ++ reference.debug quote
  | .epochOverflow => "host claim epoch overflow"
  | .cannotLaunch claim state => "cannot launch " ++ refusal quote claim state
  | .callGone => "claimed record did not retain its owned StepCall"
  | .cannotCallProvider claim state => "cannot call provider for " ++ refusal quote claim state
  | .providerCallRecorded reference =>
    "provider call already recorded for " ++ reference.debug quote
  | .cannotComplete claim state => "cannot complete " ++ refusal quote claim state
  | .noProviderCall reference =>
    "cannot complete " ++ reference.debug quote ++ " before its provider call boundary"

def internal (message : String) : AgentError := .new .internal message .admission .none

/-- Where a dispatcher's future stands; `more` when a second send is still to come. -/
inductive DispatcherStage where
  | enqueueing (more : Bool)
  | waiting
  | settled (result : CallResult)
  | refused (error : AgentError)
  | dropped

/-- What a registration leaves a dispatcher to do. -/
def DispatcherStage.registered (quote : String → String) : Except StoreError Bool → DispatcherStage
  | .ok true => .enqueueing true
  | .ok false => .waiting
  | .error e => .refused (internal (e.display quote))

/-- One call of a `DurableStepDispatcher`, with the worker whose queue it holds. -/
structure Dispatcher (Options : Type) where
  worker : ℕ
  call : LocalStepCall Options
  stage : DispatcherStage

/-- Where a root step stands at its gate: before the rendezvous, at a place in it, before the
release, or past both. -/
inductive RootWait where
  | entering
  | rendezvous (place : ℕ)
  | releasing
  | past

def RootWait.left : RootWait → ℕ
  | .entering => 3
  | .rendezvous _ => 2
  | .releasing => 1
  | .past => 0

lemma RootWait.left_le (wait : RootWait) : wait.left ≤ 3 := by
  cases wait <;> simp [left]

/-- The gate of a worker's root steps: a barrier for two, as the number of its arrivals, and the
release. -/
structure RootControl where
  arrived : ℕ := 0
  released : Bool := false

namespace RootControl

def release (control : RootControl) : RootControl := { control with released := true }

/-- The two that share a place in the barrier have both arrived. -/
def Met (control : RootControl) (place : ℕ) : Prop := 2*(place/2+1) ≤ control.arrived

instance (control : RootControl) (place : ℕ) : Decidable (control.Met place) :=
  inferInstanceAs (Decidable (_ ≤ _))

/-- One move of a wait, with the step's token after it; none where both selects stay pending. An
arrival counts also when its wait is given up or dropped. -/
def wait (control : RootControl) (shutdown step : Bool) :
    RootWait → Option (RootControl × Bool × RootWait)
  | .entering =>
    if shutdown || step then some (control,true,.past)
    else some ({ control with arrived := control.arrived+1 },false,.rendezvous control.arrived)
  | .rendezvous place =>
    if shutdown || step then some (control,true,.past)
    else if control.Met place then some (control,false,.releasing)
    else none
  | .releasing =>
    if shutdown || step then some (control,true,.past)
    else if control.released then some (control,false,.past)
    else none
  | .past => none

/-- A wait that goes on only when the other one arrives or the release comes. -/
def Holds (control : RootControl) : RootWait → Prop
  | .rendezvous place => ¬control.Met place
  | .releasing => control.released = false
  | .entering | .past => False

/-- Released, and every arrival has its pair. -/
def Open (control : RootControl) : Prop := control.released = true ∧ control.arrived%2 = 0

lemma Open.not_holds {control : RootControl} (h : control.Open) {wait : RootWait}
    (hp : ∀ place, wait = .rendezvous place → place < control.arrived) : ¬control.Holds wait := by
  obtain ⟨hr,hm⟩ := h
  cases wait with
  | entering | past => exact id
  | rendezvous place =>
    have hlt := hp place rfl
    refine not_not.mpr ?_
    unfold Met
    omega
  | releasing =>
    intro hh
    cases hr.symm.trans hh

lemma wait_ne_none {control : RootControl} {shutdown step : Bool} {wait : RootWait}
    (hw : wait ≠ .past) (h : (shutdown || step) = false → ¬control.Holds wait) :
    control.wait shutdown step wait ≠ none := by
  cases hi : shutdown || step with
  | true => cases wait <;> simp [RootControl.wait, hi] at hw ⊢
  | false =>
    have hh := h hi
    cases wait with
    | entering => simp [RootControl.wait, hi]
    | rendezvous place => simp [RootControl.wait, hi, not_not.mp hh]
    | releasing => simp [RootControl.wait, hi, (Bool.not_eq_false _).mp hh]
    | past => exact absurd rfl hw

lemma wait_moves {control control' : RootControl} {shutdown step step' : Bool}
    {wait wait' : RootWait} (h : control.wait shutdown step wait = some (control',step',wait')) :
    wait'.left < wait.left ∧ control.arrived ≤ control'.arrived ∧
      ∀ place, wait' = .rendezvous place → place < control'.arrived := by
  cases wait with
  | entering =>
    simp only [RootControl.wait] at h
    split at h <;> cases h
    · exact ⟨by decide,le_rfl,fun _ h => by cases h⟩
    · refine ⟨Nat.lt_succ_self 2,Nat.le_succ _,fun place h => ?_⟩
      obtain rfl := RootWait.rendezvous.inj h
      exact Nat.lt_succ_self _
  | rendezvous place =>
    simp only [RootControl.wait] at h
    split at h
    · cases h
      exact ⟨Nat.zero_lt_two,le_rfl,fun _ h => by cases h⟩
    · split at h <;> cases h
      exact ⟨Nat.one_lt_two,le_rfl,fun _ h => by cases h⟩
  | releasing =>
    simp only [RootControl.wait] at h
    split at h
    · cases h
      exact ⟨by decide,le_rfl,fun _ h => by cases h⟩
    · split at h <;> cases h
      exact ⟨by decide,le_rfl,fun _ h => by cases h⟩
  | past => cases h

end RootControl

/-- What the wait of a delivery depends on: the control of its worker, whether that worker was shut
down, and whether the step was cancelled. -/
structure Gate where
  control : RootControl
  shutdown : Bool
  step : Bool

/-- Where a `LocalAgentTaskService` future stands: before which of its operations, or at its end. -/
inductive DeliveryStage (Options : Type) where
  | claiming
  | launching (claim : StepClaim)
  | launched (claim : StepClaim) (call : LocalStepCall Options) (wait : RootWait)
  | executing (claim : StepClaim) (call : LocalStepCall Options)
  | completing (claim : StepClaim) (call : LocalStepCall Options) (result : CallResult)
  | finished (claim : StepClaim) (call : LocalStepCall Options) (result : CallResult)
  | skipped
  | failed (error : StoreError)
  | dropped

/-- How many deliveries a worker may have in flight. -/
def concurrencyLimit : ℕ := 4

/-- A reference in a worker's queue. -/
structure Job where
  worker : ℕ
  reference : StepJobRef

/-- One task handed to a worker's service. -/
structure Delivery (Options : Type) where
  worker : ℕ
  reference : StepJobRef
  stage : DeliveryStage Options

/-- The store with all its dispatchers, queues and deliveries, the workers that are gone, each
worker's gate and the steps whose token was cancelled. -/
structure Deployment (Options : Type) where
  host : Host Options := {}
  jobs : List Job := []
  dispatchers : List (Dispatcher Options) := []
  deliveries : List (Delivery Options) := []
  gone : List ℕ := []
  controls : ℕ → RootControl := fun _ => {}
  cancelled : List StepJobRef := []

inductive Action (Options : Type) where
  | dispatch (worker : ℕ) (call : LocalStepCall Options)
  | enqueue (i : ℕ) (closed : String)
  | observe (i : ℕ)
  | abandon (i : ℕ)
  | requeue (worker : ℕ) (reference : StepJobRef)
  | deliver (j : ℕ)
  | work (d : ℕ) (result : CallResult)
  | send (n : ℕ)
  | release (worker : ℕ)
  | cancel (reference : StepJobRef)
  | stop (worker : ℕ)
  | abort (worker : ℕ)
  | reconcileWorkerLoss

/-- The roots wait before they call their provider. -/
def ReviewJob.wait {Options : Type} : ReviewJob Options → RootWait
  | .architecture _ | .verification _ => .entering
  | .synthesize => .past

lemma ReviewJob.wait_ne_rendezvous {Options : Type} (job : ReviewJob Options) (place : ℕ) :
    job.wait ≠ .rendezvous place := by
  cases job <;> exact fun h => by cases h

namespace DeliveryStage
variable {Options : Type}

/-- The next operation of a delivery, its gate after that and where the answer leads; none where the
gate holds it. `result` is what the agent step comes to. -/
def next (inner : StoreInner Options) (reference : StepJobRef) (gate : Gate)
    (result : CallResult) :
    DeliveryStage Options → Option (Option (Label Options) × Gate × DeliveryStage Options)
  | .claiming => some (some (.claim reference),gate,
    match (LocalRunStore.claim reference inner).1 with
    | .ok (some claim) => .launching claim
    | .ok none => .skipped
    | .error e => .failed e)
  | .launching claim => some (some (.launch claim),gate,
    match (LocalRunStore.launch claim inner).1 with
    | .ok call => .launched claim call call.job.wait
    | .error e => .failed e)
  | .launched claim call .past => some (some (.noteProviderCall claim),gate,
    match (LocalRunStore.noteProviderCall claim inner).1 with
    | .ok () => .executing claim call
    | .error e => .failed e)
  | .launched claim call wait => (gate.control.wait gate.shutdown gate.step wait).map
    fun (control,step,wait) => (none,{ gate with control, step },.launched claim call wait)
  | .executing claim call => some (none,gate,.completing claim call result)
  | .completing claim call result => some (some (.complete claim result),gate,
    match (LocalRunStore.complete claim result inner).1 with
    | .ok _ => .finished claim call result
    | .error e => .failed e)
  | .finished .. | .skipped | .failed _ | .dropped => none

lemma next_wait {inner : StoreInner Options} {reference : StepJobRef} {gate : Gate}
    {result : CallResult} {claim : StepClaim} {call : LocalStepCall Options} {wait : RootWait}
    (hw : wait ≠ .past) : (launched claim call wait).next inner reference gate result =
      (gate.control.wait gate.shutdown gate.step wait).map fun (control,step,wait) =>
        (none,{ gate with control, step },.launched claim call wait) := by
  rw [next]
  exact hw

lemma next_launched {inner : StoreInner Options} {reference : StepJobRef} {gate gate' : Gate}
    {result : CallResult} {claim : StepClaim} {call : LocalStepCall Options} {wait : RootWait}
    {operation : Option (Label Options)} {stage : DeliveryStage Options} (hw : wait ≠ .past)
    (hn : (launched claim call wait).next inner reference gate result =
      some (operation,gate',stage)) :
    ∃ wait', gate.control.wait gate.shutdown gate.step wait =
      some (gate'.control,gate'.step,wait') ∧ operation = none ∧
        stage = .launched claim call wait' := by
  rw [next_wait hw] at hn
  obtain ⟨⟨control,step,wait'⟩,hwait,hn⟩ := Option.map_eq_some_iff.mp hn
  cases hn
  exact ⟨wait',hwait,rfl,rfl⟩

/-- The claim of a delivery that has not lost it. -/
def claim : DeliveryStage Options → Option StepClaim
  | .launching c | .launched c _ _ | .executing c _ | .completing c _ _ | .finished c _ _ => some c
  | .claiming | .skipped | .failed _ | .dropped => none

/-- The future is still there to be dropped. -/
def inFlight : DeliveryStage Options → Bool
  | .claiming | .launching _ | .launched .. | .executing .. | .completing .. => true
  | .finished .. | .skipped | .failed _ | .dropped => false

end DeliveryStage

namespace Deployment
variable {Options : Type}

def moveDispatcher (s : Deployment Options) (i : ℕ) (stage : DispatcherStage) :
    Deployment Options :=
  { s with dispatchers := s.dispatchers.modify i fun x => { x with stage } }

def moveDelivery (s : Deployment Options) (d : ℕ) (stage : DeliveryStage Options) :
    Deployment Options :=
  { s with deliveries := s.deliveries.modify d fun x => { x with stage } }

/-- The gate before which a delivery waits. -/
def gate (s : Deployment Options) (x : Delivery Options) : Gate where
  control := s.controls x.worker
  shutdown := x.worker ∈ s.gone
  step := x.reference ∈ s.cancelled

/-- What a delivery did to its gate. -/
def putGate (s : Deployment Options) (x : Delivery Options) (gate : Gate) : Deployment Options :=
  { s with
    controls := Function.update s.controls x.worker gate.control
    cancelled := if gate.step then s.cancelled.insert x.reference else s.cancelled }

/-- The worker takes nothing more from its queue, which is closed. -/
def close (s : Deployment Options) (worker : ℕ) : Deployment Options :=
  { s with
    jobs := s.jobs.filter fun job => job.worker ≠ worker
    gone := worker::s.gone }

/-- Its futures are dropped wherever they stand. -/
def dropDeliveries (s : Deployment Options) (worker : ℕ) : Deployment Options :=
  { s with
    deliveries := s.deliveries.map fun x =>
      if x.worker = worker ∧ x.stage.inFlight then { x with stage := .dropped } else x }

/-- How many deliveries a worker has in flight. -/
def busy (s : Deployment Options) (worker : ℕ) : ℕ :=
  s.deliveries.countP fun x => x.worker = worker ∧ x.stage.inFlight

variable [BEq Options] [BEq TurnOutcome]

def performed (s : Deployment Options) : Option (Label Options) → Option (Deployment Options)
  | none => some s
  | some l => (s.host.step l).map fun host => { s with host }

def step (quote : String → String) (s : Deployment Options) :
    Action Options → Option (Deployment Options)
  | .dispatch worker call => do
    let reference := StepJobRef.forCall call
    let stage := .registered quote (LocalRunStore.register reference call s.host.inner).1
    let s ← s.performed (some (.register reference call))
    some { s with dispatchers := s.dispatchers ++ [{ worker, call, stage }] }
  | .enqueue i closed => do
    let x ← s.dispatchers[i]?
    match x.stage with
    | .enqueueing more =>
      if x.worker ∈ s.gone then some (s.moveDispatcher i (.refused (internal closed)))
      else
        let s := s.moveDispatcher i (if more then .enqueueing false else .waiting)
        some { s with jobs := s.jobs ++ [⟨x.worker,.forCall x.call⟩] }
    | _ => none
  | .observe i => do
    let x ← s.dispatchers[i]?
    match x.stage with
    | .waiting =>
      let record ← s.host.inner.records[StepJobRef.forCall x.call]?
      let result ← record.terminal
      some (s.moveDispatcher i (.settled result))
    | _ => none
  | .abandon i => do
    let x ← s.dispatchers[i]?
    match x.stage with
    | .enqueueing _ | .waiting => some (s.moveDispatcher i .dropped)
    | _ => none
  | .requeue worker reference =>
    if worker ∈ s.gone ∨ s.host.inner.records[reference]?.isNone then none
    else some { s with jobs := s.jobs ++ [⟨worker,reference⟩] }
  | .deliver j => do
    let job ← s.jobs[j]?
    if s.busy job.worker < concurrencyLimit then
      some { s with
        jobs := s.jobs.eraseIdx j
        deliveries := s.deliveries ++ [⟨job.worker,job.reference,.claiming⟩] }
    else none
  | .work d result => do
    let x ← s.deliveries[d]?
    let (operation,gate,stage) ← x.stage.next s.host.inner x.reference (s.gate x) result
    let s ← s.performed operation
    some ((s.putGate x gate).moveDelivery d stage)
  | .send n => s.performed (some (.send n))
  | .release worker =>
    some { s with controls := Function.update s.controls worker (s.controls worker).release }
  | .cancel reference => some { s with cancelled := s.cancelled.insert reference }
  | .stop worker => some (s.close worker)
  | .abort worker => some ((s.close worker).dropDeliveries worker)
  | .reconcileWorkerLoss => s.performed (some .reconcileWorkerLoss)

variable (Options) in
/-- A new store, with no dispatchers and no deliveries. -/
def transport (quote : String → String) : Machine (Deployment Options) (Action Options) where
  start := {}
  step := step quote

end Deployment

section Works
variable {Options : Type} {h h' : Host Options} {reference : StepJobRef} {result : CallResult}

/-- What one operation of a delivery does to the store, to what is still to be sent and to the
delivery: a success writes one record, a failure says how the record stood. -/
inductive Works (h : Host Options) (reference : StepJobRef) (result : CallResult) :
    DeliveryStage Options → Host Options → DeliveryStage Options → Prop where
  | granted {r : StepRecord Options} {h' : Host Options}
      (found : h.inner.records[reference]? = some r) (state : r.state = .pending)
      (records : h'.inner.records = h.inner.records.insert reference
        { r with state := .claimed (h.inner.nextEpoch+1) })
      (epoch : h'.inner.nextEpoch = h.inner.nextEpoch+1) (outbox : h'.outbox = h.outbox) :
      Works h reference result .claiming h' (.launching ⟨reference,h.inner.nextEpoch+1⟩)
  | skipped {r : StepRecord Options} {h' : Host Options}
      (found : h.inner.records[reference]? = some r) (state : r.state ≠ .pending)
      (records : h'.inner.records = h.inner.records)
      (epoch : h'.inner.nextEpoch = h.inner.nextEpoch) (outbox : h'.outbox = h.outbox) :
      Works h reference result .claiming h' .skipped
  | unclaimed {e : StoreError} {h' : Host Options}
      (why : h.inner.records[reference]? = none ∨ 2^64 ≤ h.inner.nextEpoch+1)
      (records : h'.inner.records = h.inner.records)
      (epoch : h'.inner.nextEpoch = h.inner.nextEpoch) (outbox : h'.outbox = h.outbox) :
      Works h reference result .claiming h' (.failed e)
  | launched {c : StepClaim} {call : LocalStepCall Options} {wait : RootWait}
      {r : StepRecord Options} {h' : Host Options} (found : h.inner.records[c.reference]? = some r)
      (state : r.state = .claimed c.epoch) (owned : r.call = some call)
      (records : h'.inner.records = h.inner.records.insert c.reference
        { r with call := none, state := .launched c.epoch })
      (epoch : h'.inner.nextEpoch = h.inner.nextEpoch) (outbox : h'.outbox = h.outbox) :
      Works h reference result (.launching c) h' (.launched c call wait)
  | unlaunched {c : StepClaim} {e : StoreError} (why : ∀ r, h.inner.records[c.reference]? = some r →
      r.state = .claimed c.epoch → r.call = none) :
      Works h reference result (.launching c) h (.failed e)
  | waited {c : StepClaim} {call : LocalStepCall Options} {wait wait' : RootWait}
      (less : wait'.left < wait.left) :
      Works h reference result (.launched c call wait) h (.launched c call wait')
  | called {c : StepClaim} {call : LocalStepCall Options} {r : StepRecord Options}
      {h' : Host Options} (found : h.inner.records[c.reference]? = some r)
      (state : r.state = .launched c.epoch)
      (records : h'.inner.records = h.inner.records.insert c.reference
        { r with providerCallRecorded := true })
      (epoch : h'.inner.nextEpoch = h.inner.nextEpoch) (outbox : h'.outbox = h.outbox) :
      Works h reference result (.launched c call .past) h' (.executing c call)
  | uncalled {c : StepClaim} {call : LocalStepCall Options} {e : StoreError}
      (why : ∀ r, h.inner.records[c.reference]? = some r → r.state = .launched c.epoch →
        r.providerCallRecorded = true) :
      Works h reference result (.launched c call .past) h (.failed e)
  | executed {c : StepClaim} {call : LocalStepCall Options} :
      Works h reference result (.executing c call) h (.completing c call result)
  | completed {c : StepClaim} {call : LocalStepCall Options} {outcome : CallResult}
      {r : StepRecord Options} {h' : Host Options}
      (found : h.inner.records[c.reference]? = some r) (state : r.state = .launched c.epoch)
      (records : h'.inner.records = h.inner.records.insert c.reference
        { r with state := .terminal c.epoch })
      (epoch : h'.inner.nextEpoch = h.inner.nextEpoch)
      (outbox : h'.outbox = h.outbox ++ [⟨c.reference,outcome⟩]) :
      Works h reference result (.completing c call outcome) h' (.finished c call outcome)
  | uncompleted {c : StepClaim} {call : LocalStepCall Options} {outcome : CallResult}
      {e : StoreError} (why : ∀ r, h.inner.records[c.reference]? = some r →
        r.state = .launched c.epoch → r.providerCallRecorded = false) :
      Works h reference result (.completing c call outcome) h (.failed e)

variable [BEq Options] [BEq TurnOutcome]

lemma works_claim (hs : h.step (.claim reference) = some h') :
    Works h reference result .claiming h' (match (LocalRunStore.claim reference h.inner).1 with
      | .ok (some claim) => .launching claim
      | .ok none => .skipped
      | .error e => .failed e) := by
  cases hr : h.inner.records[reference]? with
  | none =>
    simp only [Host.step, LocalRunStore.claim, hr, Option.some.injEq] at hs ⊢
    subst hs
    exact .unclaimed (.inl hr) rfl rfl rfl
  | some r =>
    by_cases hp : r.state = .pending
    · cases hn : LocalRunStore.checkedAdd h.inner.nextEpoch with
      | none =>
        simp only [Host.step, LocalRunStore.claim, hr, hp, if_true, hn, Option.some.injEq] at hs ⊢
        subst hs
        refine .unclaimed (.inr ?_) rfl rfl rfl
        by_contra hlt
        rw [LocalRunStore.checkedAdd_eq_some.mpr ⟨rfl,not_le.mp hlt⟩] at hn
        cases hn
      | some e =>
        obtain ⟨rfl,-⟩ := LocalRunStore.checkedAdd_eq_some.mp hn
        simp only [Host.step, LocalRunStore.claim, hr, hp, if_true, hn, Option.some.injEq] at hs ⊢
        subst hs
        exact .granted hr hp rfl rfl rfl
    · simp only [Host.step, LocalRunStore.claim, hr, hp, if_false, Option.some.injEq] at hs ⊢
      subst hs
      exact .skipped hr hp rfl rfl rfl

lemma works_launch {c : StepClaim} (hs : h.step (.launch c) = some h') :
    Works h reference result (.launching c) h' (match (LocalRunStore.launch c h.inner).1 with
      | .ok call => .launched c call call.job.wait
      | .error e => .failed e) := by
  cases hr : h.inner.records[c.reference]? with
  | none =>
    simp only [Host.step, LocalRunStore.launch, hr, Option.some.injEq] at hs ⊢
    subst hs
    exact .unlaunched fun r h => by cases hr.symm.trans h
  | some r =>
    by_cases hst : r.state = .claimed c.epoch
    · cases hc : r.call with
      | none =>
        simp only [Host.step, LocalRunStore.launch, hr, hst, ne_eq, not_true_eq_false, if_false, hc,
          Option.some.injEq] at hs ⊢
        subst hs
        refine .unlaunched fun r' h _ => ?_
        obtain rfl := Option.some.inj (hr.symm.trans h)
        exact hc
      | some call =>
        simp only [Host.step, LocalRunStore.launch, hr, hst, ne_eq, not_true_eq_false, if_false, hc,
          Option.some.injEq] at hs ⊢
        subst hs
        exact .launched hr hst hc rfl rfl rfl
    · simp only [Host.step, LocalRunStore.launch, hr, ne_eq, hst, not_false_eq_true, if_true,
        Option.some.injEq] at hs ⊢
      subst hs
      refine .unlaunched fun r' h h' => ?_
      obtain rfl := Option.some.inj (hr.symm.trans h)
      exact absurd h' hst

lemma works_call {c : StepClaim} {call : LocalStepCall Options}
    (hs : h.step (.noteProviderCall c) = some h') :
    Works h reference result (.launched c call .past) h'
      (match (LocalRunStore.noteProviderCall c h.inner).1 with
      | .ok () => .executing c call
      | .error e => .failed e) := by
  cases hr : h.inner.records[c.reference]? with
  | none =>
    simp only [Host.step, LocalRunStore.noteProviderCall, hr, Option.some.injEq] at hs ⊢
    subst hs
    exact .uncalled fun r h => by cases hr.symm.trans h
  | some r =>
    by_cases hst : r.state = .launched c.epoch
    · cases hc : r.providerCallRecorded with
      | false =>
        simp only [Host.step, LocalRunStore.noteProviderCall, hr, hst, ne_eq, not_true_eq_false,
          if_false, hc, Bool.false_eq_true, Option.some.injEq] at hs ⊢
        subst hs
        exact .called hr hst (by rw [hst]; rfl) rfl rfl
      | true =>
        simp only [Host.step, LocalRunStore.noteProviderCall, hr, hst, ne_eq, not_true_eq_false,
          if_false, hc, if_true, Option.some.injEq] at hs ⊢
        subst hs
        refine .uncalled fun r' h _ => ?_
        obtain rfl := Option.some.inj (hr.symm.trans h)
        exact hc
    · simp only [Host.step, LocalRunStore.noteProviderCall, hr, ne_eq, hst, not_false_eq_true,
        if_true, Option.some.injEq] at hs ⊢
      subst hs
      refine .uncalled fun r' h h' => ?_
      obtain rfl := Option.some.inj (hr.symm.trans h)
      exact absurd h' hst

lemma works_complete {c : StepClaim} {call : LocalStepCall Options} {outcome : CallResult}
    (hs : h.step (.complete c outcome) = some h') :
    Works h reference result (.completing c call outcome) h'
      (match (LocalRunStore.complete c outcome h.inner).1 with
      | .ok _ => .finished c call outcome
      | .error e => .failed e) := by
  cases hr : h.inner.records[c.reference]? with
  | none =>
    simp only [Host.step, LocalRunStore.complete, hr, Option.some.injEq] at hs ⊢
    subst hs
    exact .uncompleted fun r h => by cases hr.symm.trans h
  | some r =>
    by_cases hst : r.state = .launched c.epoch
    · cases hc : r.providerCallRecorded with
      | false =>
        simp only [Host.step, LocalRunStore.complete, hr, hst, ne_eq, not_true_eq_false, if_false,
          hc, Bool.not_false, if_true, Option.some.injEq] at hs ⊢
        subst hs
        refine .uncompleted fun r' h _ => ?_
        obtain rfl := Option.some.inj (hr.symm.trans h)
        exact hc
      | true =>
        simp only [Host.step, LocalRunStore.complete, hr, hst, ne_eq, not_true_eq_false, if_false,
          hc, Bool.not_true, Bool.false_eq_true, Option.some.injEq] at hs ⊢
        subst hs
        exact .completed hr hst (by rw [hc]; rfl) rfl rfl
    · simp only [Host.step, LocalRunStore.complete, hr, ne_eq, hst, not_false_eq_true, if_true,
        Option.some.injEq] at hs ⊢
      subst hs
      refine .uncompleted fun r' h h' => ?_
      obtain rfl := Option.some.inj (hr.symm.trans h)
      exact absurd h' hst

lemma works_next {stage stage' : DeliveryStage Options} {gate gate' : Gate}
    {operation : Option (Label Options)}
    (hn : stage.next h.inner reference gate result = some (operation,gate',stage')) :
    match operation with
    | none => Works h reference result stage h stage'
    | some l => ∀ h', h.step l = some h' → Works h reference result stage h' stage' := by
  cases stage with
  | claiming =>
    obtain ⟨rfl,hrest⟩ := Prod.mk.inj (Option.some.inj hn)
    obtain ⟨rfl,rfl⟩ := Prod.mk.inj hrest
    exact fun _ hs => works_claim hs
  | launching c =>
    obtain ⟨rfl,hrest⟩ := Prod.mk.inj (Option.some.inj hn)
    obtain ⟨rfl,rfl⟩ := Prod.mk.inj hrest
    exact fun _ hs => works_launch hs
  | launched c call wait =>
    by_cases hw : wait = .past
    · subst hw
      obtain ⟨rfl,hrest⟩ := Prod.mk.inj (Option.some.inj hn)
      obtain ⟨rfl,rfl⟩ := Prod.mk.inj hrest
      exact fun _ hs => works_call hs
    · obtain ⟨wait',hm,rfl,rfl⟩ := DeliveryStage.next_launched hw hn
      exact .waited (RootControl.wait_moves hm).1
  | executing c call =>
    obtain ⟨rfl,hrest⟩ := Prod.mk.inj (Option.some.inj hn)
    obtain ⟨rfl,rfl⟩ := Prod.mk.inj hrest
    exact .executed
  | completing c call outcome =>
    obtain ⟨rfl,hrest⟩ := Prod.mk.inj (Option.some.inj hn)
    obtain ⟨rfl,rfl⟩ := Prod.mk.inj hrest
    exact fun _ hs => works_complete hs
  | _ => cases hn

omit [BEq Options] [BEq TurnOutcome] in
/-- A delivery that is put at a place of the rendezvous has arrived there. -/
lemma placed_next {stage stage' : DeliveryStage Options} {gate gate' : Gate}
    {operation : Option (Label Options)}
    (hn : stage.next h.inner reference gate result = some (operation,gate',stage')) :
    gate.control.arrived ≤ gate'.control.arrived ∧ ∀ c call place,
      stage' = .launched c call (.rendezvous place) → place < gate'.control.arrived := by
  cases stage with
  | claiming | completing =>
    obtain ⟨rfl,hrest⟩ := Prod.mk.inj (Option.some.inj hn)
    obtain ⟨rfl,rfl⟩ := Prod.mk.inj hrest
    refine ⟨le_rfl,fun c call place hst => ?_⟩
    split at hst <;> cases hst
  | launching c =>
    obtain ⟨rfl,hrest⟩ := Prod.mk.inj (Option.some.inj hn)
    obtain ⟨rfl,rfl⟩ := Prod.mk.inj hrest
    refine ⟨le_rfl,fun c' call place hst => ?_⟩
    split at hst
    · exact absurd (DeliveryStage.launched.inj hst).2.2 (ReviewJob.wait_ne_rendezvous _ place)
    · cases hst
  | launched c call wait =>
    by_cases hw : wait = .past
    · subst hw
      obtain ⟨rfl,hrest⟩ := Prod.mk.inj (Option.some.inj hn)
      obtain ⟨rfl,rfl⟩ := Prod.mk.inj hrest
      refine ⟨le_rfl,fun c' call' place hst => ?_⟩
      split at hst <;> cases hst
    · obtain ⟨wait',hm,-,rfl⟩ := DeliveryStage.next_launched hw hn
      obtain ⟨-,harrived,hplaced⟩ := RootControl.wait_moves hm
      exact ⟨harrived,fun _ _ place hst => hplaced place (DeliveryStage.launched.inj hst).2.2⟩
  | executing =>
    obtain ⟨rfl,hrest⟩ := Prod.mk.inj (Option.some.inj hn)
    obtain ⟨rfl,rfl⟩ := Prod.mk.inj hrest
    exact ⟨le_rfl,fun _ _ _ hst => by cases hst⟩
  | _ => cases hn

end Works

section Transition
variable {Options : Type} [BEq Options] [BEq TurnOutcome] {quote : String → String}

/-- What each action does, and when it can be taken. -/
inductive Transition (quote : String → String) (s : Deployment Options) :
    Action Options → Deployment Options → Prop where
  | dispatch {worker : ℕ} {call : LocalStepCall Options} {host : Host Options}
      {stage : DispatcherStage} (hs : s.host.step (.register (.forCall call) call) = some host)
      (answer : stage =
        .registered quote (LocalRunStore.register (.forCall call) call s.host.inner).1) :
      Transition quote s (.dispatch worker call)
        { s with host := host, dispatchers := s.dispatchers ++ [⟨worker,call,stage⟩] }
  | closed {i : ℕ} {closed : String} {x : Dispatcher Options} {more : Bool}
      (found : s.dispatchers[i]? = some x) (stage : x.stage = .enqueueing more)
      (gone : x.worker ∈ s.gone) :
      Transition quote s (.enqueue i closed) (s.moveDispatcher i (.refused (internal closed)))
  | enqueue {i : ℕ} {closed : String} {x : Dispatcher Options} {more : Bool}
      (found : s.dispatchers[i]? = some x) (stage : x.stage = .enqueueing more)
      (present : x.worker ∉ s.gone) :
      Transition quote s (.enqueue i closed)
        { s.moveDispatcher i (if more then .enqueueing false else .waiting) with
          jobs := s.jobs ++ [⟨x.worker,.forCall x.call⟩] }
  | observe {i : ℕ} {x : Dispatcher Options} {r : StepRecord Options} {result : CallResult}
      (found : s.dispatchers[i]? = some x) (stage : x.stage = .waiting)
      (record : s.host.inner.records[StepJobRef.forCall x.call]? = some r)
      (terminal : r.terminal = some result) :
      Transition quote s (.observe i) (s.moveDispatcher i (.settled result))
  | abandon {i : ℕ} {x : Dispatcher Options} (found : s.dispatchers[i]? = some x)
      (stage : x.stage = .waiting ∨ ∃ more, x.stage = .enqueueing more) :
      Transition quote s (.abandon i) (s.moveDispatcher i .dropped)
  | requeue {worker : ℕ} {reference : StepJobRef} {r : StepRecord Options}
      (present : worker ∉ s.gone) (record : s.host.inner.records[reference]? = some r) :
      Transition quote s (.requeue worker reference)
        { s with jobs := s.jobs ++ [⟨worker,reference⟩] }
  | deliver {j : ℕ} {job : Job} (found : s.jobs[j]? = some job)
      (room : s.busy job.worker < concurrencyLimit) :
      Transition quote s (.deliver j) { s with
        jobs := s.jobs.eraseIdx j
        deliveries := s.deliveries ++ [⟨job.worker,job.reference,.claiming⟩] }
  | work {d : ℕ} {result : CallResult} {x : Delivery Options} {host : Host Options}
      {controls : ℕ → RootControl} {cancelled : List StepJobRef} {stage : DeliveryStage Options}
      (found : s.deliveries[d]? = some x)
      (operation : host = s.host ∨ ∃ l, s.host.step l = some host)
      (works : Works s.host x.reference result x.stage host stage)
      (arrived : ∀ w, (s.controls w).arrived ≤ (controls w).arrived)
      (placed : ∀ c call place, stage = .launched c call (.rendezvous place) →
        place < (controls x.worker).arrived) :
      Transition quote s (.work d result)
        (Deployment.moveDelivery { s with host, controls, cancelled } d stage)
  | send {n : ℕ} {host : Host Options} (hs : s.host.step (.send n) = some host) :
      Transition quote s (.send n) { s with host }
  | release {worker : ℕ} : Transition quote s (.release worker)
      { s with controls := Function.update s.controls worker (s.controls worker).release }
  | cancel {reference : StepJobRef} : Transition quote s (.cancel reference)
      { s with cancelled := s.cancelled.insert reference }
  | stop {worker : ℕ} : Transition quote s (.stop worker) (s.close worker)
  | abort {worker : ℕ} :
      Transition quote s (.abort worker) ((s.close worker).dropDeliveries worker)
  | reconcile {host : Host Options} (hs : s.host.step .reconcileWorkerLoss = some host) :
      Transition quote s .reconcileWorkerLoss { s with host }

theorem step_transition {s s' : Deployment Options} {a : Action Options}
    (h : s.step quote a = some s') : Transition quote s a s' := by
  cases a with
  | dispatch worker call =>
    simp only [Deployment.step, Deployment.performed, Option.bind_eq_bind,
      Option.bind_eq_some_iff, Option.map_eq_some_iff] at h
    obtain ⟨s₁,⟨host,hs,rfl⟩,h⟩ := h
    obtain rfl := Option.some.inj h
    exact .dispatch hs rfl
  | enqueue i closed =>
    simp only [Deployment.step, Option.bind_eq_bind, Option.bind_eq_some_iff] at h
    obtain ⟨x,hx,h⟩ := h
    cases hst : x.stage with
    | enqueueing more =>
      rw [hst] at h
      dsimp only at h
      split at h
      · next hg =>
        obtain rfl := Option.some.inj h
        exact .closed hx hst hg
      · next hg =>
        obtain rfl := Option.some.inj h
        exact .enqueue hx hst hg
    | _ => simp only [hst, reduceCtorEq] at h
  | observe i =>
    simp only [Deployment.step, Option.bind_eq_bind, Option.bind_eq_some_iff] at h
    obtain ⟨x,hx,h⟩ := h
    cases hst : x.stage with
    | waiting =>
      simp only [hst, Option.bind_eq_some_iff] at h
      obtain ⟨r,hr,result,ht,h⟩ := h
      obtain rfl := Option.some.inj h
      exact .observe hx hst hr ht
    | _ => simp only [hst, reduceCtorEq] at h
  | abandon i =>
    simp only [Deployment.step, Option.bind_eq_bind, Option.bind_eq_some_iff] at h
    obtain ⟨x,hx,h⟩ := h
    cases hst : x.stage with
    | waiting =>
      simp only [hst] at h
      obtain rfl := Option.some.inj h
      exact .abandon hx (.inl hst)
    | enqueueing more =>
      simp only [hst] at h
      obtain rfl := Option.some.inj h
      exact .abandon hx (.inr ⟨more,hst⟩)
    | _ => simp only [hst, reduceCtorEq] at h
  | requeue worker reference =>
    simp only [Deployment.step] at h
    split at h
    · cases h
    · next hg =>
      obtain rfl := Option.some.inj h
      obtain ⟨hg,hr⟩ := not_or.mp hg
      rw [Option.isNone_iff_eq_none,←ne_eq,Option.ne_none_iff_exists'] at hr
      obtain ⟨r,hr⟩ := hr
      exact .requeue hg hr
  | deliver j =>
    simp only [Deployment.step, Option.bind_eq_bind, Option.bind_eq_some_iff] at h
    obtain ⟨job,hj,h⟩ := h
    split at h
    · next hroom =>
      obtain rfl := Option.some.inj h
      exact .deliver hj hroom
    · cases h
  | work d result =>
    simp only [Deployment.step, Option.bind_eq_bind, Option.bind_eq_some_iff] at h
    obtain ⟨x,hx,⟨operation,gate,stage⟩,hn,s₁,hp,h⟩ := h
    obtain rfl := Option.some.inj h
    have hworks := works_next hn
    obtain ⟨harrived,hplaced⟩ := placed_next hn
    have hrise : ∀ w, (s.controls w).arrived ≤
        (Function.update s.controls x.worker gate.control w).arrived := by
      intro w
      by_cases hw : w = x.worker
      · subst hw
        rw [Function.update_self]
        exact harrived
      · rw [Function.update_of_ne hw]
    have hplace : ∀ c call place, stage = .launched c call (.rendezvous place) →
        place < (Function.update s.controls x.worker gate.control x.worker).arrived := by
      rw [Function.update_self]
      exact hplaced
    cases operation with
    | none =>
      obtain rfl := Option.some.inj hp
      exact .work hx (.inl rfl) hworks hrise hplace
    | some l =>
      obtain ⟨host,hs,rfl⟩ := Option.map_eq_some_iff.mp hp
      exact .work hx (.inr ⟨l,hs⟩) (hworks host hs) hrise hplace
  | send n =>
    obtain ⟨host,hs,rfl⟩ := Option.map_eq_some_iff.mp h
    exact .send hs
  | release worker =>
    obtain rfl := Option.some.inj h
    exact .release
  | cancel reference =>
    obtain rfl := Option.some.inj h
    exact .cancel
  | stop worker =>
    obtain rfl := Option.some.inj h
    exact .stop
  | abort worker =>
    obtain rfl := Option.some.inj h
    exact .abort
  | reconcileWorkerLoss =>
    simp only [Deployment.step, Deployment.performed, Option.map_eq_some_iff] at h
    obtain ⟨host,hs,rfl⟩ := h
    exact .reconcile hs

end Transition

end TowerAgent.Local
