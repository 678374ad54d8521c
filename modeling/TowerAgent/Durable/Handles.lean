import TowerAgent.Durable.Store
import TowerAgent.Lib.Machine

/-! Any number of workers on one log, each through the handle that its process opened, whatever the
interleaving of their deliveries, appends and provider calls with the sweeps and decisions of others:
how often a step is called. -/
namespace TowerAgent.Durable
open Lib (Machine)

/-- Where a worker stands between the admission of a step and its acknowledgement; what executes
holds its handle. -/
inductive Pc where
  | admitted
  | launched (handle : ℕ)
  | called (handle : ℕ) (result : TerminalRecord)
  | gone
  deriving DecidableEq, Repr

/-- A claim of a step, in the hands of the one who executes it. -/
structure Worker where
  key : StepKey
  epoch : ℕ
  pc : Pc

namespace Worker
variable (worker : Worker)

def launched : Bool :=
  match worker.pc with
  | .launched _ => true
  | .admitted | .called .. | .gone => false

def mayCall : Bool :=
  match worker.pc with
  | .admitted | .launched _ => true
  | .called .. | .gone => false

def handle : Option ℕ :=
  match worker.pc with
  | .launched handle | .called handle _ => some handle
  | .admitted | .gone => none

end Worker

/-- What the log and the provider saw. -/
inductive Event where
  | recorded (record : Record)
  | called (key : StepKey) (epoch : ℕ)
  deriving DecidableEq, Repr

def Event.fold (store : DurableStore) : Event → DurableStore
  | .recorded record => store.apply record
  | .called .. => store

/-- A sweep under way: the lost steps it found, less those it has recovered, and its report. -/
structure Sweep where
  worker : String
  lost : List (StepKey × StepState)
  recovery : Recovery := {}

/-- What a sweep appends next, and where it stands then. -/
def Sweep.next (sweep : Sweep) : List Record × Option Sweep :=
  match sweep.lost with
  | [] => ([],none)
  | lost::rest =>
    let (recovery,records) := recoverStep sweep.worker (sweep.recovery,[]) lost
    (records,some { sweep with lost := rest, recovery })

/-- A store as one process has it: what the log held when it was opened, and its own appends. -/
structure Handle where
  store : DurableStore
  sweep : Option Sweep := none

/-- The handles, the workers, and what happened, the oldest first. -/
structure Host where
  handles : List Handle := []
  workers : List Worker := []
  history : List Event := []

/-- An open, one operation on a handle, or one step of a worker that executes a claim. -/
inductive Label where
  | openStore
  | freeze (j : ℕ) (key : StepKey) (workflowId workflowVersion fingerprint : String)
      (notAfterUtcMs : Option ℕ)
  | cancel (j : ℕ) (runId reason : String)
  | reconcile (j : ℕ) (key : StepKey) (decision : Reconciliation) (decidedBy : String)
  | deliver (j : ℕ) (job : StepJobRef) (fingerprint worker : String) (now : ℕ)
  | recoverLost (j : ℕ) (worker : String)
  | recoverNext (j : ℕ)
  | launch (i j : ℕ)
  | call (i : ℕ) (outcome : Except String String)
  | settle (i : ℕ)
  | lose (i : ℕ)

/-- The claims a record hands out. -/
def Record.handed : Record → List Worker
  | .claimed key epoch _ => [⟨key,epoch,.admitted⟩]
  | _ => []

namespace Host

/-- Append a record through a handle: only that handle folds it in. -/
def append (j : ℕ) (h : Host) (record : Record) : Host where
  handles := h.handles.modify j fun x => { x with store := x.store.apply record }
  workers := h.workers ++ record.handed
  history := h.history ++ [.recorded record]

variable (h : Host)

/-- What the log folds to. -/
def replayed : DurableStore := h.history.foldl Event.fold {}

/-- The store of a handle that nobody holds. -/
def idle (j : ℕ) : Option DurableStore := do
  let handle ← h.handles[j]?
  if handle.sweep.isNone ∧ ∀ w ∈ h.workers, w.handle ≠ some j then some handle.store else none

def sweepOn (j : ℕ) (sweep : Option Sweep) : Host :=
  { h with handles := h.handles.modify j fun x => { x with sweep } }

/-- The worker goes on. -/
def goto (i : ℕ) (worker : Worker) : Host := { h with workers := h.workers.set i worker }

def step : Label → Option Host
  | .openStore => some { h with handles := h.handles ++ [{ store := h.replayed }] }
  | .freeze j key workflowId workflowVersion fingerprint notAfterUtcMs => (h.idle j).map fun _ =>
    h.append j (.frozen key workflowId workflowVersion fingerprint notAfterUtcMs)
  | .cancel j runId reason => (h.idle j).map fun _ => h.append j (.cancelRequested runId reason)
  | .reconcile j key decision decidedBy => (h.idle j).map fun _ =>
    h.append j (.reconciled key decision decidedBy)
  | .deliver j job fingerprint worker now => (h.idle j).map fun store =>
    (admitJob store job fingerprint worker now).2.foldl (append j) h
  | .recoverLost j worker => (h.idle j).map fun store =>
    h.sweepOn j (some { worker, lost := lostSteps store })
  | .recoverNext j => do
    let handle ← h.handles[j]?
    let sweep ← handle.sweep
    some ((sweep.next.1.foldl (append j) h).sweepOn j sweep.next.2)
  -- `execute` may be given any store, not only the one that admitted its step
  | .launch i j => match h.workers[i]? with
    | some ⟨key,epoch,.admitted⟩ => (h.idle j).map fun _ =>
      (h.append j (.launched key epoch)).goto i ⟨key,epoch,.launched j⟩
    | _ => none
  | .call i outcome => match h.workers[i]? with
    | some ⟨key,epoch,.launched j⟩ =>
      some { h.goto i ⟨key,epoch,.called j (terminalRecord outcome)⟩ with
        history := h.history ++ [.called key epoch] }
    | _ => none
  | .settle i => match h.workers[i]? with
    | some ⟨key,epoch,.called j result⟩ =>
      some ((h.append j (.settled key epoch result)).goto i ⟨key,epoch,.gone⟩)
    | _ => none
  | .lose i => match h.workers[i]? with
    | some ⟨key,epoch,_⟩ => some (h.goto i ⟨key,epoch,.gone⟩)
    | none => none

/-- A record may be appended: no step is claimed while a worker with a claim on it may still call the
provider, nor otherwise than the whole log has it, launchable and with the epoch after its highest;
effects are not disproved while a launched worker has yet to call; what the log has settled is not
reconciled. -/
def Allows : Record → Prop
  | .claimed key epoch _ => (∀ w ∈ h.workers, w.key = key → w.mayCall = false) ∧
      ∃ view ∈ h.replayed.steps[key]?, view.launchable = true ∧ epoch = view.highestEpoch+1
  | .reconciled key decision _ => (∀ view ∈ h.replayed.steps[key]?, view.isTerminal = false) ∧
      (decision = .provedNoEffects → ∀ w ∈ h.workers, w.key = key → w.launched = false)
  | _ => True

/-- Every record that a delivery, a sweep or a decision appends is allowed before it, and no decision
is taken on a handle that has the step settled. -/
def Careful : Label → Prop
  | .deliver j job fingerprint worker now => ∀ store ∈ h.idle j,
    ∀ record ∈ (admitJob store job fingerprint worker now).2, h.Allows record
  | .recoverNext j => ∀ handle ∈ h.handles[j]?, ∀ sweep ∈ handle.sweep,
    ∀ record ∈ sweep.next.1, h.Allows record
  | .reconcile j key decision decidedBy => h.Allows (.reconciled key decision decidedBy) ∧
    ∀ store ∈ h.idle j, ∀ view ∈ store.steps[key]?, view.isTerminal = false
  | _ => True

instance : DecidablePred h.Allows
  | .claimed key epoch _ => inferInstanceAs (Decidable ((∀ w ∈ h.workers, w.key = key →
      w.mayCall = false) ∧ ∃ view ∈ h.replayed.steps[key]?, view.launchable = true ∧
        epoch = view.highestEpoch+1))
  | .reconciled key decision _ => inferInstanceAs (Decidable ((∀ view ∈ h.replayed.steps[key]?,
      view.isTerminal = false) ∧ (decision = .provedNoEffects →
        ∀ w ∈ h.workers, w.key = key → w.launched = false)))
  | .frozen .. | .launched .. | .settled .. | .uncertain .. | .cancelRequested .. => .isTrue trivial

instance : DecidablePred h.Careful
  | .deliver j job fingerprint worker now => inferInstanceAs (Decidable (∀ store ∈ h.idle j,
      ∀ record ∈ (admitJob store job fingerprint worker now).2, h.Allows record))
  | .recoverNext j => inferInstanceAs (Decidable (∀ handle ∈ h.handles[j]?,
      ∀ sweep ∈ handle.sweep, ∀ record ∈ sweep.next.1, h.Allows record))
  | .reconcile j key decision decidedBy =>
    inferInstanceAs (Decidable (h.Allows (.reconciled key decision decidedBy) ∧
      ∀ store ∈ h.idle j, ∀ view ∈ store.steps[key]?, view.isTerminal = false))
  | .openStore | .freeze .. | .cancel .. | .recoverLost .. | .launch .. | .call .. | .settle _
  | .lose _ => .isTrue trivial

end Host

/-- A new log, with no handle and no worker. -/
def host : Machine Host Label where
  start := {}
  step := Host.step

/-- What a step of the host does, and what it finds there. -/
inductive Transition (h : Host) : Label → Host → Prop where
  | openStore :
      Transition h .openStore { h with handles := h.handles ++ [{ store := h.replayed }] }
  | freeze {j : ℕ} {key : StepKey} {workflowId workflowVersion fingerprint : String}
      {notAfterUtcMs : Option ℕ} {store : DurableStore} (idle : h.idle j = some store) :
      Transition h (.freeze j key workflowId workflowVersion fingerprint notAfterUtcMs)
        (h.append j (.frozen key workflowId workflowVersion fingerprint notAfterUtcMs))
  | cancel {j : ℕ} {runId reason : String} {store : DurableStore} (idle : h.idle j = some store) :
      Transition h (.cancel j runId reason) (h.append j (.cancelRequested runId reason))
  | reconcile {j : ℕ} {key : StepKey} {decision : Reconciliation} {decidedBy : String}
      {store : DurableStore} (idle : h.idle j = some store) :
      Transition h (.reconcile j key decision decidedBy)
        (h.append j (.reconciled key decision decidedBy))
  | deliver {j : ℕ} {job : StepJobRef} {fingerprint worker : String} {now : ℕ}
      {store : DurableStore} (idle : h.idle j = some store) :
      Transition h (.deliver j job fingerprint worker now)
        ((admitJob store job fingerprint worker now).2.foldl (Host.append j) h)
  | recoverLost {j : ℕ} {worker : String} {store : DurableStore} (idle : h.idle j = some store) :
      Transition h (.recoverLost j worker) (h.sweepOn j (some { worker, lost := lostSteps store }))
  | recoverNext {j : ℕ} {handle : Handle} {sweep : Sweep} (opened : h.handles[j]? = some handle)
      (swept : handle.sweep = some sweep) :
      Transition h (.recoverNext j)
        ((sweep.next.1.foldl (Host.append j) h).sweepOn j sweep.next.2)
  | launch {i j : ℕ} {key : StepKey} {epoch : ℕ} {store : DurableStore}
      (found : h.workers[i]? = some ⟨key,epoch,.admitted⟩) (idle : h.idle j = some store) :
      Transition h (.launch i j)
        ((h.append j (.launched key epoch)).goto i ⟨key,epoch,.launched j⟩)
  | call {i j : ℕ} {outcome : Except String String} {key : StepKey} {epoch : ℕ}
      (found : h.workers[i]? = some ⟨key,epoch,.launched j⟩) :
      Transition h (.call i outcome)
        { h.goto i ⟨key,epoch,.called j (terminalRecord outcome)⟩ with
          history := h.history ++ [.called key epoch] }
  | settle {i j : ℕ} {key : StepKey} {epoch : ℕ} {result : TerminalRecord}
      (found : h.workers[i]? = some ⟨key,epoch,.called j result⟩) :
      Transition h (.settle i)
        ((h.append j (.settled key epoch result)).goto i ⟨key,epoch,.gone⟩)
  | lose {i : ℕ} {key : StepKey} {epoch : ℕ} {pc : Pc}
      (found : h.workers[i]? = some ⟨key,epoch,pc⟩) :
      Transition h (.lose i) (h.goto i ⟨key,epoch,.gone⟩)

theorem step_transition {h h' : Host} {l : Label} (hl : h.step l = some h') :
    Transition h l h' := by
  cases l with
  | openStore =>
    obtain rfl := Option.some.inj hl
    exact .openStore
  | freeze j key workflowId workflowVersion fingerprint notAfterUtcMs =>
    obtain ⟨store,hidle,rfl⟩ := Option.map_eq_some_iff.mp hl
    exact .freeze hidle
  | cancel j runId reason =>
    obtain ⟨store,hidle,rfl⟩ := Option.map_eq_some_iff.mp hl
    exact .cancel hidle
  | reconcile j key decision decidedBy =>
    obtain ⟨store,hidle,rfl⟩ := Option.map_eq_some_iff.mp hl
    exact .reconcile hidle
  | deliver j job fingerprint worker now =>
    obtain ⟨store,hidle,rfl⟩ := Option.map_eq_some_iff.mp hl
    exact .deliver hidle
  | recoverLost j worker =>
    obtain ⟨store,hidle,rfl⟩ := Option.map_eq_some_iff.mp hl
    exact .recoverLost hidle
  | recoverNext j =>
    obtain ⟨handle,hopened,hl⟩ := Option.bind_eq_some_iff.mp hl
    obtain ⟨sweep,hswept,hl⟩ := Option.bind_eq_some_iff.mp hl
    obtain rfl := Option.some.inj hl
    exact .recoverNext hopened hswept
  | launch i j =>
    simp only [Host.step] at hl
    split at hl
    · next key epoch hi =>
      obtain ⟨store,hidle,rfl⟩ := Option.map_eq_some_iff.mp hl
      exact .launch hi hidle
    · cases hl
  | call i outcome =>
    simp only [Host.step] at hl
    split at hl
    · next key epoch j hi =>
      obtain rfl := Option.some.inj hl
      exact .call hi
    · cases hl
  | settle i =>
    simp only [Host.step] at hl
    split at hl
    · next key epoch j result hi =>
      obtain rfl := Option.some.inj hl
      exact .settle hi
    · cases hl
  | lose i =>
    simp only [Host.step] at hl
    split at hl
    · next key epoch pc hi =>
      obtain rfl := Option.some.inj hl
      exact .lose hi
    · cases hl

/-- A step is settled with a result. -/
def DurableStore.Answers (store : DurableStore) (k : StepKey) (result : TerminalRecord) : Prop :=
  ∃ view, store.steps[k]? = some view ∧ view.state = .settled result

/-- A settled answer stays, in the log and in every handle. -/
structure Host.Keeps (h h' : Host) : Prop where
  log : ∀ k result, h.replayed.Answers k result → h'.replayed.Answers k result
  handles : ∀ (j : ℕ) (x : Handle), h.handles[j]? = some x → ∃ x', h'.handles[j]? = some x' ∧
    ∀ k result, x.store.Answers k result → x'.store.Answers k result

/-- What the store promises for a run and the host it ends in. -/
structure AtMostOnce (t : List Label) (h : Host) : Prop where
  /-- Between two provider calls of a step its effects were disproved. -/
  once : ∀ (k : StepKey) (e e' : ℕ) (a b c : List Event),
    h.history = a ++ .called k e::(b ++ .called k e'::c) →
    ∃ decidedBy, .recorded (.reconciled k .provedNoEffects decidedBy) ∈ b
  /-- A superseded claim calls no provider. -/
  current : ∀ (k : StepKey) (e e' : ℕ) (worker : String) (a b : List Event),
    h.history = a ++ .called k e::b → .recorded (.claimed k e' worker) ∈ a → e' ≤ e
  /-- A settled answer is never replaced. -/
  final : ∀ (p u : List Label) (m : Host), t = p ++ u → host.run p = some m → m.Keeps h

end TowerAgent.Durable
