import Mathlib.Data.Prod.Lex
import Mathlib.Data.String.Basic
import TowerAgent.Lib.Ordered

/-! The durable state of a host: the records of its log, the fold that reads them, and the decisions
taken on the folded state. -/
namespace TowerAgent.Durable
open Lib (getElem?_insert_eq)
open Std (ExtTreeMap)

structure StepKey where
  runId : String
  stepId : String
  deriving Repr

def StepKey.pair (key : StepKey) : String ×ₗ String := toLex (key.runId,key.stepId)

theorem StepKey.pair_injective : Function.Injective pair := by
  rintro ⟨a,b⟩ ⟨a',b'⟩ h
  simp only [pair, EmbeddingLike.apply_eq_iff_eq, Prod.mk.injEq] at h
  obtain ⟨rfl,rfl⟩ := h
  rfl

instance : LinearOrder StepKey := LinearOrder.lift' StepKey.pair StepKey.pair_injective

instance : Std.TransOrd StepKey := inferInstance

/-- What a step's terminal result was. -/
inductive TerminalRecord where
  | succeeded (output : String)
  | failed (kind message : String)
  deriving DecidableEq, Repr

/-- How an uncertain step was resolved. -/
inductive Reconciliation where
  | adoptCompleted (output : String)
  | provedNoEffects
  | abandoned (note : String)
  deriving DecidableEq, Repr

/-- One durable fact. -/
inductive Record where
  | frozen (key : StepKey) (workflowId workflowVersion fingerprint : String)
      (notAfterUtcMs : Option ℕ)
  | claimed (key : StepKey) (epoch : ℕ) (worker : String)
  | launched (key : StepKey) (epoch : ℕ)
  | settled (key : StepKey) (epoch : ℕ) (result : TerminalRecord)
  | uncertain (key : StepKey) (epoch : ℕ) (reason : String)
  | reconciled (key : StepKey) (decision : Reconciliation) (decidedBy : String)
  | cancelRequested (runId reason : String)
  deriving DecidableEq, Repr

/-- The step a record is about. -/
def Record.key : Record → Option StepKey
  | .frozen key .. | .claimed key .. | .launched key _ | .settled key .. | .uncertain key ..
  | .reconciled key .. => some key
  | .cancelRequested .. => none

inductive StepState where
  | pending
  | claimed (epoch : ℕ)
  | launched (epoch : ℕ)
  | settled (result : TerminalRecord)
  | uncertain (epoch : ℕ) (reason : String)
  deriving DecidableEq, Repr

structure StepView where
  state : StepState
  fingerprint : String
  notAfterUtcMs : Option ℕ
  highestEpoch : ℕ
  deriving DecidableEq, Repr

namespace StepView
variable (view : StepView)

def isTerminal : Bool :=
  match view.state with
  | .settled _ => true
  | _ => false

/-- A record of this epoch is folded in: it is not of a superseded claim, and nothing is settled. -/
def accepts (epoch : ℕ) : Bool := view.highestEpoch ≤ epoch && !view.isTerminal

def claim (epoch : ℕ) : StepView :=
  if view.accepts epoch then { view with highestEpoch := epoch, state := .claimed epoch } else view

def launch (epoch : ℕ) : StepView :=
  if view.accepts epoch then { view with state := .launched epoch } else view

def settle (epoch : ℕ) (result : TerminalRecord) : StepView :=
  if view.accepts epoch then { view with state := .settled result } else view

def lose (epoch : ℕ) (reason : String) : StepView :=
  if view.isTerminal then view else { view with state := .uncertain epoch reason }

/-- Proving no effects is the only route back to runnable. -/
def reconcile (decision : Reconciliation) : StepView :=
  { view with state := match decision with
    | .adoptCompleted output => .settled (.succeeded output)
    | .provedNoEffects => .pending
    | .abandoned note => .settled (.failed "abandoned" note) }

/-- Nothing was launched. -/
def launchable : Bool :=
  match view.state with
  | .pending | .claimed _ => true
  | _ => false

end StepView

/-- What the log folds to. -/
structure DurableStore where
  steps : ExtTreeMap StepKey StepView := ∅
  cancelledRuns : ExtTreeMap String String := ∅

namespace DurableStore
variable (store : DurableStore)

/-- Change the view of a step that has one. -/
def modify (key : StepKey) (change : StepView → StepView) : DurableStore :=
  match store.steps[key]? with
  | none => store
  | some view => { store with steps := store.steps.insert key (change view) }

/-- Give a step a view unless it has one. -/
def orInsert (key : StepKey) (view : StepView) : DurableStore :=
  match store.steps[key]? with
  | some _ => store
  | none => { store with steps := store.steps.insert key view }

/-- Fold one record in. -/
def apply : Record → DurableStore
  | .frozen key _ _ fingerprint notAfterUtcMs =>
    store.orInsert key { state := .pending, fingerprint, notAfterUtcMs, highestEpoch := 0 }
  | .claimed key epoch _ => store.modify key (·.claim epoch)
  | .launched key epoch => store.modify key (·.launch epoch)
  | .settled key epoch result => store.modify key (·.settle epoch result)
  | .uncertain key epoch reason => store.modify key (·.lose epoch reason)
  | .reconciled key decision _ => store.modify key (·.reconcile decision)
  | .cancelRequested runId reason =>
    { store with cancelledRuns := store.cancelledRuns.insert runId reason }

variable {store}

lemma modify_steps {key k : StepKey} {change : StepView → StepView} :
    (store.modify key change).steps[k]? =
      if key = k then store.steps[k]?.map change else store.steps[k]? := by
  by_cases h : key = k
  · subst h
    cases hv : store.steps[key]? with
    | none => simp [modify, hv]
    | some view => simp [modify, hv]
  · cases hv : store.steps[key]? with
    | none => simp [modify, hv, h]
    | some view => simp [modify, hv, getElem?_insert_eq, h]

lemma orInsert_steps {key k : StepKey} {view : StepView} : (store.orInsert key view).steps[k]? =
    if key = k then some (store.steps[k]?.getD view) else store.steps[k]? := by
  by_cases h : key = k
  · subst h
    cases hv : store.steps[key]? with
    | none => simp [orInsert, hv]
    | some old => simp [orInsert, hv]
  · cases hv : store.steps[key]? with
    | none => simp [orInsert, hv, getElem?_insert_eq, h]
    | some old => simp [orInsert, hv, h]

/-- A record of another step leaves a step as it is. -/
theorem apply_other {record : Record} {k : StepKey} (h : record.key ≠ some k) :
    (store.apply record).steps[k]? = store.steps[k]? := by
  cases record with
  | frozen key => exact orInsert_steps.trans (if_neg fun he => h (congrArg some he))
  | claimed key | launched key | settled key | uncertain key | reconciled key =>
    exact modify_steps.trans (if_neg fun he => h (congrArg some he))
  | cancelRequested => rfl

end DurableStore

/-- The only thing that crosses the queue. -/
structure StepJobRef where
  schemaVersion : UInt16
  runId : String
  stepId : String
  deriving DecidableEq, Repr

def jobRefSchemaVersion : UInt16 := 1

inductive DeadlineDecision where
  | noDeadline
  | remaining (milliseconds : ℕ)
  | expired
  deriving DecidableEq, Repr

/-- Rebuild a local deadline from persisted wall-clock time. -/
def reconstructDeadline (now : ℕ) : Option ℕ → DeadlineDecision
  | none => .noDeadline
  | some notAfter => if notAfter ≤ now then .expired else .remaining (notAfter-now)

inductive Admission where
  | run (epoch : ℕ)
  | alreadySettled
  | refused (reason : String)
  deriving DecidableEq, Repr

/-- An epoch is an unsigned 64-bit number. -/
def nextEpoch (epoch : ℕ) : ℕ := (epoch+1) % 2^64

/-- Decide whether a delivered job reference may run; with the record that is appended if so. -/
def admitJob (store : DurableStore) (job : StepJobRef) (fingerprint worker : String) (now : ℕ) :
    Admission × List Record :=
  if job.schemaVersion ≠ jobRefSchemaVersion then
    (.refused ("job reference schema " ++ toString job.schemaVersion ++ " is not " ++
      toString jobRefSchemaVersion),[])
  else
    let key : StepKey := ⟨job.runId,job.stepId⟩
    match store.cancelledRuns[job.runId]? with
    | some reason => (.refused ("run cancelled: " ++ reason),[])
    | none => match store.steps[key]? with
      | none => (.refused "step was never frozen",[])
      | some view =>
        if view.fingerprint ≠ fingerprint then
          (.refused "delivered work does not match the frozen invocation",[])
        else match view.state with
          | .settled _ => (.alreadySettled,[])
          | .uncertain _ reason =>
            (.refused ("uncertain and awaiting reconciliation: " ++ reason),[])
          | .launched epoch => (.refused ("already launched under epoch " ++ toString epoch),[])
          | .claimed _ | .pending => match reconstructDeadline now view.notAfterUtcMs with
            | .expired => (.refused "deadline passed before this delivery",[])
            | _ =>
              let epoch := nextEpoch view.highestEpoch
              (.run epoch,[.claimed key epoch worker])

/-- A step is claimed out of the states in which nothing was launched, or nothing is appended. -/
theorem admitJob_cases (store : DurableStore) (job : StepJobRef) (fingerprint worker : String)
    (now : ℕ) : (admitJob store job fingerprint worker now).2 = [] ∨
      ∃ view, store.steps[(⟨job.runId,job.stepId⟩ : StepKey)]? = some view ∧
        view.launchable = true ∧ admitJob store job fingerprint worker now =
          (.run (nextEpoch view.highestEpoch),
            [.claimed ⟨job.runId,job.stepId⟩ (nextEpoch view.highestEpoch) worker]) := by
  unfold admitJob
  split
  · exact .inl rfl
  dsimp only
  split
  · exact .inl rfl
  split
  · exact .inl rfl
  next view hv =>
  split
  · exact .inl rfl
  split
  · exact .inl rfl
  · exact .inl rfl
  · exact .inl rfl
  · next hs =>
    split
    · exact .inl rfl
    · exact .inr ⟨view,hv,by rw [StepView.launchable,hs],rfl⟩
  · next hs =>
    split
    · exact .inl rfl
    · exact .inr ⟨view,hv,by rw [StepView.launchable,hs],rfl⟩

structure Recovery where
  refenced : List (StepKey × ℕ) := []
  uncertain : List StepKey := []
  deriving DecidableEq, Repr

/-- The steps whose claim was lost. -/
def lostSteps (store : DurableStore) : List (StepKey × StepState) :=
  store.steps.toList.filterMap fun e => match e.2.state with
    | .claimed _ | .launched _ => some (e.1,e.2.state)
    | _ => none

/-- Recover one of them: what is reported, and the records appended so far. -/
def recoverStep (worker : String) (found : Recovery × List Record) :
    StepKey × StepState → Recovery × List Record
  | (key,.claimed epoch) =>
    ({ found.1 with refenced := found.1.refenced ++ [(key,nextEpoch epoch)] },
      found.2 ++ [.claimed key (nextEpoch epoch) worker])
  | (key,.launched epoch) =>
    ({ found.1 with uncertain := found.1.uncertain ++ [key] },
      found.2 ++ [.uncertain key epoch "worker lost ownership after launch"])
  | _ => found

/-- A lost step is claimed again or given up, or nothing is appended. -/
theorem recoverStep_cases (worker : String) (recovery : Recovery) (e : StepKey × StepState) :
    (recoverStep worker (recovery,[]) e).2 = [] ∨
      (∃ epoch, (recoverStep worker (recovery,[]) e).2 = [.claimed e.1 epoch worker]) ∨
      ∃ epoch reason, (recoverStep worker (recovery,[]) e).2 = [.uncertain e.1 epoch reason] := by
  obtain ⟨key,state⟩ := e
  cases state with
  | claimed epoch => exact .inr (.inl ⟨_,rfl⟩)
  | launched epoch => exact .inr (.inr ⟨_,_,rfl⟩)
  | pending | settled | uncertain => exact .inl rfl

def maxRecordedOutput : ℕ := 4*1024

/-- As many characters as fit into a number of bytes. -/
def takeBytes : ℕ → List Char → List Char
  | _, [] => []
  | n, c::rest => if c.utf8Size ≤ n then c::takeBytes (n-c.utf8Size) rest else []

/-- Truncate a provider result to what the store is willing to keep. -/
def boundedOutput (output : String) : String :=
  if output.utf8ByteSize ≤ maxRecordedOutput then output
  else String.ofList (takeBytes maxRecordedOutput output.toList) ++ "…"

/-- The terminal record of what the provider returned. -/
def terminalRecord : Except String String → TerminalRecord
  | .ok output => .succeeded (boundedOutput output)
  | .error message => .failed "provider" message

end TowerAgent.Durable
