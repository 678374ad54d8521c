import Mathlib.Data.Prod.Lex
import TowerAgent.Kernel.Provider
import TowerAgent.Workflow.Execution

/-! The run store of a local host: step records behind one lock, claims numbered by epochs, and
terminal results published once the lock is released. -/
namespace TowerAgent.Local
open Kernel Workflow
open Lib (getElem?_insert_eq keys_nodup)
open Std (ExtTreeMap)

structure ReviewRequest where
  repository : String
  objective : String
  deriving BEq

inductive ReviewJob (Options : Type) where
  | architecture (options : Options)
  | verification (options : Options)
  | synthesize
  deriving BEq

abbrev LocalStepCall (Options : Type) := StepCall ReviewRequest (ReviewJob Options) TurnOutcome

/-- The name of a step's job, the only payload of the queue. -/
structure StepJobRef where
  schemaVersion : UInt16
  runId : String
  workflowId : String
  workflowVersion : String
  stepId : String
  deriving Repr

/-- The fields in the order they are compared. -/
def StepJobRef.key (r : StepJobRef) : ℕ ×ₗ String ×ₗ String ×ₗ String ×ₗ String :=
  toLex (r.schemaVersion.toNat,toLex (r.runId,toLex (r.workflowId,toLex
    (r.workflowVersion,r.stepId))))

theorem StepJobRef.key_injective : Function.Injective key := by
  rintro ⟨v,a,b,c,d⟩ ⟨v',a',b',c',d'⟩ h
  simp only [key, EmbeddingLike.apply_eq_iff_eq, Prod.mk.injEq] at h
  obtain ⟨hv,rfl,rfl,rfl,rfl⟩ := h
  obtain rfl := UInt16.toNat_inj.mp hv
  rfl

instance : LinearOrder StepJobRef := LinearOrder.lift' StepJobRef.key StepJobRef.key_injective

instance : Std.TransOrd StepJobRef := inferInstance

structure StepClaim where
  reference : StepJobRef
  epoch : ℕ
  deriving DecidableEq, Repr

/-- Where a record stands, with the epoch of the claim that took it there. -/
inductive RecordState where
  | pending
  | claimed (epoch : ℕ)
  | launched (epoch : ℕ)
  | terminal (epoch : ℕ)
  | uncertain (epoch : ℕ)
  deriving DecidableEq, Repr

namespace RecordState

/-- The record still holds its call. -/
def holdsCall : RecordState → Bool
  | .pending | .claimed _ => true
  | _ => false

/-- The step is over. -/
def ended : RecordState → Bool
  | .terminal _ | .uncertain _ => true
  | _ => false

def epoch : RecordState → Option ℕ
  | .pending => none
  | .claimed e | .launched e | .terminal e | .uncertain e => some e

def isLaunched : RecordState → Bool
  | .launched _ => true
  | _ => false

end RecordState

/-- What one logical identity permanently names. -/
structure FrozenStepCall (Options : Type) where
  input : ReviewRequest
  job : ReviewJob Options
  dependencies : ExtTreeMap StepId TurnOutcome

namespace FrozenStepCall
variable {Options : Type}

def forCall (call : LocalStepCall Options) : FrozenStepCall Options where
  input := call.input
  job := call.job
  dependencies := call.dependencies

/-- The derived comparison, by those of options and outcomes. -/
instance [BEq Options] [BEq TurnOutcome] : BEq (FrozenStepCall Options) where
  beq a b := a.input == b.input && a.job == b.job &&
    a.dependencies.toList == b.dependencies.toList

end FrozenStepCall

/-- A step's record; `terminal` is the value of its watch channel. -/
structure StepRecord (Options : Type) where
  call : Option (LocalStepCall Options)
  frozen : FrozenStepCall Options
  state : RecordState
  providerCallRecorded : Bool := false
  terminal : Option CallResult := none

structure WorkerLossRecovery where
  retryable : List StepJobRef := []
  uncertain : List StepClaim := []

structure StoreStats where
  registeredRecords : ℕ := 0
  deliveries : ℕ := 0
  claims : ℕ := 0
  launches : ℕ := 0
  duplicateSkips : ℕ := 0
  terminalRecords : ℕ := 0
  uncertainRecords : ℕ := 0
  providerCalls : ExtTreeMap StepJobRef ℕ := ∅

/-- A record whose worker is known to be gone. -/
def StepRecord.fenced {Options : Type} (record : StepRecord Options) : StepRecord Options :=
  match record.state with
  | .claimed _ => { record with state := .pending }
  | .launched epoch => { record with state := .uncertain epoch }
  | .pending | .terminal _ | .uncertain _ => record

/-- What the lock guards. -/
structure StoreInner (Options : Type) where
  records : ExtTreeMap StepJobRef (StepRecord Options) := ∅
  stats : StoreStats := {}
  nextEpoch : ℕ := 0

/-- Why an operation failed, with what its message tells. -/
inductive StoreError where
  | collision (stepId : String)
  | missing (reference : StepJobRef)
  | epochOverflow
  | cannotLaunch (claim : StepClaim) (state : RecordState)
  | callGone
  | cannotCallProvider (claim : StepClaim) (state : RecordState)
  | providerCallRecorded (reference : StepJobRef)
  | cannotComplete (claim : StepClaim) (state : RecordState)
  | noProviderCall (reference : StepJobRef)
  deriving DecidableEq, Repr

/-- A result for the watch channel of a reference, to be sent when the lock is released. -/
structure Settlement where
  reference : StepJobRef
  result : CallResult

/-- An operation under the lock: its answer, and the store it leaves. -/
abbrev Locked (Options α : Type) :=
  StoreInner Options → Except StoreError α × StoreInner Options

namespace LocalRunStore
variable {Options : Type}

def checkedAdd (n : ℕ) : Option ℕ := if n+1 < 2^64 then some (n+1) else none

/-- Put a record back under its reference. -/
def write (s : StoreInner Options) (reference : StepJobRef) (record : StepRecord Options) :
    StoreInner Options := { s with records := s.records.insert reference record }

/-- Whether to enqueue the job; the reference stands for the receiver of its channel. -/
def register [BEq Options] [BEq TurnOutcome] (reference : StepJobRef)
    (call : LocalStepCall Options) : Locked Options Bool := fun s =>
  let frozen := FrozenStepCall.forCall call
  match s.records[reference]? with
  | some record =>
    if record.frozen != frozen then (.error (.collision reference.stepId),s)
    else (.ok (record.state == .pending),s)
  | none =>
    let s := write s reference { call := some call, frozen, state := .pending }
    (.ok true,{ s with stats.registeredRecords := s.stats.registeredRecords+1 })

def claim (reference : StepJobRef) : Locked Options (Option StepClaim) := fun s =>
  match s.records[reference]? with
  | none => (.error (.missing reference),s)
  | some record =>
    let s := { s with stats.deliveries := s.stats.deliveries+1 }
    if record.state = .pending then
      match checkedAdd s.nextEpoch with
      | none => (.error .epochOverflow,s)
      | some epoch =>
        let s := write { s with nextEpoch := epoch } reference { record with state := .claimed epoch }
        (.ok (some { reference, epoch }),{ s with stats.claims := s.stats.claims+1 })
    else (.ok none,{ s with stats.duplicateSkips := s.stats.duplicateSkips+1 })

def launch (claim : StepClaim) : Locked Options (LocalStepCall Options) := fun s =>
  match s.records[claim.reference]? with
  | none => (.error (.missing claim.reference),s)
  | some record =>
    if record.state ≠ .claimed claim.epoch then (.error (.cannotLaunch claim record.state),s)
    else match record.call with
      | none => (.error .callGone,s)
      | some call =>
        let s := write s claim.reference
          { record with call := none, state := .launched claim.epoch }
        (.ok call,{ s with stats.launches := s.stats.launches+1 })

def noteProviderCall (claim : StepClaim) : Locked Options Unit := fun s =>
  match s.records[claim.reference]? with
  | none => (.error (.missing claim.reference),s)
  | some record =>
    if record.state ≠ .launched claim.epoch then
      (.error (.cannotCallProvider claim record.state),s)
    else if record.providerCallRecorded then (.error (.providerCallRecorded claim.reference),s)
    else
      let s := write s claim.reference { record with providerCallRecorded := true }
      let calls := s.stats.providerCalls
      (.ok (),{ s with
        stats.providerCalls := calls.insert claim.reference (calls.getD claim.reference 0 + 1) })

/-- The result is sent when the lock is released. -/
def complete (claim : StepClaim) (result : CallResult) : Locked Options Settlement := fun s =>
  match s.records[claim.reference]? with
  | none => (.error (.missing claim.reference),s)
  | some record =>
    if record.state ≠ .launched claim.epoch then (.error (.cannotComplete claim record.state),s)
    else if !record.providerCallRecorded then (.error (.noProviderCall claim.reference),s)
    else
      let s := write s claim.reference { record with state := .terminal claim.epoch }
      (.ok { reference := claim.reference, result },
        { s with stats.terminalRecords := s.stats.terminalRecords+1 })

/-- What a lost worker leaves of a step that it launched. -/
def lost (reference : StepJobRef) : AgentError :=
  .new .internal ("worker was lost after \x60" ++ reference.stepId ++
    "\x60 crossed the launch boundary; its outcome is uncertain") .settlement .possible

/-- The loop over the records: the store, what to report, and what to send afterwards. -/
structure Reconciling (Options : Type) where
  store : StoreInner Options
  recovery : WorkerLossRecovery := {}
  settlements : List Settlement := []

/-- Fence the work on one record. -/
def fence (r : Reconciling Options) (reference : StepJobRef) (record : StepRecord Options) :
    Reconciling Options :=
  match record.state with
  | .claimed _ =>
    { r with
      store := write r.store reference { record with state := .pending }
      recovery.retryable := r.recovery.retryable ++ [reference] }
  | .launched epoch =>
    { store := write r.store reference { record with state := .uncertain epoch }
      recovery := { r.recovery with uncertain := r.recovery.uncertain ++ [{ reference, epoch }] }
      settlements := r.settlements ++ [{ reference, result := .error (lost reference) }] }
  | .pending | .terminal _ | .uncertain _ => r

/-- Fence work owned by a worker that is known to be gone. -/
def reconcileWorkerLoss (s : StoreInner Options) :
    WorkerLossRecovery × List Settlement × StoreInner Options :=
  let r := s.records.toList.foldl (fun r e => fence r e.1 e.2) { store := s }
  (r.recovery,r.settlements,{ r.store with
    stats.uncertainRecords := r.store.stats.uncertainRecords + r.recovery.uncertain.length })

/-- `send_replace` on the channel of a record. -/
def send (settlement : Settlement) (s : StoreInner Options) : StoreInner Options :=
  match s.records[settlement.reference]? with
  | none => s
  | some record => write s settlement.reference { record with terminal := some settlement.result }

section Spec
variable {s s' : StoreInner Options}

lemma checkedAdd_eq_some {n e : ℕ} : checkedAdd n = some e ↔ e = n+1 ∧ n+1 < 2^64 := by
  unfold checkedAdd
  split
  · next h => simp only [Option.some.injEq, h, and_true, eq_comm]
  · next h => simp only [reduceCtorEq, h, and_false]

/-- What a registration does: nothing, or a record for a new reference. -/
theorem register_cases [BEq Options] [BEq TurnOutcome] {reference : StepJobRef}
    {call : LocalStepCall Options} {answer : Except StoreError Bool}
    (h : register reference call s = (answer,s')) :
    s' = s ∨ s.records[reference]? = none ∧ s'.nextEpoch = s.nextEpoch ∧
      s'.records = s.records.insert reference
        { call := some call, frozen := .forCall call, state := .pending } := by
  unfold register at h
  split at h
  · dsimp only at h
    split at h
    · exact .inl (Prod.mk.inj h).2.symm
    · exact .inl (Prod.mk.inj h).2.symm
  · next hr =>
    obtain ⟨-,rfl⟩ := Prod.mk.inj h
    exact .inr ⟨hr,rfl,rfl⟩

/-- What a claim does: it grants the next epoch on a pending record, or changes no record. -/
theorem claim_cases {reference : StepJobRef} {answer : Except StoreError (Option StepClaim)}
    (h : claim reference s = (answer,s')) :
    (∃ record, s.records[reference]? = some record ∧ record.state = .pending ∧
      answer = .ok (some { reference, epoch := s.nextEpoch+1 }) ∧ s'.nextEpoch = s.nextEpoch+1 ∧
      s'.records = s.records.insert reference { record with state := .claimed (s.nextEpoch+1) }) ∨
    (∀ claim, answer ≠ .ok (some claim)) ∧ s'.nextEpoch = s.nextEpoch ∧ s'.records = s.records := by
  unfold claim at h
  split at h
  · obtain ⟨rfl,rfl⟩ := Prod.mk.inj h
    exact .inr ⟨by simp,rfl,rfl⟩
  · next record hr =>
    dsimp only at h
    split at h
    · next hp =>
      split at h
      · obtain ⟨rfl,rfl⟩ := Prod.mk.inj h
        exact .inr ⟨by simp,rfl,rfl⟩
      · next e he =>
        obtain ⟨rfl,-⟩ := checkedAdd_eq_some.mp he
        obtain ⟨rfl,rfl⟩ := Prod.mk.inj h
        exact .inl ⟨record,hr,hp,rfl,rfl,rfl⟩
    · obtain ⟨rfl,rfl⟩ := Prod.mk.inj h
      exact .inr ⟨by simp,rfl,rfl⟩

/-- What a launch does: it takes the call of the record its claim holds, or fails. -/
theorem launch_cases {claim : StepClaim} {answer : Except StoreError (LocalStepCall Options)}
    (h : launch claim s = (answer,s')) :
    (∃ record call, s.records[claim.reference]? = some record ∧
      record.state = .claimed claim.epoch ∧ record.call = some call ∧ answer = .ok call ∧
      s'.nextEpoch = s.nextEpoch ∧ s'.records = s.records.insert claim.reference
        { record with call := none, state := .launched claim.epoch }) ∨
    (∃ e, answer = .error e) ∧ s' = s := by
  unfold launch at h
  split at h
  · obtain ⟨rfl,rfl⟩ := Prod.mk.inj h
    exact .inr ⟨⟨_,rfl⟩,rfl⟩
  · next record hr =>
    split at h
    · obtain ⟨rfl,rfl⟩ := Prod.mk.inj h
      exact .inr ⟨⟨_,rfl⟩,rfl⟩
    · next hc =>
      split at h
      · obtain ⟨rfl,rfl⟩ := Prod.mk.inj h
        exact .inr ⟨⟨_,rfl⟩,rfl⟩
      · next call hcall =>
        obtain ⟨rfl,rfl⟩ := Prod.mk.inj h
        exact .inl ⟨record,call,hr,not_not.mp hc,hcall,rfl,rfl,rfl⟩

/-- What noting a provider call does: the first one of the launched claim is recorded. -/
theorem noteProviderCall_cases {claim : StepClaim} {answer : Except StoreError Unit}
    (h : noteProviderCall claim s = (answer,s')) :
    (∃ record, s.records[claim.reference]? = some record ∧
      record.state = .launched claim.epoch ∧ record.providerCallRecorded = false ∧
      answer = .ok () ∧ s'.nextEpoch = s.nextEpoch ∧
      s'.records = s.records.insert claim.reference { record with providerCallRecorded := true }) ∨
    (∃ e, answer = .error e) ∧ s' = s := by
  unfold noteProviderCall at h
  split at h
  · obtain ⟨rfl,rfl⟩ := Prod.mk.inj h
    exact .inr ⟨⟨_,rfl⟩,rfl⟩
  · next record hr =>
    split at h
    · obtain ⟨rfl,rfl⟩ := Prod.mk.inj h
      exact .inr ⟨⟨_,rfl⟩,rfl⟩
    · next hl =>
      split at h
      · obtain ⟨rfl,rfl⟩ := Prod.mk.inj h
        exact .inr ⟨⟨_,rfl⟩,rfl⟩
      · next hc =>
        obtain ⟨rfl,rfl⟩ := Prod.mk.inj h
        exact .inl ⟨record,hr,not_not.mp hl,Bool.eq_false_iff.mpr hc,rfl,rfl,rfl⟩

/-- What a completion does: it ends the step of the launched claim, or fails. -/
theorem complete_cases {claim : StepClaim} {result : CallResult}
    {answer : Except StoreError Settlement} (h : complete claim result s = (answer,s')) :
    (∃ record, s.records[claim.reference]? = some record ∧
      record.state = .launched claim.epoch ∧
      answer = .ok { reference := claim.reference, result } ∧ s'.nextEpoch = s.nextEpoch ∧
      s'.records = s.records.insert claim.reference
        { record with state := .terminal claim.epoch }) ∨
    (∃ e, answer = .error e) ∧ s' = s := by
  unfold complete at h
  split at h
  · obtain ⟨rfl,rfl⟩ := Prod.mk.inj h
    exact .inr ⟨⟨_,rfl⟩,rfl⟩
  · next record hr =>
    split at h
    · obtain ⟨rfl,rfl⟩ := Prod.mk.inj h
      exact .inr ⟨⟨_,rfl⟩,rfl⟩
    · next hl =>
      split at h
      · obtain ⟨rfl,rfl⟩ := Prod.mk.inj h
        exact .inr ⟨⟨_,rfl⟩,rfl⟩
      · obtain ⟨rfl,rfl⟩ := Prod.mk.inj h
        exact .inl ⟨record,hr,not_not.mp hl,rfl,rfl,rfl⟩

/-- Once a reference is launched or over, every later claim of it is answered with nothing. -/
theorem claim_passed {k : StepJobRef} {r : StepRecord Options}
    (hr : s.records[k]? = some r) (hp : r.state.holdsCall = false) :
    (claim k s).1 = .ok none := by
  have hne : r.state ≠ .pending := by
    rintro he
    rw [he] at hp
    cases hp
  simp only [claim, hr, hne, if_false]

/-- A pending reference is granted the next epoch, while there is one. -/
theorem claim_pending {k : StepJobRef} {r : StepRecord Options}
    (hr : s.records[k]? = some r) (hs : r.state = .pending) (hn : s.nextEpoch+1 < 2^64) :
    (claim k s).1 = .ok (some { reference := k, epoch := s.nextEpoch+1 }) := by
  simp only [claim, hr, hs, if_true, checkedAdd, hn]

end Spec

section Reconcile
variable {r : Reconciling Options} {k reference : StepJobRef} {record : StepRecord Options}

/-- The settlements of a list that are for one reference. -/
abbrev forReference (reference : StepJobRef) (settlements : List Settlement) : ℕ :=
  settlements.countP (fun settlement => settlement.reference = reference)

lemma fence_nextEpoch (r : Reconciling Options) (reference : StepJobRef)
    (record : StepRecord Options) :
    (fence r reference record).store.nextEpoch = r.store.nextEpoch := by
  unfold fence
  split <;> rfl

lemma fence_retryable {reference' : StepJobRef} (h : reference' ∈ r.recovery.retryable) :
    reference' ∈ (fence r reference record).recovery.retryable := by
  unfold fence
  split
  · exact List.mem_append_left _ h
  · exact h
  · exact h
  · exact h
  · exact h

/-- Fencing one record leaves the others alone. -/
lemma fence_frame (record : StepRecord Options) (h : k ≠ reference) :
    (fence r reference record).store.records[k]? = r.store.records[k]? ∧
      forReference k (fence r reference record).settlements = forReference k r.settlements := by
  unfold fence
  split
  · simp [write, getElem?_insert_eq, h.symm]
  · simp [write, getElem?_insert_eq, forReference, h.symm]
  · exact ⟨rfl,rfl⟩
  · exact ⟨rfl,rfl⟩
  · exact ⟨rfl,rfl⟩

lemma fence_self (h : r.store.records[reference]? = some record) :
    (fence r reference record).store.records[reference]? = some record.fenced ∧
      forReference reference (fence r reference record).settlements =
        forReference reference r.settlements + record.state.isLaunched.toNat := by
  unfold fence StepRecord.fenced
  cases hs : record.state <;>
    simp [write, h, forReference, RecordState.isLaunched]

lemma foldl_fence_frame {l : List (StepJobRef × StepRecord Options)} (h : k ∉ l.map Prod.fst) :
    (l.foldl (fun r e => fence r e.1 e.2) r).store.records[k]? = r.store.records[k]? ∧
      forReference k (l.foldl (fun r e => fence r e.1 e.2) r).settlements =
        forReference k r.settlements := by
  induction l generalizing r with
  | nil => exact ⟨rfl,rfl⟩
  | cons e l ih =>
    obtain ⟨hne,hk⟩ := List.ne_and_not_mem_of_not_mem_cons h
    obtain ⟨hr,hc⟩ := ih (r := fence r e.1 e.2) hk
    obtain ⟨hr',hc'⟩ := fence_frame (r := r) e.2 hne
    exact ⟨hr.trans hr',hc.trans hc'⟩

lemma foldl_fence_nextEpoch (l : List (StepJobRef × StepRecord Options)) :
    (l.foldl (fun r e => fence r e.1 e.2) r).store.nextEpoch = r.store.nextEpoch := by
  induction l generalizing r with
  | nil => rfl
  | cons e l ih => exact ih.trans (fence_nextEpoch r e.1 e.2)

lemma foldl_fence_retryable {l : List (StepJobRef × StepRecord Options)}
    (h : k ∈ r.recovery.retryable) :
    k ∈ (l.foldl (fun r e => fence r e.1 e.2) r).recovery.retryable := by
  induction l generalizing r with
  | nil => exact h
  | cons e l ih => exact ih (fence_retryable h)

variable {s : StoreInner Options}

/-- The entry of a reference in the loop, with the entries of others around it. -/
lemma exists_entry (h : s.records[k]? = some record) : ∃ front back,
    s.records.toList = front ++ (k,record)::back ∧ k ∉ front.map Prod.fst ∧
      k ∉ back.map Prod.fst := by
  have hm : (k,record) ∈ s.records.toList :=
    ExtTreeMap.mem_toList_iff_getElem?_eq_some.mpr h
  obtain ⟨front,back,he⟩ := List.append_of_mem hm
  have hn : (s.records.toList.map Prod.fst).Nodup := by
    rw [ExtTreeMap.map_fst_toList_eq_keys]
    exact keys_nodup
  rw [he,List.map_append,List.map_cons,List.nodup_middle,List.nodup_cons,List.mem_append,
    not_or] at hn
  exact ⟨front,back,he,hn.1⟩

/-- Reconciliation fences every record and settles each launched step once. -/
theorem reconcile_spec (s : StoreInner Options) (k : StepJobRef) :
    (reconcileWorkerLoss s).2.2.records[k]? = s.records[k]?.map StepRecord.fenced ∧
      forReference k (reconcileWorkerLoss s).2.1 =
        (s.records[k]?.any fun record => record.state.isLaunched).toNat := by
  simp only [reconcileWorkerLoss]
  cases hk : s.records[k]? with
  | none =>
    have hn : k ∉ s.records.toList.map Prod.fst := by
      rw [ExtTreeMap.map_fst_toList_eq_keys,ExtTreeMap.mem_keys]
      exact fun hm => by simp [ExtTreeMap.getElem?_eq_some_getElem hm] at hk
    obtain ⟨hr,hc⟩ := foldl_fence_frame (r := { store := s }) hn
    exact ⟨hr.trans hk,hc⟩
  | some record =>
    obtain ⟨front,back,he,hf,hb⟩ := exists_entry hk
    rw [he,List.foldl_append,List.foldl_cons]
    obtain ⟨hr,hc⟩ := foldl_fence_frame (r := { store := s }) hf
    obtain ⟨hr',hc'⟩ := fence_self (hr.trans hk)
    obtain ⟨hr'',hc''⟩ := foldl_fence_frame (r := fence _ k record) hb
    refine ⟨hr''.trans hr',hc''.trans (hc'.trans ?_)⟩
    rw [hc]
    exact Nat.zero_add _

theorem reconcile_nextEpoch (s : StoreInner Options) :
    (reconcileWorkerLoss s).2.2.nextEpoch = s.nextEpoch := foldl_fence_nextEpoch _

/-- A claimed reference is reported as one to retry. -/
theorem reconcile_retryable {e : ℕ} (h : s.records[k]? = some record)
    (hs : record.state = .claimed e) : k ∈ (reconcileWorkerLoss s).1.retryable := by
  obtain ⟨front,back,he,-,-⟩ := exists_entry h
  simp only [reconcileWorkerLoss, he, List.foldl_append, List.foldl_cons]
  refine foldl_fence_retryable ?_
  simp only [fence, hs]
  exact List.mem_append_right _ List.mem_cons_self

end Reconcile

end LocalRunStore

end TowerAgent.Local
