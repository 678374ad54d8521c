import Mathlib.Data.List.Perm.Basic
import TowerAgent.Lib.Machine
import TowerAgent.Local.Store

/-! Any number of workers and coordinators on one local run store: what each reference goes through,
whatever the interleaving of their operations and of the sends after them. -/
namespace TowerAgent.Local
open Kernel Workflow
open Lib (Machine getElem?_insert_eq)

/-- What the operations granted and did. -/
inductive Event where
  | granted (claim : StepClaim)
  | launched (claim : StepClaim)
  | providerCalled (claim : StepClaim)
  | sent (settlement : Settlement)

/-- One operation under the lock by some worker or coordinator, or one send after it. -/
inductive Label (Options : Type) where
  | register (reference : StepJobRef) (call : LocalStepCall Options)
  | claim (reference : StepJobRef)
  | launch (claim : StepClaim)
  | noteProviderCall (claim : StepClaim)
  | complete (claim : StepClaim) (result : CallResult)
  | reconcileWorkerLoss
  | send (i : ℕ)

/-- The store, the settlements still to be sent, and what happened, the oldest first. -/
structure Host (Options : Type) where
  inner : StoreInner Options := {}
  outbox : List Settlement := []
  history : List Event := []

section Machine
variable {Options : Type} [BEq Options] [BEq TurnOutcome]

def Host.step (h : Host Options) : Label Options → Option (Host Options)
  | .register reference call =>
    some { h with inner := (LocalRunStore.register reference call h.inner).2 }
  | .claim reference => match LocalRunStore.claim reference h.inner with
    | (.ok (some claim),inner) => some { h with inner, history := h.history ++ [.granted claim] }
    | (_,inner) => some { h with inner }
  | .launch claim => match LocalRunStore.launch claim h.inner with
    | (.ok _,inner) => some { h with inner, history := h.history ++ [.launched claim] }
    | (.error _,inner) => some { h with inner }
  | .noteProviderCall claim => match LocalRunStore.noteProviderCall claim h.inner with
    | (.ok _,inner) => some { h with inner, history := h.history ++ [.providerCalled claim] }
    | (.error _,inner) => some { h with inner }
  | .complete claim result => match LocalRunStore.complete claim result h.inner with
    | (.ok settlement,inner) => some { h with inner, outbox := h.outbox ++ [settlement] }
    | (.error _,inner) => some { h with inner }
  | .reconcileWorkerLoss =>
    let (_,settlements,inner) := LocalRunStore.reconcileWorkerLoss h.inner
    some { h with inner, outbox := h.outbox ++ settlements }
  | .send i => h.outbox[i]?.map fun settlement =>
    { inner := LocalRunStore.send settlement h.inner
      outbox := h.outbox.eraseIdx i
      history := h.history ++ [.sent settlement] }

variable (Options) in
/-- A new store. -/
def host : Machine (Host Options) (Label Options) where
  start := {}
  step := Host.step

end Machine

def Event.reference : Event → StepJobRef
  | .granted claim | .launched claim | .providerCalled claim => claim.reference
  | .sent settlement => settlement.reference

def Event.launchOf (reference : StepJobRef) : Event → Bool
  | .launched claim => claim.reference = reference
  | _ => false

def Event.callOf (reference : StepJobRef) : Event → Bool
  | .providerCalled claim => claim.reference = reference
  | _ => false

def Event.sendOf (reference : StepJobRef) : Event → Bool
  | .sent settlement => settlement.reference = reference
  | _ => false

/-- The epoch of a grant of the reference. -/
def Event.grantOf (reference : StepJobRef) : Event → Option ℕ
  | .granted claim => if claim.reference = reference then some claim.epoch else none
  | _ => none

/-- The epoch of a grant. -/
def Event.epoch : Event → Option ℕ
  | .granted claim => some claim.epoch
  | _ => none

variable {Options : Type}

/-- What one reference has gone through: its record, the epochs granted on it, its launches, its
recorded provider calls, the settlements waiting for its channel and those sent to it. -/
structure Account (Options : Type) where
  record : Option (StepRecord Options)
  granted : List ℕ
  launches : ℕ
  calls : ℕ
  waiting : ℕ
  sent : ℕ

def Host.account (h : Host Options) (reference : StepJobRef) : Account Options where
  record := h.inner.records[reference]?
  granted := h.history.filterMap (Event.grantOf reference)
  launches := h.history.countP (Event.launchOf reference)
  calls := h.history.countP (Event.callOf reference)
  waiting := LocalRunStore.forReference reference h.outbox
  sent := h.history.countP (Event.sendOf reference)

/-- What an operation can do to one reference. -/
inductive Move : Account Options → Account Options → Prop where
  | rest (a : Account Options) : Move a a
  | register {a : Account Options} (call : LocalStepCall Options) (h : a.record = none) :
      Move a { a with
        record := some { call := some call, frozen := .forCall call, state := .pending } }
  | claim {a : Account Options} {r : StepRecord Options} (e : ℕ) (h : a.record = some r)
      (hs : r.state = .pending) : Move a { a with
        record := some { r with state := .claimed e }
        granted := a.granted ++ [e] }
  | launch {a : Account Options} {r : StepRecord Options} {e : ℕ} (h : a.record = some r)
      (hs : r.state = .claimed e) : Move a { a with
        record := some { r with call := none, state := .launched e }
        launches := a.launches+1 }
  | providerCall {a : Account Options} {r : StepRecord Options} {e : ℕ} (h : a.record = some r)
      (hs : r.state = .launched e) (hc : r.providerCallRecorded = false) : Move a { a with
        record := some { r with providerCallRecorded := true }
        calls := a.calls+1 }
  | complete {a : Account Options} {r : StepRecord Options} {e : ℕ} (h : a.record = some r)
      (hs : r.state = .launched e) : Move a { a with
        record := some { r with state := .terminal e }
        waiting := a.waiting+1 }
  | release {a : Account Options} {r : StepRecord Options} {e : ℕ} (h : a.record = some r)
      (hs : r.state = .claimed e) : Move a { a with record := some { r with state := .pending } }
  | lose {a : Account Options} {r : StepRecord Options} {e : ℕ} (h : a.record = some r)
      (hs : r.state = .launched e) : Move a { a with
        record := some { r with state := .uncertain e }
        waiting := a.waiting+1 }
  | send {a : Account Options} (result : CallResult) (h : 0 < a.waiting) : Move a { a with
        record := a.record.map fun r => { r with terminal := some result }
        waiting := a.waiting-1
        sent := a.sent+1 }

/-- What holds of a reference in every run: its claim was granted, it is launched and called at most
once, and its channel is set by the one settlement that ended it. -/
structure Account.Sound (a : Account Options) : Prop where
  current : ∀ r e, a.record = some r → r.state.epoch = some e → e ∈ a.granted
  call : ∀ r, a.record = some r → r.call.isSome = r.state.holdsCall
  launches : a.launches = (a.record.any fun r => !r.state.holdsCall).toNat
  calls : a.calls = (a.record.any StepRecord.providerCallRecorded).toNat
  settlements : a.waiting + a.sent = (a.record.any fun r => r.state.ended).toNat
  sent : a.sent = (a.record.any fun r => r.terminal.isSome).toNat

theorem Account.sound_some {a : Account Options} {r : StepRecord Options} (h : a.record = some r) :
    a.Sound ↔ (∀ e, r.state.epoch = some e → e ∈ a.granted) ∧ r.call.isSome = r.state.holdsCall ∧
      a.launches = (!r.state.holdsCall).toNat ∧ a.calls = r.providerCallRecorded.toNat ∧
      a.waiting + a.sent = r.state.ended.toNat ∧ a.sent = r.terminal.isSome.toNat := by
  constructor
  · rintro ⟨he,hc,hl,hp,hs,ht⟩
    rw [h] at hl hp hs ht
    exact ⟨fun e => he r e h,hc r h,hl,hp,hs,ht⟩
  · rintro ⟨he,hc,hl,hp,hs,ht⟩
    have heq : ∀ r', a.record = some r' → r' = r := fun r' h' => Option.some.inj (h'.symm.trans h)
    refine ⟨fun r' e h' => ?_,fun r' h' => ?_,by rw [h]; exact hl,by rw [h]; exact hp,
      by rw [h]; exact hs,by rw [h]; exact ht⟩
    · obtain rfl := heq r' h'
      exact he e
    · obtain rfl := heq r' h'
      exact hc

theorem Account.sound_none {a : Account Options} (h : a.record = none) :
    a.Sound ↔ a.launches = 0 ∧ a.calls = 0 ∧ a.waiting + a.sent = 0 ∧ a.sent = 0 := by
  constructor
  · rintro ⟨-,-,hl,hp,hs,ht⟩
    rw [h] at hl hp hs ht
    exact ⟨hl,hp,hs,ht⟩
  · rintro ⟨hl,hp,hs,ht⟩
    have hno : ∀ r, a.record ≠ some r := fun r hr => by rw [h] at hr; cases hr
    exact ⟨fun r e hr => absurd hr (hno r),fun r hr => absurd hr (hno r),by rw [h]; exact hl,
      by rw [h]; exact hp,by rw [h]; exact hs,by rw [h]; exact ht⟩

theorem Move.sound {a b : Account Options} (h : Move a b) (ha : a.Sound) : b.Sound := by
  cases h with
  | rest => exact ha
  | register call hr =>
    obtain ⟨hl,hp,hs,ht⟩ := (Account.sound_none hr).mp ha
    refine (Account.sound_some rfl).mpr ?_
    exact ⟨fun e he => absurd he.symm (Option.some_ne_none e),rfl,hl,hp,hs,ht⟩
  | claim e hr hst =>
    obtain ⟨-,hcall,hl,hp,hs,ht⟩ := (Account.sound_some hr).mp ha
    rw [hst] at hcall hl hs
    refine (Account.sound_some rfl).mpr ?_
    refine ⟨fun e' he => ?_,hcall,hl,hp,hs,ht⟩
    obtain rfl := Option.some.inj he
    exact List.mem_append_right _ List.mem_cons_self
  | launch hr hst =>
    obtain ⟨hg,-,hl,hp,hs,ht⟩ := (Account.sound_some hr).mp ha
    rw [hst] at hg hl hs
    refine (Account.sound_some rfl).mpr ?_
    exact ⟨hg,rfl,by rw [hl]; rfl,hp,hs,ht⟩
  | providerCall hr hst hc =>
    obtain ⟨hg,hcall,hl,hp,hs,ht⟩ := (Account.sound_some hr).mp ha
    rw [hc] at hp
    refine (Account.sound_some rfl).mpr ?_
    exact ⟨hg,hcall,hl,by rw [hp]; rfl,hs,ht⟩
  | complete hr hst =>
    obtain ⟨hg,hcall,hl,hp,hs,ht⟩ := (Account.sound_some hr).mp ha
    rw [hst] at hg hcall hl hs
    refine (Account.sound_some rfl).mpr ?_
    refine ⟨hg,hcall,hl,hp,?_,ht⟩
    rw [Nat.add_right_comm,hs]
    rfl
  | release hr hst =>
    obtain ⟨-,hcall,hl,hp,hs,ht⟩ := (Account.sound_some hr).mp ha
    rw [hst] at hcall hl hs
    refine (Account.sound_some rfl).mpr ?_
    exact ⟨fun e he => absurd he.symm (Option.some_ne_none e),hcall,hl,hp,hs,ht⟩
  | lose hr hst =>
    obtain ⟨hg,hcall,hl,hp,hs,ht⟩ := (Account.sound_some hr).mp ha
    rw [hst] at hg hcall hl hs
    refine (Account.sound_some rfl).mpr ?_
    refine ⟨hg,hcall,hl,hp,?_,ht⟩
    rw [Nat.add_right_comm,hs]
    rfl
  | send result hw =>
    cases hr : a.record with
    | none =>
      obtain ⟨-,-,hs,-⟩ := (Account.sound_none hr).mp ha
      omega
    | some r =>
      obtain ⟨hg,hcall,hl,hp,hs,ht⟩ := (Account.sound_some hr).mp ha
      have hone := Bool.toNat_le r.state.ended
      refine (Account.sound_some rfl).mpr ?_
      refine ⟨hg,hcall,hl,hp,?_,?_⟩
      · dsimp only
        omega
      · show a.sent+1 = 1
        omega

/-- A launched or ended reference stays one. -/
theorem Move.passed {a b : Account Options} (h : Move a b) {r : StepRecord Options}
    (hr : a.record = some r) (hp : r.state.holdsCall = false) :
    ∃ r', b.record = some r' ∧ r'.state.holdsCall = false := by
  cases h with
  | rest => exact ⟨r,hr,hp⟩
  | register call hn =>
    rw [hr] at hn
    cases hn
  | claim e hr' hst =>
    obtain rfl := Option.some.inj (hr.symm.trans hr')
    rw [hst] at hp
    cases hp
  | launch hr' hst => exact ⟨_,rfl,rfl⟩
  | providerCall hr' hst hc =>
    obtain rfl := Option.some.inj (hr.symm.trans hr')
    exact ⟨_,rfl,hp⟩
  | complete hr' hst => exact ⟨_,rfl,rfl⟩
  | release hr' hst =>
    obtain rfl := Option.some.inj (hr.symm.trans hr')
    rw [hst] at hp
    cases hp
  | lose hr' hst => exact ⟨_,rfl,rfl⟩
  | send result hw => exact ⟨_,congrArg (Option.map _) hr,hp⟩

/-- A channel that was set is not set again. -/
theorem Move.set_once {a b : Account Options} (h : Move a b) (ha : a.Sound)
    {r : StepRecord Options} {result : CallResult} (hr : a.record = some r)
    (ht : r.terminal = some result) :
    ∃ r', b.record = some r' ∧ r'.terminal = some result := by
  cases h with
  | rest => exact ⟨r,hr,ht⟩
  | register call hn =>
    rw [hr] at hn
    cases hn
  | claim e hr' | launch hr' | providerCall hr' | complete hr' | release hr' | lose hr' =>
    obtain rfl := Option.some.inj (hr.symm.trans hr')
    exact ⟨_,rfl,ht⟩
  | send result' hw =>
    -- the one settlement of the reference is the one that was sent
    obtain ⟨-,-,-,-,hs,hsent⟩ := (Account.sound_some hr).mp ha
    rw [ht] at hsent
    have hone := Bool.toNat_le r.state.ended
    have hset : a.sent = 1 := hsent
    omega

/-- The epochs granted so far. -/
def Host.epochs (h : Host Options) : List ℕ := h.history.filterMap Event.epoch

/-- What an operation does: it moves each reference at most one step, and it leaves the epochs alone or
grants the next one. -/
structure Host.Advances (h h' : Host Options) : Prop where
  moves : ∀ k, Move (h.account k) (h'.account k)
  epochs : h'.epochs = h.epochs ∧ h'.inner.nextEpoch = h.inner.nextEpoch ∨
    h'.epochs = h.epochs ++ [h.inner.nextEpoch+1] ∧ h'.inner.nextEpoch = h.inner.nextEpoch+1

section Step
variable {h h' : Host Options} {reference : StepJobRef}

lemma Event.of_ne {e : Event} {k : StepJobRef} (h : e.reference ≠ k) : e.grantOf k = none ∧
    e.launchOf k = false ∧ e.callOf k = false ∧ e.sendOf k = false := by
  cases e <;> simp_all [reference, grantOf, launchOf, callOf, sendOf]

/-- References that nothing was written or counted for stay as they are. -/
lemma account_frame {k : StepJobRef} {events : List Event} {settlements : List Settlement}
    (hr : h'.inner.records[k]? = h.inner.records[k]?)
    (ho : h'.outbox = h.outbox ++ settlements) (hh : h'.history = h.history ++ events)
    (hm : ∀ m ∈ settlements, m.reference ≠ k) (he : ∀ e ∈ events, e.reference ≠ k) :
    h'.account k = h.account k := by
  have hg : events.filterMap (Event.grantOf k) = [] :=
    List.filterMap_eq_nil_iff.mpr fun e hm => (Event.of_ne (he e hm)).1
  have hl : events.countP (Event.launchOf k) = 0 :=
    List.countP_eq_zero.mpr fun e hm => by simp [(Event.of_ne (he e hm)).2.1]
  have hc : events.countP (Event.callOf k) = 0 :=
    List.countP_eq_zero.mpr fun e hm => by simp [(Event.of_ne (he e hm)).2.2.1]
  have hs : events.countP (Event.sendOf k) = 0 :=
    List.countP_eq_zero.mpr fun e hm => by simp [(Event.of_ne (he e hm)).2.2.2]
  have hw : LocalRunStore.forReference k settlements = 0 :=
    List.countP_eq_zero.mpr fun m hm' => by simp [hm m hm']
  simp only [LocalRunStore.forReference] at hw
  simp only [Host.account, LocalRunStore.forReference, hr, ho, hh, List.filterMap_append,
    List.countP_append, hw, hg, hl, hc, hs, List.append_nil, Nat.add_zero]

/-- An operation that writes one record moves the references as it moves its own. -/
lemma moves_of_write {k : StepJobRef} {record : StepRecord Options} {events : List Event}
    {settlements : List Settlement}
    (hr : h'.inner.records = h.inner.records.insert reference record)
    (ho : h'.outbox = h.outbox ++ settlements) (hh : h'.history = h.history ++ events)
    (hm : ∀ m ∈ settlements, m.reference = reference)
    (he : ∀ e ∈ events, e.reference = reference)
    (hself : Move (h.account reference)
      { record := some record
        granted := (h.account reference).granted ++ events.filterMap (Event.grantOf reference)
        launches := (h.account reference).launches + events.countP (Event.launchOf reference)
        calls := (h.account reference).calls + events.countP (Event.callOf reference)
        waiting := (h.account reference).waiting +
          LocalRunStore.forReference reference settlements
        sent := (h.account reference).sent + events.countP (Event.sendOf reference) }) :
    Move (h.account k) (h'.account k) := by
  by_cases hk : reference = k
  · subst hk
    convert hself using 1
    simp only [Host.account, LocalRunStore.forReference, hr, getElem?_insert_eq, if_pos, ho, hh,
      List.filterMap_append, List.countP_append]
  · rw [account_frame (by rw [hr,getElem?_insert_eq,if_neg hk]) ho hh
      (fun m h => (hm m h).symm ▸ hk) (fun e h => (he e h).symm ▸ hk)]
    exact .rest _

/-- A failed operation does nothing. -/
lemma Host.Advances.rest (hr : h'.inner.records = h.inner.records)
    (hn : h'.inner.nextEpoch = h.inner.nextEpoch) (ho : h'.outbox = h.outbox)
    (hh : h'.history = h.history) : h.Advances h' := by
  refine ⟨fun k => ?_,.inl ⟨by simp only [Host.epochs, hh],hn⟩⟩
  have he : h'.account k = h.account k := by simp only [Host.account, hr, ho, hh]
  rw [he]
  exact .rest _

theorem reconcile_moves (h : Host Options) (k : StepJobRef) : Move (h.account k)
    (Host.account { h with
      inner := (LocalRunStore.reconcileWorkerLoss h.inner).2.2
      outbox := h.outbox ++ (LocalRunStore.reconcileWorkerLoss h.inner).2.1 } k) := by
  obtain ⟨hr,hw⟩ := LocalRunStore.reconcile_spec h.inner k
  simp only [LocalRunStore.forReference] at hw
  simp only [Host.account, LocalRunStore.forReference, List.countP_append, hr, hw]
  cases hrec : h.inner.records[k]? with
  | none => exact .rest _
  | some record =>
    cases hst : record.state with
    | claimed e =>
      simp only [Option.map_some, Option.any_some, StepRecord.fenced, RecordState.isLaunched, hst]
      exact .release rfl hst
    | launched e =>
      simp only [Option.map_some, Option.any_some, StepRecord.fenced, RecordState.isLaunched, hst]
      exact .lose rfl hst
    | _ =>
      simp only [Option.map_some, Option.any_some, StepRecord.fenced, RecordState.isLaunched, hst]
      exact .rest _

lemma send_records (m : Settlement) (s : StoreInner Options) (k : StepJobRef) :
    (LocalRunStore.send m s).records[k]? = if m.reference = k then
      s.records[k]?.map fun r => { r with terminal := some m.result } else s.records[k]? := by
  by_cases hk : m.reference = k
  · subst hk
    rw [if_pos rfl]
    cases hr : s.records[m.reference]? with
    | none => simp only [LocalRunStore.send, hr, Option.map_none]
    | some r =>
      simp only [LocalRunStore.send, hr, LocalRunStore.write, getElem?_insert_eq, if_pos,
        Option.map_some]
  · rw [if_neg hk]
    cases hr : s.records[m.reference]? with
    | none => simp only [LocalRunStore.send, hr]
    | some r => simp only [LocalRunStore.send, hr, LocalRunStore.write, getElem?_insert_eq, if_neg hk]

theorem send_moves {i : ℕ} {m : Settlement} (hi : h.outbox[i]? = some m) (k : StepJobRef) :
    Move (h.account k) (Host.account {
      inner := LocalRunStore.send m h.inner
      outbox := h.outbox.eraseIdx i
      history := h.history ++ [.sent m] } k) := by
  obtain ⟨hlt,rfl⟩ := List.getElem?_eq_some_iff.mp hi
  have hperm := (List.getElem_cons_eraseIdx_perm hlt).countP_eq
    (fun settlement : Settlement => settlement.reference = k)
  rw [List.countP_cons] at hperm
  simp only [Host.account, LocalRunStore.forReference, send_records, List.filterMap_append,
    List.filterMap_cons, List.filterMap_nil, List.append_nil, List.countP_append,
    List.countP_singleton, Event.grantOf, Event.launchOf, Event.callOf, Event.sendOf]
  by_cases hk : h.outbox[i].reference = k
  · simp only [hk, decide_true, if_true] at hperm
    have hwaiting : 0 < (h.account k).waiting :=
      (Nat.succ_pos _).trans_eq hperm
    simp only [hk, decide_true, if_true, Bool.false_eq_true, if_false, Nat.add_zero]
    rw [Nat.eq_sub_of_add_eq hperm]
    exact Move.send h.outbox[i].result hwaiting
  · simp only [hk, decide_false, Bool.false_eq_true, if_false, Nat.add_zero] at hperm
    simp only [hk, decide_false, Bool.false_eq_true, if_false, Nat.add_zero, hperm]
    exact .rest _

lemma send_nextEpoch (m : Settlement) (s : StoreInner Options) :
    (LocalRunStore.send m s).nextEpoch = s.nextEpoch := by
  unfold LocalRunStore.send
  split <;> rfl

variable [BEq Options] [BEq TurnOutcome] {claim : StepClaim}

lemma register_advances {call : LocalStepCall Options}
    (hs : h.step (.register reference call) = some h') : h.Advances h' := by
  cases hr : LocalRunStore.register reference call h.inner with
  | mk answer inner =>
    simp only [Host.step, hr, Option.some.injEq] at hs
    subst hs
    rcases LocalRunStore.register_cases hr with rfl | ⟨hnone,hn,hrec⟩
    · exact .rest rfl rfl rfl rfl
    · refine ⟨fun k => ?_,.inl ⟨rfl,hn⟩⟩
      exact moves_of_write hrec (List.append_nil _).symm (List.append_nil _).symm (by simp)
        (by simp) (by simpa using Move.register call hnone)

lemma claim_advances (hs : h.step (.claim reference) = some h') : h.Advances h' := by
  cases hr : LocalRunStore.claim reference h.inner with
  | mk answer inner =>
    simp only [Host.step, hr] at hs
    rcases LocalRunStore.claim_cases hr with ⟨record,hrec,hst,rfl,hn,hw⟩ | ⟨hno,hn,hw⟩
    · obtain rfl := Option.some.inj hs
      refine ⟨fun k => ?_,.inr ⟨by simp [Host.epochs, Event.epoch],hn⟩⟩
      refine moves_of_write hw (List.append_nil _).symm rfl (by simp) (by simp [Event.reference]) ?_
      simpa [List.filterMap_cons, Event.grantOf, Event.launchOf, Event.callOf, Event.sendOf]
        using Move.claim (a := h.account reference) (h.inner.nextEpoch+1) hrec hst
    · rcases answer with e | (- | c)
      · obtain rfl := Option.some.inj hs
        exact .rest hw hn rfl rfl
      · obtain rfl := Option.some.inj hs
        exact .rest hw hn rfl rfl
      · exact absurd rfl (hno c)

lemma launch_advances (hs : h.step (.launch claim) = some h') : h.Advances h' := by
  cases hr : LocalRunStore.launch claim h.inner with
  | mk answer inner =>
    simp only [Host.step, hr] at hs
    rcases LocalRunStore.launch_cases hr with ⟨record,call,hrec,hst,-,rfl,hn,hw⟩ | ⟨⟨e,rfl⟩,rfl⟩
    · obtain rfl := Option.some.inj hs
      refine ⟨fun k => ?_,.inl ⟨by simp [Host.epochs, Event.epoch],hn⟩⟩
      refine moves_of_write hw (List.append_nil _).symm rfl (by simp) (by simp [Event.reference]) ?_
      simpa [List.filterMap_cons, Event.grantOf, Event.launchOf, Event.callOf, Event.sendOf]
        using Move.launch (a := h.account claim.reference) hrec hst
    · obtain rfl := Option.some.inj hs
      exact .rest rfl rfl rfl rfl

lemma noteProviderCall_advances (hs : h.step (.noteProviderCall claim) = some h') :
    h.Advances h' := by
  cases hr : LocalRunStore.noteProviderCall claim h.inner with
  | mk answer inner =>
    simp only [Host.step, hr] at hs
    rcases LocalRunStore.noteProviderCall_cases hr with
      ⟨record,hrec,hst,hc,rfl,hn,hw⟩ | ⟨⟨e,rfl⟩,rfl⟩
    · obtain rfl := Option.some.inj hs
      refine ⟨fun k => ?_,.inl ⟨by simp [Host.epochs, Event.epoch],hn⟩⟩
      refine moves_of_write hw (List.append_nil _).symm rfl (by simp) (by simp [Event.reference]) ?_
      simpa [List.filterMap_cons, Event.grantOf, Event.launchOf, Event.callOf, Event.sendOf]
        using Move.providerCall (a := h.account claim.reference) hrec hst hc
    · obtain rfl := Option.some.inj hs
      exact .rest rfl rfl rfl rfl

lemma complete_advances {result : CallResult} (hs : h.step (.complete claim result) = some h') :
    h.Advances h' := by
  cases hr : LocalRunStore.complete claim result h.inner with
  | mk answer inner =>
    simp only [Host.step, hr] at hs
    rcases LocalRunStore.complete_cases hr with ⟨record,hrec,hst,rfl,hn,hw⟩ | ⟨⟨e,rfl⟩,rfl⟩
    · obtain rfl := Option.some.inj hs
      refine ⟨fun k => ?_,.inl ⟨rfl,hn⟩⟩
      refine moves_of_write hw rfl (List.append_nil _).symm (by simp) (by simp) ?_
      simpa [LocalRunStore.forReference] using Move.complete hrec hst
    · obtain rfl := Option.some.inj hs
      exact .rest rfl rfl rfl rfl

theorem step_advances {l : Label Options} (hs : h.step l = some h') : h.Advances h' := by
  cases l with
  | register reference call => exact register_advances hs
  | claim reference => exact claim_advances hs
  | launch claim => exact launch_advances hs
  | noteProviderCall claim => exact noteProviderCall_advances hs
  | complete claim result => exact complete_advances hs
  | reconcileWorkerLoss =>
    obtain rfl := Option.some.inj hs
    exact ⟨reconcile_moves h,.inl ⟨rfl,LocalRunStore.reconcile_nextEpoch h.inner⟩⟩
  | send i =>
    simp only [Host.step, Option.map_eq_some_iff] at hs
    obtain ⟨m,hi,rfl⟩ := hs
    exact ⟨send_moves hi,.inl ⟨by simp [Host.epochs, Event.epoch],send_nextEpoch m _⟩⟩

end Step

/-- What every reachable host keeps: each reference is sound, and the epochs granted increase up to
the counter. -/
structure Host.Sound (h : Host Options) : Prop where
  account : ∀ k, (h.account k).Sound
  increasing : h.epochs.Pairwise (· < ·)
  bounded : ∀ e ∈ h.epochs, e ≤ h.inner.nextEpoch

section Run
variable [BEq Options] [BEq TurnOutcome] {h h' : Host Options} {t u : List (Label Options)}

theorem Host.Sound.step {l : Label Options} (hs : h.Sound) (hl : h.step l = some h') :
    h'.Sound := by
  refine ⟨fun k => ((step_advances hl).moves k).sound (hs.account k),?_,?_⟩
  · rcases (step_advances hl).epochs with ⟨he,-⟩ | ⟨he,-⟩
    · rw [he]
      exact hs.increasing
    · rw [he,List.pairwise_append]
      refine ⟨hs.increasing,List.pairwise_singleton _ _,fun a ha b hb => ?_⟩
      obtain rfl := List.mem_singleton.mp hb
      exact Nat.lt_succ_of_le (hs.bounded a ha)
  · rcases (step_advances hl).epochs with ⟨he,hn⟩ | ⟨he,hn⟩
    · rw [he,hn]
      exact hs.bounded
    · rw [he,hn]
      intro e hm
      rcases List.mem_append.mp hm with hm | hm
      · exact (hs.bounded e hm).trans (Nat.le_succ _)
      · exact (List.mem_singleton.mp hm).le

theorem host_sound (ht : (host Options).run t = some h) : h.Sound := by
  refine Machine.invariant (P := fun _ h => h.Sound) ?_ (fun _ _ _ _ _ hs hl => hs.step hl) ht
  refine ⟨fun k => (Account.sound_none ?_).mpr ⟨rfl,rfl,rfl,rfl⟩,List.Pairwise.nil,
    fun e he => absurd he List.not_mem_nil⟩
  exact Std.ExtTreeMap.getElem?_empty

end Run

/-- The record of a claim's reference stands as given, by a claim that was granted. -/
def Host.Holds (h : Host Options) (claim : StepClaim) (state : RecordState) : Prop :=
  (∃ r, h.inner.records[claim.reference]? = some r ∧ r.state = state) ∧
    .granted claim ∈ h.history

/-- What the store promises at a host, for it and for all that follows. -/
structure Fenced [BEq Options] [BEq TurnOutcome] (h : Host Options) : Prop where
  /-- Each reference is launched at most once, has at most one recorded provider call, and its
  terminal channel is set at most once. -/
  once : ∀ k, (h.account k).launches ≤ 1 ∧ (h.account k).calls ≤ 1 ∧ (h.account k).sent ≤ 1
  /-- The epochs of granted claims increase over the store. -/
  increasing : h.epochs.Pairwise (· < ·)
  /-- Operations on a claim succeed only for the current one. -/
  launch : ∀ c call, (LocalRunStore.launch c h.inner).1 = .ok call → h.Holds c (.claimed c.epoch)
  noteProviderCall : ∀ c, (LocalRunStore.noteProviderCall c h.inner).1 = .ok () →
    h.Holds c (.launched c.epoch)
  complete : ∀ c result m, (LocalRunStore.complete c result h.inner).1 = .ok m →
    h.Holds c (.launched c.epoch)
  /-- What is set on a channel stays. -/
  settled : ∀ u h', (host Options).runFrom h u = some h' →
    ∀ (k : StepJobRef) (r : StepRecord Options) (result : CallResult),
    h.inner.records[k]? = some r → r.terminal = some result →
    ∃ r', h'.inner.records[k]? = some r' ∧ r'.terminal = some result
  /-- What is launched, uncertain or terminal is never claimable again. -/
  passed : ∀ u h', (host Options).runFrom h u = some h' →
    ∀ (k : StepJobRef) (r : StepRecord Options) (e : ℕ), h.inner.records[k]? = some r →
    r.state = .launched e ∨ r.state = .uncertain e ∨ r.state = .terminal e →
    (LocalRunStore.claim k h'.inner).1 = .ok none
  /-- Reconciliation makes a claimed reference claimable, with its call. -/
  released : ∀ k r e, h.inner.records[k]? = some r → r.state = .claimed e →
    r.call.isSome = true ∧ k ∈ (LocalRunStore.reconcileWorkerLoss h.inner).1.retryable ∧
    (LocalRunStore.reconcileWorkerLoss h.inner).2.2.records[k]? =
      some { r with state := .pending } ∧
    (h.inner.nextEpoch+1 < 2^64 →
      (LocalRunStore.claim k (LocalRunStore.reconcileWorkerLoss h.inner).2.2).1 =
        .ok (some { reference := k, epoch := h.inner.nextEpoch+1 }))
  /-- A registration that names something else is refused and changes nothing. -/
  collision : ∀ k call r, h.inner.records[k]? = some r → (r.frozen != .forCall call) = true →
    LocalRunStore.register k call h.inner = (.error (.collision k.stepId),h.inner)

section Fenced
variable {h h' : Host Options} {t u : List (Label Options)}

lemma Host.Sound.holds (hs : h.Sound) {c : StepClaim} {r : StepRecord Options}
    {state : RecordState} (hr : h.inner.records[c.reference]? = some r) (hst : r.state = state)
    (he : state.epoch = some c.epoch) : h.Holds c state := by
  refine ⟨⟨r,hr,hst⟩,?_⟩
  have hm : c.epoch ∈ h.history.filterMap (Event.grantOf c.reference) :=
    (hs.account c.reference).current r c.epoch hr (by rw [hst,he])
  obtain ⟨e,hm,hg⟩ := List.mem_filterMap.mp hm
  cases e with
  | granted claim =>
    simp only [Event.grantOf, Option.ite_none_right_eq_some, Option.some.injEq] at hg
    obtain ⟨hr,he⟩ := hg
    have hc : claim = c := by
      cases claim
      cases c
      exact StepClaim.mk.injEq .. ▸ ⟨hr,he⟩
    exact hc ▸ hm
  | launched claim => cases hg
  | providerCalled claim => cases hg
  | sent settlement => cases hg

variable [BEq Options] [BEq TurnOutcome]

/-- What each move keeps of the record of a reference stays through every continuation. -/
lemma Host.Sound.stable (hs : h.Sound) (hu : (host Options).runFrom h u = some h')
    {k : StepJobRef} {P : StepRecord Options → Prop}
    (hP : ∀ {a b : Account Options}, Move a b → a.Sound → ∀ {r}, a.record = some r → P r →
      ∃ r', b.record = some r' ∧ P r')
    {r : StepRecord Options} (hr : h.inner.records[k]? = some r) (hp : P r) :
    ∃ r', h'.inner.records[k]? = some r' ∧ P r' := by
  refine (Machine.stable (t := []) (P := fun _ h => h.Sound ∧
    ∃ r, h.inner.records[k]? = some r ∧ P r) ?_ hu ⟨hs,r,hr,hp⟩).2
  rintro t h l h' ⟨hs,r,hr,hp⟩ hl
  exact ⟨hs.step hl,hP ((step_advances hl).moves k) (hs.account k) hr hp⟩

/-- In every run of any number of workers and coordinators the store keeps its promises. -/
theorem host_fenced (ht : (host Options).run t = some h) : Fenced h := by
  have hs := host_sound ht
  constructor
  · intro k
    obtain ⟨-,-,hl,hc,hw,hsent⟩ := hs.account k
    exact ⟨hl ▸ Bool.toNat_le _,hc ▸ Bool.toNat_le _,hsent ▸ Bool.toNat_le _⟩
  · exact hs.increasing
  · intro c call ha
    cases hc : LocalRunStore.launch c h.inner with
    | mk answer inner =>
      rw [hc] at ha
      rcases LocalRunStore.launch_cases hc with ⟨r,_,hr,hst,-⟩ | ⟨⟨e,rfl⟩,-⟩
      · exact hs.holds hr hst rfl
      · cases ha
  · intro c ha
    cases hc : LocalRunStore.noteProviderCall c h.inner with
    | mk answer inner =>
      rw [hc] at ha
      rcases LocalRunStore.noteProviderCall_cases hc with ⟨r,hr,hst,-⟩ | ⟨⟨e,rfl⟩,-⟩
      · exact hs.holds hr hst rfl
      · cases ha
  · intro c result m ha
    cases hc : LocalRunStore.complete c result h.inner with
    | mk answer inner =>
      rw [hc] at ha
      rcases LocalRunStore.complete_cases hc with ⟨r,hr,hst,-⟩ | ⟨⟨e,rfl⟩,-⟩
      · exact hs.holds hr hst rfl
      · cases ha
  · intro u h' hu k r result hr ht
    exact hs.stable hu (fun hm ha _ => hm.set_once ha) hr ht
  · intro u h' hu k r e hr hst
    have hpassed : r.state.holdsCall = false := by rcases hst with h | h | h <;> rw [h] <;> rfl
    obtain ⟨r',hr',hp⟩ := hs.stable hu (fun hm _ _ => hm.passed) hr hpassed
    exact LocalRunStore.claim_passed hr' hp
  · intro k r e hr hst
    have hcall := (hs.account k).call r hr
    rw [hst] at hcall
    have hrec : (LocalRunStore.reconcileWorkerLoss h.inner).2.2.records[k]? =
        some { r with state := .pending } := by
      rw [(LocalRunStore.reconcile_spec h.inner k).1,hr]
      simp only [Option.map_some, StepRecord.fenced, hst]
    refine ⟨hcall,LocalRunStore.reconcile_retryable hr hst,hrec,fun hn => ?_⟩
    rw [←LocalRunStore.reconcile_nextEpoch] at hn
    rw [LocalRunStore.claim_pending hrec rfl hn,LocalRunStore.reconcile_nextEpoch]
  · intro k call r hr hf
    simp only [LocalRunStore.register, hr, hf, if_true]

end Fenced

/-- A comparison of outcomes by their output. -/
abbrev sameOutput : BEq TurnOutcome := ⟨fun a b => a.output == b.output⟩

def sampleReference : StepJobRef := ⟨1,"run-1","repository-review","v1","architecture"⟩

def sampleCall : LocalStepCall Unit where
  runId := ⟨"run-1",by decide⟩
  workflowId := ⟨"repository-review",by decide⟩
  workflowVersion := ⟨"v1",by decide⟩
  stepId := ⟨"architecture",by decide⟩
  input := { repository := "tower-agent", objective := "repository-review" }
  job := .architecture ()
  dependencies := ∅
  deadline := none

/-- The first worker is lost between its claim and its launch, a second one settles the step. -/
def sampleTrace : List (Label Unit) :=
  [.register sampleReference sampleCall,.claim sampleReference,.claim sampleReference,
    .reconcileWorkerLoss,.claim sampleReference,.launch ⟨sampleReference,1⟩,
    .launch ⟨sampleReference,2⟩,.noteProviderCall ⟨sampleReference,2⟩,
    .complete ⟨sampleReference,2⟩ (.ok { output := "fine" }),.send 0]

theorem host_fenced_sample : ∃ h, (@host Unit _ sameOutput).run sampleTrace = some h ∧
    h.epochs = [1,2] ∧ (h.account sampleReference).launches = 1 ∧
    (h.account sampleReference).sent = 1 ∧ @Fenced Unit _ sameOutput h :=
  ⟨_,rfl,rfl,rfl,rfl,@host_fenced Unit _ sampleTrace _ sameOutput rfl⟩

end TowerAgent.Local
