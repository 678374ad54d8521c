import TowerAgent.Local.Transport

/-! What every run of the transport keeps: which claims its deliveries hold, what stands in the
records they hold, and that a dispatcher is answered with the one result of its reference. -/
namespace TowerAgent.Local
open Kernel Workflow
open Lib (Machine getElem?_insert_eq)

variable {Options : Type}

/-- What later states keep of a record. -/
structure StepRecord.Persists (r r' : StepRecord Options) : Prop where
  frozen : r'.frozen = r.frozen
  recorded : r.providerCallRecorded = true → r'.providerCallRecorded = true
  terminal : ∀ result, r.terminal = some result → r'.terminal = some result
  passed : r.state.holdsCall = false →
    r'.state.holdsCall = false ∧ r'.state.epoch = r.state.epoch

lemma StepRecord.Persists.refl (r : StepRecord Options) : r.Persists r :=
  ⟨rfl,id,fun _ => id,fun h => ⟨h,rfl⟩⟩

/-- The call a record holds is the one it froze, and only launched calls reach a provider. -/
structure StepRecord.Coherent (r : StepRecord Options) : Prop where
  call : ∀ call, r.call = some call → r.frozen = .forCall call
  recorded : r.providerCallRecorded = true → r.state.holdsCall = false

section Move
variable {a b : Account Options} {r r' : StepRecord Options}

lemma Move.persists (h : Move a b) (ha : a.Sound) (hr : a.record = some r) :
    ∃ r', b.record = some r' ∧ r.Persists r' := by
  have hset : ∀ result, r.terminal = some result →
      ∃ r', b.record = some r' ∧ r'.terminal = some result := fun _ ht => h.set_once ha hr ht
  cases h with
  | rest => exact ⟨r,hr,.refl r⟩
  | register call hn =>
    rw [hr] at hn
    cases hn
  | providerCall hr' =>
    obtain rfl := Option.some.inj (hr.symm.trans hr')
    exact ⟨_,rfl,rfl,fun _ => rfl,fun _ => id,fun h => ⟨h,rfl⟩⟩
  | claim e hr' hst | launch hr' hst | release hr' hst =>
    obtain rfl := Option.some.inj (hr.symm.trans hr')
    refine ⟨_,rfl,rfl,id,fun _ => id,fun h => ?_⟩
    rw [hst] at h
    cases h
  | complete hr' hst | lose hr' hst =>
    obtain rfl := Option.some.inj (hr.symm.trans hr')
    exact ⟨_,rfl,rfl,id,fun _ => id,fun _ => ⟨rfl,by rw [hst]; rfl⟩⟩
  | send result hw =>
    refine ⟨_,congrArg (Option.map _) hr,rfl,id,fun result' ht => ?_,fun h => ⟨h,rfl⟩⟩
    obtain ⟨r',hr',ht'⟩ := hset result' ht
    obtain rfl := Option.some.inj ((congrArg (Option.map _) hr).symm.trans hr')
    exact ht'

lemma Move.coherent (h : Move a b) (ha : ∀ r, a.record = some r → r.Coherent) :
    ∀ r, b.record = some r → r.Coherent := by
  intro r hb
  cases h with
  | rest => exact ha r hb
  | register call hn =>
    obtain rfl := Option.some.inj hb
    refine ⟨fun call' h => ?_,fun h => by cases h⟩
    obtain rfl := Option.some.inj h
    rfl
  | claim e hr hs =>
    obtain rfl := Option.some.inj hb
    refine ⟨(ha _ hr).call,fun h => ?_⟩
    have := (ha _ hr).recorded h
    rw [hs] at this
    cases this
  | launch hr hs =>
    obtain rfl := Option.some.inj hb
    exact ⟨fun _ h => (by cases h),fun _ => rfl⟩
  | providerCall hr hs =>
    obtain rfl := Option.some.inj hb
    exact ⟨(ha _ hr).call,fun _ => by rw [hs]; rfl⟩
  | complete hr hs | lose hr hs =>
    obtain rfl := Option.some.inj hb
    exact ⟨(ha _ hr).call,fun _ => rfl⟩
  | release hr hs =>
    obtain rfl := Option.some.inj hb
    refine ⟨(ha _ hr).call,fun h => ?_⟩
    have := (ha _ hr).recorded h
    rw [hs] at this
    cases this
  | send result hw =>
    obtain ⟨r',hr,rfl⟩ := Option.map_eq_some_iff.mp hb
    exact ⟨(ha _ hr).call,(ha _ hr).recorded⟩

end Move

namespace DeliveryStage

/-- The call that a delivery has taken over from its record. -/
def call : DeliveryStage Options → Option (LocalStepCall Options)
  | .launched _ call _ | .executing _ call | .completing _ call _ | .finished _ call _ => some call
  | .claiming | .launching _ | .skipped | .failed _ | .dropped => none

/-- The provider call of a delivery has been noted. -/
def called : DeliveryStage Options → Bool
  | .executing .. | .completing .. | .finished .. => true
  | .claiming | .launching _ | .launched .. | .skipped | .failed _ | .dropped => false

end DeliveryStage

namespace Deployment
variable (s : Deployment Options)

/-- The record of a reference. -/
abbrev record (k : StepJobRef) : Option (StepRecord Options) := s.host.inner.records[k]?

/-- What a channel may be set to: the loss of its worker, or the result of a delivery that finished
the step. -/
def Valid (k : StepJobRef) (result : CallResult) : Prop :=
  result = .error (LocalRunStore.lost k) ∨ ∃ x ∈ s.deliveries, x.reference = k ∧
    ∃ c call, x.stage = .finished c call result

end Deployment

/-- What holds of a delivery and the record of its reference. -/
structure Delivery.Fits (s : Deployment Options) (x : Delivery Options) : Prop where
  registered : ∃ r, s.record x.reference = some r
  claim : ∀ c, x.stage.claim = some c →
    c.reference = x.reference ∧ c.epoch ≤ s.host.inner.nextEpoch
  call : ∀ call r, x.stage.call = some call → s.record x.reference = some r →
    r.frozen = .forCall call
  uncalled : ∀ c call wait r, x.stage = .launched c call wait → s.record x.reference = some r →
    r.state = .launched c.epoch → r.providerCallRecorded = false
  called : ∀ r, x.stage.called = true → s.record x.reference = some r →
    r.providerCallRecorded = true
  passed : ∀ c r, x.stage.call.isSome = true → x.stage.claim = some c →
    s.record x.reference = some r → r.state.holdsCall = false ∧ r.state.epoch = some c.epoch

/-- A delivery without a claim only has to be of a reference with a record. -/
lemma Delivery.Fits.idle {s : Deployment Options} {x : Delivery Options}
    (hr : ∃ r, s.record x.reference = some r) (hc : x.stage.claim = none) : x.Fits s := by
  obtain ⟨worker,reference,stage⟩ := x
  cases stage with
  | claiming | skipped | failed | dropped =>
    exact ⟨hr,fun _ h => (by cases h),fun _ _ h => (by cases h),fun _ _ _ _ h => (by cases h),
      fun _ h => (by cases h),fun _ _ h => (by cases h)⟩
  | _ => cases hc

section Agrees
variable [BEq Options] [BEq TurnOutcome]

/-- What was frozen stands for the call it was taken from and for those that compare equal. -/
def FrozenStepCall.StandsFor (frozen : FrozenStepCall Options) (call : LocalStepCall Options) :
    Prop := frozen = .forCall call ∨ (frozen != .forCall call) = false

/-- What holds of a dispatcher that was not refused. -/
def Dispatcher.Agrees (s : Deployment Options) (x : Dispatcher Options) : Prop :=
  (∃ error, x.stage = .refused error) ∨
    ∃ r, s.record (.forCall x.call) = some r ∧ r.frozen.StandsFor x.call ∧
      ∀ result, x.stage = .settled result → r.terminal = some result

/-- What every state of the transport keeps. -/
structure Deployment.Sound (s : Deployment Options) : Prop where
  host : s.host.Sound
  coherent : ∀ k r, s.record k = some r → r.Coherent
  jobs : ∀ job ∈ s.jobs, ∃ r, s.record job.reference = some r
  dispatchers : ∀ x ∈ s.dispatchers, x.Agrees s
  deliveries : ∀ x ∈ s.deliveries, x.Fits s
  distinct : ∀ (d d' : ℕ) (x x' : Delivery Options) (c c' : StepClaim),
    s.deliveries[d]? = some x → s.deliveries[d']? = some x' → x.stage.claim = some c →
    x'.stage.claim = some c' → c.epoch = c'.epoch → d = d'
  outbox : ∀ m ∈ s.host.outbox, s.Valid m.reference m.result
  terminal : ∀ k r result, s.record k = some r → r.terminal = some result → s.Valid k result

end Agrees

lemma Works.inFlight {h h' : Host Options} {reference : StepJobRef} {result : CallResult}
    {stage stage' : DeliveryStage Options} (hw : Works h reference result stage h' stage') :
    stage.inFlight = true := by
  cases hw <;> rfl

section Works
variable {h h' : Host Options} {reference : StepJobRef} {result : CallResult}
  {stage stage' : DeliveryStage Options}

/-- A claim is kept or is the one just granted. -/
lemma Works.claim_cases (hw : Works h reference result stage h' stage') {c : StepClaim}
    (hc : stage'.claim = some c) : stage.claim = some c ∨
      c = ⟨reference,h.inner.nextEpoch+1⟩ ∧ h'.inner.nextEpoch = h.inner.nextEpoch+1 := by
  cases hw with
  | granted found state records epoch =>
    exact .inr ⟨(Option.some.inj hc).symm,epoch⟩
  | launched | waited | called | executed | completed => exact .inl hc
  | skipped | unclaimed | unlaunched | uncalled | uncompleted => cases hc

/-- A delivery writes the record it works on, and keeps its channel. -/
lemma Works.record_cases (hw : Works h reference result stage h' stage') {k : StepJobRef}
    {r' : StepRecord Options} (hr : h'.inner.records[k]? = some r') :
    h.inner.records[k]? = some r' ∨ ∃ r, h.inner.records[k]? = some r ∧
      r'.terminal = r.terminal ∧ ∀ e, r'.state = .launched e → ∃ c, stage.claim = some c ∧
        c.epoch = e := by
  cases hw with
  | granted found state records | completed found state records =>
    rw [records,getElem?_insert_eq] at hr
    split at hr
    · next hk =>
      subst hk
      obtain rfl := Option.some.inj hr
      exact .inr ⟨_,found,rfl,fun _ he => (by cases he)⟩
    · exact .inl hr
  | launched found state owned records =>
    rw [records,getElem?_insert_eq] at hr
    split at hr
    · next hk =>
      subst hk
      obtain rfl := Option.some.inj hr
      exact .inr ⟨_,found,rfl,fun _ he => ⟨_,rfl,RecordState.launched.inj he⟩⟩
    · exact .inl hr
  | called found state records =>
    rw [records,getElem?_insert_eq] at hr
    split at hr
    · next hk =>
      subst hk
      obtain rfl := Option.some.inj hr
      exact .inr ⟨_,found,rfl,fun _ he => ⟨_,rfl,RecordState.launched.inj (state.symm.trans he)⟩⟩
    · exact .inl hr
  | skipped found state records => exact .inl (records ▸ hr)
  | unclaimed why records => exact .inl (records ▸ hr)
  | unlaunched | waited | uncalled | uncompleted | executed => exact .inl hr

/-- The call of a delivery is the one its record held, which then stands as launched. -/
lemma Works.call_cases (hw : Works h reference result stage h' stage')
    {call : LocalStepCall Options} (hc : stage'.call = some call) :
    stage.call = some call ∧ stage'.claim = stage.claim ∨ ∃ c r r', stage'.claim = some c ∧
      stage.claim = some c ∧ h.inner.records[c.reference]? = some r ∧ r.call = some call ∧
      h'.inner.records[c.reference]? = some r' ∧ r'.state = .launched c.epoch := by
  cases hw with
  | @launched c call wait r h' found state owned records =>
    obtain rfl := Option.some.inj hc
    refine .inr ⟨c,r,{ r with call := none, state := .launched c.epoch },rfl,rfl,found,owned,?_,
      rfl⟩
    rw [records,getElem?_insert_eq,if_pos rfl]
  | waited | called | executed | completed => exact .inl ⟨hc,rfl⟩
  | granted | skipped | unclaimed | unlaunched | uncalled | uncompleted => cases hc

lemma Works.called_cases (hw : Works h reference result stage h' stage')
    (hc : stage'.called = true) : stage.called = true ∨ ∃ c r', stage.claim = some c ∧
      h'.inner.records[c.reference]? = some r' ∧ r'.providerCallRecorded = true := by
  cases hw with
  | @called c call r h' found state records =>
    refine .inr ⟨c,{ r with providerCallRecorded := true },rfl,?_,rfl⟩
    rw [records,getElem?_insert_eq,if_pos rfl]
  | executed | completed => exact .inl hc
  | waited => cases hc
  | granted | launched | skipped | unclaimed | unlaunched | uncalled | uncompleted => cases hc

/-- A delivery before its provider call has just launched its step, or waited and left the store as
it was. -/
lemma Works.launched_cases (hw : Works h reference result stage h' stage') {c : StepClaim}
    {call : LocalStepCall Options} {wait : RootWait} (hst : stage' = .launched c call wait) :
    (∃ wait₀, stage = .launched c call wait₀ ∧ h' = h) ∨ stage.claim = some c ∧
      ∃ r r', h.inner.records[c.reference]? = some r ∧ r.state = .claimed c.epoch ∧
        h'.inner.records[c.reference]? = some r' ∧
        r'.providerCallRecorded = r.providerCallRecorded := by
  cases hw with
  | @launched c call wait r h' found state owned records =>
    obtain ⟨rfl,rfl,rfl⟩ := DeliveryStage.launched.inj hst
    refine .inr ⟨rfl,r,{ r with call := none, state := .launched c.epoch },found,state,?_,rfl⟩
    rw [records,getElem?_insert_eq,if_pos rfl]
  | @waited c call wait₀ =>
    obtain ⟨rfl,rfl,rfl⟩ := DeliveryStage.launched.inj hst
    exact .inl ⟨wait₀,rfl,rfl⟩
  | granted | called | executed | completed | skipped | unclaimed | unlaunched | uncalled |
      uncompleted => cases hst

end Works

section Reconcile
variable {r : LocalRunStore.Reconciling Options} {m : Settlement}

lemma fence_settlements {reference : StepJobRef} {record : StepRecord Options}
    (hm : m ∈ (LocalRunStore.fence r reference record).settlements) :
    m ∈ r.settlements ∨ m.result = .error (LocalRunStore.lost m.reference) := by
  unfold LocalRunStore.fence at hm
  split at hm
  · exact .inl hm
  · refine (List.mem_append.mp hm).imp_right fun hm => ?_
    obtain rfl := List.mem_singleton.mp hm
    rfl
  · exact .inl hm
  · exact .inl hm
  · exact .inl hm

lemma foldl_fence_settlements {l : List (StepJobRef × StepRecord Options)}
    (hm : m ∈ (l.foldl (fun r e => LocalRunStore.fence r e.1 e.2) r).settlements) :
    m ∈ r.settlements ∨ m.result = .error (LocalRunStore.lost m.reference) := by
  induction l generalizing r with
  | nil => exact .inl hm
  | cons e l ih =>
    rcases ih hm with hm | hm
    · exact fence_settlements hm
    · exact .inr hm

end Reconcile

section Host
variable [BEq Options] [BEq TurnOutcome] {h h' : Host Options} {reference : StepJobRef}
  {call : LocalStepCall Options}

lemma register_frame (hs : h.step (.register reference call) = some h') :
    h'.outbox = h.outbox ∧ ∀ (k : StepJobRef) (r' : StepRecord Options),
      h'.inner.records[k]? = some r' → h.inner.records[k]? = some r' ∨
        h.inner.records[k]? = none ∧ r'.state = .pending ∧ r'.terminal = none := by
  cases hr : LocalRunStore.register reference call h.inner with
  | mk answer inner =>
    simp only [Host.step, hr, Option.some.injEq] at hs
    subst hs
    refine ⟨rfl,fun k r' hk => ?_⟩
    rcases LocalRunStore.register_cases hr with rfl | ⟨hnone,-,hrec⟩
    · exact .inl hk
    · dsimp only at hk
      rw [hrec,getElem?_insert_eq] at hk
      split at hk
      · next he =>
        obtain rfl := Option.some.inj hk
        exact .inr ⟨he ▸ hnone,rfl,rfl⟩
      · exact .inl hk

/-- After a registration that is not refused there is a record that stands for the call. -/
lemma register_standsFor (hs : h.step (.register reference call) = some h') :
    (∃ e, (LocalRunStore.register reference call h.inner).1 = .error e) ∨
      ∃ r, h'.inner.records[reference]? = some r ∧ r.frozen.StandsFor call := by
  cases hr : h.inner.records[reference]? with
  | none =>
    simp only [Host.step, LocalRunStore.register, hr, Option.some.injEq] at hs
    subst hs
    refine .inr ⟨{ call := some call, frozen := .forCall call, state := .pending },?_,.inl rfl⟩
    simp only [LocalRunStore.write, getElem?_insert_eq, if_pos]
  | some r =>
    cases hf : r.frozen != FrozenStepCall.forCall call with
    | true => exact .inl ⟨.collision reference.stepId,by
        simp only [LocalRunStore.register, hr, hf, if_true]⟩
    | false =>
      simp only [Host.step, LocalRunStore.register, hr, hf, Bool.false_eq_true, if_false,
        Option.some.injEq] at hs
      subst hs
      exact .inr ⟨r,hr,.inr hf⟩

lemma send_frame {n : ℕ} (hs : h.step (.send n) = some h') : h'.outbox = h.outbox.eraseIdx n ∧
    ∃ m ∈ h.outbox, ∀ (k : StepJobRef) (r' : StepRecord Options),
      h'.inner.records[k]? = some r' → ∃ r, h.inner.records[k]? = some r ∧ r'.state = r.state ∧
      r'.providerCallRecorded = r.providerCallRecorded ∧
      (r'.terminal = r.terminal ∨ m.reference = k ∧ r'.terminal = some m.result) := by
  simp only [Host.step, Option.map_eq_some_iff] at hs
  obtain ⟨m,hm,rfl⟩ := hs
  refine ⟨rfl,m,List.mem_of_getElem? hm,fun k r' hk => ?_⟩
  rw [send_records] at hk
  split at hk
  · next he =>
    obtain ⟨r,hr,rfl⟩ := Option.map_eq_some_iff.mp hk
    exact ⟨r,hr,rfl,rfl,.inr ⟨he,rfl⟩⟩
  · exact ⟨r',hk,rfl,rfl,.inl rfl⟩

lemma reconcile_frame (hs : h.step .reconcileWorkerLoss = some h') :
    (∀ m ∈ h'.outbox, m ∈ h.outbox ∨ m.result = .error (LocalRunStore.lost m.reference)) ∧
      ∀ k : StepJobRef, h'.inner.records[k]? = h.inner.records[k]?.map StepRecord.fenced := by
  obtain rfl := Option.some.inj hs
  refine ⟨fun m hm => ?_,fun k => (LocalRunStore.reconcile_spec h.inner k).1⟩
  refine (List.mem_append.mp hm).imp_right fun hm => ?_
  exact (foldl_fence_settlements hm).resolve_left (by simp)

end Host

section Step
variable [BEq Options] [BEq TurnOutcome] {quote : String → String} {s s' : Deployment Options}
  {a : Action Options}

/-- The store only sees its own operations and sends. -/
lemma Transition.host_cases (h : Transition quote s a s') :
    s'.host = s.host ∨ ∃ l, s.host.step l = some s'.host := by
  cases h with
  | dispatch hs | send hs | reconcile hs => exact .inr ⟨_,hs⟩
  | work found operation works => exact operation
  | _ => exact .inl rfl

/-- Whatever an action does, it moves each reference by at most one step. -/
lemma Transition.advances (h : Transition quote s a s') : s.host.Advances s'.host := by
  rcases h.host_cases with he | ⟨l,hl⟩
  · exact he ▸ .rest rfl rfl rfl rfl
  · exact step_advances hl

lemma Transition.persists (h : Transition quote s a s') (hs : s.Sound) {k : StepJobRef}
    {r : StepRecord Options} (hr : s.record k = some r) :
    ∃ r', s'.record k = some r' ∧ r.Persists r' :=
  (h.advances.moves k).persists (hs.host.account k) hr

lemma Transition.nextEpoch_le (h : Transition quote s a s') :
    s.host.inner.nextEpoch ≤ s'.host.inner.nextEpoch := by
  rcases h.advances.epochs with ⟨-,hn⟩ | ⟨-,hn⟩
  · exact hn.ge
  · exact hn ▸ Nat.le_succ _

/-- Where a delivery of the next state comes from: it is as before or was dropped, it worked, or it
is new. -/
lemma Transition.delivery_cases (h : Transition quote s a s') {d : ℕ} {x' : Delivery Options}
    (hd : s'.deliveries[d]? = some x') :
    (∃ x, s.deliveries[d]? = some x ∧ x'.reference = x.reference ∧
      (x' = x ∧ (∀ result, a ≠ .work d result) ∨ x'.stage = .dropped ∨ ∃ result,
        a = .work d result ∧ Works s.host x.reference result x.stage s'.host x'.stage)) ∨
    x'.stage = .claiming ∧ ∃ j job, a = .deliver j ∧ s.jobs[j]? = some job ∧
      x'.reference = job.reference := by
  cases h with
  | @deliver j job found room =>
    rw [List.getElem?_append] at hd
    split at hd
    · exact .inl ⟨x',hd,rfl,.inl ⟨rfl,fun _ => by simp⟩⟩
    · rw [List.getElem?_singleton] at hd
      split at hd
      · obtain rfl := Option.some.inj hd
        exact .inr ⟨rfl,j,job,rfl,found,rfl⟩
      · cases hd
  | @work e result x host controls cancelled stage found operation works =>
    by_cases he : e = d
    · subst he
      rw [Deployment.moveDelivery,List.getElem?_modify_eq,found] at hd
      obtain rfl := Option.some.inj hd
      exact .inl ⟨x,found,rfl,.inr (.inr ⟨result,rfl,works⟩)⟩
    · rw [Deployment.moveDelivery,List.getElem?_modify_ne _ _ he] at hd
      exact .inl ⟨x',hd,rfl,.inl ⟨rfl,fun _ h => he (Action.work.inj h).1⟩⟩
  | abort =>
    simp only [Deployment.dropDeliveries, List.getElem?_map, Option.map_eq_some_iff] at hd
    obtain ⟨x,hx,rfl⟩ := hd
    refine .inl ⟨x,hx,?_⟩
    split
    · exact ⟨rfl,.inr (.inl rfl)⟩
    · exact ⟨rfl,.inl ⟨rfl,fun _ => by simp⟩⟩
  | _ => exact .inl ⟨x',hd,rfl,.inl ⟨rfl,fun _ => by simp⟩⟩

/-- A delivery at its end stays there. -/
lemma Transition.ended (h : Transition quote s a s') {x : Delivery Options}
    (hx : x ∈ s.deliveries) (he : x.stage.inFlight = false) : x ∈ s'.deliveries := by
  cases h with
  | deliver => exact List.mem_append_left _ hx
  | @work e result y host controls cancelled stage found operation works =>
    obtain ⟨d,hd⟩ := List.mem_iff_getElem?.mp hx
    refine List.mem_of_getElem? (i := d) ?_
    have hne : e ≠ d := by
      rintro rfl
      obtain rfl := Option.some.inj (found.symm.trans hd)
      exact Bool.false_ne_true (he.symm.trans works.inFlight)
    rw [Deployment.moveDelivery,List.getElem?_modify_ne _ _ hne]
    exact hd
  | abort =>
    refine List.mem_map.mpr ⟨x,hx,?_⟩
    rw [if_neg (by simp [he])]
  | _ => exact hx

lemma Transition.valid (h : Transition quote s a s') {k : StepJobRef} {result : CallResult}
    (hv : s.Valid k result) : s'.Valid k result := by
  refine hv.imp_right ?_
  rintro ⟨x,hx,hk,c,call,hst⟩
  exact ⟨x,h.ended hx (by rw [hst]; rfl),hk,c,call,hst⟩

lemma Transition.claim_cases (h : Transition quote s a s') {d : ℕ} {x' : Delivery Options}
    {c : StepClaim} (hd : s'.deliveries[d]? = some x') (hc : x'.stage.claim = some c) :
    (∃ x, s.deliveries[d]? = some x ∧ x'.reference = x.reference ∧ x.stage.claim = some c) ∨
      c = ⟨x'.reference,s.host.inner.nextEpoch+1⟩ ∧
        s'.host.inner.nextEpoch = s.host.inner.nextEpoch+1 ∧ ∃ result, a = .work d result := by
  rcases h.delivery_cases hd with ⟨x,hx,hr,hcase⟩ | ⟨hst,-⟩
  · rcases hcase with ⟨rfl,-⟩ | hst | ⟨result,ha,hw⟩
    · exact .inl ⟨x',hx,rfl,hc⟩
    · rw [hst] at hc
      cases hc
    · rcases hw.claim_cases hc with hc | ⟨hc,hn⟩
      · exact .inl ⟨x,hx,hr,hc⟩
      · exact .inr ⟨hr ▸ hc,hn,result,ha⟩
  · rw [hst] at hc
    cases hc

/-- Two deliveries never hold claims of one epoch: a new claim has an epoch above all others. -/
lemma Transition.distinct (h : Transition quote s a s') (hs : s.Sound) {d d' : ℕ}
    {x x' : Delivery Options} {c c' : StepClaim} (hd : s'.deliveries[d]? = some x)
    (hd' : s'.deliveries[d']? = some x') (hc : x.stage.claim = some c)
    (hc' : x'.stage.claim = some c') (he : c.epoch = c'.epoch) : d = d' := by
  have hbound : ∀ {d : ℕ} {x : Delivery Options} {c : StepClaim}, s.deliveries[d]? = some x →
      x.stage.claim = some c → c.epoch ≤ s.host.inner.nextEpoch := fun hx hc =>
    ((hs.deliveries _ (List.mem_of_getElem? hx)).claim _ hc).2
  rcases h.claim_cases hd hc with ⟨y,hy,-,hyc⟩ | ⟨rfl,-,result,ha⟩
  · rcases h.claim_cases hd' hc' with ⟨y',hy',-,hyc'⟩ | ⟨rfl,-⟩
    · exact hs.distinct d d' y y' c c' hy hy' hyc hyc' he
    · have := hbound hy hyc
      dsimp only at he
      omega
  · rcases h.claim_cases hd' hc' with ⟨y',hy',-,hyc'⟩ | ⟨-,-,result',ha'⟩
    · have := hbound hy' hyc'
      dsimp only at he
      omega
    · exact (Action.work.inj (ha.symm.trans ha')).1

/-- A delivery that has not called its provider is still the one to do so. -/
lemma Transition.uncalled (h : Transition quote s a s') (hs : s.Sound) {d : ℕ}
    {x : Delivery Options} {c : StepClaim} {call : LocalStepCall Options} {wait : RootWait}
    {r' : StepRecord Options} (hx : s.deliveries[d]? = some x) (hst : x.stage = .launched c call wait)
    (ha : ∀ result, a ≠ .work d result) (hr' : s'.record x.reference = some r')
    (hl : r'.state = .launched c.epoch) : r'.providerCallRecorded = false := by
  have hfit := hs.deliveries x (List.mem_of_getElem? hx)
  have hsame : s.record x.reference = some r' → r'.providerCallRecorded = false := fun hr =>
    hfit.uncalled c call wait r' hst hr hl
  cases h with
  | dispatch hstep =>
    rcases (register_frame hstep).2 _ _ hr' with hr | ⟨hnone,-⟩
    · exact hsame hr
    · obtain ⟨r,hr⟩ := hfit.registered
      cases hnone.symm.trans hr
  | send hstep =>
    obtain ⟨-,m,-,hrec⟩ := send_frame hstep
    obtain ⟨r,hr,hstate,hcall,-⟩ := hrec _ _ hr'
    rw [hcall]
    exact hfit.uncalled c call wait r hst hr (hstate ▸ hl)
  | reconcile hstep =>
    rw [Deployment.record,(reconcile_frame hstep).2] at hr'
    obtain ⟨r,-,rfl⟩ := Option.map_eq_some_iff.mp hr'
    unfold StepRecord.fenced at hl
    split at hl
    · cases hl
    · cases hl
    · next hp => cases hp.symm.trans hl
    · next hp => cases hp.symm.trans hl
    · next hp => cases hp.symm.trans hl
  | @work e result y host controls cancelled stage found operation works =>
    rcases works.record_cases hr' with hr | ⟨r,hr,-,hclaim⟩
    · exact hsame hr
    · -- The delivery that wrote the record holds the claim that this one holds.
      obtain ⟨c',hc',he⟩ := hclaim _ hl
      have hc : x.stage.claim = some c := by rw [hst]; rfl
      obtain rfl := hs.distinct e d y x c' c found hx hc' hc he
      exact absurd rfl (ha result)
  | _ => exact hsame hr'

lemma Transition.fits_work (h : Transition quote s a s') (hs : s.Sound) {x x' : Delivery Options}
    {result : CallResult} (hx : x.Fits s) (hr : x'.reference = x.reference)
    (hw : Works s.host x.reference result x.stage s'.host x'.stage) : x'.Fits s' := by
  obtain ⟨r,hrec⟩ := hx.registered
  obtain ⟨r',hrec',hkeep⟩ := h.persists hs hrec
  have hthe : ∀ r'', s'.record x'.reference = some r'' → r'' = r' := fun r'' h'' =>
    Option.some.inj (h''.symm.trans (hr ▸ hrec'))
  have href : ∀ {c}, x.stage.claim = some c → c.reference = x.reference := fun hc =>
    (hx.claim _ hc).1
  refine ⟨⟨r',hr ▸ hrec'⟩,fun c hc => ?_,fun call r'' hc h'' => ?_,
    fun c call wait r'' hst h'' hl => ?_,fun r'' hc h'' => ?_,fun c r'' hc hclaim' h'' => ?_⟩
  · rcases hw.claim_cases hc with hc | ⟨rfl,hn⟩
    · exact ⟨(href hc).trans hr.symm,(hx.claim c hc).2.trans h.nextEpoch_le⟩
    · exact ⟨hr.symm,hn.ge⟩
  · obtain rfl := hthe r'' h''
    rw [hkeep.frozen]
    rcases hw.call_cases hc with ⟨hc,-⟩ | ⟨c,r₀,-,-,hclaim,hr₀,hcall,-⟩
    · exact hx.call call r hc hrec
    · obtain rfl := Option.some.inj (hrec.symm.trans (href hclaim ▸ hr₀))
      exact (hs.coherent _ r hrec).call call hcall
  · obtain rfl := hthe r'' h''
    rcases hw.launched_cases hst with ⟨wait₀,hst₀,hsame⟩ | ⟨hclaim,r₀,r₁,hr₀,hst₀,hr₁,hsame⟩
    · rw [Deployment.record,hsame] at hrec'
      exact hx.uncalled c call wait₀ r'' hst₀ hrec' hl
    · obtain rfl := Option.some.inj (hrec.symm.trans (href hclaim ▸ hr₀))
      obtain rfl := Option.some.inj (hrec'.symm.trans (href hclaim ▸ hr₁))
      rw [hsame]
      by_contra hcalled
      have := (hs.coherent _ r hrec).recorded (Bool.not_eq_false _ ▸ hcalled)
      rw [hst₀] at this
      cases this
  · obtain rfl := hthe r'' h''
    rcases hw.called_cases hc with hc | ⟨c,r₁,hclaim,hr₁,hcalled⟩
    · exact hkeep.recorded (hx.called r hc hrec)
    · obtain rfl := Option.some.inj (hrec'.symm.trans (href hclaim ▸ hr₁))
      exact hcalled
  · obtain rfl := hthe r'' h''
    obtain ⟨call,hc⟩ := Option.isSome_iff_exists.mp hc
    rcases hw.call_cases hc with ⟨hc,hsame⟩ | ⟨c₁,-,r₁,hclaim₁,hclaim,-,-,hr₁,hst₁⟩
    · obtain ⟨hp,he⟩ := hx.passed c r (by rw [hc]; rfl) (hsame ▸ hclaim') hrec
      exact ⟨(hkeep.passed hp).1,(hkeep.passed hp).2.trans he⟩
    · obtain rfl := Option.some.inj (hrec'.symm.trans (href hclaim ▸ hr₁))
      obtain rfl := Option.some.inj (hclaim₁.symm.trans hclaim')
      rw [hst₁]
      exact ⟨rfl,rfl⟩

lemma Transition.fits (h : Transition quote s a s') (hs : s.Sound) {x' : Delivery Options}
    (hm : x' ∈ s'.deliveries) : x'.Fits s' := by
  obtain ⟨d,hd⟩ := List.mem_iff_getElem?.mp hm
  rcases h.delivery_cases hd with ⟨x,hx,hr,hcase⟩ | ⟨hst,j,job,rfl,hj,hr⟩
  · have hfit := hs.deliveries x (List.mem_of_getElem? hx)
    obtain ⟨r,hrec⟩ := hfit.registered
    obtain ⟨r',hrec',hkeep⟩ := h.persists hs hrec
    rcases hcase with ⟨rfl,ha⟩ | hst | ⟨result,-,hw⟩
    · have hthe : ∀ r'', s'.record x'.reference = some r'' → r'' = r' := fun r'' h'' =>
        Option.some.inj (h''.symm.trans hrec')
      refine ⟨⟨r',hrec'⟩,fun c hc => (hfit.claim c hc).imp_right (·.trans h.nextEpoch_le),
        fun call r'' hc h'' => ?_,fun c call wait r'' hst h'' hl => h.uncalled hs hx hst ha h'' hl,
        fun r'' hc h'' => ?_,fun c r'' hc hclaim h'' => ?_⟩
      · obtain rfl := hthe r'' h''
        exact hkeep.frozen.trans (hfit.call call r hc hrec)
      · obtain rfl := hthe r'' h''
        exact hkeep.recorded (hfit.called r hc hrec)
      · obtain rfl := hthe r'' h''
        obtain ⟨hp,he⟩ := hfit.passed c r hc hclaim hrec
        exact ⟨(hkeep.passed hp).1,(hkeep.passed hp).2.trans he⟩
    · exact .idle ⟨r',hr ▸ hrec'⟩ (by rw [hst]; rfl)
    · exact h.fits_work hs hfit hr hw
  · obtain ⟨r,hrec⟩ := hs.jobs job (List.mem_of_getElem? hj)
    obtain ⟨r',hrec',-⟩ := h.persists hs hrec
    exact .idle ⟨r',hr ▸ hrec'⟩ (by rw [hst]; rfl)

lemma Dispatcher.Agrees.later {x : Dispatcher Options} (hx : x.Agrees s)
    (h : Transition quote s a s') (hs : s.Sound) : x.Agrees s' := by
  refine hx.imp_right ?_
  rintro ⟨r,hr,hstands,hset⟩
  obtain ⟨r',hr',hkeep⟩ := h.persists hs hr
  refine ⟨r',hr',?_,fun result hst => hkeep.terminal result (hset result hst)⟩
  rw [hkeep.frozen]
  exact hstands

/-- A dispatcher that was not refused stays on its record when it moves on. -/
lemma Dispatcher.Agrees.moved {x : Dispatcher Options} {stage : DispatcherStage}
    (hx : x.Agrees s) (hin : ∀ error, x.stage ≠ .refused error)
    (hset : ∀ result, stage = .settled result → ∀ r, s.record (.forCall x.call) = some r →
      r.terminal = some result) : Dispatcher.Agrees s { x with stage := stage } := by
  obtain ⟨r,hr,hstands,-⟩ := hx.resolve_left fun ⟨error,he⟩ => hin error he
  exact .inr ⟨r,hr,hstands,fun result hst => hset result hst r hr⟩

omit [BEq Options] [BEq TurnOutcome] in
lemma mem_moveDispatcher {i : ℕ} {x x' : Dispatcher Options} {stage : DispatcherStage}
    (hx : s.dispatchers[i]? = some x) (hm : x' ∈ (s.moveDispatcher i stage).dispatchers) :
    x' ∈ s.dispatchers ∨ x' = { x with stage := stage } := by
  obtain ⟨j,hj⟩ := List.mem_iff_getElem?.mp hm
  by_cases hij : i = j
  · subst hij
    rw [Deployment.moveDispatcher,List.getElem?_modify_eq,hx] at hj
    exact .inr (Option.some.inj hj).symm
  · rw [Deployment.moveDispatcher,List.getElem?_modify_ne _ _ hij] at hj
    exact .inl (List.mem_of_getElem? hj)

lemma Transition.agrees (h : Transition quote s a s') (hs : s.Sound) {x' : Dispatcher Options}
    (hm : x' ∈ s'.dispatchers) : x'.Agrees s' := by
  have hold : x' ∈ s.dispatchers → x'.Agrees s' := fun hx => (hs.dispatchers x' hx).later h hs
  cases h with
  | dispatch hstep answer =>
    rcases List.mem_append.mp hm with hx | hx
    · exact hold hx
    · obtain rfl := List.mem_singleton.mp hx
      rcases register_standsFor hstep with ⟨e,he⟩ | ⟨r,hr,hstands⟩
      · exact .inl ⟨_,by rw [answer,he]; rfl⟩
      · refine .inr ⟨r,hr,hstands,fun result hset => ?_⟩
        rw [answer] at hset
        revert hset
        rcases (LocalRunStore.register _ _ s.host.inner).1 with e | (_ | _) <;> intro hset <;>
          cases hset
  | closed found =>
    rcases mem_moveDispatcher found hm with hx | rfl
    · exact hold hx
    · exact .inl ⟨_,rfl⟩
  | @enqueue i closed x more found stage =>
    rcases mem_moveDispatcher found hm with hx | rfl
    · exact hold hx
    · refine (hs.dispatchers _ (List.mem_of_getElem? found)).moved (by simp [stage]) ?_
      intro result hst
      cases more <;> cases hst
  | observe found stage record terminal =>
    rcases mem_moveDispatcher found hm with hx | rfl
    · exact hold hx
    · refine (hs.dispatchers _ (List.mem_of_getElem? found)).moved (by simp [stage]) ?_
      intro result hst r hr
      obtain rfl := DispatcherStage.settled.inj hst
      obtain rfl := Option.some.inj (record.symm.trans hr)
      exact terminal
  | abandon found stage =>
    rcases mem_moveDispatcher found hm with hx | rfl
    · exact hold hx
    · refine (hs.dispatchers _ (List.mem_of_getElem? found)).moved (fun error he => ?_)
        fun result hst => (by cases hst)
      rcases stage with hst | ⟨more,hst⟩ <;> cases hst.symm.trans he
  | _ => exact hold hm

lemma Transition.job_registered (h : Transition quote s a s') (hs : s.Sound) {job : Job}
    (hm : job ∈ s'.jobs) : ∃ r, s'.record job.reference = some r := by
  have hkeep : (∃ r, s.record job.reference = some r) → ∃ r, s'.record job.reference = some r :=
    fun ⟨r,hr⟩ => (h.persists hs hr).imp fun _ h => h.1
  have hold : job ∈ s.jobs → ∃ r, s'.record job.reference = some r := fun hj =>
    hkeep (hs.jobs job hj)
  cases h with
  | enqueue found stage present =>
    rcases List.mem_append.mp hm with hj | hj
    · exact hold hj
    · obtain rfl := List.mem_singleton.mp hj
      obtain ⟨error,he⟩ | ⟨r,hr,-⟩ := hs.dispatchers _ (List.mem_of_getElem? found)
      · cases stage.symm.trans he
      · exact ⟨r,hr⟩
  | requeue present record =>
    rcases List.mem_append.mp hm with hj | hj
    · exact hold hj
    · obtain rfl := List.mem_singleton.mp hj
      exact ⟨_,record⟩
  | deliver found => exact hold (List.mem_of_mem_eraseIdx hm)
  | stop | abort => exact hold (List.mem_filter.mp hm).1
  | _ => exact hold hm

/-- What is to be sent was sent for before, is the loss of a worker, or ends the delivery that
completed its step. -/
lemma Transition.outbox_valid (h : Transition quote s a s') (hs : s.Sound) {m : Settlement}
    (hm : m ∈ s'.host.outbox) : s'.Valid m.reference m.result := by
  have hold : m ∈ s.host.outbox → s'.Valid m.reference m.result := fun hm =>
    h.valid (hs.outbox m hm)
  cases h with
  | dispatch hstep =>
    rw [(register_frame hstep).1] at hm
    exact hold hm
  | send hstep =>
    rw [(send_frame hstep).1] at hm
    exact hold (List.mem_of_mem_eraseIdx hm)
  | reconcile hstep =>
    rcases (reconcile_frame hstep).1 m hm with hm | hlost
    · exact hold hm
    · exact .inl hlost
  | @work d result x host controls cancelled stage found operation works =>
    have hfit := hs.deliveries x (List.mem_of_getElem? found)
    obtain ⟨worker,reference,stage₀⟩ := x
    cases works with
    | granted found state records epoch outbox | skipped found state records epoch outbox
      | unclaimed why records epoch outbox | launched found state owned records epoch outbox
      | called found state records epoch outbox => exact hold (outbox ▸ hm)
    | @completed c call outcome r host found' state records epoch outbox =>
      have houtbox : (Deployment.moveDelivery { s with host, controls, cancelled } d
          (.finished c call outcome)).host.outbox = s.host.outbox ++ [⟨c.reference,outcome⟩] := outbox
      rw [houtbox] at hm
      rcases List.mem_append.mp hm with hm | hm
      · exact hold hm
      · obtain rfl := List.mem_singleton.mp hm
        refine .inr ⟨⟨worker,reference,.finished c call outcome⟩,?_,
          (hfit.claim c rfl).1.symm,c,call,rfl⟩
        refine List.mem_of_getElem? (i := d) ?_
        rw [Deployment.moveDelivery,List.getElem?_modify_eq,found]
        rfl
    | unlaunched | waited | uncalled | executed | uncompleted => exact hold hm
  | _ => exact hold hm

lemma Transition.terminal_valid (h : Transition quote s a s') (hs : s.Sound) {k : StepJobRef}
    {r' : StepRecord Options} {result : CallResult} (hr' : s'.record k = some r')
    (ht : r'.terminal = some result) : s'.Valid k result := by
  have hvalid : ∀ {k}, s.Valid k result → s'.Valid k result := h.valid
  have hold : ∀ {r}, s.record k = some r → r.terminal = some result → s'.Valid k result :=
    fun hr ht => hvalid (hs.terminal k _ result hr ht)
  cases h with
  | dispatch hstep =>
    rcases (register_frame hstep).2 k r' hr' with hr | ⟨-,-,hn⟩
    · exact hold hr ht
    · cases hn.symm.trans ht
  | send hstep =>
    obtain ⟨-,m,hm,hrec⟩ := send_frame hstep
    obtain ⟨r,hr,-,-,hsame | ⟨rfl,hset⟩⟩ := hrec k r' hr'
    · exact hold hr (hsame ▸ ht)
    · obtain rfl := Option.some.inj (hset.symm.trans ht)
      exact hvalid (hs.outbox m hm)
  | reconcile hstep =>
    rw [Deployment.record,(reconcile_frame hstep).2] at hr'
    obtain ⟨r,hr,rfl⟩ := Option.map_eq_some_iff.mp hr'
    refine hold hr ?_
    unfold StepRecord.fenced at ht
    split at ht <;> exact ht
  | work found operation works =>
    rcases works.record_cases hr' with hr | ⟨r,hr,hsame,-⟩
    · exact hold hr ht
    · exact hold hr (hsame ▸ ht)
  | _ => exact hold hr' ht

theorem Deployment.Sound.step (hs : s.Sound) (h : s.step quote a = some s') : s'.Sound := by
  have h := step_transition h
  refine ⟨?_,fun k r hr => ?_,fun _ => h.job_registered hs,fun _ => h.agrees hs,fun _ => h.fits hs,
    fun _ _ _ _ _ _ => h.distinct hs,fun _ => h.outbox_valid hs,fun _ _ _ => h.terminal_valid hs⟩
  · rcases h.host_cases with he | ⟨l,hl⟩
    · exact he ▸ hs.host
    · exact hs.host.step hl
  · exact (h.advances.moves k).coherent (hs.coherent k) r hr

end Step

section Run
variable [BEq Options] [BEq TurnOutcome] {quote : String → String} {s : Deployment Options}
  {t : List (Action Options)}

omit [BEq Options] [BEq TurnOutcome] in
lemma record_start (k : StepJobRef) : Deployment.record ({} : Deployment Options) k = none :=
  Std.ExtTreeMap.getElem?_empty

theorem transport_sound (ht : (Deployment.transport Options quote).run t = some s) : s.Sound := by
  refine Machine.invariant (P := fun _ s => s.Sound) ?_ (fun _ _ _ _ _ hs h => hs.step h) ht
  refine ⟨host_sound (t := []) rfl,fun k r hr => ?_,fun _ h => (by cases h),fun _ h => (by cases h),
    fun _ h => (by cases h),fun _ _ _ _ _ _ h => (by cases h),fun _ h => (by cases h),
    fun k r _ hr => ?_⟩
  · cases (record_start k).symm.trans hr
  · cases (record_start k).symm.trans hr

end Run

def sampleResult : CallResult := .ok { output := "fine" }

/-- The other root of the run. -/
def sampleVerification : LocalStepCall Unit :=
  { sampleCall with stepId := ⟨"verification",by decide⟩, job := .verification () }

/-- A dispatcher and its replay: the first worker is lost between its claim and its launch. The
second one has both roots meet at its gate and wait for the release, settles them, and finds the
other delivery of each taken. -/
def replayTrace : List (Action Unit) :=
  [.dispatch 0 sampleCall,.enqueue 0 "",.enqueue 0 "",.deliver 0,.work 0 sampleResult,.abort 0,
    .reconcileWorkerLoss,.dispatch 1 sampleCall,.enqueue 1 "",.enqueue 1 "",
    .dispatch 1 sampleVerification,.enqueue 2 "",.enqueue 2 "",.deliver 0,.deliver 0,.deliver 0,
    .deliver 0,.work 1 sampleResult,.work 2 sampleResult,.work 3 sampleResult,.work 4 sampleResult,
    .work 1 sampleResult,.work 3 sampleResult,.work 1 sampleResult,.work 3 sampleResult,
    .work 1 sampleResult,.work 3 sampleResult,.release 1,.work 1 sampleResult,.work 3 sampleResult,
    .work 1 sampleResult,.work 3 sampleResult,.work 1 sampleResult,.work 3 sampleResult,
    .work 1 sampleResult,.work 3 sampleResult,.send 0,.send 0,.observe 0,.observe 1,.observe 2]

end TowerAgent.Local
