import TowerAgent.Local.Delivery

/-! What deliveries count on: their operations fail only when the host reconciles under a live
worker, and once every lost worker is reconciled each step that is held has its delivery. -/
namespace TowerAgent.Local
open Kernel Workflow
open Lib (Machine getElem?_insert_eq)

variable {Options : Type}

namespace RecordState

/-- A worker has the step. -/
def held : RecordState → Bool
  | .claimed _ | .launched _ => true
  | .pending | .terminal _ | .uncertain _ => false

end RecordState

namespace DeliveryStage

/-- The state a delivery counts on its record to be in. -/
def owns : DeliveryStage Options → Option RecordState
  | .launching c => some (.claimed c.epoch)
  | .launched c _ _ | .executing c _ | .completing c _ _ => some (.launched c.epoch)
  | .claiming | .finished .. | .skipped | .failed _ | .dropped => none

lemma claim_of_owns {stage : DeliveryStage Options} {state : RecordState}
    (h : stage.owns = some state) : stage.inFlight = true ∧
      ∃ c, stage.claim = some c ∧ state.epoch = some c.epoch ∧ state ≠ .pending := by
  cases stage with
  | launching c | launched c | executing c | completing c =>
    obtain rfl := Option.some.inj h
    exact ⟨rfl,c,rfl,rfl,fun h => by cases h⟩
  | _ => cases h

end DeliveryStage

section Works
variable {h h' : Host Options} {reference : StepJobRef} {result : CallResult}
  {stage stage' : DeliveryStage Options}

/-- A record that a delivery wrote was pending or held under its claim, and is held by it now if it
is held at all. -/
lemma Works.written (hw : Works h reference result stage h' stage')
    (href : ∀ c, stage.claim = some c → c.reference = reference) {k : StepJobRef}
    {r' : StepRecord Options} (hr' : h'.inner.records[k]? = some r') :
    h.inner.records[k]? = some r' ∨ k = reference ∧ r'.state ≠ .pending ∧
      (r'.state.held = true → stage'.owns = some r'.state) ∧ ∃ r, h.inner.records[k]? = some r ∧
        (r.state = .pending ∨ ∃ c, stage.claim = some c ∧ r.state.epoch = some c.epoch) := by
  cases hw with
  | granted found state records =>
    rw [records,getElem?_insert_eq] at hr'
    split at hr'
    · next hk =>
      subst hk
      obtain rfl := Option.some.inj hr'
      exact .inr ⟨rfl,fun h => (by cases h),fun _ => rfl,_,found,.inl state⟩
    · exact .inl hr'
  | launched found state owned records =>
    rw [records,getElem?_insert_eq] at hr'
    split at hr'
    · next hk =>
      subst hk
      obtain rfl := Option.some.inj hr'
      exact .inr ⟨href _ rfl,fun h => (by cases h),fun _ => rfl,_,found,
        .inr ⟨_,rfl,by rw [state]; rfl⟩⟩
    · exact .inl hr'
  | called found state records =>
    rw [records,getElem?_insert_eq] at hr'
    split at hr'
    · next hk =>
      subst hk
      obtain rfl := Option.some.inj hr'
      exact .inr ⟨href _ rfl,fun h => (by cases state.symm.trans h),
        fun _ => congrArg some state.symm,_,found,.inr ⟨_,rfl,by rw [state]; rfl⟩⟩
    · exact .inl hr'
  | completed found state records =>
    rw [records,getElem?_insert_eq] at hr'
    split at hr'
    · next hk =>
      subst hk
      obtain rfl := Option.some.inj hr'
      exact .inr ⟨href _ rfl,fun h => (by cases h),fun h => (by cases h),_,found,
        .inr ⟨_,rfl,by rw [state]; rfl⟩⟩
    · exact .inl hr'
  | skipped found state records => exact .inl (records ▸ hr')
  | unclaimed why records => exact .inl (records ▸ hr')
  | unlaunched | waited | uncalled | uncompleted | executed => exact .inl hr'

/-- What a delivery counts on after an operation, the operation made or left so. -/
lemma Works.owner (hw : Works h reference result stage h' stage')
    (href : ∀ c, stage.claim = some c → c.reference = reference) {state : RecordState}
    (ho : stage'.owns = some state) :
    (∃ r', h'.inner.records[reference]? = some r' ∧ r'.state = state) ∨
      stage.owns = some state ∧ h' = h := by
  cases hw with
  | @granted r h' found state records =>
    obtain rfl := Option.some.inj ho
    refine .inl ⟨{ r with state := .claimed (h.inner.nextEpoch+1) },?_,rfl⟩
    rw [records,getElem?_insert_eq,if_pos rfl]
  | @launched c call wait r h' found state owned records =>
    obtain rfl := Option.some.inj ho
    refine .inl ⟨{ r with call := none, state := .launched c.epoch },?_,rfl⟩
    rw [records,getElem?_insert_eq,if_pos (href c rfl)]
  | @called c call r h' found state records =>
    obtain rfl := Option.some.inj ho
    refine .inl ⟨{ r with providerCallRecorded := true },?_,state⟩
    rw [records,getElem?_insert_eq,if_pos (href c rfl)]
  | waited | executed => exact .inr ⟨ho,rfl⟩
  | completed | skipped | unclaimed | unlaunched | uncalled | uncompleted => cases ho

end Works

section Progress
variable [BEq Options] [BEq TurnOutcome] {quote : String → String} {s s' : Deployment Options}
  {a : Action Options}

/-- The record stands as the delivery counts on. -/
def Delivery.Owns (s : Deployment Options) (x : Delivery Options) : Prop :=
  ∀ state, x.stage.owns = some state → ∃ r, s.record x.reference = some r ∧ r.state = state

/-- A delivery whose record stands as it counts on goes on to hold it. -/
lemma Works.keeps (hs : s.Sound) {x : Delivery Options} (hx : x.Fits s) {result : CallResult}
    {h' : Host Options} {stage' : DeliveryStage Options}
    (hw : Works s.host x.reference result x.stage h' stage') {r : StepRecord Options}
    (hr : s.record x.reference = some r) (ho : x.stage.owns = some r.state) :
    (∀ e, stage' ≠ .failed e) ∧ ∀ r', h'.inner.records[x.reference]? = some r' →
      r'.state.held = true → stage'.owns = some r'.state := by
  have href := fun c hc => (hx.claim c hc).1
  obtain ⟨worker,reference,stage⟩ := x
  dsimp only at hw hr ho href
  cases hw with
  | granted | skipped | unclaimed => cases ho
  | launched found state owned records | called found state records
    | completed found state records =>
    refine ⟨fun e h => (by cases h),fun r' hr' hheld => ?_⟩
    rw [records,←href _ rfl,getElem?_insert_eq,if_pos rfl] at hr'
    obtain rfl := Option.some.inj hr'
    first | rfl | exact congrArg some state.symm | cases hheld
  | waited | executed =>
    refine ⟨fun e h => (by cases h),fun r' hr' _ => ?_⟩
    obtain rfl := Option.some.inj (hr.symm.trans hr')
    exact ho
  | unlaunched why =>
    have hst := Option.some.inj ho
    have hcall := (hs.host.account reference).call r hr
    rw [why r (href _ rfl ▸ hr) hst.symm,←hst] at hcall
    cases hcall
  | @uncalled c call e why =>
    have hst := Option.some.inj ho
    have := hx.uncalled c call .past r rfl hr hst.symm
    rw [why r (href _ rfl ▸ hr) hst.symm] at this
    cases this
  | uncompleted why =>
    have hst := Option.some.inj ho
    have := hx.called r rfl hr
    rw [why r (href _ rfl ▸ hr) hst.symm] at this
    cases this

/-- No other party changes the state of a record that a delivery holds, except by reconciling. -/
lemma Transition.state_kept (h : Transition quote s a s') (hs : s.Sound)
    (hno : a ≠ .reconcileWorkerLoss) {d : ℕ} {x : Delivery Options} {r : StepRecord Options}
    (hx : s.deliveries[d]? = some x) (ha : ∀ result, a ≠ .work d result)
    (hr : s.record x.reference = some r) (ho : x.stage.owns = some r.state) :
    ∃ r', s'.record x.reference = some r' ∧ r'.state = r.state := by
  obtain ⟨r',hr',-⟩ := h.persists hs hr
  refine ⟨r',hr',?_⟩
  have hsame : s.record x.reference = some r' → r'.state = r.state := fun h =>
    congrArg _ (Option.some.inj (h.symm.trans hr))
  cases h with
  | dispatch hstep =>
    rcases (register_frame hstep).2 _ _ hr' with h | ⟨hnone,-⟩
    · exact hsame h
    · cases hnone.symm.trans hr
  | send hstep =>
    obtain ⟨-,m,-,hrec⟩ := send_frame hstep
    obtain ⟨r₀,hr₀,hst,-⟩ := hrec _ _ hr'
    obtain rfl := Option.some.inj (hr₀.symm.trans hr)
    exact hst
  | reconcile => exact absurd rfl hno
  | @work e result y host controls cancelled stage found operation works =>
    have hfit := hs.deliveries y (List.mem_of_getElem? found)
    rcases works.written (fun c hc => (hfit.claim c hc).1) hr' with h | ⟨-,-,-,r₀,hr₀,hwas⟩
    · exact hsame h
    · obtain rfl := Option.some.inj (hr₀.symm.trans hr)
      obtain ⟨-,c,hc,he,hp⟩ := DeliveryStage.claim_of_owns ho
      rcases hwas with hp' | ⟨c',hc',he'⟩
      · exact absurd hp' hp
      · have hepoch := Option.some.inj (he'.symm.trans he)
        obtain rfl := hs.distinct e d y x c' c found hx hc' hc hepoch
        exact absurd rfl (ha result)
  | _ => exact hsame hr'

/-- The host reconciles only when no worker holds a claim. -/
def WorkerGone (s : Deployment Options) : Action Options → Prop
  | .reconcileWorkerLoss => ∀ x ∈ s.deliveries, x.stage.inFlight = true → x.stage.claim = none
  | _ => True

omit [BEq Options] [BEq TurnOutcome] in
instance decidableWorkerGone : DecidablePred (WorkerGone s)
  | .reconcileWorkerLoss => inferInstanceAs (Decidable (∀ x ∈ s.deliveries,
    x.stage.inFlight = true → x.stage.claim = none))
  | .dispatch .. | .enqueue .. | .observe _ | .abandon _ | .requeue .. | .deliver _ | .work ..
    | .send _ | .release _ | .cancel _ | .stop _ | .abort _ => .isTrue trivial

lemma Transition.owns (h : Transition quote s a s') (hs : s.Sound) (hg : WorkerGone s a)
    (ho : ∀ x ∈ s.deliveries, x.Owns s) {x' : Delivery Options} (hm : x' ∈ s'.deliveries) :
    x'.Owns s' := by
  intro state hst
  obtain ⟨d,hd⟩ := List.mem_iff_getElem?.mp hm
  rcases h.delivery_cases hd with ⟨x,hx,href,hcase⟩ | ⟨hclaiming,-⟩
  · have hmem := List.mem_of_getElem? hx
    have hfit := hs.deliveries x hmem
    rcases hcase with ⟨rfl,ha⟩ | hdropped | ⟨result,-,hw⟩
    · obtain ⟨r,hr,rfl⟩ := ho x' hmem state hst
      refine h.state_kept hs ?_ hx ha hr hst
      rintro rfl
      obtain ⟨hin,c,hc,-⟩ := DeliveryStage.claim_of_owns hst
      cases hc.symm.trans (hg x' hmem hin)
    · rw [hdropped] at hst
      cases hst
    · rw [href]
      rcases hw.owner (fun c hc => (hfit.claim c hc).1) hst with hnew | ⟨hold,he⟩
      · exact hnew
      · obtain ⟨r,hr,hrs⟩ := ho x hmem state hold
        exact ⟨r,by rw [Deployment.record,he]; exact hr,hrs⟩
  · rw [hclaiming] at hst
    cases hst

lemma Transition.not_failed (h : Transition quote s a s') (hs : s.Sound)
    (ho : ∀ x ∈ s.deliveries, x.Owns s) (hn : s.host.inner.nextEpoch+1 < 2^64)
    (hf : ∀ x ∈ s.deliveries, ∀ e, x.stage ≠ .failed e) {x' : Delivery Options}
    (hm : x' ∈ s'.deliveries) (e : StoreError) : x'.stage ≠ .failed e := by
  obtain ⟨d,hd⟩ := List.mem_iff_getElem?.mp hm
  rcases h.delivery_cases hd with ⟨x,hx,-,hcase⟩ | ⟨hst,-⟩
  · have hmem := List.mem_of_getElem? hx
    rcases hcase with ⟨rfl,-⟩ | hst | ⟨result,-,hw⟩
    · exact hf x' hmem e
    · exact fun h => by cases hst.symm.trans h
    · have hfit := hs.deliveries x hmem
      cases hown : x.stage.owns with
      | some state =>
        obtain ⟨r,hr,hrs⟩ := ho x hmem state hown
        exact (hw.keeps hs hfit hr (hrs ▸ hown)).1 e
      | none =>
        -- Only a delivery that still has to claim counts on nothing.
        intro hfail
        rw [hfail] at hw
        obtain ⟨r,hr⟩ := hfit.registered
        obtain ⟨worker,reference,stage⟩ := x
        dsimp only at hw hown hr
        generalize s'.host = host' at hw
        cases hw with
        | unclaimed why =>
          rcases why with hnone | hover
          · cases hnone.symm.trans hr
          · exact absurd hover (not_le.mpr hn)
        | unlaunched | uncalled | uncompleted => cases hown
  · exact fun h => by cases hst.symm.trans h

lemma Transition.nextEpoch_succ (h : Transition quote s a s') :
    s'.host.inner.nextEpoch ≤ s.host.inner.nextEpoch+1 := by
  rcases h.advances.epochs with ⟨-,hn⟩ | ⟨-,hn⟩
  · exact hn ▸ Nat.le_succ _
  · exact hn.le

lemma nextEpoch_le_length {t : List (Action Options)}
    (ht : (Deployment.transport Options quote).run t = some s) :
    s.host.inner.nextEpoch ≤ t.length := by
  refine Machine.invariant (P := fun t s => s.host.inner.nextEpoch ≤ t.length) (Nat.zero_le _) ?_ ht
  intro t s a s' _ hle h
  rw [List.length_append,List.length_singleton]
  exact (step_transition h).nextEpoch_succ.trans (Nat.succ_le_succ hle)

/-- Claims fence off lost workers only: as long as the host reconciles only after workers that are
gone, no operation of any delivery fails, whatever is delivered twice, lost, stopped or replayed. -/
theorem deliveries_succeed {t : List (Action Options)}
    (ht : (Deployment.transport Options quote).run t = some s)
    (hg : (Deployment.transport Options quote).Guarded WorkerGone t) (hlen : t.length < 2^64) :
    ∀ x ∈ s.deliveries, ∀ e, x.stage ≠ .failed e := by
  have hinv : t.length < 2^64 → (∀ x ∈ s.deliveries, x.Owns s) ∧
      ∀ x ∈ s.deliveries, ∀ e, x.stage ≠ .failed e := by
    refine Machine.invariant_guarded (P := fun t s => t.length < 2^64 →
      (∀ x ∈ s.deliveries, x.Owns s) ∧ ∀ x ∈ s.deliveries, ∀ e, x.stage ≠ .failed e)
      (fun _ => ⟨fun _ h => (by cases h),fun _ h => (by cases h)⟩) ?_ ht hg
    intro t s a s' ht ih hg h hlen
    rw [List.length_append,List.length_singleton] at hlen
    obtain ⟨ho,hf⟩ := ih (Nat.lt_of_succ_lt hlen)
    have hs := transport_sound ht
    have h := step_transition h
    have hn := (Nat.succ_le_succ (nextEpoch_le_length ht)).trans_lt hlen
    exact ⟨fun x hx => h.owns hs hg ho hx,fun x hx => h.not_failed hs ho hn hf hx⟩
  exact (hinv hlen).2

omit [BEq TurnOutcome] in
theorem deliveries_succeed_sample : ∃ s,
    (@Deployment.transport Unit _ sameOutput id).run replayTrace = some s ∧
    s.deliveries.length = 5 ∧ ∀ x ∈ s.deliveries, ∀ e, x.stage ≠ .failed e := by
  have hguard : (@Deployment.transport Unit _ sameOutput id).Guarded WorkerGone replayTrace := by
    decide +kernel
  have hrun : ((@Deployment.transport Unit _ sameOutput id).run replayTrace).any
      (fun s => s.deliveries.length = 5) = true := by decide +kernel
  obtain ⟨s,hs,hlen⟩ := (Option.any_eq_true _ _).mp hrun
  exact ⟨s,hs,of_decide_eq_true hlen,
    @deliveries_succeed Unit _ sameOutput id s replayTrace hs hguard (by decide)⟩

/-- Every step that a worker has is a delivery's. -/
def Deployment.Attended (s : Deployment Options) : Prop :=
  ∀ k r, s.record k = some r → r.state.held = true →
    ∃ x ∈ s.deliveries, x.reference = k ∧ x.stage.owns = some r.state

omit [BEq Options] [BEq TurnOutcome] in
lemma mem_moveDelivery {d : ℕ} {x : Delivery Options} {stage : DeliveryStage Options}
    (hx : s.deliveries[d]? = some x) :
    { x with stage := stage } ∈ (s.moveDelivery d stage).deliveries := by
  refine List.mem_of_getElem? (i := d) ?_
  rw [Deployment.moveDelivery,List.getElem?_modify_eq,hx]
  rfl

omit [BEq Options] [BEq TurnOutcome] in
lemma mem_moveDelivery_of_ne {d e : ℕ} {x : Delivery Options} {stage : DeliveryStage Options}
    (hx : s.deliveries[e]? = some x) (hne : d ≠ e) : x ∈ (s.moveDelivery d stage).deliveries := by
  refine List.mem_of_getElem? (i := e) ?_
  rw [Deployment.moveDelivery,List.getElem?_modify_ne _ _ hne]
  exact hx

/-- Reconciling leaves no worker anything, so only a lost worker leaves a step unattended. -/
lemma Transition.attended (h : Transition quote s a s') (hs : s.Sound)
    (ha : s.Attended ∨ a = .reconcileWorkerLoss) (hno : ∀ w, a ≠ .abort w) : s'.Attended := by
  intro k r' hr' hheld
  cases h with
  | reconcile hstep =>
    rw [Deployment.record,(reconcile_frame hstep).2] at hr'
    obtain ⟨r,-,rfl⟩ := Option.map_eq_some_iff.mp hr'
    unfold StepRecord.fenced at hheld
    split at hheld
    · cases hheld
    · cases hheld
    · next hp => rw [hp] at hheld; cases hheld
    · next hp => rw [hp] at hheld; cases hheld
    · next hp => rw [hp] at hheld; cases hheld
  | abort => exact absurd rfl (hno _)
  | dispatch hstep =>
    have ha := ha.resolve_right (by simp)
    rcases (register_frame hstep).2 _ _ hr' with hr | ⟨-,hp,-⟩
    · exact ha k r' hr hheld
    · rw [hp] at hheld
      cases hheld
  | send hstep =>
    have ha := ha.resolve_right (by simp)
    obtain ⟨-,m,-,hrec⟩ := send_frame hstep
    obtain ⟨r,hr,hst,-⟩ := hrec _ _ hr'
    obtain ⟨x,hx,hk,ho⟩ := ha k r hr (hst ▸ hheld)
    exact ⟨x,hx,hk,hst ▸ ho⟩
  | @work d result y host controls cancelled stage found operation works =>
    have ha := ha.resolve_right (by simp)
    have hfit := hs.deliveries y (List.mem_of_getElem? found)
    rcases works.written (fun c hc => (hfit.claim c hc).1) hr' with hr | ⟨hk,-,ho,-⟩
    · obtain ⟨x,hx,hk,ho⟩ := ha k r' hr hheld
      obtain ⟨e,he⟩ := List.mem_iff_getElem?.mp hx
      by_cases hde : d = e
      · subst hde
        obtain rfl := Option.some.inj (found.symm.trans he)
        have hown := (works.keeps hs hfit (hk ▸ hr) ho).2 r' (hk ▸ hr') hheld
        exact ⟨_,mem_moveDelivery (s := { s with host, controls, cancelled }) found,hk,hown⟩
      · exact ⟨x,mem_moveDelivery_of_ne (s := { s with host, controls, cancelled }) he hde,hk,ho⟩
    · exact ⟨_,mem_moveDelivery (s := { s with host, controls, cancelled }) found,hk.symm,ho hheld⟩
  | deliver =>
    obtain ⟨x,hx,hk⟩ := ha.resolve_right (by simp) k r' hr' hheld
    exact ⟨x,List.mem_append_left _ hx,hk⟩
  | _ => exact ha.resolve_right (by simp) k r' hr' hheld

/-- Every lost worker was reconciled. -/
def Recovered (t : List (Action Options)) : Prop :=
  ∀ before w after, t = before ++ .abort w::after → .reconcileWorkerLoss ∈ after

omit [BEq Options] [BEq TurnOutcome] in
lemma recovered_concat (t : List (Action Options)) :
    Recovered (t ++ [.reconcileWorkerLoss]) := by
  intro before w after h
  rcases List.eq_nil_or_concat after with rfl | ⟨l,a,rfl⟩
  · cases (List.append_inj' h rfl).2
  · have h : t ++ [.reconcileWorkerLoss] = (before ++ .abort w::l) ++ [a] := by simpa using h
    obtain rfl := List.singleton_inj.mp (List.append_inj' h rfl).2
    simp

lemma attended_of_recovered {t : List (Action Options)}
    (ht : (Deployment.transport Options quote).run t = some s) (hrec : Recovered t) :
    s.Attended := by
  refine Machine.invariant (P := fun t s => Recovered t → s.Attended) ?_ ?_ ht hrec
  · intro _ k r hr
    cases (record_start k).symm.trans hr
  · intro t s a s' ht ih h hrec
    have hlast : ∀ w, a ≠ .abort w := by
      rintro w rfl
      cases hrec t w [] rfl
    refine (step_transition h).attended (transport_sound ht) ?_ hlast
    by_cases ha : a = .reconcileWorkerLoss
    · exact .inr ha
    · refine .inl (ih fun before w after ht => ?_)
      have hmem := hrec before w (after ++ [a]) (by rw [ht,List.append_assoc]; rfl)
      rcases List.mem_append.mp hmem with h | h
      · exact h
      · exact absurd (List.mem_singleton.mp h).symm ha

end Progress

end TowerAgent.Local
