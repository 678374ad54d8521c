import TowerAgent.Local.Progress
import Mathlib.Algebra.GroupWithZero.Nat

/-! Replay: a dispatcher called once every lost worker was reconciled is answered, in boundedly many
steps of the parties, as long as nothing more is lost. -/
namespace TowerAgent.Local
open Kernel Workflow
open Lib (Machine getElem?_insert_eq)

section Replay
variable {Options : Type} [BEq Options] [BEq TurnOutcome] {quote : String → String}
  {s s' : Deployment Options} {a : Action Options}

/-- A pending step is in a queue or about to be claimed. -/
def Deployment.Queued (s : Deployment Options) (k : StepJobRef) : Prop :=
  ∀ r, s.record k = some r → r.state = .pending → (∃ job ∈ s.jobs, job.reference = k) ∨
    ∃ x ∈ s.deliveries, x.reference = k ∧ x.stage = .claiming

/-- Nothing is lost, and the dispatcher is not given up. -/
def Undisturbed (i : ℕ) : Action Options → Prop
  | .stop _ | .abort _ | .reconcileWorkerLoss => False
  | .abandon j => j ≠ i
  | _ => True

lemma Transition.queued (h : Transition quote s a s') (hs : s.Sound) {i : ℕ}
    (hu : Undisturbed i a) (hn : s.host.inner.nextEpoch+1 < 2^64) {k : StepJobRef}
    (hreg : ∃ r, s.record k = some r) (hq : s.Queued k) : s'.Queued k := by
  intro r' hr' hp
  cases h with
  | dispatch hstep =>
    rcases (register_frame hstep).2 _ _ hr' with hr | ⟨hnone,-⟩
    · exact hq r' hr hp
    · obtain ⟨r,hr⟩ := hreg
      cases hnone.symm.trans hr
  | send hstep =>
    obtain ⟨-,m,-,hrec⟩ := send_frame hstep
    obtain ⟨r,hr,hst,-⟩ := hrec _ _ hr'
    exact hq r hr (hst ▸ hp)
  | enqueue | requeue =>
    refine (hq r' hr' hp).imp_left ?_
    rintro ⟨job,hj,hk⟩
    exact ⟨job,List.mem_append_left _ hj,hk⟩
  | @deliver j job found room =>
    rcases hq r' hr' hp with ⟨job',hj,hk⟩ | ⟨x,hx,hk⟩
    · obtain ⟨l,hl⟩ := List.mem_iff_getElem?.mp hj
      by_cases hjl : l = j
      · subst hjl
        obtain rfl := Option.some.inj (found.symm.trans hl)
        exact .inr ⟨_,List.mem_append_right _ List.mem_cons_self,hk,rfl⟩
      · exact .inl ⟨job',List.mem_eraseIdx_iff_getElem?.mpr ⟨l,hjl,hl⟩,hk⟩
    · exact .inr ⟨x,List.mem_append_left _ hx,hk⟩
  | @work d result y host controls cancelled stage found operation works =>
    have hfit := hs.deliveries y (List.mem_of_getElem? found)
    rcases works.written (fun c hc => (hfit.claim c hc).1) hr' with hr | ⟨-,hne,-⟩
    · refine (hq r' hr hp).imp_right ?_
      rintro ⟨x,hx,hk,hst⟩
      obtain ⟨e,he⟩ := List.mem_iff_getElem?.mp hx
      by_cases hde : d = e
      · subst hde
        obtain rfl := Option.some.inj (found.symm.trans he)
        rw [hst] at works
        -- The delivery would have been granted the pending step.
        cases works with
        | granted found' state records =>
          have hr' : host.inner.records[k]? = some r' := hr'
          rw [records,getElem?_insert_eq,if_pos hk] at hr'
          obtain rfl := Option.some.inj hr'
          cases hp
        | skipped found' state =>
          obtain rfl := Option.some.inj (found'.symm.trans (hk ▸ hr))
          exact absurd hp state
        | unclaimed why =>
          rcases why with hnone | hover
          · cases hnone.symm.trans (hk ▸ hr)
          · exact absurd hover (not_le.mpr hn)
      · exact ⟨x,mem_moveDelivery_of_ne (s := { s with host, controls, cancelled }) he hde,hk,hst⟩
    · exact absurd hp hne
  | stop | abort | reconcile => exact hu.elim
  | _ => exact hq r' hr' hp

/-- The dispatcher still has its first send to make, or its step is looked after, or it was
answered. -/
def Deployment.Serves (s : Deployment Options) (i worker : ℕ) (call : LocalStepCall Options) :
    Prop :=
  ∃ stage, s.dispatchers[i]? = some ⟨worker,call,stage⟩ ∧ (stage = .enqueueing true ∨
    (stage = .enqueueing false ∨ stage = .waiting) ∧ s.Queued (.forCall call) ∨
    ∃ result, stage = .settled result)

/-- What an undisturbed action does to a dispatcher. -/
lemma Transition.dispatcher_cases (h : Transition quote s a s') {i : ℕ} (hu : Undisturbed i a)
    {x : Dispatcher Options} (hx : s.dispatchers[i]? = some x) (hopen : x.worker ∉ s.gone) :
    s'.dispatchers[i]? = some x ∨
    (∃ more, x.stage = .enqueueing more ∧
      s'.dispatchers[i]? = some { x with stage := if more then .enqueueing false else .waiting } ∧
      ∃ job ∈ s'.jobs, job.reference = .forCall x.call) ∨
    x.stage = .waiting ∧
      ∃ result, s'.dispatchers[i]? = some { x with stage := .settled result } := by
  have hmove : ∀ {j : ℕ} {y : Dispatcher Options} (stage : DispatcherStage),
      s.dispatchers[j]? = some y → (s.moveDispatcher j stage).dispatchers[i]? = some x ∨
        j = i ∧ y = x ∧ (s.moveDispatcher j stage).dispatchers[i]? =
          some { x with stage := stage } := by
    intro j y stage hy
    by_cases hji : j = i
    · subst hji
      obtain rfl := Option.some.inj (hy.symm.trans hx)
      refine .inr ⟨rfl,rfl,?_⟩
      rw [Deployment.moveDispatcher,List.getElem?_modify_eq,hy]
      rfl
    · refine .inl ?_
      rw [Deployment.moveDispatcher,List.getElem?_modify_ne _ _ hji]
      exact hx
  cases h with
  | dispatch => exact .inl (List.getElem?_append_left (List.getElem?_eq_some_iff.mp hx).1 ▸ hx)
  | closed found stage gone =>
    rcases hmove _ found with h | ⟨rfl,rfl,-⟩
    · exact .inl h
    · exact absurd gone hopen
  | @enqueue j closed y more found stage present =>
    rcases hmove (if more then .enqueueing false else .waiting) found with
      h | ⟨rfl,rfl,h⟩
    · exact .inl h
    · exact .inr (.inl ⟨more,stage,h,_,List.mem_append_right _ List.mem_cons_self,rfl⟩)
  | @observe j y r result found stage =>
    rcases hmove (.settled result) found with h | ⟨rfl,rfl,h⟩
    · exact .inl h
    · exact .inr (.inr ⟨stage,result,h⟩)
  | abandon found =>
    rcases hmove .dropped found with h | ⟨rfl,-⟩
    · exact .inl h
    · exact absurd rfl hu
  | _ => exact .inl hx

lemma Transition.serves (h : Transition quote s a s') (hs : s.Sound) {i worker : ℕ}
    {call : LocalStepCall Options} (hu : Undisturbed i a) (hn : s.host.inner.nextEpoch+1 < 2^64)
    (hopen : worker ∉ s.gone) (hv : s.Serves i worker call) : s'.Serves i worker call := by
  obtain ⟨stage,hi,hcase⟩ := hv
  have hqueue : (∀ error, stage ≠ .refused error) → s.Queued (.forCall call) →
      s'.Queued (.forCall call) := by
    intro hin hq
    obtain ⟨error,he⟩ | ⟨r,hr,-⟩ := hs.dispatchers _ (List.mem_of_getElem? hi)
    · exact absurd he (hin error)
    · exact h.queued hs hu hn ⟨r,hr⟩ hq
  rcases h.dispatcher_cases hu hi hopen with h' | ⟨more,hst,h',hjob⟩ | ⟨hst,result,h'⟩
  · refine ⟨stage,h',hcase.imp_right (Or.imp_left ?_)⟩
    rintro ⟨hst,hq⟩
    exact ⟨hst,hqueue (by rcases hst with rfl | rfl <;> simp) hq⟩
  · refine ⟨_,h',.inr (.inl ⟨?_,fun _ _ _ => .inl hjob⟩)⟩
    cases more
    · exact .inr rfl
    · exact .inl rfl
  · exact ⟨_,h',.inr (.inr ⟨result,rfl⟩)⟩

/-- What the parties do by themselves. -/
def Action.productive : Action Options → Bool
  | .enqueue .. | .observe _ | .deliver _ | .work .. | .send _ => true
  | .dispatch .. | .abandon _ | .requeue .. | .release _ | .cancel _ | .stop _ | .abort _
    | .reconcileWorkerLoss => false

/-- A delivery at its gate that neither the gate nor a cancellation lets go on. -/
def Delivery.Held (s : Deployment Options) (x : Delivery Options) : Prop :=
  x.worker ∉ s.gone ∧ x.reference ∉ s.cancelled ∧ ∃ c call wait,
    x.stage = .launched c call wait ∧ (s.controls x.worker).Holds wait

omit [BEq Options] [BEq TurnOutcome] in
lemma Delivery.Held.inFlight {x : Delivery Options} (h : x.Held s) : x.stage.inFlight = true := by
  obtain ⟨-,-,c,call,wait,hst,-⟩ := h
  rw [hst]
  rfl

/-- A worker takes nothing from its queue: it has as many deliveries in flight as it may, all held. -/
def Deployment.Full (s : Deployment Options) (worker : ℕ) : Prop :=
  concurrencyLimit ≤ s.busy worker ∧
    ∀ x ∈ s.deliveries, x.worker = worker → x.stage.inFlight = true → x.Held s

/-- A delivery in flight can make its next operation, unless its gate holds it. -/
lemma work_enabled {d : ℕ} {x : Delivery Options} (result : CallResult)
    (hx : s.deliveries[d]? = some x) (hin : x.stage.inFlight = true) (hheld : ¬x.Held s) :
    s.step quote (.work d result) ≠ none := by
  have hperform : ∀ l gate stage, x.stage.next s.host.inner x.reference (s.gate x) result =
      some (some l,gate,stage) → s.host.step l ≠ none → s.step quote (.work d result) ≠ none := by
    intro l gate stage hn hl
    obtain ⟨host,hhost⟩ := Option.ne_none_iff_exists'.mp hl
    simp only [Deployment.step, Option.bind_eq_bind, hx, Option.bind_some, hn,
      Deployment.performed, hhost, Option.map_some]
    exact Option.some_ne_none _
  have hmove : ∀ gate stage, x.stage.next s.host.inner x.reference (s.gate x) result =
      some (none,gate,stage) → s.step quote (.work d result) ≠ none := by
    intro gate stage hn
    simp only [Deployment.step, Option.bind_eq_bind, hx, Option.bind_some, hn,
      Deployment.performed]
    exact Option.some_ne_none _
  obtain ⟨worker,reference,stage⟩ := x
  cases stage with
  | claiming =>
    refine hperform _ _ _ rfl ?_
    simp only [Host.step]
    split <;> exact Option.some_ne_none _
  | launching c | completing c =>
    refine hperform _ _ _ rfl ?_
    simp only [Host.step]
    split <;> exact Option.some_ne_none _
  | launched c call wait =>
    by_cases hw : wait = .past
    · subst hw
      refine hperform _ _ _ rfl ?_
      simp only [Host.step]
      split <;> exact Option.some_ne_none _
    · have hwait : (s.controls worker).wait (decide (worker ∈ s.gone))
          (decide (reference ∈ s.cancelled)) wait ≠ none := by
        refine RootControl.wait_ne_none hw fun hi hh => hheld ?_
        obtain ⟨hg,hc⟩ := Bool.or_eq_false_iff.mp hi
        exact ⟨of_decide_eq_false hg,of_decide_eq_false hc,c,call,wait,rfl,hh⟩
      obtain ⟨⟨control,step,wait'⟩,hwait⟩ := Option.ne_none_iff_exists'.mp hwait
      refine hmove ⟨control,worker ∈ s.gone,step⟩ (.launched c call wait') ?_
      rw [DeliveryStage.next_wait hw]
      exact congrArg _ hwait
  | executing c call => exact hmove _ _ rfl
  | _ => cases hin

/-- Where the parties have nothing left to do, a dispatcher that was served is answered, or the
delivery of its step is held, or the step is queued to a worker that is full. -/
lemma Deployment.Serves.answered {i worker : ℕ} {call : LocalStepCall Options} (hs : s.Sound)
    (ha : s.Attended) (hv : s.Serves i worker call)
    (hidle : ∀ a : Action Options, a.productive = true → s.step quote a = none) :
    (∃ result, s.dispatchers[i]? = some ⟨worker,call,.settled result⟩) ∨
      (∃ y ∈ s.deliveries, y.reference = .forCall call ∧ y.Held s) ∨
        ∃ job ∈ s.jobs, job.reference = .forCall call ∧ s.Full job.worker := by
  obtain ⟨stage,hi,hcase⟩ := hv
  have hheld : ∀ x ∈ s.deliveries, x.stage.inFlight = true → x.Held s := by
    intro x hx hin
    obtain ⟨d,hd⟩ := List.mem_iff_getElem?.mp hx
    by_contra hheld
    have hne : s.step quote (.work d (.error (internal ""))) ≠ none :=
      work_enabled _ hd hin hheld
    exact hne (hidle (.work d _) rfl)
  have hfull : ∀ job ∈ s.jobs, s.Full job.worker := by
    intro job hj
    obtain ⟨j,hj⟩ := List.mem_iff_getElem?.mp hj
    have := hidle (.deliver j) rfl
    simp only [Deployment.step, hj, Option.bind_eq_bind, Option.bind_some] at this
    split at this
    · cases this
    · next hroom => exact ⟨not_lt.mp hroom,fun x hx _ hin => hheld x hx hin⟩
  have hnosend : s.host.outbox = [] := by
    cases ho : s.host.outbox with
    | nil => rfl
    | cons m outbox =>
      have := hidle (.send 0) rfl
      simp [Deployment.step, Deployment.performed, Host.step, ho] at this
  have hnoqueue : ∀ more, stage ≠ .enqueueing more := by
    rintro more rfl
    have := hidle (.enqueue i "") rfl
    simp only [Deployment.step, hi, Option.bind_eq_bind, Option.bind_some] at this
    split at this <;> cases this
  rcases hcase with rfl | ⟨rfl | rfl,hq⟩ | ⟨result,rfl⟩
  · exact absurd rfl (hnoqueue true)
  · exact absurd rfl (hnoqueue false)
  · obtain ⟨error,he⟩ | ⟨r,hr,-⟩ := hs.dispatchers _ (List.mem_of_getElem? hi)
    · cases he
    refine or_iff_not_imp_right.mpr fun hnone => ?_
    exfalso
    obtain ⟨hnone,hnojob⟩ := not_or.mp hnone
    have hended : r.state.ended = true := by
      cases hst : r.state with
      | pending =>
        rcases hq r hr hst with ⟨job,hj,hk⟩ | ⟨x,hx,-,hst⟩
        · exact absurd ⟨job,hj,hk,hfull job hj⟩ hnojob
        · obtain ⟨-,-,c,call,wait,hl,-⟩ := hheld x hx (by rw [hst]; rfl)
          cases hst.symm.trans hl
      | claimed e | launched e =>
        obtain ⟨x,hx,hk,ho⟩ := ha _ r hr (by rw [hst]; rfl)
        exact absurd ⟨x,hx,hk,hheld x hx (DeliveryStage.claim_of_owns ho).1⟩ hnone
      | terminal e | uncertain e => rfl
    -- Its one settlement was sent.
    obtain ⟨-,-,-,-,hsettled,hsent⟩ :=
      (Account.sound_some hr).mp (hs.host.account (.forCall call))
    have hwaiting : (s.host.account (.forCall call)).waiting = 0 := by
      simp only [Host.account, hnosend, LocalRunStore.forReference, List.countP_nil]
    rw [hended,hwaiting,hsent,Nat.zero_add] at hsettled
    have hset : r.terminal.isSome = true := by
      cases hterm : r.terminal.isSome with
      | true => rfl
      | false =>
        rw [hterm] at hsettled
        cases hsettled
    obtain ⟨result,hterm⟩ := Option.isSome_iff_exists.mp hset
    have := hidle (.observe i) rfl
    have hrec : s.host.inner.records[StepJobRef.forCall call]? = some r := hr
    simp [Deployment.step, hi, hrec, hterm] at this
  · exact .inl ⟨result,hi⟩

/-- Whoever has a place at a gate has arrived there. -/
def Deployment.Placed (s : Deployment Options) : Prop :=
  ∀ x ∈ s.deliveries, ∀ c call place, x.stage = .launched c call (.rendezvous place) →
    place < (s.controls x.worker).arrived

lemma Transition.placed (h : Transition quote s a s') (hp : s.Placed) : s'.Placed := by
  intro x' hx' c call place hst
  cases h with
  | deliver =>
    rcases List.mem_append.mp hx' with hx | hx
    · exact hp x' hx c call place hst
    · obtain rfl := List.mem_singleton.mp hx
      cases hst
  | @work d result x host controls cancelled stage found operation works arrived placed =>
    obtain ⟨e,he⟩ := List.mem_iff_getElem?.mp hx'
    by_cases hde : d = e
    · subst hde
      rw [Deployment.moveDelivery,List.getElem?_modify_eq,found] at he
      obtain rfl := Option.some.inj he
      exact placed c call place hst
    · rw [Deployment.moveDelivery,List.getElem?_modify_ne _ _ hde] at he
      exact (hp x' (List.mem_of_getElem? he) c call place hst).trans_le (arrived _)
  | @release worker =>
    have hsame : (Function.update s.controls worker (s.controls worker).release x'.worker).arrived =
        (s.controls x'.worker).arrived := by
      by_cases hw : x'.worker = worker
      · subst hw
        rw [Function.update_self]
        rfl
      · rw [Function.update_of_ne hw]
    exact (hp x' hx' c call place hst).trans_eq hsame.symm
  | abort =>
    obtain ⟨x,hx,rfl⟩ := List.mem_map.mp hx'
    split at hst
    · cases hst
    · rw [if_neg (by assumption)]
      exact hp x hx c call place hst
  | _ => exact hp x' hx' c call place hst

lemma transport_placed {t : List (Action Options)}
    (ht : (Deployment.transport Options quote).run t = some s) : s.Placed :=
  Machine.invariant (P := fun _ s => s.Placed) (fun _ h => (by cases h))
    (fun _ _ _ _ _ hp h => (step_transition h).placed hp) ht

omit [BEq Options] [BEq TurnOutcome] in
/-- An open gate holds nobody. -/
lemma Delivery.Held.not_open {x : Delivery Options} (h : x.Held s) (hp : s.Placed)
    (hx : x ∈ s.deliveries) : ¬(s.controls x.worker).Open := by
  obtain ⟨-,-,c,call,wait,hst,hh⟩ := h
  intro hopen
  refine hopen.not_holds (fun place hw => ?_) hh
  subst hw
  exact hp x hx c call place hst

omit [BEq Options] [BEq TurnOutcome] in
lemma Deployment.Full.not_open {worker : ℕ} (h : s.Full worker) (hp : s.Placed) :
    ¬(s.controls worker).Open := by
  obtain ⟨hbusy,hheld⟩ := h
  have hpos : 0 < s.busy worker := Nat.lt_of_lt_of_le (by decide) hbusy
  obtain ⟨x,hx,hpass⟩ := List.countP_pos_iff.mp hpos
  obtain ⟨rfl,hin⟩ : x.worker = worker ∧ x.stage.inFlight = true := of_decide_eq_true hpass
  exact (hheld x hx rfl hin).not_open hp hx

end Replay

/-- What a dispatcher has left to do, its jobs included. -/
def DispatcherStage.workLeft : DispatcherStage → ℕ
  | .enqueueing true => 23
  | .enqueueing false => 12
  | .waiting => 1
  | .settled _ | .refused _ | .dropped => 0

/-- What a delivery has left to do, its settlement included. -/
def DeliveryStage.workLeft {Options : Type} : DeliveryStage Options → ℕ
  | .claiming => 9
  | .launching _ => 8
  | .launched _ _ wait => 4+wait.left
  | .executing .. => 3
  | .completing .. => 2
  | .finished .. | .skipped | .failed _ | .dropped => 0

def Deployment.workLeft {Options : Type} (s : Deployment Options) : ℕ :=
  (s.dispatchers.map (·.stage.workLeft)).sum + 10*s.jobs.length +
    (s.deliveries.map (·.stage.workLeft)).sum + s.host.outbox.length

section WorkLeft
variable {Options : Type} [BEq Options] [BEq TurnOutcome] {quote : String → String}
  {s s' : Deployment Options} {a : Action Options}

omit [BEq Options] [BEq TurnOutcome] in
lemma sum_map_modify {α : Type} {l : List α} {i : ℕ} {x : α} (g : α → ℕ) (f : α → α)
    (hx : l[i]? = some x) : ((l.modify i f).map g).sum + g x = (l.map g).sum + g (f x) := by
  obtain ⟨hi,rfl⟩ := List.getElem?_eq_some_iff.mp hx
  obtain ⟨front,x,back,rfl,rfl,hm⟩ := List.exists_of_modify f hi
  simp only [hm, List.getElem_append_right, le_refl, Nat.sub_self, List.getElem_cons_zero]
  simp only [List.map_append, List.map_cons, List.sum_append, List.sum_cons]
  omega

omit [BEq Options] [BEq TurnOutcome] in
lemma Works.workLeft {h h' : Host Options} {reference : StepJobRef} {result : CallResult}
    {stage stage' : DeliveryStage Options} (hw : Works h reference result stage h' stage') :
    stage'.workLeft + h'.outbox.length < stage.workLeft + h.outbox.length := by
  cases hw with
  | @launched c call wait r h' found state owned records epoch outbox =>
    have hle := wait.left_le
    simp only [outbox, DeliveryStage.workLeft]
    omega
  | granted found state records epoch outbox | skipped found state records epoch outbox
    | unclaimed why records epoch outbox | called found state records epoch outbox
    | completed found state records epoch outbox =>
    simp only [outbox, DeliveryStage.workLeft, List.length_append, List.length_singleton]
    omega
  | unlaunched | waited | uncalled | executed | uncompleted =>
    simp only [DeliveryStage.workLeft]
    omega

/-- What the parties do by themselves uses up work; what else can happen adds a bounded amount. -/
lemma Transition.workLeft (h : Transition quote s a s') {i : ℕ} (hu : Undisturbed i a) :
    s'.workLeft + a.productive.toNat ≤ s.workLeft + 23*(!a.productive).toNat := by
  have hmove : ∀ {j : ℕ} {x : Dispatcher Options} (stage : DispatcherStage),
      s.dispatchers[j]? = some x →
      ((s.moveDispatcher j stage).dispatchers.map (·.stage.workLeft)).sum + x.stage.workLeft =
        (s.dispatchers.map (·.stage.workLeft)).sum + stage.workLeft := fun _ hx =>
    sum_map_modify (·.stage.workLeft) _ hx
  cases h with
  | @dispatch worker call host stage hstep =>
    have hle : stage.workLeft ≤ 23 := by
      unfold DispatcherStage.workLeft
      split <;> omega
    simp only [Deployment.workLeft, (register_frame hstep).1, Action.productive, List.map_append,
      List.map_cons, List.map_nil, List.sum_append, List.sum_cons, List.sum_nil, Bool.toNat_false,
      Bool.not_false, Bool.toNat_true]
    omega
  | @closed j closed x more found stage =>
    have hsum := hmove (.refused (internal closed)) found
    rw [show (DispatcherStage.refused (internal closed)).workLeft = 0 from rfl] at hsum
    have hpos : 0 < x.stage.workLeft := by
      rw [stage]
      cases more <;> decide
    simp only [Deployment.workLeft, Action.productive, Bool.toNat_true, Bool.not_true,
      Bool.toNat_false]
    simp only [Deployment.moveDispatcher] at hsum ⊢
    omega
  | @enqueue j closed x more found stage =>
    have hsum := hmove (if more then .enqueueing false else .waiting) found
    have hless : (if more then DispatcherStage.enqueueing false else .waiting).workLeft + 11 =
        x.stage.workLeft := by
      rw [stage]
      cases more <;> rfl
    simp only [Deployment.workLeft, Action.productive, Bool.toNat_true, Bool.not_true,
      Bool.toNat_false, List.length_append, List.length_singleton]
    simp only [Deployment.moveDispatcher] at hsum ⊢
    omega
  | @observe j x r result found stage =>
    have hsum := hmove (.settled result) found
    rw [show (DispatcherStage.settled result).workLeft = 0 from rfl] at hsum
    have hone : x.stage.workLeft = 1 := by rw [stage]; rfl
    simp only [Deployment.workLeft, Action.productive, Bool.toNat_true, Bool.not_true,
      Bool.toNat_false]
    simp only [Deployment.moveDispatcher] at hsum ⊢
    omega
  | @abandon j x found stage =>
    have hsum := hmove .dropped found
    rw [show DispatcherStage.dropped.workLeft = 0 from rfl] at hsum
    simp only [Deployment.workLeft, Action.productive, Bool.not_false, Bool.toNat_true,
      Bool.toNat_false]
    simp only [Deployment.moveDispatcher] at hsum ⊢
    omega
  | requeue =>
    simp only [Deployment.workLeft, Action.productive, Bool.not_false, Bool.toNat_true,
      Bool.toNat_false, List.length_append, List.length_singleton]
    omega
  | @deliver j job found room =>
    have hlt := (List.getElem?_eq_some_iff.mp found).1
    simp only [Deployment.workLeft, Action.productive, Bool.toNat_true, Bool.not_true,
      Bool.toNat_false, List.length_eraseIdx_of_lt hlt, List.map_append, List.map_cons,
      List.map_nil, List.sum_append, List.sum_cons, List.sum_nil, DeliveryStage.workLeft]
    omega
  | @work d result x host controls cancelled stage found operation works =>
    have hsum : (((s.deliveries.modify d fun x => { x with stage := stage }).map
        (·.stage.workLeft)).sum + x.stage.workLeft =
          (s.deliveries.map (·.stage.workLeft)).sum + stage.workLeft) :=
      sum_map_modify (·.stage.workLeft) _ found
    have hless := works.workLeft
    simp only [Deployment.workLeft, Deployment.moveDelivery, Action.productive, Bool.toNat_true,
      Bool.not_true, Bool.toNat_false] at hsum ⊢
    omega
  | @send n host hstep =>
    obtain ⟨hout,-⟩ := send_frame hstep
    have hlt : n < s.host.outbox.length := by
      simp only [Host.step, Option.map_eq_some_iff] at hstep
      obtain ⟨m,hm,-⟩ := hstep
      exact (List.getElem?_eq_some_iff.mp hm).1
    simp only [Deployment.workLeft, hout, List.length_eraseIdx_of_lt hlt, Action.productive,
      Bool.toNat_true, Bool.not_true, Bool.toNat_false]
    omega
  | release | cancel =>
    simp only [Deployment.workLeft, Action.productive, Bool.not_false, Bool.toNat_true,
      Bool.toNat_false]
    omega
  | stop | abort | reconcile => exact hu.elim

/-- Where no work is left the parties are idle. -/
lemma idle_of_workLeft (h : s.workLeft = 0) (a : Action Options) (ha : a.productive = true) :
    s.step quote a = none := by
  cases hs : s.step quote a with
  | none => rfl
  | some s' =>
    have hu : Undisturbed 0 a := by
      cases a <;> trivial
    have := (step_transition hs).workLeft hu
    rw [h,ha] at this
    simp at this

end WorkLeft

section Answer
variable {Options : Type} [BEq Options] [BEq TurnOutcome] {quote : String → String}
  {s s' : Deployment Options} {t u : List (Action Options)}

lemma register_waiting {h h' : Host Options} {reference : StepJobRef}
    {call : LocalStepCall Options} (hs : h.step (.register reference call) = some h')
    (hans : (LocalRunStore.register reference call h.inner).1 = .ok false)
    {r : StepRecord Options} (hr : h'.inner.records[reference]? = some r) :
    r.state ≠ .pending := by
  cases hrec : h.inner.records[reference]? with
  | none =>
    simp only [LocalRunStore.register, hrec] at hans
    cases hans
  | some r₀ =>
    cases hf : r₀.frozen != FrozenStepCall.forCall call with
    | true =>
      simp only [LocalRunStore.register, hrec, hf, if_true] at hans
      cases hans
    | false =>
      simp only [LocalRunStore.register, hrec, hf, Bool.false_eq_true, if_false,
        Except.ok.injEq, beq_eq_false_iff_ne] at hans
      simp only [Host.step, LocalRunStore.register, hrec, hf, Bool.false_eq_true, if_false,
        Option.some.injEq] at hs
      subst hs
      obtain rfl := Option.some.inj (hrec.symm.trans hr)
      exact hans

/-- A dispatcher that was not refused is served from its registration on. -/
lemma Transition.registered {worker : ℕ} {call : LocalStepCall Options}
    (h : Transition quote s (.dispatch worker call) s') {front : List (Dispatcher Options)}
    {x : Dispatcher Options} (hlast : s'.dispatchers = front ++ [x])
    (haccept : ∀ error, x.stage ≠ .refused error) :
    x.worker = worker ∧ x.call = call ∧ s'.Serves front.length worker call := by
  cases h with
  | @dispatch _ _ host stage hstep answer =>
    obtain ⟨rfl,hx⟩ := List.append_inj' hlast rfl
    obtain rfl := List.singleton_inj.mp hx
    refine ⟨rfl,rfl,stage,List.getElem?_concat_length,?_⟩
    cases hans : (LocalRunStore.register (.forCall call) call s.host.inner).1 with
    | error e =>
      rw [hans] at answer
      exact absurd answer (haccept _)
    | ok enqueue =>
      rw [hans] at answer
      cases enqueue with
      | true => exact .inl answer
      | false =>
        exact .inr (.inl ⟨.inr answer,fun r hr hp => absurd hp (register_waiting hstep hans hr)⟩)

lemma Transition.gone {a : Action Options} (h : Transition quote s a s') {i : ℕ}
    (hu : Undisturbed i a) : s'.gone = s.gone := by
  cases h with
  | stop | abort => exact hu.elim
  | _ => rfl

/-- What undisturbed parties keep for a dispatcher, `n` bounding the epochs granted before. -/
structure Deployment.OnCourse (s : Deployment Options) (i n : ℕ) (x : Dispatcher Options) :
    Prop where
  sound : s.Sound
  attended : s.Attended
  serves : s.Serves i x.worker x.call
  present : x.worker ∉ s.gone
  placed : s.Placed
  epochs : s.host.inner.nextEpoch ≤ n

lemma Deployment.OnCourse.step {a : Action Options} {i n : ℕ} {x : Dispatcher Options}
    (hs : s.OnCourse i n x) (h : s.step quote a = some s') (hu : Undisturbed i a) (hn : n+1 < 2^64) :
    s'.OnCourse i (n+1) x := by
  have hstep := step_transition h
  have hno : ∀ w, a ≠ .abort w := by
    rintro w rfl
    exact hu
  refine ⟨hs.sound.step h,hstep.attended hs.sound (.inl hs.attended) hno,
    hstep.serves hs.sound hu ?_ hs.present hs.serves,?_,hstep.placed hs.placed,?_⟩
  · exact (Nat.succ_le_succ hs.epochs).trans_lt hn
  · rw [hstep.gone hu]
    exact hs.present
  · exact hstep.nextEpoch_succ.trans (Nat.succ_le_succ hs.epochs)

/-- Replay completes. Whatever was lost before, once every lost worker was reconciled, a dispatcher
that is called and not refused is answered: as long as nothing more is lost, the parties take only so
many steps, and when they have none left it has its result, unless the gate of the worker that took
its step holds it, or the step is queued to a worker whose gate holds as many as it may take. A gate
that was released and where every arrival has its pair holds nobody. -/
theorem replay_completes {worker : ℕ} {call : LocalStepCall Options}
    {front : List (Dispatcher Options)} {x : Dispatcher Options}
    (ht : (Deployment.transport Options quote).run (t ++ [.dispatch worker call]) = some s)
    (hrec : Recovered t) (hlast : s.dispatchers = front ++ [x])
    (haccept : ∀ error, x.stage ≠ .refused error) (hopen : worker ∉ s.gone)
    (hu : (Deployment.transport Options quote).runFrom s u = some s')
    (hcalm : ∀ a ∈ u, Undisturbed front.length a) (hlen : t.length + u.length + 1 < 2^64) :
    u.countP Action.productive ≤ s.workLeft + 23*u.countP (fun a => !a.productive) ∧
      ((∀ a : Action Options, a.productive = true → s'.step quote a = none) →
        ((∃ result, s'.dispatchers[front.length]? = some { x with stage := .settled result }) ∨
          (∃ y ∈ s'.deliveries, y.reference = .forCall call ∧ y.Held s') ∨
          ∃ job ∈ s'.jobs, job.reference = .forCall call ∧ s'.Full job.worker) ∧
        ((∀ y ∈ s'.deliveries, y.reference = .forCall call → y.stage.inFlight = true →
            (s'.controls y.worker).Open) →
          (∀ job ∈ s'.jobs, job.reference = .forCall call → (s'.controls job.worker).Open) →
          ∃ result, s'.dispatchers[front.length]? = some { x with stage := .settled result })) := by
  have ht' := ht
  rw [Machine.run_concat] at ht
  obtain ⟨s₀,ht₀,hstep⟩ := Option.bind_eq_some_iff.mp ht
  have hstep := step_transition (show s₀.step quote (.dispatch worker call) = some s from hstep)
  obtain ⟨rfl,rfl,hserves⟩ := hstep.registered hlast haccept
  have hatt := hstep.attended (transport_sound ht₀) (.inl (attended_of_recovered ht₀ hrec)) (by simp)
  have hstart : s.OnCourse front.length (t.length+1) x := by
    refine ⟨transport_sound ht',hatt,hserves,hopen,transport_placed ht',
      (nextEpoch_le_length ht').trans_eq ?_⟩
    rw [List.length_append,List.length_singleton]
  have hinv := Machine.stable (t := []) (P := fun v m => (∀ a ∈ v, Undisturbed front.length a) →
    t.length+1+v.length < 2^64 → m.OnCourse front.length (t.length+1+v.length) x ∧
      m.workLeft + v.countP Action.productive ≤
        s.workLeft + 23*v.countP (fun a => !a.productive)) ?_ hu
    fun _ _ => ⟨hstart,by simp⟩
  · obtain ⟨hon,hwork⟩ := hinv hcalm (by rw [List.nil_append]; omega)
    rw [List.nil_append] at hwork
    refine ⟨by omega,fun hidle => ?_⟩
    have hans := hon.serves.answered hon.sound hon.attended hidle
    refine ⟨hans,fun hgate hqueue => hans.resolve_right ?_⟩
    rintro (⟨y,hy,hk,hheld⟩ | ⟨job,hj,hk,hfull⟩)
    · exact hheld.not_open hon.placed hy (hgate y hy hk hheld.inFlight)
    · exact hfull.not_open hon.placed (hqueue job hj hk)
  · intro v m a m' ih hstep hcalm hlen
    rw [List.length_append,List.length_singleton] at hlen
    have hua := hcalm a (List.mem_append_right _ List.mem_cons_self)
    obtain ⟨hon,hwork⟩ := ih (fun b hb => hcalm b (List.mem_append_left _ hb)) (by omega)
    refine ⟨?_,?_⟩
    · rw [List.length_append,List.length_singleton]
      exact hon.step hstep hua hlen
    · have hless := (step_transition hstep).workLeft hua
      rw [List.countP_append,List.countP_append,List.countP_singleton,List.countP_singleton]
      cases hp : a.productive <;>
        simp only [hp, Bool.toNat_true, Bool.toNat_false, Bool.not_true, Bool.not_false, if_true,
          Bool.false_eq_true, if_false] at hless ⊢ <;> omega

end Answer

/-- The replay of the sample, from its registration on: the second worker's gate opens. -/
theorem replay_completes_sample : ∃ s s',
    (@Deployment.transport Unit _ sameOutput id).run (replayTrace.take 8) = some s ∧
    (@Deployment.transport Unit _ sameOutput id).runFrom s (replayTrace.drop 8) = some s' ∧
    (s'.controls 1).Open ∧ ∃ x result, s'.dispatchers[1]? = some x ∧ x.stage = .settled result := by
  have hstart : ∃ s x y, (@Deployment.transport Unit _ sameOutput id).run (replayTrace.take 8) =
      some s ∧ s.dispatchers = [y] ++ [x] ∧ x.stage = .enqueueing true ∧ s.gone = [0] :=
    ⟨_,_,_,rfl,rfl,rfl,rfl⟩
  have hrun : (((@Deployment.transport Unit _ sameOutput id).run (replayTrace.take 8)).bind fun s =>
      (@Deployment.transport Unit _ sameOutput id).runFrom s (replayTrace.drop 8)).any
        (fun s' => s'.workLeft = 0 ∧ (s'.controls 1).released = true ∧
          (s'.controls 1).arrived%2 = 0 ∧ (∀ y ∈ s'.deliveries, y.stage.inFlight = false) ∧
            s'.jobs.length = 0) = true := by
    decide +kernel
  obtain ⟨s,x,y,hs,hlast,hst,hgone⟩ := hstart
  rw [hs,Option.bind_some] at hrun
  obtain ⟨s',hs',hend⟩ := (Option.any_eq_true _ _).mp hrun
  obtain ⟨hleft,hrelease,heven,hflight,hjobs⟩ := of_decide_eq_true hend
  have hcalm : ∀ a ∈ replayTrace.drop 8, Undisturbed 1 a := by
    simp [replayTrace, Undisturbed]
  obtain ⟨-,hans⟩ := @replay_completes Unit _ sameOutput id s s' (replayTrace.take 7)
    (replayTrace.drop 8) 1 sampleCall [y] x hs (recovered_concat (replayTrace.take 6)) hlast
    (by simp [hst]) (by simp [hgone]) hs' hcalm (by decide)
  obtain ⟨-,hans⟩ := hans (@idle_of_workLeft Unit _ sameOutput id s' hleft)
  obtain ⟨result,hset⟩ := hans (fun y hy _ hin => by cases (hflight y hy).symm.trans hin)
    fun job hj => by simp [List.length_eq_zero_iff.mp hjobs] at hj
  exact ⟨s,s',hs,hs',⟨hrelease,heven⟩,_,result,hset,rfl⟩

end TowerAgent.Local
