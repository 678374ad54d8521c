import TowerAgent.Kernel.Layer

/-! One contract rule for each layer: a layer over a service that keeps the terms of a regime keeps
them too, as long as the regime's laws cover the errors the layer itself can raise. -/
namespace TowerAgent.Kernel
open Lib

/-- What is promised of the log of a call: at all times, before the call by the permits taken above,
while the provider runs, once there is a result, and after a panic. -/
structure Regime where
  safe : List Event → Prop
  idle : ℕ → List Event → Prop
  refused : AgentError → List Event → Prop
  live : List Event → Prop
  done : CallResult → List Event → Prop
  broken : List Event → Prop

namespace Regime

/-- The terms of a service entered with some permits taken. -/
def terms (R : Regime) (taken : ℕ) : Terms Event CallResult AgentError where
  safe := R.safe
  idle := R.idle taken
  refused := R.refused
  done := R.done
  broken := R.broken
  probe e := ∃ error, e = .unready error

/-- The laws of a regime at every service. -/
structure Lawful (R : Regime) : Prop where
  idle_safe : ∀ k v, R.idle k v → R.safe v
  done_safe : ∀ r v, R.done r v → R.safe v
  idle_unready : ∀ k e v, R.idle k v → R.idle k (v ++ [.unready e])
  admitted : ∀ k v, R.idle k v → R.idle (k+1) (v ++ [.admitted])
  done_released : ∀ r v, R.done r v → R.done r (v ++ [.released])
  broken_released : ∀ v, R.broken v → R.broken (v ++ [.released])
  refuse : ∀ k e v, R.idle k v → Refusal e → R.done (.error e) v
  unready : ∀ e v, Refusal e → R.refused e v
  exceeded : ∀ maxBytes o v, R.done (.ok o) v → R.done (.error (LimitOutput.exceeded maxBytes o)) v
  unlaunched : ∀ p v, R.broken v → R.done (.error (CatchPanic.panicError p .launch .possible)) v
  caught : ∀ p v, R.broken v →
    R.done (.error (CatchPanic.panicError p .settlement .possible)) (v ++ [.caught])
  faulted : ∀ kind message r v, R.done r v →
    R.done (.error (InjectFaults.failAfter kind message r)) (v ++ [.faulted])

/-- The laws of a regime at the services of turn requests. -/
structure TurnLawful (R : Regime) : Prop extends R.Lawful where
  broken_safe : ∀ v, R.broken v → R.safe v
  preserve : ∀ cause r v, R.done r v →
    R.done (.error (Deadline.preserveSettlement (Deadline.Interruption.error cause) r))
      (v ++ [.drained])
  done_receipt : ∀ receipt r v, receipt.status ≠ .abandoned .none → R.done r v →
    R.done r (v ++ [.receipt receipt])
  broken_receipt : ∀ receipt v, receipt.status ≠ .abandoned .none → R.broken v →
    R.broken (v ++ [.receipt receipt])
  joined : ∀ message v, R.broken v → R.done (.error (Supervise.joinError message)) v

/-- What a regime owes the provider, once every permit of the stack is taken. -/
structure Provides (R : Regime) (full : ℕ) : Prop where
  safe : ∀ v, R.live v → R.safe v
  unready : ∀ e v, R.refused e (v ++ [.unready e])
  unlaunched : ∀ v, R.idle full v → R.broken (v ++ [.called])
  launched : ∀ v, R.idle full v → R.live (v ++ [.called] ++ [.created])
  polled : ∀ v, R.live v → R.live (v ++ [.polled])
  settled : ∀ r v, R.live v → R.done r (v ++ [.polled] ++ [.settled r])
  panicked : ∀ v, R.live v → R.broken (v ++ [.polled] ++ [.panicked])

end Regime

variable {R : Regime} {k : ℕ}

theorem Provider.keeps {Q : Type} (P : R.Provides k) :
    Keeps (R.terms k) (Provider.service Q) (fun _ v => R.live v) where
  safe _ v h := P.safe v h
  pollReady := by
    intro s w
    simp only [Provider.service, Provider.pollReady]
    match w.answer.readiness with
    | .panicked _ | .returned .pending | .returned (.ready (.ok _)) =>
      exact ⟨⟨[],by simp⟩,by simp⟩
    | .returned (.ready (.error e)) =>
      refine ⟨⟨[.unready e],rfl,by simp [Regime.terms]⟩,fun e' he => ?_⟩
      injections
      subst e'
      exact P.unready e _
  call := by
    intro s request w h
    simp only [Provider.service, Provider.call]
    cases (w.emit .called).answer.launch with
    | returned u => exact P.launched _ h
    | panicked payload => exact P.unlaunched _ h
  poll := by
    intro f w h
    simp only [Provider.service, Provider.poll]
    cases (w.emit .polled).answer.progress with
    | panicked payload => exact P.panicked _ h
    | returned p =>
      cases p with
      | pending => exact P.polled _ h
      | ready r => exact P.settled r _ h
  background := fun _ _ _ h => h

/-- The invariant of a gate over the invariant of what it forwards. -/
def Gate.Inv (R : Regime) {F : Type} (inv : F → List Event → Prop) : Gate F → List Event → Prop
  | .refused error, v => R.done (.error error) v
  | .opened f, v => inv f v

section Gate
variable {F : Type} {inv : F → List Event → Prop}

theorem Gate.safe (L : R.Lawful) (h : ∀ f v, inv f v → R.safe v) (g : Gate F) (v : List Event)
    (hg : g.Inv R inv v) : R.safe v := by
  cases g with
  | refused error => exact L.done_safe _ v hg
  | opened f => exact h f v hg

theorem Gate.poll_settles {next : F → CallWorld → Polled F CallResult × CallWorld}
    (h : ∀ f w, inv f w.log → Settles (R.terms k) inv (next f w)) (g : Gate F) (w : CallWorld)
    (hg : g.Inv R inv w.log) : Settles (R.terms k) (Gate.Inv R inv) (Gate.poll next g w) := by
  cases g with
  | refused error => exact hg
  | opened f => exact (h f w hg).map _ fun _ _ hf => hf

theorem Gate.update_inv {next : F → CallWorld → F × CallWorld}
    (h : ∀ f w, inv f w.log → inv (next f w).1 (next f w).2.log) (g : Gate F) (w : CallWorld)
    (hg : g.Inv R inv w.log) :
    (Gate.update next g w).1.Inv R inv (Gate.update next g w).2.log := by
  cases g with
  | refused error => exact hg
  | opened f => exact h f w hg

end Gate

section Generic
variable {Q : Type} {S : AgentService Q} {inv : S.Future → List Event → Prop}

theorem Admission.letGo_done (L : R.Lawful) {r : CallResult} {w : CallWorld} (permit : Bool)
    (h : R.done r w.log) : R.done r (letGo permit w).log := by
  cases permit with
  | false => exact h
  | true => exact L.done_released _ _ h

theorem Admission.letGo_broken (L : R.Lawful) {w : CallWorld} (permit : Bool)
    (h : R.broken w.log) : R.broken (letGo permit w).log := by
  cases permit with
  | false => exact h
  | true => exact L.broken_released _ h

theorem Admission.reserve_error {permit : Bool} {free : ℕ} {readiness : Readiness} {e : AgentError}
    (h : (reserve permit free readiness).1 = .returned (.ready (.error e))) :
    readiness = .returned (.ready (.error e)) := by
  unfold reserve at h
  split at h
  · exact h
  · simp at h
  · split at h <;> simp at h
  · exact h

theorem Admission.keeps (L : R.Lawful) (h : Keeps (R.terms (k+1)) S inv) :
    Keeps (R.terms k) (Admission.service S) (Gate.Inv R fun f v => inv f.inner v) where
  safe := Gate.safe L fun f => h.safe f.inner
  pollReady := by
    intro s w
    have hr := h.pollReady s.inner w
    exact ⟨hr.log,fun e he => hr.error e (reserve_error he)⟩
  call := by
    intro s request w hw
    simp only [Admission.service, Admission.call]
    cases s.permit with
    | false => exact L.refuse k _ _ hw refusal_busy
    | true =>
      have hc := h.call s.inner request (w.emit .admitted) (L.admitted k _ hw)
      simp only [if_true]
      generalize S.call s.inner request (w.emit .admitted) = x at hc ⊢
      rcases x with ⟨f | payload,inner,w'⟩
      · exact hc
      · exact L.broken_released _ hc
  poll := by
    refine Gate.poll_settles fun f w hf => ?_
    have hp := h.poll f.inner w hf
    generalize S.poll f.inner w = x at hp ⊢
    rcases x with ⟨f' | r | payload,w'⟩
    · exact hp
    · exact letGo_done L f.permit hp
    · exact letGo_broken L f.permit hp
  background j := Gate.update_inv fun f w hf => h.background j f.inner w hf

theorem LimitOutput.keeps (L : R.Lawful) (maxBytes : ℕ) (h : Keeps (R.terms k) S inv) :
    Keeps (R.terms k) (LimitOutput.service maxBytes S) inv where
  safe := h.safe
  pollReady := h.pollReady
  call := h.call
  poll := by
    intro f w hf
    have hp := h.poll f w hf
    simp only [LimitOutput.service, LimitOutput.poll]
    generalize S.poll f w = x at hp ⊢
    rcases x with ⟨f' | (e | o) | payload,w'⟩
    · exact hp
    · exact hp
    · simp only [accept]
      split
      · exact L.exceeded maxBytes o _ hp
      · exact hp
    · exact hp
  background := h.background

theorem CatchPanic.keeps (L : R.Lawful) (h : Keeps (R.terms k) S inv) :
    Keeps (R.terms k) (CatchPanic.service S) (Gate.Inv R inv) where
  safe := Gate.safe L h.safe
  pollReady := by
    intro s w
    have hr := h.pollReady s w
    simp only [CatchPanic.service, CatchPanic.pollReady]
    generalize S.pollReady s w = x at hr ⊢
    rcases x with ⟨answer | payload,s',w'⟩
    · exact hr
    · refine ⟨hr.log,fun e he => ?_⟩
      injections
      subst e
      exact L.unready _ _ ⟨.inl rfl,rfl⟩
  call := by
    intro s request w hw
    have hc := h.call s request w hw
    simp only [CatchPanic.service, CatchPanic.call]
    generalize S.call s request w = x at hc ⊢
    rcases x with ⟨f | payload,s',w'⟩
    · exact hc
    · exact L.unlaunched payload _ hc
  poll := by
    refine Gate.poll_settles fun f w hf => ?_
    have hp := h.poll f w hf
    generalize S.poll f w = x at hp ⊢
    rcases x with ⟨f' | r | payload,w'⟩
    · exact hp
    · exact hp
    · exact L.caught payload _ hp
  background j := Gate.update_inv (h.background j)

/-- The invariant of a faulted future: a held settlement is a result. -/
def InjectFaults.Inv (R : Regime) {F : Type} (inv : F → List Event → Prop) :
    Faulty F → List Event → Prop
  | .delaying _ _ f, v | .passing f, v | .settling _ f, v | .failing _ _ f, v => inv f v
  | .holding _ settled, v => R.done settled v

theorem InjectFaults.hold_settles {F : Type} {inv : F → List Event → Prop} (wake : ℕ)
    {settled : CallResult} {w : CallWorld} (h : R.done settled w.log) :
    Settles (R.terms k) (InjectFaults.Inv R inv) (hold wake settled w) := by
  simp only [hold]
  split <;> exact h

theorem InjectFaults.start_log (delay : Duration) (wake : Option ℕ) (w : CallWorld) :
    (start delay wake w).2.log = w.log := by
  cases wake <;> rfl

theorem InjectFaults.keeps (L : R.Lawful) (h : Keeps (R.terms k) S inv) :
    Keeps (R.terms k) (InjectFaults.service S) (Gate.Inv R (InjectFaults.Inv R inv)) where
  safe := by
    refine Gate.safe L fun f v hf => ?_
    cases f with
    | holding wake settled => exact L.done_safe _ v hf
    | delaying delay wake f => exact h.safe f v hf
    | passing f => exact h.safe f v hf
    | settling delay f => exact h.safe f v hf
    | failing kind message f => exact h.safe f v hf
  pollReady := fun s w => ⟨(h.pollReady s.inner w).log,(h.pollReady s.inner w).error⟩
  call := by
    intro s request w hw
    have hc := h.call s.inner request w hw
    have hforward : ∀ future : S.Future → Faulty S.Future,
        (∀ f v, inv f v → InjectFaults.Inv R inv (future f) v) →
        Launches (R.terms k) (Gate.Inv R (InjectFaults.Inv R inv))
          (forward (fun f => .opened (future f))
            (fun inner => State.mk inner s.script.tail) (S.call s.inner request w)) :=
      fun future hf => hc.map (fun f => Gate.opened (future f))
        (fun inner => State.mk inner s.script.tail) fun f v => hf f v
    simp only [InjectFaults.service, InjectFaults.call]
    match s.script.head? with
    | some (.refuseBeforeLaunch kind message) => exact L.refuse k _ _ hw ⟨.inl rfl,rfl⟩
    | some (.delayBeforeLaunch delay) => exact hforward (.delaying delay none) fun _ _ hf => hf
    | some (.delaySettlement delay) => exact hforward (.settling delay) fun _ _ hf => hf
    | some (.failAfterSettlement kind message) =>
      exact hforward (.failing kind message) fun _ _ hf => hf
    | none => exact hforward .passing fun _ _ hf => hf
  poll := by
    have hpass : ∀ f w, inv f w.log →
        Settles (R.terms k) (InjectFaults.Inv R inv) (pass S f w) :=
      fun f w hf => (h.poll f w hf).map _ fun _ _ hf => hf
    refine Gate.poll_settles fun f w hf => ?_
    cases f with
    | delaying delay wake f =>
      have hw : inv f (start delay wake w).2.log := start_log delay wake w ▸ hf
      dsimp only
      split
      · exact hpass f _ hw
      · exact hw
    | passing f => exact hpass f w hf
    | settling delay f =>
      have hp := h.poll f w hf
      dsimp only
      generalize S.poll f w = x at hp ⊢
      rcases x with ⟨f' | r | payload,w'⟩
      · exact hp
      · exact hold_settles _ hp
      · exact hp
    | holding wake settled => exact hold_settles wake hf
    | failing kind message f =>
      have hp := h.poll f w hf
      dsimp only
      generalize S.poll f w = x at hp ⊢
      rcases x with ⟨f' | r | payload,w'⟩
      · exact hp
      · exact L.faulted kind message r _ hp
      · exact hp
  background j := by
    refine Gate.update_inv fun f w hf => ?_
    cases f with
    | holding wake settled => exact hf
    | delaying delay wake f => exact h.background j f w hf
    | passing f => exact h.background j f w hf
    | settling delay f => exact h.background j f w hf
    | failing kind message f => exact h.background j f w hf

end Generic

section Turn
variable {T O : Type}

section Context
variable {S : AgentService (AgentRequest T)} {inv : S.Future → List Event → Prop}

/-- The invariant of an enforced future, in either phase. -/
def Deadline.Inv {F : Type} (inv : F → List Event → Prop) : Enforced F → List Event → Prop
  | .racing _ f, v | .draining _ f, v => inv f v

theorem Deadline.watch_log (branches : List (Interruption × Option ℕ)) (w : CallWorld) :
    (watch branches w).2.log = w.log := by
  induction branches generalizing w with
  | nil => rfl
  | cons branch rest ih =>
    simp only [watch]
    split
    · rfl
    · exact ih w.pass

theorem Deadline.drain_settles (L : R.TurnLawful) (h : Keeps (R.terms k) S inv)
    (cause : Interruption) {f : S.Future} {w : CallWorld} (hf : inv f w.log) :
    Settles (R.terms k) (Deadline.Inv inv) (drain S cause f w) := by
  have hp := h.poll f w hf
  simp only [drain]
  generalize S.poll f w = x at hp ⊢
  rcases x with ⟨f' | r | payload,w'⟩
  · exact hp
  · exact L.preserve cause r _ hp
  · exact hp

theorem Deadline.interrupt_settles (L : R.TurnLawful) (h : Keeps (R.terms k) S inv)
    (cause : Interruption) {f : S.Future} {w : CallWorld} (hf : inv f w.log) :
    Settles (R.terms k) (Deadline.Inv inv) (interrupt S cause f w) := by
  cases cause with
  | deadline => exact drain_settles L h .deadline hf
  | cancelled => exact drain_settles L h .cancelled hf

/-- A race leaves the inner call racing or draining, whichever branch it polls first. -/
theorem Deadline.poll_settles (L : R.TurnLawful) (h : Keeps (R.terms k) S inv)
    (f : Enforced S.Future) (w : CallWorld) (hf : Deadline.Inv inv f w.log) :
    Settles (R.terms k) (Deadline.Inv inv) (Deadline.poll S f w) := by
  cases f with
  | draining cause f => exact drain_settles L h cause hf
  | racing deadline f =>
    simp only [Deadline.poll]
    generalize rotate w.answer.startBranch (branches deadline) = order
    have hb : inv f (watch order.1 w.pass).2.log := watch_log order.1 w.pass ▸ hf
    generalize watch order.1 w.pass = x at hb ⊢
    rcases x with ⟨- | cause,w₁⟩
    · have hp := h.poll f w₁ hb
      dsimp only
      generalize S.poll f w₁ = y at hp ⊢
      rcases y with ⟨f' | r | payload,w₂⟩
      · have ha : inv f' (watch order.2 w₂).2.log := watch_log order.2 w₂ ▸ hp
        dsimp only
        generalize watch order.2 w₂ = z at ha ⊢
        rcases z with ⟨- | cause,w₃⟩
        · exact ha
        · exact interrupt_settles L h cause ha
      · exact hp
      · exact hp
    · exact interrupt_settles L h cause hb

theorem Deadline.keeps (L : R.TurnLawful) (h : Keeps (R.terms k) S inv) :
    Keeps (R.terms k) (Deadline.service S) (Gate.Inv R (Deadline.Inv inv)) where
  safe := by
    refine Gate.safe L.toLawful fun f v hf => ?_
    cases f with
    | racing deadline f => exact h.safe f v hf
    | draining cause f => exact h.safe f v hf
  pollReady := h.pollReady
  call := by
    intro s request w hw
    simp only [Deadline.service, Deadline.call]
    split
    · exact L.refuse k _ _ hw ⟨.inl rfl,rfl⟩
    · split
      · exact L.refuse k _ _ hw ⟨.inl rfl,rfl⟩
      · have hc := h.call s request w.pass.pass hw
        have hf : ∀ f v, inv f v → Gate.Inv R (Deadline.Inv inv)
          (.opened (.racing request.context.deadline f)) v := fun _ _ hf => hf
        exact hc.map _ id hf
  poll := Gate.poll_settles (Deadline.poll_settles L h)
  background j := by
    refine Gate.update_inv fun f w hf => ?_
    cases f with
    | racing deadline f => exact h.background j f w hf
    | draining cause f => exact h.background j f w hf

theorem Observe.status_settled (result : CallResult) : status result ≠ .abandoned .none := by
  cases result <;> simp [status]

theorem Observe.keeps (L : R.TurnLawful) (h : Keeps (R.terms k) S inv) :
    Keeps (R.terms k) (Observe.service S) (fun f v => inv f.inner v) where
  safe f := h.safe f.inner
  pollReady := h.pollReady
  call := by
    intro s request w hw
    have hc := h.call s request w hw
    simp only [Observe.service, Observe.call]
    generalize S.call s request w = x at hc ⊢
    rcases x with ⟨f | payload,s',w'⟩ <;> exact hc
  poll := by
    intro f w hf
    have hp := h.poll f.inner w hf
    simp only [Observe.service, Observe.poll]
    generalize S.poll f.inner w = x at hp ⊢
    rcases x with ⟨f' | r | payload,w'⟩
    · exact hp
    · exact L.done_receipt _ r _ (status_settled r) hp
    · exact L.broken_receipt _ _ (by simp) hp
  background j f w hf := h.background j f.inner w hf

/-- The invariant of a spawned task. -/
def Supervise.Inv (R : Regime) {F : Type} (inv : F → List Event → Prop) :
    Task F → List Event → Prop
  | .running f, v => inv f v
  | .finished result, v => R.done result v
  | .panicked _, v => R.broken v

theorem Supervise.background_inv (h : Keeps (R.terms k) S inv) (j : ℕ) (task : Task S.Future)
    (w : CallWorld) (ht : Supervise.Inv R inv task w.log) :
    Supervise.Inv R inv (background S j task w).1 (background S j task w).2.log := by
  cases task with
  | running f =>
    cases j with
    | zero =>
      have hp := h.poll f w ht
      simp only [background]
      generalize S.poll f w = x at hp ⊢
      rcases x with ⟨f' | r | payload,w'⟩ <;> exact hp
    | succ j => exact h.background j f w ht
  | finished result => cases j <;> exact ht
  | panicked payload => cases j <;> exact ht

theorem Supervise.keeps (L : R.TurnLawful) (h : Keeps (R.terms k) S inv) :
    Keeps (R.terms k) (Supervise.service S) (Supervise.Inv R inv) where
  safe task v ht := by
    cases task with
    | running f => exact h.safe f v ht
    | finished result => exact L.done_safe _ v ht
    | panicked payload => exact L.broken_safe v ht
  pollReady := h.pollReady
  call := by
    intro s request w hw
    exact (h.call s request w hw).map Task.running id fun _ _ hf => hf
  poll := by
    intro task w ht
    cases task with
    | running f => exact ht
    | finished result => exact ht
    | panicked payload => exact L.joined _ _ ht
  background := Supervise.background_inv h

end Context

section Validation
variable {S : AgentService (TurnRequest O)} {inv : S.Future → List Event → Prop}

theorem ValidateTurn.check_refusal {maxPromptBytes : Option ℕ} {prompt : String} {e : AgentError}
    (h : check maxPromptBytes prompt = some e) : Refusal e := by
  unfold check at h
  split at h
  · obtain rfl := Option.some.inj h
    exact refusal_invalidRequest _
  · split at h
    · obtain rfl := Option.some.inj h
      exact refusal_invalidRequest _
    · cases h

theorem ValidateTurn.keeps (L : R.TurnLawful) (maxPromptBytes : Option ℕ)
    (h : Keeps (R.terms k) S inv) :
    Keeps (R.terms k) (ValidateTurn.service maxPromptBytes S) (Gate.Inv R inv) where
  safe := Gate.safe L.toLawful h.safe
  pollReady := h.pollReady
  call := by
    intro s request w hw
    simp only [ValidateTurn.service, ValidateTurn.call]
    split
    · rename_i e he
      exact L.refuse k e _ hw (check_refusal he)
    · exact (h.call s request w hw).map Gate.opened id fun _ _ hf => hf
  poll := Gate.poll_settles h.poll
  background j := Gate.update_inv (h.background j)

theorem EnforceAuthority.keeps [RequestsFilesystemAuthority O] (L : R.TurnLawful)
    (policy : AuthorityPolicy) (canonicalize : Canonicalize) (h : Keeps (R.terms k) S inv) :
    Keeps (R.terms k) (EnforceAuthority.service policy canonicalize S) (Gate.Inv R inv) where
  safe := Gate.safe L.toLawful h.safe
  pollReady := h.pollReady
  call := by
    intro s request w hw
    simp only [EnforceAuthority.service, EnforceAuthority.call]
    split
    · exact (h.call s request w hw).map Gate.opened id fun _ _ hf => hf
    · rename_i e he
      exact L.refuse k e _ hw (AuthorityPolicy.authorize_fails e he)
  poll := Gate.poll_settles h.poll
  background j := Gate.update_inv (h.background j)

end Validation
end Turn

/-- The laws that connect a regime of turn requests to one of workflow steps over it. -/
structure Regime.StepLawful (R R' : Regime) : Prop extends R'.Lawful where
  safe : ∀ v, R.safe v → R'.safe v
  enter : ∀ k v, R'.idle k v → R.idle k v
  invalid : ∀ k e v, R'.idle k v → e.phase = .validation → R'.done (.error e) v
  withdrawn : ∀ k v, R'.idle k v → R'.done (.error (.cancelled .none)) (v ++ [.withdrawn])
  refused : ∀ k e v, R'.idle k v → R.refused e v → R'.done (.error e) v
  abandoned : ∀ k v, R'.idle k v → R'.broken v
  done : ∀ r v, R.done r v → R'.done r v
  broken : ∀ v, R.broken v → R'.broken v

section Step
variable {O I : Type} {R' : Regime} {S : AgentService (TurnRequest O)}
  {inv : S.Future → List Event → Prop}

/-- The invariant of a step's future: nothing is handed over while it starts. -/
def AgentStepService.Inv (R' : Regime) (k : ℕ) {σ F : Type} (inv : F → List Event → Prop) :
    Stepping σ F O → List Event → Prop
  | .starting _ _, v => R'.idle k v
  | .running f, v => inv f v

theorem AgentStepService.run_settles (L : R.StepLawful R') (h : Keeps (R.terms k) S inv)
    {f : S.Future} {w : CallWorld} (hf : inv f w.log) :
    Settles (R'.terms k) (AgentStepService.Inv R' k inv) (run (O := O) S f w) := by
  have hp := h.poll f w hf
  change Settles _ _ ((S.poll f w).1.map Stepping.running,(S.poll f w).2)
  generalize S.poll f w = x at hp ⊢
  rcases x with ⟨f' | r | payload,w'⟩
  · exact hp
  · exact L.done r _ hp
  · exact L.broken _ hp

theorem AgentStepService.poll_settles (L : R.StepLawful R') (h : Keeps (R.terms k) S inv)
    (f : Stepping S.State S.Future O) (w : CallWorld) (hf : AgentStepService.Inv R' k inv f w.log) :
    Settles (R'.terms k) (AgentStepService.Inv R' k inv) (AgentStepService.poll S f w) := by
  cases f with
  | running f => exact run_settles L h hf
  | starting service request =>
    simp only [AgentStepService.poll]
    split
    · exact L.withdrawn k _ hf
    have hr := h.pollReady service w.pass
    have hidle : R'.idle k (S.pollReady service w.pass).2.2.log := by
      refine hr.stable (fun v e hv he => ?_) hf
      obtain ⟨error,rfl⟩ := he
      exact L.idle_unready k error v hv
    have hrefused := hr.error
    generalize S.pollReady service w.pass = x at hidle hrefused ⊢
    rcases x with ⟨(- | (e | u)) | payload,service',w₁⟩
    · exact hidle
    · exact L.refused k e _ hidle (hrefused e rfl)
    · dsimp only
      split
      · exact L.withdrawn k _ hidle
      · have hc := h.call service' request w₁.pass (L.enter k _ hidle)
        generalize S.call service' request w₁.pass = y at hc ⊢
        rcases y with ⟨f | payload,service'',w₂⟩
        · exact run_settles L h hc
        · exact L.broken _ hc
    · exact L.abandoned k _ hidle

/-- The adapter keeps a regime that covers the preparer's errors. -/
theorem AgentStepService.keeps_of (L : R.StepLawful R') (h : Keeps (R.terms k) S inv)
    {prepare : StepCall I → Unwind (Except AgentError (Turn O))}
    (hprepare : ∀ step e v, prepare step = .returned (.error e) → R'.idle k v →
      R'.done (.error e) v) :
    Keeps (R'.terms k) (AgentStepService.service prepare S)
      (Gate.Inv R' (AgentStepService.Inv R' k inv)) where
  safe := by
    refine Gate.safe L.toLawful fun f v hf => ?_
    cases f with
    | starting service request => exact L.idle_safe k v hf
    | running f => exact L.safe v (h.safe f v hf)
  pollReady s w :=
    ⟨⟨[],by simp [AgentStepService.service]⟩,by simp [AgentStepService.service]⟩
  call := by
    intro s step w hw
    simp only [AgentStepService.service, AgentStepService.call]
    split
    · exact hw
    · rename_i e he
      exact hprepare step e _ he hw
    · exact L.abandoned k _ hw
  poll := Gate.poll_settles (AgentStepService.poll_settles L h)
  background j := by
    refine Gate.update_inv fun f w hf => ?_
    cases f with
    | starting service request => exact hf
    | running f => exact h.background j f w hf

end Step
end TowerAgent.Kernel
