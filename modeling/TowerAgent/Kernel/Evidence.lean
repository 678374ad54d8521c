import TowerAgent.Kernel.Stack

/-! Middleware never erases what a call established: whatever the provider settled with survives in
the failure any stack returns instead. -/
namespace TowerAgent.Kernel
open Lib Lib.Bindings

namespace AgentError

/-- An error that carries no evidence and no guidance of its own. -/
structure Bare (e : AgentError) : Prop where
  evidence : e.evidence = none
  retryAfter : e.retryAfter = none

theorem bare_new (kind : ErrorKind) (message : String) (phase : FailurePhase)
    (effects : EffectState) : (new kind message phase effects).Bare := ⟨rfl,rfl⟩

theorem Bare.binding {e : AgentError} (h : e.Bare) : e.binding = unbound := by
  simp [AgentError.binding, evidenceBinding, h.evidence]

/-- What an error keeps of the settlement it stands for. -/
def Retains : CallResult → AgentError → Prop
  | .error c, e => c.effects ≤ e.effects ∧ Within c.binding e.binding ∧
    ∀ d, c.retryAfter = some d → e.retryAfter = some d
  | .ok o, e => e.effects = .reported ∧ Within o.terminalEvidence.binding e.binding

theorem retains_refl (c : AgentError) : Retains (.error c) c := ⟨le_rfl,.refl _,fun _ h => h⟩

theorem Retains.trans {s : CallResult} {c e : AgentError} (hc : Retains s c)
    (he : Retains (.error c) e) : Retains s e := by
  obtain ⟨heff,hev,hretry⟩ := he
  cases s with
  | error s =>
    obtain ⟨seff,sev,sretry⟩ := hc
    exact ⟨seff.trans heff,sev.trans hev,fun d hd => hretry d (sretry d hd)⟩
  | ok o =>
    obtain ⟨seff,sev⟩ := hc
    exact ⟨EffectState.eq_reported_of_le (seff ▸ heff),sev.trans hev⟩

/-- A bare failure that folds in a cause keeps all of it. -/
theorem Bare.withCause {e : AgentError} (h : e.Bare) (c : AgentError) :
    Retains (.error c) (e.withCause c) := by
  refine ⟨?_,?_,fun d hd => ?_⟩
  · rw [withCause_effects]
    exact le_max_right _ _
  · rw [withCause_binding,h.binding,overlay_unbound]
    exact .refl _
  · rw [withCause_retryAfter,h.retryAfter]
    exact hd

end AgentError

open AgentError

/-- A result that keeps what a settlement established: the response itself, or a failure. -/
def Carries (s : CallResult) : CallResult → Prop
  | .ok o => s = .ok o
  | .error e => Retains s e

theorem carries_refl (s : CallResult) : Carries s s := by
  cases s with
  | error c => exact retains_refl c
  | ok o => rfl

/-- A late failure keeps what the settlement it waited for carries. -/
theorem preserveSettlement_carries {s r : CallResult} (h : Carries s r)
    (cause : Deadline.Interruption) :
    Carries s (.error (Deadline.preserveSettlement cause.error r)) := by
  have hbare : cause.error.Bare := by cases cause <;> exact bare_new _ _ _ _
  cases r with
  | error c => exact Retains.trans h (hbare.withCause c)
  | ok o =>
    obtain rfl := h
    refine ⟨?_,?_⟩
    · simp only [Deadline.preserveSettlement, EffectState.combine_eq_max]
      exact max_eq_right (EffectState.le_reported _)
    · simp only [Deadline.preserveSettlement, hbare.evidence, AgentError.binding]
      exact .refl _

theorem exceeded_carries {s : CallResult} {o : TurnOutcome} (h : Carries s (.ok o))
    (maxBytes : ℕ) : Carries s (.error (LimitOutput.exceeded maxBytes o)) := by
  obtain rfl := h
  exact ⟨rfl,.refl _⟩

theorem failAfter_carries {s r : CallResult} (h : Carries s r) (kind : ErrorKind)
    (message : String) : Carries s (.error (InjectFaults.failAfter kind message r)) := by
  cases r with
  | error c => exact Retains.trans h ((bare_new _ _ _ _).withCause c)
  | ok o =>
    obtain rfl := h
    exact ⟨rfl,.refl _⟩

/-- No settlement was logged. -/
def Unsettled (v : List Event) : Prop := ∀ s, .settled s ∉ v

theorem Unsettled.concat {v : List Event} (h : Unsettled v) {e : Event}
    (he : ∀ s, e ≠ .settled s) : Unsettled (v ++ [e]) := by
  intro s hm
  rcases List.mem_append.mp hm with hm | hm
  · exact h s hm
  · exact he s (List.mem_singleton.mp hm).symm

/-- Every logged settlement is carried by the result. -/
def CarriesAll (r : CallResult) (v : List Event) : Prop := ∀ s, .settled s ∈ v → Carries s r

theorem Unsettled.carriesAll {v : List Event} (h : Unsettled v) (r : CallResult) :
    CarriesAll r v := fun s hm => absurd hm (h s)

theorem CarriesAll.concat {r r' : CallResult} {v : List Event} (h : CarriesAll r v) {e : Event}
    (he : ∀ s, e ≠ .settled s) (hr : ∀ s, Carries s r → Carries s r') :
    CarriesAll r' (v ++ [e]) := by
  intro s hm
  rcases List.mem_append.mp hm with hm | hm
  · exact hr s (h s hm)
  · exact absurd (List.mem_singleton.mp hm).symm (he s)

/-- Nothing settles before the provider does, and every result carries its settlement. -/
def retention : Regime where
  safe _ := True
  idle _ := Unsettled
  refused _ _ := True
  live := Unsettled
  done := CarriesAll
  broken := Unsettled

theorem retention_lawful : retention.TurnLawful where
  idle_safe _ _ _ := trivial
  done_safe _ _ _ := trivial
  broken_safe _ _ := trivial
  idle_unready _ _ _ h := h.concat (by simp)
  admitted _ _ h := h.concat (by simp)
  done_released _ _ h := h.concat (by simp) fun _ hs => hs
  broken_released _ h := h.concat (by simp)
  refuse _ _ _ h _ := h.carriesAll _
  unready _ _ _ := trivial
  exceeded maxBytes _ _ h s hm := exceeded_carries (h s hm) maxBytes
  unlaunched _ _ h := h.carriesAll _
  caught _ _ h := (h.concat (by simp)).carriesAll _
  faulted kind message _ _ h := h.concat (by simp) fun _ hs => failAfter_carries hs kind message
  preserve cause _ _ h := h.concat (by simp) fun _ hs => preserveSettlement_carries hs cause
  done_receipt _ _ _ _ h := h.concat (by simp) fun _ hs => hs
  broken_receipt _ _ _ h := h.concat (by simp)
  joined _ _ h := h.carriesAll _

theorem retention_provides (full : ℕ) : retention.Provides full where
  safe _ _ := trivial
  unready _ _ := trivial
  unlaunched _ h := h.concat (by simp)
  launched _ h := (h.concat (by simp)).concat (by simp)
  polled _ h := h.concat (by simp)
  panicked _ h := (h.concat (by simp)).concat (by simp)
  settled r v h := by
    intro s hm
    rcases List.mem_append.mp hm with hm | hm
    · exact absurd hm (h.concat (by simp) s)
    · obtain rfl := Event.settled.inj (List.mem_singleton.mp hm)
      exact carries_refl s

section Stacks
variable {O : Type} [RequestsFilesystemAuthority O]

/-- In every run of every stack, a resolved call carries what its provider settled with. -/
theorem run_carries (layers : List Layer) (oracle : ℕ → Moment Reply) (cancelled : Bool) (now : ℕ)
    (service : (stack O layers).State) (ops : List (Op (TurnRequest O))) {s r : CallResult}
    (hs : .settled s ∈ ((Session.fresh oracle cancelled now service).run ops).world.log)
    (hr : ((Session.fresh oracle cancelled now service).run ops).caller = .resolved r) :
    Carries s r := by
  obtain ⟨inv,h⟩ := stack_keeps (O := O) (k := 0) retention_lawful (retention_provides _) layers rfl
  have hrun := Session.run_standing (fun _ _ => True) h
    (fun v e hv he => he.elim fun _ he => he ▸ hv.concat (by simp)) (by simp) (by simp)
    (fun s => List.not_mem_nil) oracle cancelled now service ops
  have hdone := hrun.caller
  rw [hr] at hdone
  exact hdone s hs

/-- Middleware never erases what a call established: whatever failure a stack resolves to, it
keeps the effects, the evidence and the guidance of the failure its provider settled with, and
reports the effects and the evidence of the response its provider settled with. -/
theorem stack_retains_settlement (layers : List Layer) (oracle : ℕ → Moment Reply)
    (cancelled : Bool) (now : ℕ) (service : (stack O layers).State)
    (ops : List (Op (TurnRequest O))) {e : AgentError}
    (h : ((Session.fresh oracle cancelled now service).run ops).caller = .resolved (.error e)) :
    (∀ c, .settled (.error c) ∈ ((Session.fresh oracle cancelled now service).run ops).world.log →
      c.effects ≤ e.effects ∧ Within c.binding e.binding ∧
      ∀ d, c.retryAfter = some d → e.retryAfter = some d) ∧
    (∀ o, .settled (.ok o) ∈ ((Session.fresh oracle cancelled now service).run ops).world.log →
      e.effects = .reported ∧ Within o.terminalEvidence.binding e.binding) :=
  ⟨fun _ hc => run_carries layers oracle cancelled now service ops hc h,
    fun _ ho => run_carries layers oracle cancelled now service ops ho h⟩

end Stacks

/-- A failure that arrives after the deadline, with a cost and guidance. -/
def sampleCause : AgentError :=
  ((AgentError.commandFailed "fake" 1).withEvidence { cost := some ⟨7,"USD"⟩ }).withRetryAfter 3

/-- The deadline passes while the provider is first polled; it then settles with a failure. -/
def lateOracle : ℕ → Moment Reply
  | 5 => { answer := { startBranch := 1 } }
  | 6 => { elapsed := 10, answer := {} }
  | 8 => { answer := { progress := .returned (.ready (.error sampleCause)) } }
  | _ => { answer := {} }

def lateLayers : List Layer := [.generic .catchPanic,.deadline,.generic .admission]

def lateService : (stack SampleOptions lateLayers).State := @Admission.State.mk Unit () false

def lateOps : List (Op (TurnRequest SampleOptions)) := [.pollReady,.call sampleRequest,.poll,.poll]

/-- The late failure's effects, cost and guidance all reach the caller. -/
theorem stack_retains_settlement_sample :
    .settled (.error sampleCause) ∈
      ((Session.fresh lateOracle false 0 lateService).run lateOps).world.log ∧
    ∃ e, ((Session.fresh lateOracle false 0 lateService).run lateOps).caller =
        .resolved (.error e) ∧ sampleCause.effects ≤ e.effects ∧
      e.binding .cost = some ⟨7,"USD"⟩ ∧ e.retryAfter = some 3 := by
  have hs : .settled (.error sampleCause) ∈
      ((Session.fresh lateOracle false 0 lateService).run lateOps).world.log := by
    have hlog : ((Session.fresh lateOracle false 0 lateService).run lateOps).world.log =
      [.admitted,.called,.created,.polled,.polled,.settled (.error sampleCause),.released,
        .drained] := rfl
    simp [hlog]
  have hr : ((Session.fresh lateOracle false 0 lateService).run lateOps).caller =
    .resolved (.error ((AgentError.deadlineExceeded .possible).withCause sampleCause)) := rfl
  obtain ⟨heff,hev,hretry⟩ :=
    (stack_retains_settlement lateLayers lateOracle false 0 lateService lateOps hr).1 _ hs
  exact ⟨hs,_,hr,heff,hev .cost _ rfl,hretry 3 rfl⟩

end TowerAgent.Kernel
