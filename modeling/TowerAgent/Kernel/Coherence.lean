import TowerAgent.Kernel.Stack

/-! Phase and effects: a failure never claims to have run without effects, and one returned although
the innermost call was never invoked names a phase before the run. The step adapter's cancellation
breaks this, and so do the layers that put a late failure of their own over an early refusal. -/
namespace TowerAgent.Kernel
open Lib

/-- The phases that end before the provider runs. -/
def FailurePhase.Early (phase : FailurePhase) : Prop :=
  phase = .admission ∨ phase = .validation ∨ phase = .launch

/-- An error whose phase and effects fit how far its call got. -/
structure Coherent (e : AgentError) (log : List Event) : Prop where
  effects : ¬(e.phase = .running ∧ e.effects = .none)
  phase : .called ∉ log → e.phase.Early

/-- An early error is coherent at any log. -/
theorem FailurePhase.Early.coherent {e : AgentError} (h : e.phase.Early) (log : List Event) :
    Coherent e log where
  effects hr := by rcases h with h | h | h <;> simp [h] at hr
  phase _ := h

theorem Refusal.early {e : AgentError} (h : Refusal e) : e.phase.Early :=
  h.phase.elim .inl fun h => .inr (.inl h)

/-- A layer replaced what the inner call gave with a late failure of its own. -/
def Event.replaces : Event → Bool
  | .drained | .caught | .faulted => true
  | _ => false

/-- The innermost service answered as its callers rely on: no failure that ran without effects, and
readiness errors of admission only. -/
structure Tame (log : List Event) : Prop where
  settled : ∀ e, .settled (.error e) ∈ log → ¬(e.phase = .running ∧ e.effects = .none)
  unready : ∀ e, .unready e ∈ log → e.phase = .admission

/-- No step was withdrawn on cancellation before it was handed over, and a layer only put a late
failure over an inner result once the innermost call was invoked. -/
structure Clear (log : List Event) : Prop where
  handed : .withdrawn ∉ log
  called : ∀ front e, front ++ [e] <+: log → e.replaces = true → .called ∈ front

theorem Tame.of_append {v u : List Event} (h : Tame (v ++ u)) : Tame v :=
  ⟨fun e he => h.settled e (List.mem_append_left u he),
    fun e he => h.unready e (List.mem_append_left u he)⟩

theorem Clear.of_append {v u : List Event} (h : Clear (v ++ u)) : Clear v :=
  ⟨fun hm => h.handed (List.mem_append_left u hm),
    fun front e hf => h.called front e (hf.trans (List.prefix_append v u))⟩

theorem clear_nil : Clear [] := ⟨by simp,fun front e hf => by simp at hf⟩

theorem Clear.concat {v : List Event} (h : Clear v) {e : Event} (hw : e ≠ .withdrawn)
    (hr : e.replaces = true → .called ∈ v) : Clear (v ++ [e]) where
  handed hm := by
    rcases List.mem_append.mp hm with hm | hm
    · exact h.handed hm
    · exact hw (List.mem_singleton.mp hm).symm
  called front e' hf he' := by
    rcases List.prefix_concat_iff.mp hf with heq | hf
    · obtain ⟨rfl,he⟩ := List.append_inj' heq rfl
      obtain rfl := List.singleton_inj.mp he
      exact hr he'
    · exact h.called front e' hf he'

/-- A response was called for, and an error is coherent. -/
def Sound : CallResult → List Event → Prop
  | .ok _, v => .called ∈ v
  | .error e, v => Coherent e v

theorem Sound.append {r : CallResult} {v : List Event} (h : Sound r v) (u : List Event) :
    Sound r (v ++ u) := by
  cases r with
  | ok o => exact List.mem_append_left u h
  | error e => exact ⟨h.effects,fun hm => h.phase fun hv => hm (List.mem_append_left u hv)⟩

/-- A late error is sound once the innermost call was invoked. -/
theorem sound_of_called {e : AgentError} {v : List Event} (hc : .called ∈ v)
    (he : ¬(e.phase = .running ∧ e.effects = .none)) : Sound (.error e) v :=
  ⟨he,fun hn => absurd hc hn⟩

/-- Results are sound as long as the inner service is tame and the log is clear. -/
def coherence (broken : List Event → Prop) : Regime where
  safe _ := True
  idle _ v := .called ∉ v
  refused e v := Tame v → e.phase.Early
  live v := .called ∈ v
  done r v := Tame v → Clear v → Sound r v
  broken := broken

theorem preserveSettlement_effects (cause : Deadline.Interruption) (r : CallResult) :
    (Deadline.preserveSettlement cause.error r).effects ≠ .none := by
  rw [←EffectState.possible_le_iff]
  cases r with
  | error c =>
    rw [Deadline.preserveSettlement,AgentError.withCause_effects]
    exact le_max_of_le_left (by cases cause <;> exact le_rfl)
  | ok o =>
    simp only [Deadline.preserveSettlement, EffectState.combine_eq_max]
    exact le_max_of_le_left (by cases cause <;> exact le_rfl)

/-- The innermost call was invoked before a layer replaced a result. -/
theorem Clear.replaced {v : List Event} {e : Event} (h : Clear (v ++ [e]))
    (he : e.replaces = true) : .called ∈ v ++ [e] :=
  List.mem_append_left _ (h.called v e List.prefix_rfl he)

variable {broken : List Event → Prop}

theorem coherence_lawful (hb : ∀ v, broken v → broken (v ++ [.released])) :
    (coherence broken).Lawful where
  idle_safe _ _ _ := trivial
  done_safe _ _ _ := trivial
  idle_unready _ _ _ h := by simpa [coherence] using h
  admitted _ _ h := by simpa [coherence] using h
  done_released _ _ h ht hc := (h ht.of_append hc.of_append).append _
  broken_released := hb
  refuse _ e v _ he _ _ := he.early.coherent v
  unready _ _ he _ := he.early
  exceeded _ _ _ h ht hc := sound_of_called (h ht hc) (by simp [LimitOutput.exceeded,
    AgentError.withEvidence, AgentError.new])
  unlaunched _ v _ _ _ := FailurePhase.Early.coherent (.inr (.inr rfl)) v
  caught _ _ _ _ hc := sound_of_called (hc.replaced rfl)
    (by simp [CatchPanic.panicError, AgentError.new])
  faulted _ _ r _ _ _ hc := sound_of_called (hc.replaced rfl)
    (by cases r <;> simp [InjectFaults.failAfter, AgentError.withEvidence, AgentError.new])

/-- At turn requests a panic means the innermost call was invoked. -/
theorem coherence_turnLawful : (coherence (.called ∈ ·)).TurnLawful where
  toLawful := coherence_lawful fun _ h => List.mem_append_left _ h
  broken_safe _ _ := trivial
  preserve cause r _ _ _ hc := sound_of_called (hc.replaced rfl)
    fun h => preserveSettlement_effects cause r h.2
  done_receipt _ _ _ _ h ht hc := (h ht.of_append hc.of_append).append _
  broken_receipt _ _ _ h := List.mem_append_left _ h
  joined _ _ h _ _ := sound_of_called h (by simp [Supervise.joinError, AgentError.new])

theorem coherence_provides (full : ℕ) : (coherence (.called ∈ ·)).Provides full where
  safe _ _ := trivial
  unready e _ ht := .inl (ht.unready e (by simp))
  unlaunched _ _ := by simp [coherence]
  launched _ _ := by simp [coherence]
  polled _ h := List.mem_append_left _ h
  panicked _ h := List.mem_append_left _ (List.mem_append_left _ h)
  settled r v h ht _ := by
    have hcalled : .called ∈ v ++ [.polled] ++ [.settled r] :=
      List.mem_append_left _ (List.mem_append_left _ h)
    cases r with
    | ok o => exact hcalled
    | error e => exact sound_of_called hcalled (ht.settled e (by simp))

/-- A step's future may also panic while it drives readiness, before any call. -/
theorem coherence_stepLawful :
    (coherence (.called ∈ ·)).StepLawful (coherence fun _ => True) where
  toLawful := coherence_lawful fun _ _ => trivial
  safe _ _ := trivial
  enter _ _ h := h
  invalid _ e v _ he _ _ := FailurePhase.Early.coherent (.inr (.inl he)) v
  withdrawn _ _ _ _ hc := absurd (by simp) hc.handed
  refused _ _ v _ he ht _ := (he ht).coherent v
  abandoned _ _ _ := trivial
  done _ _ h := h
  broken _ _ := trivial

section Compositions
variable {O I : Type} [RequestsFilesystemAuthority O]

theorem Composition.keeps (c : Composition O I) (hc : c.Prepared) :
    ∃ broken inv, Keeps ((coherence broken).terms 0) c.service inv := by
  cases c with
  | turn layers =>
    exact ⟨_,stack_keeps (k := 0) coherence_turnLawful (coherence_provides _) layers rfl⟩
  | step outer prepare layers =>
    exact ⟨_,stepStack_keeps coherence_turnLawful coherence_stepLawful coherence_provides hc
      outer layers⟩

/-- Over a tame inner service, in every run of a composition whose log stays clear, every error is
coherent: no failure claims to have run without effects, and one returned without the innermost
call has an early phase. Readiness errors are coherent in every run. -/
theorem composition_coherent (c : Composition O I) (hc : c.Prepared) (oracle : ℕ → Moment Reply)
    (cancelled : Bool) (now : ℕ) (service : c.service.State) (ops : List (Op c.Request)) :
    (∀ p ∈ ((Session.fresh oracle cancelled now service).run ops).refusals, Tame p.2 →
      Coherent p.1 p.2) ∧
    (∀ e, ((Session.fresh oracle cancelled now service).run ops).caller = .resolved (.error e) →
      Tame ((Session.fresh oracle cancelled now service).run ops).world.log →
      Clear ((Session.fresh oracle cancelled now service).run ops).world.log →
      Coherent e ((Session.fresh oracle cancelled now service).run ops).world.log) := by
  obtain ⟨broken,inv,h⟩ := c.keeps hc
  have hrun := Session.run_standing (fun _ _ => True) h
    (fun v e hv he => he.elim fun _ he => by simpa [he, coherence, Regime.terms] using hv)
    (by simp) (by simp) List.not_mem_nil oracle cancelled now service ops
  refine ⟨fun p hp ht => (hrun.refusals p hp ht).coherent p.2,fun e he ht hclear => ?_⟩
  have hdone := hrun.caller
  rw [he] at hdone
  exact hdone ht hclear

end Compositions

/-- The step adapter directly over a provider. -/
def bareStep : Composition SampleOptions Unit := .step [] samplePrepare []

def withdrawnStep : Session bareStep.service :=
  (Session.fresh (fun _ => { answer := {} }) true 0 () : Session bareStep.service).run
    [.pollReady,.call sampleStep,.poll]

/-- A step whose token is cancelled before it is handed over resolves to a failure that claims to
have run without effects, though the innermost call was never invoked. -/
theorem withdrawnStep_incoherent : bareStep.Prepared ∧ Tame withdrawnStep.world.log ∧
    withdrawnStep.caller = .resolved (.error (.cancelled .none)) ∧
    (AgentError.cancelled .none).phase = .running ∧ (AgentError.cancelled .none).effects = .none ∧
    .called ∉ withdrawnStep.world.log ∧ ¬Coherent (.cancelled .none) withdrawnStep.world.log := by
  have hlog : withdrawnStep.world.log = [.withdrawn] := rfl
  refine ⟨fun step e he => ?_,⟨by simp [hlog],by simp [hlog]⟩,rfl,rfl,rfl,by simp [hlog],fun h => ?_⟩
  · simp [samplePrepare] at he
  · exact h.effects ⟨rfl,rfl⟩

/-- The deadline passes while the provider runs; the provider then fails. -/
def lapsedOracle : ℕ → Moment Reply
  | 3 => { answer := { startBranch := 1 } }
  | 4 => { elapsed := 10, answer := {} }
  | 5 => { answer := { progress := .returned (.ready (.error (.commandFailed "fake" 1))) } }
  | _ => { answer := {} }

def lapsedDeadline : Composition SampleOptions Unit := .turn [.deadline]

/-- A deadline over a running provider keeps the log clear, and its error is coherent. -/
theorem composition_coherent_sample : Coherent
    ((AgentError.deadlineExceeded .possible).withCause (.commandFailed "fake" 1))
    ((Session.fresh lapsedOracle false 0 () : Session lapsedDeadline.service).run
      [.call sampleRequest,.poll]).world.log := by
  have hlog : ((Session.fresh lapsedOracle false 0 () : Session lapsedDeadline.service).run
      [.call sampleRequest,.poll]).world.log =
    [.called,.created,.polled,.settled (.error (.commandFailed "fake" 1)),.drained] := rfl
  have hclear : Clear
      [.called,.created,.polled,.settled (.error (.commandFailed "fake" 1)),.drained] :=
    ((((clear_nil.concat (e := .called) (by simp) (by simp [Event.replaces])).concat
      (e := .created) (by simp) (by simp [Event.replaces])).concat (e := .polled) (by simp)
      (by simp [Event.replaces])).concat (e := .settled (.error (.commandFailed "fake" 1)))
      (by simp) (by simp [Event.replaces])).concat (e := .drained) (by simp) (by simp)
  have hcaller : ((Session.fresh lapsedOracle false 0 () : Session lapsedDeadline.service).run
      [.call sampleRequest,.poll]).caller =
    .resolved (.error ((AgentError.deadlineExceeded .possible).withCause
      (.commandFailed "fake" 1))) := rfl
  have htame : Tame ((Session.fresh lapsedOracle false 0 () : Session lapsedDeadline.service).run
      [.call sampleRequest,.poll]).world.log := by
    rw [hlog]
    exact ⟨by simp [AgentError.commandFailed, AgentError.new],by simp⟩
  exact (composition_coherent lapsedDeadline trivial lapsedOracle false 0 ()
    [.call sampleRequest,.poll]).2 _ hcaller htame (hlog ▸ hclear)

end TowerAgent.Kernel
