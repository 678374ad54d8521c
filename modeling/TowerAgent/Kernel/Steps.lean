import TowerAgent.Kernel.Guards

/-! What the guards promise below the step adapter, which readies and calls its stack inside the
future of a step: still one call of the provider at most, for the turn prepared from the step. -/
namespace TowerAgent.Kernel
open Lib

section Adapter
variable {O I : Type} {prepare : StepCall I → Unwind (Except AgentError (Turn O))}
  {S : AgentService (TurnRequest O)} {passes : TurnRequest O → Prop}

/-- The step is prepared as a turn whose request passes. -/
def StepCall.Passes (prepare : StepCall I → Unwind (Except AgentError (Turn O)))
    (passes : TurnRequest O → Prop) (step : StepCall I) : Prop :=
  ∃ turn, prepare step = .returned (.ok turn) ∧ passes { context := step.context, body := turn }

namespace AgentStepService

/-- While it starts, a step's future owes the call of the request that was prepared from it. -/
def Stepping.Owes (prepare : StepCall I → Unwind (Except AgentError (Turn O))) {σ F : Type}
    (step : Option (StepCall I)) : Stepping σ F O → Prop
  | .starting _ request => ∃ call ∈ step, ∃ turn, prepare call = .returned (.ok turn) ∧
      request = { context := call.context, body := turn }
  | .running _ => True

/-- Once the stack was called, the step's future owes nothing. -/
lemma run_spends (h : Direct S passes) {q : Option (StepCall I)} {f : S.Future} {w w' : CallWorld}
    (hc : Screened (∃ step ∈ q, StepCall.Passes prepare passes step) w w') :
    Spends (StepCall.Passes prepare passes) (Stepping.Owes prepare) q w
      (run (O := O) S f w').1.left (run (O := O) S f w').2 := by
  have hp := h.poll_quiet f w'
  unfold run
  generalize S.poll f w' = x at hp ⊢
  rcases x with ⟨f' | r | payload,w''⟩
  all_goals refine ⟨hc.before hp,fun g hg => ?_⟩
  · obtain rfl := Option.some.inj hg
    exact .inl trivial
  · cases hg
  · cases hg

lemma poll_spends (h : Direct S passes) {q : Option (StepCall I)}
    (f : Stepping S.State S.Future O) (w : CallWorld) (hf : f.Owes prepare q) :
    Spends (StepCall.Passes prepare passes) (Stepping.Owes prepare) q w (poll S f w).1.left
      (poll S f w).2 := by
  cases f with
  | running f => exact run_spends h (.inl (.refl w))
  | starting service request =>
    have hw : Quiet w w.pass := .refl w
    simp only [poll]
    split
    · exact .rest (hw.emit (by simp)) fun g hg => (by cases hg)
    · have hr := hw.trans (h.pollReady service w.pass)
      generalize S.pollReady service w.pass = x at hr ⊢
      rcases x with ⟨(- | (e | u)) | payload,service',w₁⟩
      · refine .rest hr fun g hg => ?_
        obtain rfl := Option.some.inj hg
        exact hf
      · exact .rest hr fun g hg => (by cases hg)
      · dsimp only
        split
        · have hw₁ : Quiet w w₁.pass := hr
          exact .rest (hw₁.emit (by simp)) fun g hg => (by cases hg)
        · -- The one place where the provider may be called.
          obtain ⟨call,hcall,turn,hprepare,rfl⟩ := hf
          have hc : Screened (∃ step ∈ q, StepCall.Passes prepare passes step) w
              (S.call service' ⟨call.context,turn⟩ w₁.pass).2.2 :=
            ((h.screens service' ⟨call.context,turn⟩ w₁.pass).imp fun hp =>
              ⟨call,hcall,turn,hprepare,hp⟩).after hr
          generalize S.call service' ⟨call.context,turn⟩ w₁.pass = y at hc ⊢
          rcases y with ⟨f | payload,service'',w₂⟩
          · exact run_spends h hc
          · exact ⟨hc,fun g hg => (by cases hg)⟩
      · exact .rest hr fun g hg => (by cases hg)

lemma update_rests {σ F : Type} {next : F → CallWorld → F × CallWorld}
    (h : ∀ f w, Quiet w (next f w).2) :
    Rests (Stepping.Owes prepare) fun f : Stepping σ F O => f.update next := by
  intro f w
  cases f with
  | starting service request => exact ⟨.refl w,fun q hf => hf⟩
  | running f => exact ⟨h f w,fun q _ => trivial⟩

/-- The adapter over a service that calls the provider in its calls. -/
theorem frugal (h : Direct S passes) : Frugal (service prepare S) (StepCall.Passes prepare passes)
    (Gate.Owes (Stepping.Owes prepare)) where
  pollReady _ w := .refl w
  call := by
    intro s step w
    simp only [service, call]
    split
    · next turn hprepare =>
      refine .rest (.refl w) fun g hg => ?_
      obtain rfl := Option.some.inj hg
      exact ⟨step,rfl,turn,hprepare,rfl⟩
    · refine .rest (.refl w) fun g hg => ?_
      obtain rfl := Option.some.inj hg
      trivial
    · exact .rest (.refl w) fun g hg => (by cases hg)
  poll _ := Gate.poll_spends (poll_spends h)
  background k := Gate.update_rests (update_rests (h.background_quiet k))
  drop := Gate.update_rests (update_rests h.drops)

end AgentStepService
end Adapter

theorem genuine_stepLawful : genuine.StepLawful genuine where
  toLawful := genuine_lawful.toLawful
  safe _ _ := trivial
  enter _ _ _ := trivial
  invalid _ _ _ _ _ _ ho := (by cases ho)
  withdrawn _ _ _ _ ho := (by cases ho)
  refused _ _ _ _ _ _ ho := (by cases ho)
  abandoned _ _ _ := trivial
  done _ _ h := h
  broken _ _ := trivial

theorem ceiling_stepLawful (limit : Option ℕ) : (ceiling limit).StepLawful (ceiling limit) where
  toLawful := (ceiling_lawful limit).toLawful
  safe _ _ := trivial
  enter _ _ _ := trivial
  invalid _ _ _ _ _ _ ho := (by cases ho)
  withdrawn _ _ _ _ ho := (by cases ho)
  refused _ _ _ _ _ _ ho := (by cases ho)
  abandoned _ _ _ := trivial
  done _ _ h := h
  broken _ _ := trivial

section Stacks
variable {O I : Type} [RequestsFilesystemAuthority O] (outer : List GenericLayer)
  (prepare : StepCall I → Unwind (Except AgentError (Turn O))) (layers : List Layer)

/-- A step's service calls its provider for the turn prepared from the step, if every layer lets it
through. -/
theorem stepStack_frugal : ∃ owes, Frugal (stepStack O outer prepare layers)
    (StepCall.Passes prepare fun request => ∀ l ∈ layers, l.Passes request.body) owes := by
  induction outer with
  | nil => exact ⟨_,AgentStepService.frugal (stack_direct layers)⟩
  | cons g outer ih =>
    obtain ⟨_,h⟩ := ih
    exact ⟨_,g.frugal h⟩

/-- A step's service is always ready: what is below the adapter is readied in the future. -/
lemma stepStack_ready (s : (stepStack O outer prepare layers).State) (w : CallWorld) :
    ((stepStack O outer prepare layers).pollReady s w).1 = .returned (.ready (.ok ())) := by
  induction outer with
  | nil => rfl
  | cons g outer ih =>
    cases g with
    | limitOutput maxBytes => exact ih s
    | injectFaults => exact ih s.inner
    | catchPanic =>
      have hr := ih s
      simp only [stepStack, List.foldr_cons, GenericLayer.layer, CatchPanic.service,
        CatchPanic.pollReady] at hr ⊢
      split
      · next hp => rw [hp] at hr; cases hr
      · exact hr
    | admission =>
      have hr := ih s.inner
      simp only [stepStack, List.foldr_cons, GenericLayer.layer, Admission.service,
        Admission.pollReady] at hr ⊢
      rw [hr]
      cases s.permit <;> rfl

/-- An output limit on either side of the adapter bounds the successes. -/
lemma stepStack_ceiling {n : ℕ}
    (h : .limitOutput n ∈ outer ∨ .generic (.limitOutput n) ∈ layers) :
    ∃ inv, Keeps ((ceiling (some n)).terms 0) (stepStack O outer prepare layers) inv := by
  rcases h with h | h
  · obtain ⟨above,below,rfl⟩ := List.append_of_mem h
    have hbelow (k : ℕ) : ∃ inv, Keeps ((ceiling none).terms k) (stepStack O below prepare layers)
        inv :=
      stepStack_keeps_of (ceiling_lawful none) (ceiling_stepLawful none) ceiling_provides
        (fun _ _ _ _ _ _ _ ho => (by cases ho)) below layers
    generalize 0 = k
    induction above generalizing k with
    | nil => exact ⟨_,LimitOutput.bounds (hbelow k).choose_spec n⟩
    | cons g above ih => exact g.keeps (ceiling_lawful (some n)).toLawful (ih (by simp) _)
  · generalize 0 = k
    induction outer generalizing k with
    | nil =>
      obtain ⟨_,hk⟩ := stack_ceiling (O := O) h
      exact ⟨_,AgentStepService.keeps_of (k := k) (ceiling_stepLawful (some n)) hk
        fun _ _ _ _ _ _ ho => (by cases ho)⟩
    | cons g outer ih => exact g.keeps (ceiling_lawful (some n)).toLawful (ih _)

/-- What a run of a step's service has kept of its guards' promises. -/
structure StepGuarded (ops : List (Op (StepCall I)))
    (s : Session (stepStack O outer prepare layers)) : Prop where
  once : s.world.log.countP Event.isCalled ≤ 1
  passed : .called ∈ s.world.log → ∃ step, .call step ∈ ops ∧
    step.Passes prepare fun request => ∀ l ∈ layers, l.Passes request.body
  success : ∀ o, s.caller = .resolved (.ok o) → .called ∈ s.world.log ∧
    .settled (.ok o) ∈ s.world.log ∧
    ∀ n, .limitOutput n ∈ outer ∨ .generic (.limitOutput n) ∈ layers → o.outputBytes ≤ n

/-- The guards keep their promises below a step adapter too. -/
theorem stepStack_guarded (oracle : ℕ → Moment Reply) (cancelled : Bool) (now : ℕ)
    (service : (stepStack O outer prepare layers).State) (ops : List (Op (StepCall I))) :
    StepGuarded outer prepare layers ops
      ((Session.fresh oracle cancelled now service).run ops) := by
  obtain ⟨_,hf⟩ := stepStack_frugal outer prepare layers
  have hthrifty := hf.run oracle cancelled now service ops
  refine ⟨hthrifty.once,hthrifty.passed,fun o ho => ?_⟩
  have hkeeps : ∃ inv, Keeps (genuine.terms 0) (stepStack O outer prepare layers) inv :=
    stepStack_keeps_of genuine_lawful genuine_stepLawful genuine_provides
      (fun _ _ _ _ _ _ _ ho => (by cases ho)) outer layers
  obtain ⟨_,hg⟩ := hkeeps
  have hgenuine := (Session.run_standing (fun _ _ => True) hg (fun _ _ _ _ => trivial) (by simp)
    (by simp) trivial oracle cancelled now service ops).caller
  rw [ho] at hgenuine
  obtain ⟨hcalled,hsettled⟩ := hgenuine o rfl
  refine ⟨hcalled,hsettled,fun n hn => ?_⟩
  obtain ⟨_,hb⟩ := stepStack_ceiling outer prepare layers hn
  have hbound := (Session.run_standing (fun _ _ => True) hb (fun _ _ _ _ => trivial) (by simp)
    (by simp) trivial oracle cancelled now service ops).caller
  rw [ho] at hbound
  exact hbound o rfl n rfl

end Stacks
end TowerAgent.Kernel
