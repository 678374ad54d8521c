import TowerAgent.Kernel.Steps
import TowerAgent.Workflow.Outcome

/-! Workflows of agent steps: the runner over the service of each step, which is a stack of kernel
layers below the step adapter. Every run of the two together is one of the runner alone and one of
each step's session, and what the two promise adds up. -/
namespace TowerAgent.Workflow
open Lib
open Kernel (AgentError AgentService CallContext CallResult GenericLayer Layer Reply
  RequestsFilesystemAuthority Turn TurnOutcome stepStack)
open Std (ExtTreeMap)

variable {I J O : Type}

/-- The context that a step's call hands on, with the deadline of the run. -/
def StepCall.agentContext {O : Type} (call : StepCall I J O) (operationId : UInt64) : CallContext :=
  { operationId, deadline := call.deadline }

/-- A dispatcher of agent steps: layers over the step adapter, which prepares turns of a stack. -/
structure AgentDispatcher (I J O : Type) where
  outer : List GenericLayer
  prepare : StepCall I J TurnOutcome → Unwind (Except AgentError (Turn O))
  layers : List Layer

/-- What the service of a step is called with. -/
abbrev AgentCall (I J : Type) := Kernel.StepCall (StepCall I J TurnOutcome)

abbrev AgentDispatcher.service [RequestsFilesystemAuthority O] (d : AgentDispatcher I J O) :
    AgentService (AgentCall I J) :=
  stepStack O d.outer (fun step => d.prepare step.input) d.layers

section Machine
variable [RequestsFilesystemAuthority O]

/-- What surrounds the call of each step: its clone of the dispatcher, and the world it runs in,
where its token and its clock may read anything. -/
structure Surroundings (d : AgentDispatcher I J O) where
  service : StepId → d.service.State
  oracle : StepId → ℕ → Moment Reply
  cancelled : StepId → Bool
  now : StepId → ℕ

def Surroundings.fresh {d : AgentDispatcher I J O} (env : Surroundings d) (id : StepId) :
    Session d.service :=
  .fresh (env.oracle id) (env.cancelled id) (env.now id) (env.service id)

/-- The runner, and the session of each step with its service. -/
structure AgentRun (d : AgentDispatcher I J O) where
  run : State I J TurnOutcome AgentError
  calls : StepId → Session d.service
  /-- The future of the run is no more: it was dropped, or a panic unwound through it. -/
  gone : Bool := false

/-- What happens next: the runner goes on by itself or uses the service of the step it polls, the
runtime polls a task below a step or lets time pass for it, or the run is dropped. -/
inductive AgentEvent where
  | runner (event : Event TurnOutcome AgentError)
  | pollReady (id : StepId)
  | call (id : StepId) (operationId : UInt64)
  | pollCall (id : StepId)
  | background (id : StepId) (k : ℕ)
  | pass (id : StepId)
  | drop

/-- The flight being polled, when it is the step's and stands at the phase. -/
def State.polled {E : Type} (s : State I J O E) (id : StepId) (phase : Phase) :
    Option (Flight I J O) :=
  match s.pc with
  | .polling f => if f.id = id ∧ f.phase = phase then some f else none
  | _ => none

/-- What the runner sees of a readiness poll that does not panic. -/
def readyEvent (id : StepId) : Kernel.Readiness → Option (Event TurnOutcome AgentError)
  | .returned .pending => some (.pollReady id .pending)
  | .returned (.ready (.ok ())) => some (.pollReady id .ok)
  | .returned (.ready (.error error)) => some (.pollReady id (.err error))
  | .panicked _ => none

/-- What the runner sees of a poll that does not panic. -/
def pollEvent {F : Type} (id : StepId) : Polled F CallResult → Option (Event TurnOutcome AgentError)
  | .pending _ => some (.pollCall id .pending)
  | .ready result => some (.pollCall id (.settled result))
  | .panicked _ => none

namespace AgentRun
variable {d : AgentDispatcher I J O} (r : AgentRun d)

def drive (id : StepId) (op : Op (AgentCall I J)) : AgentRun d :=
  { r with calls := Function.update r.calls id ((r.calls id).drive op) }

/-- The future of the run goes away, and with it the futures it holds. -/
def abandon : AgentRun d :=
  { r with calls := fun id => (r.calls id).drive .drop, gone := true }

variable (max : ℕ) (request : WorkflowRequest I J)

/-- The runner takes a step of its own. -/
def advance (event : Event TurnOutcome AgentError) : Option (AgentRun d) :=
  (executeStep max request r.run event).map fun run => { r with run }

/-- The runner takes the answer of a poll, unless it was a panic. -/
def answered : Option (Event TurnOutcome AgentError) → Option (AgentRun d)
  | some event => r.advance max request event
  | none => some r.abandon

def pollReady (id : StepId) : Option (AgentRun d) :=
  let session := r.calls id
  (r.run.polled id .selectReady).bind fun _ => (r.drive id .pollReady).answered max request
    (readyEvent id (d.service.pollReady session.service session.world).1)

def call (id : StepId) (operationId : UInt64) : Option (AgentRun d) :=
  let session := r.calls id
  (r.run.polled id .checked).bind fun f =>
    let step : AgentCall I J := { context := f.call.agentContext operationId, input := f.call }
    ((r.drive id (.call step)).advance max request (.call id)).map fun r =>
      match (d.service.call session.service step session.world).1 with
      | .returned _ => r
      | .panicked _ => r.abandon

def pollCall (id : StepId) : Option (AgentRun d) :=
  let session := r.calls id
  (r.run.polled id .calling).bind fun _ =>
    match session.caller with
    | .holding future => (r.drive id .poll).answered max request
        (pollEvent id (d.service.poll future session.world).1)
    | _ => none

/-- One step; once the run is gone, the runtime alone goes on. -/
def step (event : AgentEvent) : Option (AgentRun d) :=
  match event with
  | .background id k => some (r.drive id (.background k))
  | .pass id => some (r.drive id .pass)
  | event =>
    if r.gone then none
    else
      match event with
      | .runner event => if event.onClone.isSome then none else r.advance max request event
      | .pollReady id => r.pollReady max request id
      | .call id operationId => r.call max request id operationId
      | .pollCall id => r.pollCall max request id
      | _ => some r.abandon

end AgentRun

/-- A workflow of agent steps, from its call on. -/
def executeAgents (max : ℕ) (request : WorkflowRequest I J) {d : AgentDispatcher I J O}
    (env : Surroundings d) : Machine (AgentRun d) AgentEvent where
  start := { run := initial request, calls := env.fresh }
  step r := r.step max request

end Machine

section Linked
variable [RequestsFilesystemAuthority O] {max : ℕ} {request : WorkflowRequest I J}
  {d : AgentDispatcher I J O} {env : Surroundings d}
  {t u : List (Event TurnOutcome AgentError)} {r r' : AgentRun d}

/-- The runner called the step's service so, in its trace. -/
def Begun (max : ℕ) (request : WorkflowRequest I J) (t : List (Event TurnOutcome AgentError))
    (id : StepId) (step : AgentCall I J) : Prop :=
  ∃ before after m f operationId, t = before ++ .call id::after ∧
    (execute max request).run before = some m ∧ m.pc = .polling f ∧ f.id = id ∧
    step = { context := f.call.agentContext operationId, input := f.call }

/-- Where a session stands, by the runner's trace. -/
def Stands (t : List (Event TurnOutcome AgentError)) (gone : Bool) (id : StepId) {F : Type} :
    Caller F CallResult → Prop
  | .idle => .call id ∉ t
  | .holding _ => .call id ∈ t ∧ (∀ result, .pollCall id (.settled result) ∉ t) ∧ gone = false
  | .resolved result => .call id ∈ t ∧ .pollCall id (.settled result) ∈ t
  | .dropped _ | .crashed => gone = true

/-- The run of a workflow of agent steps is one of its runner, and one of each step's session. -/
structure Linked (max : ℕ) (request : WorkflowRequest I J) (env : Surroundings d)
    (t : List (Event TurnOutcome AgentError)) (r : AgentRun d) : Prop where
  runner : (execute max request).run t = some r.run
  sessions : ∀ id, ∃ ops, r.calls id = (env.fresh id).run ops ∧
    ∀ step, .call step ∈ ops → Begun max request t id step
  stands : ∀ id, Stands t r.gone id (r.calls id).caller
  ready : ∀ id error, .pollReady id (.err error) ∉ t
  /-- What the runner was told a step settled with, its session has resolved to. -/
  settled : ∀ id result, .pollCall id (.settled result) ∈ t →
    (r.calls id).caller = .resolved result

lemma Begun.append {id : StepId} {step : AgentCall I J} (h : Begun max request t id step) :
    Begun max request (t ++ u) id step := by
  obtain ⟨before,after,m,f,operationId,rfl,hrest⟩ := h
  exact ⟨before,after ++ u,m,f,operationId,by simp,hrest⟩

/-- An event that neither calls a step's service nor settles its call. -/
def Silent (id : StepId) (e : Event TurnOutcome AgentError) : Prop :=
  e ≠ .call id ∧ ∀ result, e ≠ .pollCall id (.settled result)

lemma Silent.of_onClone {id : StepId} {e : Event TurnOutcome AgentError}
    (h : e.onClone ≠ some id) : Silent id e := by
  constructor
  · rintro rfl
    exact h rfl
  · rintro result rfl
    exact h rfl

section Silence
variable {id : StepId} (hu : ∀ e ∈ u, Silent id e)
include hu

lemma mem_call_append : .call id ∈ t ++ u ↔ .call id ∈ t := by
  rw [List.mem_append,or_iff_left fun hm => (hu _ hm).1 rfl]

lemma mem_settled_append (result : CallResult) :
    .pollCall id (.settled result) ∈ t ++ u ↔ .pollCall id (.settled result) ∈ t := by
  rw [List.mem_append,or_iff_left fun hm => (hu _ hm).2 result rfl]

lemma Stands.silent {gone : Bool} {F : Type} {caller : Caller F CallResult}
    (h : Stands t gone id caller) : Stands (t ++ u) gone id caller := by
  cases caller <;> simpa only [Stands, mem_call_append hu, mem_settled_append hu] using h

end Silence

/-- How a session moves while the runner's trace grows. -/
structure Moved (max : ℕ) (request : WorkflowRequest I J)
    (t u : List (Event TurnOutcome AgentError)) (gone : Bool) (id : StepId)
    (s s' : Session d.service) : Prop where
  driven : ∃ ops, s' = s.run ops ∧ ∀ step, .call step ∈ ops → Begun max request (t ++ u) id step
  stands : Stands (t ++ u) gone id s'.caller
  settled : ∀ result, .pollCall id (.settled result) ∈ t ++ u → s'.caller = .resolved result

namespace Linked
variable (h : Linked max request env t r)
include h

/-- Moving each session moves the run. -/
lemma move (hrun : (execute max request).run (t ++ u) = some r'.run)
    (hready : ∀ id error, .pollReady id (.err error) ∉ u)
    (hmoved : ∀ id, Moved max request t u r'.gone id (r.calls id) (r'.calls id)) :
    Linked max request env (t ++ u) r' := by
  refine ⟨hrun,fun id => ?_,fun id => (hmoved id).stands,fun id error hm => ?_,
    fun id => (hmoved id).settled⟩
  swap
  · exact (List.mem_append.mp hm).elim (h.ready id error) (hready id error)
  obtain ⟨ops,hops,hbegun⟩ := h.sessions id
  obtain ⟨ops',hops',hbegun'⟩ := (hmoved id).driven
  refine ⟨ops ++ ops',?_,fun step hm => ?_⟩
  · rw [hops',hops,Session.run,Session.run,Session.run,List.foldl_append]
  · exact (List.mem_append.mp hm).elim (fun hm => (hbegun step hm).append) (hbegun' step)

lemma still {id : StepId} (hu : ∀ e ∈ u, Silent id e) :
    Moved max request t u r.gone id (r.calls id) (r.calls id) where
  driven := ⟨[],rfl,fun _ hm => (by cases hm)⟩
  stands := (h.stands id).silent hu
  settled result hm := h.settled id result ((mem_settled_append hu result).mp hm)

/-- The run is gone, and a future that it held with it. -/
lemma dropped {id : StepId} (hu : ∀ e ∈ u, Silent id e) :
    Moved max request t u true id (r.calls id) ((r.calls id).drive .drop) where
  driven := ⟨[.drop],rfl,fun _ hm => (by cases List.mem_singleton.mp hm)⟩
  stands := by
    have hs := (h.stands id).silent hu
    simp only [Session.drive]
    cases hc : (r.calls id).caller with
    | holding f => exact rfl
    | idle | resolved result =>
      rw [hc] at hs
      simp only [hc]
      exact hs
    | dropped f | crashed =>
      simp only [hc]
      exact rfl
  settled result hm := by
    have hc := h.settled id result ((mem_settled_append hu result).mp hm)
    simp only [Session.drive, hc]

lemma abandon : Linked max request env t r.abandon := by
  have hu : ∀ id, ∀ e ∈ ([] : List (Event TurnOutcome AgentError)), Silent id e := by simp
  have hrun : (execute max request).run (t ++ []) = some r.abandon.run := by
    rw [List.append_nil]
    exact h.runner
  simpa using h.move hrun (by simp) fun id => h.dropped (hu id)

/-- Only one step's session is driven. -/
lemma drive {id : StepId} {op : Op (AgentCall I J)} {run : State I J TurnOutcome AgentError}
    (hrun : (execute max request).run (t ++ u) = some run)
    (hready : ∀ id error, .pollReady id (.err error) ∉ u) (hu : ∀ e ∈ u, ∀ k ≠ id, Silent k e)
    (hid : Moved max request t u r.gone id (r.calls id) ((r.calls id).drive op)) :
    Linked max request env (t ++ u) { r.drive id op with run } := by
  refine h.move hrun hready fun k => ?_
  by_cases hk : k = id
  · subst hk
    simpa [AgentRun.drive] using hid
  · simpa [AgentRun.drive, hk] using h.still fun e he => hu e he k hk

/-- One step's session is driven into a panic, which takes the run with it. -/
lemma crash {id : StepId} {op : Op (AgentCall I J)} {run : State I J TurnOutcome AgentError}
    (hrun : (execute max request).run (t ++ u) = some run)
    (hready : ∀ id error, .pollReady id (.err error) ∉ u) (hu : ∀ e ∈ u, ∀ k ≠ id, Silent k e)
    (hc : ((r.calls id).drive op).caller = .crashed)
    (hbegun : ∀ step, op = .call step → Begun max request (t ++ u) id step)
    (hsettled : ∀ result, .pollCall id (.settled result) ∉ t ++ u) :
    Linked max request env (t ++ u) (AgentRun.abandon { r.drive id op with run }) := by
  refine h.move hrun hready fun k => ?_
  by_cases hk : k = id
  · subst hk
    have hdrop : (((r.calls k).drive op).drive .drop) = (r.calls k).drive op := by
      generalize (r.calls k).drive op = s at hc
      simp only [Session.drive, hc]
    have hmoved : Moved max request t u true k (r.calls k) ((r.calls k).drive op) :=
      ⟨⟨[op],rfl,fun step hm => hbegun step (List.mem_singleton.mp hm).symm⟩,by rw [hc]; exact rfl,
        fun result hm => absurd hm (hsettled result)⟩
    simpa [AgentRun.abandon, AgentRun.drive, hdrop] using hmoved
  · simpa [AgentRun.abandon, AgentRun.drive, hk] using h.dropped fun e he => hu e he k hk

end Linked

omit [RequestsFilesystemAuthority O] in
lemma polled_eq_some {E : Type} {s : State I J O E} {id : StepId} {phase : Phase}
    {f : Flight I J O} (h : s.polled id phase = some f) :
    s.pc = .polling f ∧ f.id = id ∧ f.phase = phase := by
  unfold State.polled at h
  split at h
  · next g hpc =>
    split at h
    · next hg =>
      obtain rfl := Option.some.inj h
      exact ⟨hpc,hg⟩
    · cases h
  · cases h

namespace Linked

section Step
variable (h : Linked max request env t r)
include h

/-- A step of the runner is one more event of its trace. -/
lemma run_concat {e : Event TurnOutcome AgentError} {run : State I J TurnOutcome AgentError}
    (he : executeStep max request r.run e = some run) :
    (execute max request).run (t ++ [e]) = some run := by
  rw [Machine.run_concat,h.runner]
  exact he

lemma advance_runner {e : Event TurnOutcome AgentError} (he : e.onClone = none)
    (hr : r.advance max request e = some r') : Linked max request env (t ++ [e]) r' := by
  obtain ⟨run,hrun,rfl⟩ := Option.map_eq_some_iff.mp hr
  refine h.move (h.run_concat hrun) (fun id error hm => ?_) fun id => h.still fun e' he' => ?_
  · obtain rfl := List.mem_singleton.mp hm
    cases he
  · obtain rfl := List.mem_singleton.mp he'
    exact .of_onClone (by rw [he]; simp)

/-- A task below a step moves, or time passes for it. -/
lemma rests {id : StepId} {op : Op (AgentCall I J)} (hop : (∃ k, op = .background k) ∨ op = .pass) :
    Linked max request env t (r.drive id op) := by
  have hs := h.stands id
  have hsettled := h.settled id
  have hmoved : Moved max request t [] r.gone id (r.calls id) ((r.calls id).drive op) := by
    refine ⟨⟨[op],rfl,fun step hm => ?_⟩,?_,fun result hm => ?_⟩
    · obtain rfl := (List.mem_singleton.mp hm)
      rcases hop with ⟨k,hop⟩ | hop <;> cases hop
    · rw [List.append_nil]
      rcases hop with ⟨k,rfl⟩ | rfl
      · simp only [Session.drive]
        cases hc : (r.calls id).caller <;> rw [hc] at hs <;> simp only [hc] <;> exact hs
      · exact hs
    · rw [List.append_nil] at hm
      have hc := hsettled result hm
      rcases hop with ⟨k,rfl⟩ | rfl
      · simp only [Session.drive, hc]
      · exact hc
  have hrun : (execute max request).run (t ++ []) = some r.run := by
    rw [List.append_nil]
    exact h.runner
  have hlinked := h.drive hrun (by simp) (by simp) hmoved
  rw [List.append_nil] at hlinked
  exact hlinked

/-- A step's service is always ready. -/
lemma pollReady {id : StepId} (hr : r.pollReady max request id = some r') :
    Linked max request env (t ++ [.pollReady id .ok]) r' := by
  have hready := Kernel.stepStack_ready d.outer (fun step => d.prepare step.input) d.layers
    (r.calls id).service (r.calls id).world
  obtain ⟨f,-,hr⟩ := Option.bind_eq_some_iff.mp hr
  rw [hready] at hr
  obtain ⟨run,hrun,rfl⟩ := Option.map_eq_some_iff.mp hr
  have hsilent : ∀ k, Silent k (.pollReady id .ok) := fun k => ⟨by simp,by simp⟩
  have hcaller : ((r.calls id).drive .pollReady).caller = (r.calls id).caller := by
    generalize (r.calls id) = s at hready ⊢
    obtain ⟨world,service,caller,refusals⟩ := s
    cases caller with
    | idle =>
      simp only [Session.drive]
      rcases hp : d.service.pollReady service world with ⟨answer,service',world'⟩
      rw [hp] at hready
      obtain rfl : answer = .returned (.ready (.ok ())) := hready
      rfl
    | _ => rfl
  refine h.drive (h.run_concat hrun) (by simp) (fun e he k _ => ?_) ⟨⟨[.pollReady],rfl,?_⟩,?_,?_⟩
  · obtain rfl := List.mem_singleton.mp he
    exact hsilent k
  · exact fun step hm => (by cases List.mem_singleton.mp hm)
  · rw [hcaller]
    exact (h.stands id).silent (by simp [hsilent])
  · intro result hm
    rw [hcaller]
    exact h.settled id result ((mem_settled_append (by simp [hsilent]) result).mp hm)

/-- A step's service is called once, and before that its session is idle. -/
lemma call (hmax : 0 < max) (hd : request.definition.WellFormed) (hgone : r.gone = false)
    {id : StepId} {operationId : UInt64} (hr : r.call max request id operationId = some r') :
    Linked max request env (t ++ [.call id]) r' := by
  obtain ⟨f,hf,hr⟩ := Option.bind_eq_some_iff.mp hr
  obtain ⟨hpc,hid,-⟩ := polled_eq_some hf
  obtain ⟨r₁,hr₁,hr⟩ := Option.map_eq_some_iff.mp hr
  obtain ⟨run,hrun,rfl⟩ := Option.map_eq_some_iff.mp hr₁
  have hrun := h.run_concat hrun
  have hothers : ∀ e ∈ [(.call id : Event TurnOutcome AgentError)], ∀ k ≠ id, Silent k e := by
    intro e he k hk
    obtain rfl := List.mem_singleton.mp he
    exact .of_onClone fun hc => hk (Option.some.inj hc).symm
  have hnew : .call id ∉ t := by
    have hnodup := (sound_of_run hmax hd hrun).calls_nodup
    rw [calls_concat] at hnodup
    intro hm
    have hcalled : id ∈ calls t := List.mem_filterMap.mpr ⟨_,hm,rfl⟩
    exact (List.nodup_append.mp hnodup).2.2 id hcalled id (by simp [Event.begun]) rfl
  have hidle : (r.calls id).caller = .idle := by
    have hs := h.stands id
    rw [hgone] at hs
    cases hc : (r.calls id).caller <;> rw [hc] at hs <;> simp_all [Stands]
  have hunsettled : ∀ result, .pollCall id (.settled result) ∉ t ++ [.call id] := by
    intro result hm
    have hm : .pollCall id (.settled result) ∈ t := by simpa using hm
    rw [h.settled id result hm] at hidle
    cases hidle
  have hbegun : ∀ step, Op.call { context := f.call.agentContext operationId, input := f.call } =
      Op.call step → Begun max request (t ++ [.call id]) id step := by
    intro step hop
    obtain rfl := Op.call.inj hop
    exact ⟨t,[],r.run,f,operationId,rfl,h.runner,hpc,hid,rfl⟩
  simp only [AgentRun.drive] at hr
  generalize hstep : ({ context := f.call.agentContext operationId, input := f.call } :
    AgentCall I J) = step at hr hbegun
  rcases hanswer : d.service.call (r.calls id).service step (r.calls id).world with
    ⟨future | payload,service',world'⟩
  · rw [hanswer] at hr
    obtain rfl := hr
    have hcaller : ((r.calls id).drive (.call step)).caller = .holding future := by
      simp only [Session.drive, hidle, hanswer]
    refine h.drive hrun (by simp) hothers
      ⟨⟨[.call step],rfl,fun step' hm => ?_⟩,?_,fun result hm => ?_⟩
    · exact hbegun step' (List.mem_singleton.mp hm).symm
    · rw [hcaller]
      exact ⟨by simp,hunsettled,hgone⟩
    · exact absurd hm (hunsettled result)
  · rw [hanswer] at hr
    obtain rfl := hr
    have hcaller : ((r.calls id).drive (.call step)).caller = .crashed := by
      simp only [Session.drive, hidle, hanswer]
    exact h.crash hrun (by simp) hothers hcaller hbegun hunsettled

/-- The poll of a step's future is told to the runner, unless it panics. -/
lemma pollCall (hgone : r.gone = false) {id : StepId} (hr : r.pollCall max request id = some r') :
    ∃ u, Linked max request env (t ++ u) r' := by
  obtain ⟨f,-,hr⟩ := Option.bind_eq_some_iff.mp hr
  have hs := h.stands id
  split at hr
  · next future hc =>
    rw [hc] at hs
    obtain ⟨hcall,hunsettled,-⟩ := hs
    rcases hanswer : d.service.poll future (r.calls id).world with
      ⟨future' | result | payload,world'⟩
    · rw [hanswer] at hr
      obtain ⟨run,hrun,rfl⟩ := Option.map_eq_some_iff.mp hr
      have hcaller : ((r.calls id).drive .poll).caller = .holding future' := by
        simp only [Session.drive, hc, hanswer]
      refine ⟨_,h.drive (h.run_concat hrun) (by simp) (fun e he k hk => ?_)
        ⟨⟨[.poll],rfl,fun step hm => (by cases List.mem_singleton.mp hm)⟩,?_,fun result hm => ?_⟩⟩
      · obtain rfl := List.mem_singleton.mp he
        exact .of_onClone fun hc => hk (Option.some.inj hc).symm
      · rw [hcaller]
        exact ⟨List.mem_append_left _ hcall,by simpa using hunsettled,hgone⟩
      · exact absurd (by simpa using hm) (hunsettled result)
    · rw [hanswer] at hr
      obtain ⟨run,hrun,rfl⟩ := Option.map_eq_some_iff.mp hr
      have hcaller : ((r.calls id).drive .poll).caller = .resolved result := by
        simp only [Session.drive, hc, hanswer]
      refine ⟨_,h.drive (h.run_concat hrun) (by simp) (fun e he k hk => ?_)
        ⟨⟨[.poll],rfl,fun step hm => (by cases List.mem_singleton.mp hm)⟩,?_,fun result' hm => ?_⟩⟩
      · obtain rfl := List.mem_singleton.mp he
        exact .of_onClone fun hc => hk (Option.some.inj hc).symm
      · rw [hcaller]
        exact ⟨List.mem_append_left _ hcall,by simp⟩
      · rw [hcaller]
        rcases List.mem_append.mp hm with hm | hm
        · exact absurd hm (hunsettled result')
        · obtain rfl : result' = result := by simpa using hm
          rfl
    · rw [hanswer] at hr
      obtain rfl := Option.some.inj hr
      have hcaller : ((r.calls id).drive .poll).caller = .crashed := by
        simp only [Session.drive, hc, hanswer]
      have hrun : (execute max request).run (t ++ []) = some r.run := by
        rw [List.append_nil]
        exact h.runner
      exact ⟨[],h.crash hrun (by simp) (by simp) hcaller (fun step hop => (by cases hop))
        (by simpa using hunsettled)⟩
  · cases hr

/-- Every step of a workflow of agent steps is one of its runner, or none, and one of a session. -/
theorem step (hmax : 0 < max) (hd : request.definition.WellFormed) {e : AgentEvent}
    (hr : r.step max request e = some r') : ∃ u, Linked max request env (t ++ u) r' := by
  have still : Linked max request env t r' → ∃ u, Linked max request env (t ++ u) r' := fun hl =>
    ⟨[],by rwa [List.append_nil]⟩
  unfold AgentRun.step at hr
  split at hr
  · obtain rfl := Option.some.inj hr
    exact still (h.rests (.inl ⟨_,rfl⟩))
  · obtain rfl := Option.some.inj hr
    exact still (h.rests (.inr rfl))
  · split at hr
    · cases hr
    · next hgone =>
      have hgone : r.gone = false := by simpa using hgone
      split at hr
      · split at hr
        · cases hr
        · next he => exact ⟨_,h.advance_runner (by simpa using he) hr⟩
      · exact ⟨_,h.pollReady hr⟩
      · exact ⟨_,h.call hmax hd hgone hr⟩
      · exact h.pollCall hgone hr
      · obtain rfl := Option.some.inj hr
        exact still h.abandon

end Step
end Linked

/-- Every run of a workflow of agent steps is one of its runner, and one of each session. -/
theorem linked_of_run (hmax : 0 < max) (hd : request.definition.WellFormed) {v : List AgentEvent}
    (hr : (executeAgents max request env).run v = some r) : ∃ t, Linked max request env t r := by
  refine Machine.invariant (P := fun _ r => ∃ t, Linked max request env t r) ?_ ?_ hr
  · exact ⟨[],rfl,fun id => ⟨[],rfl,fun _ hm => (by cases hm)⟩,fun id => List.not_mem_nil,
      fun _ _ => List.not_mem_nil,fun _ _ hm => (by cases hm)⟩
  · rintro v r e r' - ⟨t,h⟩ hstep
    obtain ⟨u,hu⟩ := h.step hmax hd hstep
    exact ⟨t ++ u,hu⟩

/-- The outcome is the one that the step's provider settled with, in its only call, and it is
within the limits of the step's service. -/
structure AgentRun.Supplied (r : AgentRun d) (id : StepId) (outcome : TurnOutcome) : Prop where
  resolved : (r.calls id).caller = .resolved (.ok outcome)
  once : (r.calls id).world.log.countP Kernel.Event.isCalled = 1
  settled : .settled (.ok outcome) ∈ (r.calls id).world.log
  bounded : ∀ n, .limitOutput n ∈ d.outer ∨ .generic (.limitOutput n) ∈ d.layers →
    outcome.outputBytes ≤ n

/-- The provider was called for the step of the definition: for the turn prepared from its job and
from what its needs' providers settled with, and let through by every layer. -/
def AgentRun.Justified (r : AgentRun d) (request : WorkflowRequest I J) (id : StepId) : Prop :=
  ∃ step call turn, request.definition.step id = some step ∧ call.stepId = id ∧
    call.job = step.job ∧ call.input = request.input ∧
    (∀ k, k ∈ call.dependencies ↔ k ∈ step.needs) ∧
    (∀ (k : StepId) o, call.dependencies[k]? = some o → r.Supplied k o) ∧
    d.prepare call = .returned (.ok turn) ∧ ∀ l ∈ d.layers, l.Passes turn

namespace Linked
variable (h : Linked max request env t r)
include h

lemma guarded (id : StepId) : ∃ ops, Kernel.StepGuarded d.outer (fun step => d.prepare step.input)
    d.layers ops (r.calls id) ∧ ∀ step, .call step ∈ ops → Begun max request t id step := by
  obtain ⟨ops,hops,hbegun⟩ := h.sessions id
  rw [hops]
  exact ⟨ops,Kernel.stepStack_guarded _ _ _ _ _ _ _ _,hbegun⟩

lemma supplied {id : StepId} {outcome : TurnOutcome}
    (hm : .pollCall id (.settled (.ok outcome)) ∈ t) : r.Supplied id outcome := by
  obtain ⟨ops,hg,-⟩ := h.guarded id
  have hc := h.settled id _ hm
  obtain ⟨hcalled,hsettled,hbounded⟩ := hg.success outcome hc
  refine ⟨hc,?_,hsettled,hbounded⟩
  have := hg.once
  have := Kernel.called_mem_iff.mp hcalled
  omega

lemma justified (hmax : 0 < max) (hd : request.definition.WellFormed) {id : StepId}
    (hm : .called ∈ (r.calls id).world.log) : r.Justified request id := by
  obtain ⟨ops,hg,hbegun⟩ := h.guarded id
  obtain ⟨call,hcall,turn,hprepare,hpass⟩ := hg.passed hm
  obtain ⟨before,after,m,f,operationId,ht,hrun,hpc,hid,rfl⟩ := hbegun call hcall
  have hs := sound_of_run hmax hd hrun
  obtain ⟨step,hstep⟩ := hs.flights f (by rw [crew_polling hpc]; exact Multiset.mem_cons_self _ _)
  refine ⟨step,f.call,turn,hid ▸ hstep.step_eq,hid,hstep.job_eq,hstep.input_eq,fun k => ?_,
    fun k o ho => ?_,hprepare,hpass⟩
  · rw [ExtTreeMap.mem_iff_isSome_getElem?,hstep.dependencies_eq k]
    split
    · next hk => simpa [hk] using ExtTreeMap.mem_iff_isSome_getElem?.mp (hstep.needs_done k hk)
    · next hk => simp [hk]
  · rw [hstep.dependencies_eq k] at ho
    split at ho
    · have hresult : .pollCall k (.settled (.ok o)) ∈ before :=
        mem_results_ok.mp (hs.result_of_output ho)
      exact h.supplied (ht ▸ List.mem_append_left _ hresult)
    · cases ho

end Linked

omit [RequestsFilesystemAuthority O] in
/-- A run that has returned stays there. -/
lemma finished_step {E : Type} {s s' : State I J O E} {e : Event O E}
    {result : Except (WorkflowFailure E O) (WorkflowOutcome O)}
    (he : executeStep max request s e = some s') (hpc : s.pc = .finished result) :
    s'.pc = .finished result := by
  cases e with
  | cancelCaller | tick n =>
    obtain rfl := Option.some.inj he
    exact hpc
  | cancelReturned =>
    simp only [executeStep] at he
    split at he
    · obtain rfl := Option.some.inj he
      exact hpc
    · cases he
  | _ =>
    simp [executeStep, advance, admitStep, timer, poll, park, hpc] at he

/-- The run is over: it has returned, or its future is no more. -/
def AgentRun.Over (r : AgentRun d) : Prop := r.gone = true ∨ ∃ result, r.run.pc = .finished result

lemma AgentRun.Over.polled (h : r.Over) (hgone : r.gone = false) (id : StepId) (phase : Phase) :
    r.run.polled id phase = none := by
  obtain ⟨result,hpc⟩ := h.resolve_left (by simp [hgone])
  simp [State.polled, hpc]

/-- No provider is called once the run is over. -/
lemma AgentRun.Over.step (h : r.Over) {e : AgentEvent}
    (hr : r.step max request e = some r') :
    r'.Over ∧ ∀ id, Kernel.Quiet (r.calls id).world (r'.calls id).world := by
  obtain ⟨_,hS⟩ := Kernel.stepStack_frugal d.outer
    (fun step : AgentCall I J => d.prepare step.input) d.layers
  have driven : ∀ id op, (∃ k, op = .background k) ∨ op = .drop ∨ op = .pass → ∀ k,
      Kernel.Quiet (r.calls k).world ((r.drive id op).calls k).world := by
    intro id op hop k
    by_cases hk : k = id
    · subst hk
      simpa [AgentRun.drive] using hS.drive_quiet (r.calls k) hop
    · simpa [AgentRun.drive, hk] using Grows.refl (r.calls k).world
  unfold AgentRun.step at hr
  split at hr
  · obtain rfl := Option.some.inj hr
    exact ⟨h,driven _ _ (.inl ⟨_,rfl⟩)⟩
  · obtain rfl := Option.some.inj hr
    exact ⟨h,driven _ _ (.inr (.inr rfl))⟩
  · split at hr
    · cases hr
    · next hgone =>
      have hgone : r.gone = false := by simpa using hgone
      have hpolled := h.polled hgone
      split at hr
      · split at hr
        · cases hr
        · obtain ⟨run,hrun,rfl⟩ := Option.map_eq_some_iff.mp hr
          obtain ⟨result,hpc⟩ := h.resolve_left (by simp [hgone])
          exact ⟨.inr ⟨result,finished_step hrun hpc⟩,fun id => .refl _⟩
      · simp [AgentRun.pollReady, hpolled] at hr
      · simp [AgentRun.call, hpolled] at hr
      · simp [AgentRun.pollCall, hpolled] at hr
      · obtain rfl := Option.some.inj hr
        exact ⟨.inl rfl,fun id => hS.drive_quiet (r.calls id) (.inr (.inl rfl))⟩

lemma AgentRun.Over.quiet (h : r.Over) {v : List AgentEvent}
    (hr : (executeAgents max request env).runFrom r v = some r') (id : StepId) :
    Kernel.Quiet (r.calls id).world (r'.calls id).world := by
  induction v generalizing r with
  | nil =>
    obtain rfl := Option.some.inj hr
    exact .refl _
  | cons e v ih =>
    obtain ⟨m,hm,hv⟩ := Option.bind_eq_some_iff.mp hr
    obtain ⟨hover,hquiet⟩ := h.step hm
    exact (hquiet id).trans (ih hover hv)

omit [RequestsFilesystemAuthority O] in
/-- What a returned run reports. -/
lemma Sound.reported {E : Type} {t : List (Event O E)} {s : State I J O E}
    {result : Except (WorkflowFailure E O) (WorkflowOutcome O)}
    (h : Sound max request t s) (hd : request.definition.WellFormed)
    (hpc : s.pc = .finished result) :
    completedOf result = s.outputs ∧ failuresOf result = sortFailures s.failures := by
  obtain ⟨-,hcon,-⟩ := h.at_end hpc
  cases hsr : s.stopReason with
  | some reason =>
    obtain ⟨f,-,-,hout,hfail⟩ := conclude_stopped hsr hcon
    exact ⟨hout,hfail⟩
  | none =>
    obtain ⟨leafOutputs,-,rfl⟩ := conclude_complete hsr hcon (h.complete hd hpc hsr).2
    have hfail : s.failures = [] := by
      by_contra hne
      have := h.shape.failed hne
      simp [hsr] at this
    exact ⟨rfl,by rw [hfail]; rfl⟩

/-- What a run of a workflow of agent steps has kept, and keeps. -/
structure Delivered (max : ℕ) (request : WorkflowRequest I J) (env : Surroundings d)
    (r : AgentRun d) : Prop where
  /-- The provider is called at most once for a step. -/
  once : ∀ id, (r.calls id).world.log.countP Kernel.Event.isCalled ≤ 1
  called : ∀ id, .called ∈ (r.calls id).world.log → r.Justified request id
  /-- Every output that is reported is its provider's, and every failure its call's. -/
  outputs : ∀ result, r.run.pc = .finished result → ∀ (id : StepId) outcome,
    (completedOf result)[id]? = some outcome → r.Supplied id outcome
  failures : ∀ result, r.run.pc = .finished result → ∀ id error,
    ⟨id,error⟩ ∈ failuresOf result → (r.calls id).caller = .resolved (.error error)
  /-- A success has called the provider of every step. -/
  complete : ∀ outcome, r.run.pc = .finished (.ok outcome) →
    ∀ id ∈ request.definition.steps, ∃ o, outcome.outputs[id]? = some o
  /-- A run that has returned leaves no call behind. -/
  settled : ∀ result, r.run.pc = .finished result → r.gone = false →
    ∀ id, (r.calls id).caller = .idle ∨ ∃ answer, (r.calls id).caller = .resolved answer
  /-- No provider is called once the run is over. -/
  after : r.Over → ∀ v r', (executeAgents max request env).runFrom r v = some r' →
    ∀ id, (r'.calls id).world.log.countP Kernel.Event.isCalled =
      (r.calls id).world.log.countP Kernel.Event.isCalled

/-- Every run of a compiled workflow over any stack of layers, whatever is cancelled, expires,
panics or is dropped, and whatever the providers do: a provider is called once at most for a step,
for the turn prepared from what its needs' providers settled with; what the run reports is what
these settled with; and it leaves no call behind. -/
theorem agents_delivered {id version : String} {specs : List (StepSpec J)}
    (hc : compile id version specs = .ok (.ok request.definition)) (hmax : 0 < max)
    {v : List AgentEvent} (hr : (executeAgents max request env).run v = some r) :
    Delivered max request env r := by
  have hd := (compile_wellFormed hc).1
  obtain ⟨t,h⟩ := linked_of_run hmax hd hr
  have hs := sound_of_run hmax hd h.runner
  refine ⟨fun id => ?_,fun id hm => h.justified hmax hd hm,fun result hpc id outcome ho => ?_,
    fun result hpc id error he => ?_,fun outcome hpc id hid => ?_,fun result hpc hgone id => ?_,
    fun hover v r' hv id => (hover.quiet hv id).countP_eq⟩
  · obtain ⟨ops,hg,-⟩ := h.guarded id
    exact hg.once
  · rw [(hs.reported hd hpc).1] at ho
    exact h.supplied (mem_results_ok.mp (hs.result_of_output ho))
  · rw [(hs.reported hd hpc).2,(sortFailures_perm _).mem_iff,←mem_recorded_error (O := TurnOutcome),
      ←(hs.at_end hpc).2.2,Multiset.mem_coe,mem_results_error] at he
    exact h.settled id _ (he.resolve_right (h.ready id error))
  · have hstop : r.run.stopReason = none := by
      cases hsr : r.run.stopReason with
      | none => rfl
      | some reason =>
        obtain ⟨f,hf,-⟩ := conclude_stopped hsr (hs.at_end hpc).2.1
        cases hf
    have hout : outcome.outputs = r.run.outputs := (hs.reported hd hpc).1
    have hmem := ((hs.complete hd hpc hstop).1 id).mpr hid
    rw [hout]
    exact Option.isSome_iff_exists.mp (ExtTreeMap.mem_iff_isSome_getElem?.mp hmem)
  · have hstands := h.stands id
    rw [hgone] at hstands
    cases hc : (r.calls id).caller with
    | idle => exact .inl rfl
    | resolved answer => exact .inr ⟨answer,rfl⟩
    | dropped f | crashed =>
      rw [hc] at hstands
      cases hstands
    | holding f =>
      -- A held future belongs to a flight, and none is left.
      rw [hc] at hstands
      obtain ⟨hcall,hunsettled,-⟩ := hstands
      have hcalled : id ∈ (calls t : Multiset StepId) := List.mem_filterMap.mpr ⟨_,hcall,rfl⟩
      rw [hs.ledger.begun,State.callingIds,(hs.at_end hpc).1] at hcalled
      obtain ⟨⟨k,result'⟩,hk,rfl⟩ := List.mem_map.mp (by simpa using hcalled :
        id ∈ (callResults t).map Prod.fst)
      obtain ⟨e,he,hresult⟩ := List.mem_filterMap.mp hk
      cases e with
      | pollCall id answer =>
        cases answer with
        | pending => cases hresult
        | settled result'' =>
          obtain ⟨rfl,rfl⟩ := Prod.mk.inj (Option.some.inj hresult)
          exact absurd he (hunsettled _)
      | _ => cases hresult

end Linked

section Sample

/-- Panics are caught around each step, and each turn has the deadline of the run. -/
def sampleDispatcher : AgentDispatcher Unit ℕ Kernel.SampleOptions where
  outer := [.catchPanic]
  prepare call := .returned (.ok { prompt := call.stepId.value, options := {} })
  layers := [.deadline,.generic (.limitOutput 8)]

/-- The providers answer at once. -/
def sampleSurroundings : Surroundings sampleDispatcher where
  service _ := ()
  oracle _ _ := { answer := { progress := .returned (.ready (.ok { output := "done" })) } }
  cancelled _ := false
  now _ := 0

/-- One step admitted, readied, called and settled. -/
def sampleStep (id : StepId) : List AgentEvent :=
  ([.advance,.advance,.admitStep id,.advance,.advance,.advance,.advance,.advance,.poll 0,
    .readToken id false].map .runner) ++
  [.pollReady id,.runner (.readToken id false),.call id 1,.pollCall id,.runner .advance]

/-- Both steps of the sample workflow, one after the other. -/
def sampleAgents : List AgentEvent :=
  [.runner .advance,.runner .advance] ++ sampleStep draft ++ sampleStep review ++
    [.runner .advance,.runner .advance,.runner .advance,.runner .advance]

theorem agents_delivered_sample : ∃ definition r outcome,
    compile "article" "1" sampleSpecs = .ok (.ok definition) ∧
    (executeAgents 2 (sampleRequest definition) sampleSurroundings).run sampleAgents = some r ∧
    r.run.pc = .finished (.ok outcome) ∧
    Delivered 2 (sampleRequest definition) sampleSurroundings r := by
  have h : ((accepted "article" "1" sampleSpecs).bind (fun definition =>
      ((executeAgents 2 (sampleRequest definition) sampleSurroundings).run sampleAgents).bind
        (fun r => match r.run.pc with
          | .finished result => result.toOption
          | _ => none))).isSome = true := by decide +kernel
  obtain ⟨u,hu⟩ := Option.isSome_iff_exists.mp h
  obtain ⟨definition,hd,hu⟩ := Option.bind_eq_some_iff.mp hu
  obtain ⟨r,hr,hu⟩ := Option.bind_eq_some_iff.mp hu
  have hc := accepted_eq_some.mp hd
  split at hu
  · next result hpc =>
    cases result with
    | ok outcome => exact ⟨definition,r,outcome,hc,hr,hpc,agents_delivered hc (by decide) hr⟩
    | error failure => cases hu
  · cases hu

end Sample
end TowerAgent.Workflow
