import TowerAgent.Worker.Dispatch
import TowerAgent.Workflow.Confluence

/-! Runs of a compiled file on providers that answer in process: whatever the schedule, and whichever
form the file was written in, they end in the same outputs. -/
namespace TowerAgent.Worker
open Lib Kernel
open Plan (ProviderId ReadyTurn RoutedTurnService RoutedFuture)
open Workflow (StepId StepDefinition WorkflowDefinition WorkflowRequest Event State Obedient Consistent
  execute)
open Std (ExtTreeMap)

/-- A worker whose providers answer each turn with a text. -/
abbrev InProcess := RepositoryWorker (Claude.ClaudeTurn → String) (Codex.CodexTurn → String)

def answer : RoutedFuture (Claude.ClaudeTurn → String) (Codex.CodexTurn → String) →
    Except AgentError TurnOutcome
  | .failed error => .error error
  | .claude service request => .ok { output := service request.body }
  | .codex service request => .ok { output := service request.body }

/-- What awaiting the future of a step gives. -/
def WorkerFuture.result :
    WorkerFuture (Claude.ClaudeTurn → String) (Codex.CodexTurn → String) →
      Except AgentError StepOutput
  | .settled result => result
  | .routed future => (answer future).map fun outcome => ⟨outcome.output⟩

/-- The output of a step, as a function of its job, the input and its dependencies. -/
def stepOutput (worker : InProcess) (_ : StepId) (job : Job) (input : RunInput)
    (dependencies : ExtTreeMap StepId StepOutput) : StepOutput :=
  match job with
  | .mechanical op args => ⟨mechanicalText op args input dependencies⟩
  | .agent profile prompt provider =>
    match planTurn worker.profiles profile prompt provider with
    | .ok (.claude turn) => ⟨worker.router.claude.elim "" fun service => service turn⟩
    | .ok (.codex turn) => ⟨worker.router.codex.elim "" fun service => service turn⟩
    | .error _ => ⟨""⟩

/-- The worker has a service for the provider of each agent step, whose planner takes the profile. -/
def Serviceable (worker : InProcess) (d : WorkflowDefinition Job) : Prop :=
  ∀ id step profile prompt provider, d.step id = some step →
    step.job = .agent profile prompt provider → worker.router.handles provider = true ∧
      ∀ saved, worker.profiles.get profile = some saved → ¬ PlannerRefuses saved.turn provider

/-- A trace in which nobody cancels and the dispatcher is the worker: always ready, and each call
settles with what its future gives. -/
structure Served (worker : InProcess) (operation : StepId → UInt64) (max : ℕ)
    (request : WorkflowRequest RunInput Job) (t : List (Event StepOutput AgentError)) : Prop where
  not_cancelled : .cancelCaller ∉ t
  ready : ∀ id error, .pollReady id (.err error) ∉ t
  answers : ∀ before id result after, t = before ++ .pollCall id (.settled result)::after →
    ∀ m flight, (execute max request).run before = some m → m.pc = .polling flight →
      result = (worker.call (operation id) flight.call).result

section Result
variable {worker : InProcess} {operationId : UInt64} {call : Call}

/-- A planned step with a registered provider settles with its output. -/
lemma result_of_planned {profile prompt : String} {provider : ProviderId} {ready : ReadyTurn}
    (hjob : call.job = .agent profile prompt provider)
    (hplan : planTurn worker.profiles profile prompt provider = .ok ready)
    (hh : worker.router.handles provider = true) (id : StepId) :
    (worker.call operationId call).result =
      .ok (stepOutput worker id call.job call.input call.dependencies) := by
  obtain ⟨hp,-,hm⟩ := planTurn_pinned hplan
  simp only [RepositoryWorker.call, stepOutput, hjob, hplan]
  cases ready with
  | claude turn =>
    obtain rfl : ProviderId.claude = provider := hp
    obtain ⟨service,hs⟩ := Option.isSome_iff_exists.mp hh
    simp only [WorkerFuture.result, RoutedTurnService.call, hm, hs]
    rfl
  | codex turn =>
    obtain rfl : ProviderId.codex = provider := hp
    obtain ⟨service,hs⟩ := Option.isSome_iff_exists.mp hh
    simp only [WorkerFuture.result, RoutedTurnService.call, hm, hs]
    rfl

/-- Every call for a step of a serviceable definition settles with the step's output. -/
lemma result_eq {catalog : ProfileCatalog} {file : WorkflowFile} {d : WorkflowDefinition Job}
    {specs : List (Workflow.StepSpec Job)} (h : Compiled catalog file d specs)
    (hcatalog : worker.profiles = catalog) (hserve : Serviceable worker d) {id : StepId}
    {step : StepDefinition Job} (hstep : d.step id = some step) (hjob : call.job = step.job) :
    (worker.call operationId call).result =
      .ok (stepOutput worker id call.job call.input call.dependencies) := by
  subst hcatalog
  obtain ⟨entry,-,-,hruns⟩ := h.runs hstep
  cases hj : step.job with
  | mechanical op args =>
    simp only [RepositoryWorker.call, stepOutput, hjob, hj, WorkerFuture.result]
    rfl
  | agent profile prompt provider =>
    obtain ⟨hh,hplanner⟩ := hserve id step profile prompt provider hstep hj
    rw [hj] at hruns
    generalize entry.step.job = job at hruns
    cases hruns with
    | agent hs hp hf =>
      obtain ⟨ready,hplan⟩ := planTurn_of_runs hs hp hf (hplanner _ hs)
      exact result_of_planned (hjob.trans hj) hplan hh id

end Result

section Runs
variable {worker : InProcess} {operation : StepId → UInt64} {max : ℕ}
  {request : WorkflowRequest RunInput Job} {t : List (Event StepOutput AgentError)}
  {s : State RunInput Job StepOutput AgentError} {file : WorkflowFile}
  {specs : List (Workflow.StepSpec Job)}

/-- A served trace is one of a dispatcher that computes the outputs of the steps. -/
lemma served_iff (hmax : 0 < max) (h : Compiled worker.profiles file request.definition specs)
    (hserve : Serviceable worker request.definition) :
    Served worker operation max request t ↔ Obedient (stepOutput worker) max request t := by
  have hresult : ∀ (before : List (Event StepOutput AgentError)) m flight id,
      (execute max request).run before = some m → m.pc = .polling flight →
      (worker.call (operation id) flight.call).result = .ok (stepOutput worker id flight.call.job
        flight.call.input flight.call.dependencies) := by
    intro before m flight id hm hpc
    obtain ⟨step,hcall⟩ := (Workflow.sound_of_run hmax h.describes.1 hm).flights flight (by
      rw [Workflow.crew_polling hpc]
      exact Multiset.mem_cons_self _ _)
    -- The output does not depend on the id it is asked for.
    have hr : (worker.call (operation id) flight.call).result = .ok (stepOutput worker
        flight.call.stepId flight.call.job flight.call.input flight.call.dependencies) :=
      result_eq h rfl hserve hcall.step_eq hcall.job_eq
    exact hr
  constructor
  · intro ht
    refine ⟨ht.not_cancelled,ht.ready,fun before id result after he m flight hm hpc => ?_⟩
    rw [ht.answers before id result after he m flight hm hpc]
    exact hresult before m flight id hm hpc
  · intro ht
    refine ⟨ht.not_cancelled,ht.ready,fun before id result after he m flight hm hpc => ?_⟩
    rw [ht.answers before id result after he m flight hm hpc]
    exact (hresult before m flight id hm hpc).symm

/-- A served run that returns has succeeded, with the output of each step computed from those of
its needs. -/
lemma served_outputs (hmax : 0 < max) (h : Compiled worker.profiles file request.definition specs)
    (hserve : Serviceable worker request.definition) (hdl : request.context.deadline = none)
    (hr : (execute max request).run t = some s) (ht : Served worker operation max request t)
    {r : Except (Workflow.WorkflowFailure AgentError StepOutput)
      (Workflow.WorkflowOutcome StepOutput)} (hpc : s.pc = .finished r) :
    ∃ o, r = .ok o ∧ Consistent (stepOutput worker) request o.outputs ∧
      ∀ k, k ∈ o.outputs ↔ k ∈ request.definition.steps := by
  have hwf := h.describes.1
  have hs := Workflow.sound_of_run hmax hwf hr
  have hfl := Workflow.flowing_of_run hmax hwf hdl hr ((served_iff hmax h hserve).mp ht)
  obtain ⟨hmem,hsize⟩ := hs.complete hwf hpc hfl.running
  obtain ⟨leafOutputs,-,rfl⟩ :=
    Workflow.conclude_complete hfl.running (hs.at_end hpc).2.1 hsize
  exact ⟨_,rfl,hfl.consistent,hmem⟩

end Runs

section Forms
variable {parse parse' : String → Except String WorkflowFile} {debug : List StepId → String}
  {fileName fileName' document document' : String} {file : WorkflowFile} {worker : InProcess}
  {operation operation' : StepId → UInt64} {max max' : ℕ}
  {request request' : WorkflowRequest RunInput Job}
  {t t' : List (Event StepOutput AgentError)} {s s' : State RunInput Job StepOutput AgentError}

/-- The phase form runs as the list form does: where every provider that a step needs is registered,
answers in process and has a planner that accepts the profile, and where no deadline is set and
nobody cancels, any completed run of the one and any of the other, under whatever concurrency and
order of events, return the same outputs, each computed by the worker from the outputs of its
needs. -/
theorem forms_run_alike (hparse : parse document = .ok file)
    (hparse' : parse' document' = .ok (unphased file)) (hform : file.step = [] ∨ file.phase = [])
    (hc : compile parse debug fileName document worker.profiles = .ok (.ok request.definition))
    (hc' : compile parse' debug fileName' document' worker.profiles =
      .ok (.ok request'.definition))
    (hinput : request'.input = request.input) (hserve : Serviceable worker request.definition)
    (hmax : 0 < max) (hmax' : 0 < max') (hdl : request.context.deadline = none)
    (hdl' : request'.context.deadline = none) (hr : (execute max request).run t = some s)
    (hr' : (execute max' request').run t' = some s')
    (ht : Served worker operation max request t)
    (ht' : Served worker operation' max' request' t')
    {r r' : Except (Workflow.WorkflowFailure AgentError StepOutput)
      (Workflow.WorkflowOutcome StepOutput)} (hpc : s.pc = .finished r)
    (hpc' : s'.pc = .finished r') :
    ∃ o o', r = .ok o ∧ r' = .ok o' ∧ o.outputs = o'.outputs ∧
      Consistent (stepOutput worker) request o.outputs ∧
      ∀ k, k ∈ o.outputs ↔ k ∈ request.definition.steps := by
  obtain ⟨specs,h⟩ := exists_compiled hparse hc
  obtain ⟨specs',h'⟩ := exists_compiled hparse' hc'
  have hdef : request'.definition = request.definition := by
    have hd : compile parse' debug fileName' document' worker.profiles = _ :=
      (unphased_same hform).compile hparse hparse' hc
    exact Except.ok.inj (Except.ok.inj (hc'.symm.trans hd))
  obtain ⟨o,rfl,hcon,hkeys⟩ := served_outputs hmax h hserve hdl hr ht hpc
  obtain ⟨o',rfl,hcon',hkeys'⟩ :=
    served_outputs hmax' h' (hdef ▸ hserve) hdl' hr' ht' hpc'
  refine ⟨o,o',rfl,rfl,?_,hcon,hkeys⟩
  have hcon' : Consistent (stepOutput worker) request o'.outputs := by
    intro k v hk
    obtain ⟨step,deps,hp⟩ := hcon' k v hk
    exact ⟨step,deps,hdef ▸ hp.step_eq,hp.needs_done,hp.dependencies_eq,hinput ▸ hp.value⟩
  exact hcon.unique h.describes.1 hcon' hkeys (hdef ▸ hkeys')

end Forms

section Sample

/-- The example's host: both providers echo the prompt under their label. -/
def exampleWorker : InProcess where
  router := (({} : RoutedTurnService _ _).withClaude fun turn =>
    "claude answered: " ++ turn.prompt).withCodex fun turn => "codex answered: " ++ turn.prompt
  profiles := ProfileCatalog.exampleCatalog

def exampleRequest (d : WorkflowDefinition Job) : WorkflowRequest RunInput Job :=
  ⟨⟨localRun,none⟩,d,⟨"joshrotenberg/tower-agent","main"⟩⟩

def settle (id : StepId) (text : String) : Event StepOutput AgentError :=
  .pollCall id (.settled (.ok ⟨text⟩))

def branchText : String := "joshrotenberg/tower-agent@main"
def architectureText : String := "claude answered: Review the architecture."
def testsText : String := "codex answered: Review the test coverage."
def joinText : String := "collected [" ++ architectureText ++ " | " ++ testsText ++ "]"

/-- The shipped workflow run one step after the other, up to the settlement of each call. -/
def beforeBranch : List (Event StepOutput AgentError) := [.advance,.advance] ++ callTurn branch
def beforeArchitecture : List (Event StepOutput AgentError) :=
  beforeBranch ++ [settle branch branchText] ++ .advance::callTurn architecture
def beforeTests : List (Event StepOutput AgentError) :=
  beforeArchitecture ++ [settle architecture architectureText] ++ .advance::callTurn tests
def beforeJoin : List (Event StepOutput AgentError) :=
  beforeTests ++ [settle tests testsText] ++ .advance::callTurn join

def exampleTrace : List (Event StepOutput AgentError) :=
  beforeJoin ++ [settle join joinText] ++ [.advance,.advance,.advance,.advance,.advance]

def finishes (s : State RunInput Job StepOutput AgentError) : Bool :=
  match s.pc with
  | .finished _ => true
  | _ => false

/-- Whether a call about to settle after a trace settles with a text. -/
def settlesWith (d : WorkflowDefinition Job) (t : List (Event StepOutput AgentError))
    (id : StepId) (text : String) : Bool :=
  ((execute 1 (exampleRequest d)).run t).all fun m => decide (∀ g ∈ m.pc.flights,
    StepOutput.mk text = stepOutput exampleWorker id g.call.job g.call.input g.call.dependencies)

/-- The example evaluated once: the file compiles, the trace runs to its end, and each call on it
settles with the worker's text. -/
lemma example_run : ∃ d s, acceptedFile .exampleCatalog phasesFile = some d ∧
    (execute 1 (exampleRequest d)).run exampleTrace = some s ∧ finishes s = true ∧
    settlesWith d beforeBranch branch branchText = true ∧
    settlesWith d beforeArchitecture architecture architectureText = true ∧
    settlesWith d beforeTests tests testsText = true ∧
    settlesWith d beforeJoin join joinText = true := by
  have h : ((acceptedFile .exampleCatalog phasesFile).any fun d =>
      ((execute 1 (exampleRequest d)).run exampleTrace).any fun s => finishes s &&
        settlesWith d beforeBranch branch branchText &&
        settlesWith d beforeArchitecture architecture architectureText &&
        settlesWith d beforeTests tests testsText &&
        settlesWith d beforeJoin join joinText) = true := by decide +kernel
  obtain ⟨d,hd,h⟩ := (Option.any_eq_true _ _).mp h
  obtain ⟨s,hs,h⟩ := (Option.any_eq_true _ _).mp h
  simp only [Bool.and_eq_true] at h
  obtain ⟨⟨⟨⟨hf,hb⟩,ha⟩,ht⟩,hj⟩ := h
  exact ⟨d,s,hd,hs,hf,hb,ha,ht,hj⟩

lemma settle_obedient {d : WorkflowDefinition Job} {t : List (Event StepOutput AgentError)}
    {id : StepId} {text : String} (h : settlesWith d t id text = true)
    (ho : Obedient (stepOutput exampleWorker) 1 (exampleRequest d) t) :
    Obedient (stepOutput exampleWorker) 1 (exampleRequest d) (t ++ [settle id text]) := by
  refine ho.concat (by simp [settle]) (by simp [settle]) ?_
  intro i r m g he hm hpc
  obtain ⟨rfl,hr⟩ := Event.pollCall.inj he
  obtain rfl := Workflow.CallPoll.settled.inj hr
  simp only [settlesWith, hm, Option.all_some, hpc, Workflow.Pc.flights, Multiset.mem_singleton,
    forall_eq, decide_eq_true_eq] at h
  rw [h]

/-- No planner refuses a profile of the shipped catalog. -/
lemma exampleCatalog_accepted {name : String} {saved : Plan.Profile} {provider : ProviderId}
    (h : ProfileCatalog.exampleCatalog.get name = some saved) :
    ¬ PlannerRefuses saved.turn provider := by
  have hnamed : ∃ name provider, saved = ProfileCatalog.named name provider := by
    simp only [ProfileCatalog.exampleCatalog, ProfileCatalog.get, getElem?_insert_eq] at h
    split at h
    · exact ⟨_,_,(Option.some.inj h).symm⟩
    · split at h
      · exact ⟨_,_,(Option.some.inj h).symm⟩
      · simp at h
  obtain ⟨name,provider,rfl⟩ := hnamed
  intro hr
  cases hr with
  | filesystem hf => cases hf
  | resumedDirectories hr => cases hr

theorem forms_run_alike_sample : ∃ d s o o',
    compile readPhases debugStepIds "phases.toml" phasesText ProfileCatalog.exampleCatalog =
      .ok (.ok d) ∧
    compile readDag debugStepIds "dag.toml" dagText ProfileCatalog.exampleCatalog = .ok (.ok d) ∧
    (execute 1 (exampleRequest d)).run exampleTrace = some s ∧
    s.pc = .finished (.ok o) ∧ s.pc = .finished (.ok o') ∧ o.outputs = o'.outputs := by
  obtain ⟨d,s,hd,hs,hf,hb,ha,ht,hj⟩ := example_run
  have hdag : readDag dagText = .ok (unphased phasesFile) := if_pos rfl
  have hc : compile readPhases debugStepIds "phases.toml" phasesText exampleWorker.profiles =
    .ok (.ok (exampleRequest d).definition) := acceptedFile_eq_some (if_pos rfl) hd
  have hc' : compile readDag debugStepIds "dag.toml" dagText exampleWorker.profiles =
    .ok (.ok (exampleRequest d).definition) :=
    (unphased_same (.inl rfl)).compile (if_pos rfl) hdag hc
  have hserve : Serviceable exampleWorker (exampleRequest d).definition := by
    intro id step profile prompt provider hstep hjob
    exact ⟨by cases provider <;> rfl,fun saved hsaved => exampleCatalog_accepted hsaved⟩
  have hnil : Obedient (stepOutput exampleWorker) 1 (exampleRequest d)
    ([] : List (Event StepOutput AgentError)) := Workflow.obedient_nil
  have h₀ := hnil.neutral (u := beforeBranch) (by decide)
  have h₁ := (settle_obedient hb h₀).neutral (u := .advance::callTurn architecture) (by decide)
  have h₂ := (settle_obedient ha h₁).neutral (u := .advance::callTurn tests) (by decide)
  have h₃ := (settle_obedient ht h₂).neutral (u := .advance::callTurn join) (by decide)
  have h₄ := (settle_obedient hj h₃).neutral
    (u := [.advance,.advance,.advance,.advance,.advance]) (by decide)
  obtain ⟨specs,hcomp⟩ := exists_compiled (if_pos rfl) hc
  have hserved : Served exampleWorker (fun _ => 0) 1 (exampleRequest d) exampleTrace :=
    (served_iff (by decide) hcomp hserve).mpr h₄
  unfold finishes at hf
  split at hf
  · next r hpc =>
    obtain ⟨o,o',rfl,ho',hout,-⟩ := forms_run_alike (if_pos rfl) hdag (.inl rfl) hc hc' rfl hserve
      (by decide) (by decide) rfl rfl hs hs hserved hserved hpc hpc
    exact ⟨d,s,o,o',hc,hc',hs,hpc,by rw [hpc,ho'],hout⟩
  · cases hf

end Sample
end TowerAgent.Worker
