import TowerAgent.Plan.Router
import TowerAgent.Worker.Phases

/-! The repository worker's dispatcher: mechanical steps in process, agent steps through the router,
and what compilation has already settled about them. -/
namespace TowerAgent.Worker
open Lib Kernel
open Plan (ProviderId ReadyTurn RoutedTurnService RoutedFuture Dispatched)
open Workflow (StepId StepCall StepDefinition WorkflowDefinition)
open Std (ExtTreeMap)

/-- What a step produces, whichever kind of job it is. -/
structure StepOutput where
  text : String
  deriving DecidableEq, Repr

/-- The input all steps of a run share. -/
structure RunInput where
  repository : String
  branch : String

abbrev Call := StepCall RunInput Job StepOutput

/-- The call context of a step: the run's deadline, and the step's own token, which belongs to the
world. -/
def agentContext (operationId : UInt64) (call : Call) : CallContext := ⟨operationId,call.deadline,none⟩

def hostBug (message : String) : AgentError := .new .internal message .validation .none

/-- Resolve a profile and a prompt into a provider-committed turn. -/
def planTurn (profiles : ProfileCatalog) (profile prompt : String)
    (compiledProvider : ProviderId) : Except AgentError ReadyTurn :=
  match profiles.get profile with
  | none => .error (hostBug "compiled step names a profile the catalog no longer has")
  | some saved =>
    if saved.turn.provider ≠ some compiledProvider then
      .error (hostBug "profile now selects a different provider than compilation recorded")
    else
      match Plan.prepare (profileLayers saved prompt) with
      | .ready ready => .ok ready
      | .missing _ requirements =>
        .error (hostBug ("compiled step is missing " ++ toString requirements.length ++
          " value(s) that compilation accepted"))
      | .invalid diagnostics =>
        .error (hostBug ("compiled step became invalid after compilation: " ++
          toString diagnostics.length ++ " diagnostic(s)"))

/-- The text of a mechanical operation; `collect` reads the direct dependencies, in step-id order. -/
def mechanicalText (op : MechanicalOp) (args : ExtTreeMap String String) (input : RunInput)
    (dependencies : ExtTreeMap StepId StepOutput) : String :=
  match op with
  | .readBranch => input.repository ++ "@" ++ input.branch
  | .countFiles => "counted files matching " ++ args["pattern"]?.getD "*"
  | .collect =>
    "collected [" ++ " | ".intercalate ((valuesOf dependencies).map StepOutput.text) ++ "]"

def runMechanical (op : MechanicalOp) (args : ExtTreeMap String String) (call : Call) :
    Except AgentError StepOutput :=
  .ok ⟨mechanicalText op args call.input call.dependencies⟩

structure RepositoryWorker (S T : Type) where
  router : RoutedTurnService S T
  profiles : ProfileCatalog

/-- The future of a dispatched step: a result, or a routed turn whose output becomes the text. -/
inductive WorkerFuture (S T : Type) where
  | settled (result : Except AgentError StepOutput)
  | routed (future : RoutedFuture S T)

/-- The worker is always ready. -/
def RepositoryWorker.call {S T : Type} (worker : RepositoryWorker S T) (operationId : UInt64)
    (call : Call) : WorkerFuture S T :=
  match call.job with
  | .mechanical op args => .settled (runMechanical op args call)
  | .agent profile prompt provider =>
    match planTurn worker.profiles profile prompt provider with
    | .error error => .settled (.error error)
    | .ok ready => .routed (worker.router.call ⟨agentContext operationId call,ready⟩)

/-- What the provider's planner refuses, though the resolver has no objection. -/
inductive PlannerRefuses (turn : Plan.PartialTurn) : ProviderId → Prop where
  | filesystem (h : turn.permissions.filesystem.isSome = true) : PlannerRefuses turn .claude
  | resumedDirectories (hr : turn.context.resume.isSome = true)
      (hd : (turn.context.additionalDirectories.getD []).isEmpty = false) :
      PlannerRefuses turn .codex

section Plan
variable {saved : Plan.Profile} {prompt : String} {resolved : Plan.ResolvedTurn}

/-- A planner refuses a resolution of its provider for its own reason, with one diagnostic. -/
lemma compile_refuses (h : PlannerRefuses resolved.merged resolved.provider) :
    ∃ d, Plan.compile resolved = .error [d] := by
  unfold Plan.compile
  generalize hp : resolved.provider = p at h
  cases h with
  | filesystem hf =>
    simp only [Plan.planClaude, hp, ne_eq, not_true_eq_false, if_false, hf, if_true]
    exact ⟨_,rfl⟩
  | resumedDirectories hr hd =>
    simp only [Plan.planCodex, hp, ne_eq, not_true_eq_false, if_false, hr, hd, Bool.not_false,
      Bool.and_self, if_true]
    exact ⟨_,rfl⟩

lemma compile_accepts (h : ¬ PlannerRefuses resolved.merged resolved.provider) :
    ∃ ready, Plan.compile resolved = .ok ready := by
  unfold Plan.compile
  cases hp : resolved.provider with
  | claude =>
    rw [hp] at h
    have hf : resolved.merged.permissions.filesystem.isSome = false := by
      rw [Bool.eq_false_iff]
      exact fun hf => h (.filesystem hf)
    simp only [Plan.planClaude, hp, ne_eq, not_true_eq_false, if_false, hf]
    exact ⟨_,rfl⟩
  | codex =>
    rw [hp] at h
    have hd : (resolved.merged.context.resume.isSome &&
        !(resolved.merged.context.additionalDirectories.getD []).isEmpty) = false := by
      rw [Bool.eq_false_iff]
      intro hd
      rw [Bool.and_eq_true,Bool.not_eq_true'] at hd
      exact h (.resumedDirectories hd.1 hd.2)
    simp only [Plan.planCodex, hp, ne_eq, not_true_eq_false, if_false, hd]
    exact ⟨_,rfl⟩

/-- The prompt a turn carries. -/
def turnPrompt : ReadyTurn → String
  | .claude turn => turn.prompt
  | .codex turn => turn.prompt

lemma compile_prompt {ready : ReadyTurn} (h : Plan.compile resolved = .ok ready) :
    turnPrompt ready = resolved.prompt := by
  unfold Plan.compile at h
  split at h
  · obtain ⟨turn,ht,rfl⟩ := Plan.map_eq_ok h
    exact (Plan.planClaude_bound ht).1
  · obtain ⟨turn,ht,rfl⟩ := Plan.map_eq_ok h
    exact (Plan.planCodex_bound ht).1

variable (prompt) in
lemma plannerRefuses_prompted {provider : ProviderId} :
    PlannerRefuses (prompted saved prompt) provider ↔ PlannerRefuses saved.turn provider := by
  constructor
  · intro h
    cases h with
    | filesystem hf => exact .filesystem hf
    | resumedDirectories hr hd => exact .resumedDirectories hr hd
  · intro h
    cases h with
    | filesystem hf => exact .filesystem hf
    | resumedDirectories hr hd => exact .resumedDirectories hr hd

/-- A step's complete resolution: its profile with its own prompt, for the profile's provider. -/
lemma resolve_complete_inv (h : Plan.resolve (profileLayers saved prompt) = .complete resolved) :
    resolved.merged = prompted saved prompt ∧ saved.turn.provider = some resolved.provider := by
  by_cases hd : Plan.structuralDiagnostics (prompted saved prompt) = []
  · cases hp : saved.turn.provider with
    | none => simp [resolve_missing hd hp] at h
    | some provider =>
      obtain ⟨r,hr,hm,hprovider⟩ := resolve_complete hd hp
      obtain rfl := Plan.Resolution.complete.inj (hr.symm.trans h)
      exact ⟨hm,by rw [hprovider]⟩
  · simp [resolve_invalid hd] at h

variable {profiles : ProfileCatalog} {profile : String} {provider : ProviderId} {ready : ReadyTurn}

/-- Whatever the catalog holds by now, a planned turn is for the provider compilation recorded,
carries the prompt of the step, and passes the router's check. -/
theorem planTurn_pinned (h : planTurn profiles profile prompt provider = .ok ready) :
    ready.provider = provider ∧ turnPrompt ready = prompt ∧
      Plan.pinnedSessionMatches ready = .ok () := by
  unfold planTurn at h
  split at h
  · cases h
  · next saved hs =>
    split at h
    · cases h
    · next hprovider =>
      split at h
      · next turn hprep =>
        obtain rfl := Except.ok.inj h
        obtain ⟨resolved,hr,hc⟩ := Plan.prepare_ready hprep
        obtain ⟨hm,hp⟩ := resolve_complete_inv hr
        refine ⟨?_,?_,Plan.compile_matches hc (Plan.resolve_sound hr)⟩
        · rw [Plan.compile_provider hc]
          exact Option.some.inj (hp.symm.trans (not_not.mp hprovider))
        · rw [compile_prompt hc]
          refine Option.some.inj ((Option.some_get _).trans ?_)
          rw [hm]
          rfl
      · cases h
      · cases h

section Compiled
variable (hs : profiles.get profile = some saved) (hp : saved.turn.provider = some provider)
  (hf : ∀ field, ¬ TurnFault saved prompt field)
include hs hp hf

/-- A step that compiled is planned, unless the provider's planner refuses its profile. -/
lemma planTurn_of_runs (h : ¬ PlannerRefuses saved.turn provider) :
    ∃ ready, planTurn profiles profile prompt provider = .ok ready := by
  obtain ⟨resolved,hr,hm,rfl⟩ := resolve_complete (structural_eq_nil.mpr hf) hp
  rw [←plannerRefuses_prompted prompt,←hm] at h
  obtain ⟨ready,hc⟩ := compile_accepts h
  refine ⟨ready,?_⟩
  simp only [planTurn, hs, hp, ne_eq, not_true_eq_false, if_false, Plan.prepare, hr, hc]

/-- The planner's refusal is the one way a step that compiled is not planned. -/
lemma planTurn_of_refuses (h : PlannerRefuses saved.turn provider) :
    planTurn profiles profile prompt provider =
      .error (hostBug "compiled step became invalid after compilation: 1 diagnostic(s)") := by
  obtain ⟨resolved,hr,hm,rfl⟩ := resolve_complete (structural_eq_nil.mpr hf) hp
  rw [←plannerRefuses_prompted prompt,←hm] at h
  obtain ⟨d,hc⟩ := compile_refuses h
  simp only [planTurn, hs, hp, ne_eq, not_true_eq_false, if_false, Plan.prepare, hr, hc,
    List.length_singleton]
  rfl

end Compiled
end Plan

section Dispatch
variable {S T : Type} {worker : RepositoryWorker S T} {operationId : UInt64} {call : Call}

/-- An agent step reaches the service registered for a provider, on a turn with some prompt and the
context of the step, or fails because no such service is registered. -/
inductive Reaches (worker : RepositoryWorker S T) (operationId : UInt64) (call : Call)
    (provider : ProviderId) (prompt : String) : RoutedFuture S T → Prop where
  | dispatched {turn : ReadyTurn} {future : RoutedFuture S T} (hp : turn.provider = provider)
      (ht : turnPrompt turn = prompt)
      (h : Dispatched worker.router (agentContext operationId call) turn future) :
      Reaches worker operationId call provider prompt future
  | unregistered (h : worker.router.handles provider = false) :
      Reaches worker operationId call provider prompt (.failed (Plan.unregistered provider))

lemma reaches_of_planned {profile prompt : String} {provider : ProviderId} {ready : ReadyTurn}
    (hplan : planTurn worker.profiles profile prompt provider = .ok ready) :
    Reaches worker operationId call provider prompt
      (worker.router.call ⟨agentContext operationId call,ready⟩) := by
  obtain ⟨hp,ht,hm⟩ := planTurn_pinned hplan
  obtain ⟨hyes,hno⟩ : (worker.router.handles ready.provider = true →
        Dispatched worker.router (agentContext operationId call) ready _) ∧ _ :=
    Plan.RoutedTurnService.call_of_matches hm
  cases hh : worker.router.handles ready.provider with
  | true => exact .dispatched hp ht (hyes hh)
  | false =>
    rw [hno hh,hp]
    exact .unregistered (hp ▸ hh)

/-- What becomes of a compiled step: a mechanical one settles at once; an agent one reaches the
provider compilation recorded, or no service is registered for it, unless that provider's planner
refuses the profile. -/
inductive Outcome (worker : RepositoryWorker S T) (operationId : UInt64) (call : Call) :
    Job → WorkerFuture S T → Prop where
  | mechanical {op : MechanicalOp} {args : ExtTreeMap String String} (text : String) :
      Outcome worker operationId call (.mechanical op args) (.settled (.ok ⟨text⟩))
  | routed {profile prompt : String} {provider : ProviderId} {saved : Plan.Profile}
      {future : RoutedFuture S T} (hs : worker.profiles.get profile = some saved)
      (hn : ¬ PlannerRefuses saved.turn provider)
      (h : Reaches worker operationId call provider prompt future) :
      Outcome worker operationId call (.agent profile prompt provider) (.routed future)
  | refused {profile prompt : String} {provider : ProviderId} {saved : Plan.Profile}
      (hs : worker.profiles.get profile = some saved) (h : PlannerRefuses saved.turn provider) :
      Outcome worker operationId call (.agent profile prompt provider)
        (.settled (.error
          (hostBug "compiled step became invalid after compilation: 1 diagnostic(s)")))

variable {parse : String → Except String WorkflowFile} {debug : List StepId → String}
  {fileName document : String} {file : WorkflowFile}

/-- Every job of an accepted definition is one the host can run. -/
lemma Compiled.runs {catalog : ProfileCatalog} {d : WorkflowDefinition Job}
    {specs : List (Workflow.StepSpec Job)} (h : Compiled catalog file d specs) {id : StepId}
    {step : StepDefinition Job} (hstep : d.step id = some step) :
    ∃ entry ∈ entries file, entry.step.id = id.value ∧ Runs catalog entry.step.job step.job := by
  obtain ⟨defs,hall,-,hlook⟩ := h.describes.2
  obtain ⟨hd,rfl⟩ := (hlook id step).mp hstep
  obtain ⟨spec,hspec,hn⟩ := exists_left_of_forall₂ hall hd
  obtain ⟨entry,he,hs⟩ := exists_left_of_forall₂ h.specs_of hspec
  exact ⟨entry,he,hs.id_eq.symm.trans hn.id_eq.symm,hn.job_eq ▸ hs.runs⟩

/-- Compilation has settled what a step needs to run: over the catalog a file was compiled with, no
step of it fails for want of a profile, a provider or a value, and none goes to another provider.
Compilation checks neither the planner's own refusal nor that the router has a service for the
provider, and these are the two failures left. -/
theorem dispatch_compiled {d : WorkflowDefinition Job} (hparse : parse document = .ok file)
    (hc : compile parse debug fileName document worker.profiles = .ok (.ok d)) {id : StepId}
    {step : StepDefinition Job} (hstep : d.step id = some step) (hjob : call.job = step.job) :
    Outcome worker operationId call step.job (worker.call operationId call) := by
  obtain ⟨specs,h⟩ := exists_compiled hparse hc
  obtain ⟨entry,-,-,hruns⟩ := h.runs hstep
  unfold RepositoryWorker.call
  rw [hjob]
  generalize entry.step.job = job at hruns
  generalize step.job = compiled at hruns
  cases hruns with
  | mechanical hop => exact .mechanical _
  | @agent profile prompt saved provider hs hp hf =>
    by_cases hr : PlannerRefuses saved.turn provider
    · simp only [planTurn_of_refuses hs hp hf hr]
      exact .refused hs hr
    · obtain ⟨ready,hplan⟩ := planTurn_of_runs hs hp hf hr
      simp only [hplan]
      exact .routed hs hr (reaches_of_planned hplan)

/-- Over any catalog at all, an agent step that is dispatched goes to the provider that compilation
recorded, with the prompt of the definition; otherwise it fails before anything ran. -/
theorem dispatch_pinned {profile prompt : String} {provider : ProviderId}
    (hjob : call.job = .agent profile prompt provider) :
    (∃ future, worker.call operationId call = .routed future ∧
      Reaches worker operationId call provider prompt future) ∨
    ∃ message, worker.call operationId call = .settled (.error (hostBug message)) := by
  unfold RepositoryWorker.call
  rw [hjob]
  dsimp only
  cases hplan : planTurn worker.profiles profile prompt provider with
  | ok ready => exact .inl ⟨_,rfl,reaches_of_planned hplan⟩
  | error e =>
    refine .inr ?_
    unfold planTurn at hplan
    split at hplan
    · exact ⟨_,by rw [←Except.error.inj hplan]⟩
    · split at hplan
      · exact ⟨_,by rw [←Except.error.inj hplan]⟩
      · split at hplan
        · cases hplan
        · exact ⟨_,by rw [←Except.error.inj hplan]⟩
        · exact ⟨_,by rw [←Except.error.inj hplan]⟩

end Dispatch

section Sample

/-- A reviewer whose profile asks for a filesystem authority, which the Claude planner refuses. -/
def sealedCatalog : ProfileCatalog :=
  ⟨(∅ : ExtTreeMap String Plan.Profile).insert "reviewer"
    ⟨"reviewer",{ provider := some .claude, permissions := ⟨some .readOnly⟩ }⟩⟩

def singleText : String := "schema_version = 1
[workflow]
id = \"review-single\"
version = \"v1\"
[[step]]
id = \"review\"
kind = \"agent\"
profile = \"reviewer\"
prompt = \"Review the architecture.\"
"

def singleFile : WorkflowFile where
  schemaVersion := 1
  workflow := ⟨"review-single","v1"⟩
  step := [⟨"review",[],.agent "reviewer" "Review the architecture."⟩]

def readSingle (document : String) : Except String WorkflowFile :=
  if document = singleText then .ok singleFile else .error "unexpected input"

lemma review_valid : Workflow.isIdentifier "review" = true := by decide
lemma v1_valid : Workflow.isIdentifier "v1" = true := by decide

def review : StepId := ⟨"review",review_valid⟩

/-- A worker over that catalog, with a service for each provider. -/
def sealedWorker : RepositoryWorker Unit Unit :=
  ⟨(({} : RoutedTurnService Unit Unit).withClaude ()).withCodex (),sealedCatalog⟩

/-- The call of a job that needs no other step. -/
def rootCall (job : Job) : Call where
  runId := localRun
  workflowId := ⟨"review-single",by decide⟩
  workflowVersion := ⟨"v1",v1_valid⟩
  stepId := review
  input := ⟨"joshrotenberg/tower-agent","main"⟩
  job := job
  dependencies := ∅
  deadline := none

/-- The file compiles, and its one step fails when it is dispatched. -/
theorem dispatch_compiled_sample : ∃ d step,
    compile readSingle debugStepIds "single.toml" singleText sealedCatalog = .ok (.ok d) ∧
    d.step review = some step ∧ sealedWorker.call 0 (rootCall step.job) = .settled (.error
      (hostBug "compiled step became invalid after compilation: 1 diagnostic(s)")) := by
  have h : ((acceptedFile sealedCatalog singleFile).bind fun d => d.step review).isSome = true := by
    decide +kernel
  obtain ⟨step,h⟩ := Option.isSome_iff_exists.mp h
  obtain ⟨d,hd,hstep⟩ := Option.bind_eq_some_iff.mp h
  have hc : compile readSingle debugStepIds "single.toml" singleText sealedWorker.profiles =
    .ok (.ok d) := acceptedFile_eq_some (if_pos rfl) hd
  refine ⟨d,step,hc,hstep,?_⟩
  have hout : Outcome sealedWorker 0 (rootCall step.job) step.job _ :=
    dispatch_compiled (if_pos rfl) hc hstep rfl
  obtain ⟨specs,hcomp⟩ := exists_compiled (if_pos rfl) hc
  obtain ⟨entry,he,-,hruns⟩ := hcomp.runs hstep
  obtain rfl := List.mem_singleton.mp he
  have hreviewer : sealedCatalog.get "reviewer" = some
      ⟨"reviewer",{ provider := some .claude, permissions := ⟨some .readOnly⟩ }⟩ := by
    simp [sealedCatalog, ProfileCatalog.get]
  generalize step.job = job at hruns hout ⊢
  cases hruns with
  | agent hs hp hf =>
    obtain rfl := Option.some.inj (hreviewer.symm.trans hs)
    obtain rfl := Option.some.inj hp
    generalize sealedWorker.call 0 _ = future at hout ⊢
    cases hout with
    | routed hs' hn =>
      obtain rfl := Option.some.inj (hreviewer.symm.trans hs')
      exact absurd (.filesystem rfl) hn
    | refused => rfl

/-- A step recorded for Codex fails: its profile selects Claude by now. -/
theorem dispatch_pinned_sample :
    ∃ message, sealedWorker.call 0 (rootCall (.agent "reviewer" "Go." .codex)) =
      .settled (.error (hostBug message)) := by
  refine (dispatch_pinned rfl).resolve_left ?_
  rintro ⟨future,h,-⟩
  simp [RepositoryWorker.call, rootCall, planTurn, sealedWorker, sealedCatalog,
    ProfileCatalog.get] at h

end Sample
end TowerAgent.Worker
