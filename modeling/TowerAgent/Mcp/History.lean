import TowerAgent.Lib.Machine
import TowerAgent.Mcp.PlanSafety
import TowerAgent.Plan.Precedence

/-! Histories of tool calls over one in-process store. A call presents its continuation when it
begins; between that, its launch and its settlement other calls may take their steps, and scopes be
forgotten. -/
namespace TowerAgent.Mcp
open Lib Kernel Plan

/-- One call of a turn tool, or of a planning tool whose host defaults bind no resume. -/
inductive Request where
  | turn (scope : ScopeAnswer) (input : TurnInput)
  | plan (tool : PlanTool) (unbound : tool.defaults.context.resume = none) (scope : ScopeAnswer)
      (input : PlanInput)

/-- An admitted call that has not reached its service. -/
inductive Pending where
  | turn (turn : Turn Unit)
  | plan (tool : PlanTool) (unbound : tool.defaults.context.resume = none) (explicit : PartialTurn)

/-- What a service is called with. -/
inductive Body where
  | turn (turn : Turn Unit)
  | ready (turn : ReadyTurn)

def Request.scope : Request → ScopeAnswer
  | .turn scope _ => scope
  | .plan _ _ scope _ => scope

def Request.continuation : Request → Option String
  | .turn _ input => input.continuation
  | .plan _ _ _ input => input.continuation

/-- The session that a service is asked to resume. -/
def Body.session : Body → Option SessionHandle
  | .turn t => t.session
  | .ready t => t.session

def Pending.session : Pending → Option SessionHandle
  | .turn t => t.session
  | .plan _ _ explicit => explicit.context.resume.map ResumeBinding.toSessionHandle

/-- What a call decides when it begins. -/
def Request.admission (resolve : Resolver) : Request → Except AgentError (Scope × Pending)
  | .turn scope input =>
    (TurnTool.admission resolve scope input).map (fun (scope,t) => (scope,.turn t))
  | .plan tool unbound scope input =>
    (PlanTool.admission resolve scope input).map
      (fun (scope,explicit) => (scope,.plan tool unbound explicit))

/-- What an admitted call launches: a planning tool converses with its client first. -/
def Pending.body (client : Client) : Pending → Except AgentError Body
  | .turn t => .ok (.turn t)
  | .plan tool _ explicit =>
    (tool.dialogue client explicit (max tool.maxRounds 1) 0 []).result.map .ready

/-- What a call launches when nothing comes between its steps. -/
def Request.body (resolve : Resolver) (client : Client) (request : Request) :
    Except AgentError Body := do
  let (_,pending) ← request.admission resolve
  pending.body client

section Runs
variable {decimal : F64 → String} {client : Client}

/-- A call of a turn tool launches the same on its own and in a history. -/
theorem TurnTool.run_launches {tool : TurnTool} {store : ContinuationStore}
    {service : Turn Unit → CallResult} {operationId : UInt64} {scope : ScopeAnswer}
    {input : TurnInput} :
    (ToolStep.launches (tool.run decimal store service operationId scope input).1).map .turn =
      ((Request.turn scope input).body store.resolve client).toOption.toList := by
  unfold TurnTool.run
  cases ha : TurnTool.admission store.resolve scope input with
  | error e => simp [Request.body, Request.admission, ha, Except.map, bind, Except.bind,
      ToolStep.launches, Except.toOption]
  | ok admitted => simp [Request.body, Request.admission, ha, Except.map, bind, Except.bind,
      Pending.body, Except.toOption]

lemma PlanTool.plan_body {tool : PlanTool} (unbound : tool.defaults.context.resume = none)
    {call : PlanCall} : (Request.plan tool unbound call.scope call.input).body call.store.resolve
      call.client = ((tool.plan call).result).map (fun planned => .ready planned.2) := by
  have hadmission : PlanTool.admission call.store.resolve call.scope call.input =
    call.admission := rfl
  cases ha : call.admission with
  | error e => simp [Request.body, Request.admission, hadmission, ha, plan_refused ha, Except.map,
      bind, Except.bind]
  | ok admitted =>
    obtain ⟨scope,explicit⟩ := admitted
    have hplan : tool.plan call = _ := plan_admitted ha rfl
    simp only [Request.body, Request.admission, hadmission, ha, hplan, Except.map, bind,
      Except.bind, Pending.body]
    cases (tool.dialogue call.client explicit (max tool.maxRounds 1) 0 []).result <;> rfl

/-- A call of a planning tool launches the same on its own and in a history. -/
theorem PlanTool.run_launches {tool : PlanTool} (unbound : tool.defaults.context.resume = none)
    {call : PlanCall} : (ToolStep.launches (tool.run call decimal).1).map .ready =
      ((Request.plan tool unbound call.scope call.input).body call.store.resolve
        call.client).toOption.toList := by
  rw [plan_body]
  have hran : PlanTool.Ran tool decimal call (tool.run call decimal) := PlanTool.run_ran
  generalize tool.run call decimal = r at hran
  cases hran with
  | refused hplan => simp [hplan, Except.map, Except.toOption]
  | launched hplan => simp [hplan, Except.map, Except.toOption]

end Runs

section Resumes
variable {resolve : Resolver} {scope : Scope} {session : SessionHandle}

lemma resolved_of_parse {raw : String} (h : resolveContinuation resolve raw scope = .ok session) :
    ∃ id : ContinuationId, raw = id.asStr ∧ resolve id scope = .ok (some session) := by
  obtain ⟨id,hid,hs⟩ := resolveContinuation_ok.mp h
  exact ⟨id,(ContinuationId.parse_eq_ok.mp hid).symm,hs⟩

/-- A turn tool resumes only what the supplied continuation stands for in the caller's scope. -/
lemma TurnTool.admission_resumes {answer : ScopeAnswer} {input : TurnInput} {turn : Turn Unit}
    (h : TurnTool.admission resolve answer input = .ok (scope,turn)) : answer = .ok scope ∧
      ∀ session, turn.session = some session →
        ∃ id : ContinuationId, input.continuation = some id.asStr ∧
          resolve id scope = .ok (some session) := by
  obtain ⟨sc,hsc,h⟩ := bind_eq_ok.mp h
  obtain ⟨resumed,hr,h⟩ := bind_eq_ok.mp h
  obtain ⟨rfl,rfl⟩ := Prod.mk.inj (Except.ok.inj h)
  refine ⟨scopeOf_ok.mp hsc,?_⟩
  rintro session rfl
  cases hc : input.continuation with
  | none =>
    rw [hc] at hr
    cases hr
  | some raw =>
    rw [hc] at hr
    obtain ⟨s,hs,heq⟩ := map_eq_ok hr
    obtain rfl := Option.some.inj heq
    obtain ⟨id,rfl,hid⟩ := resolved_of_parse hs
    exact ⟨id,rfl,hid⟩

/-- A planning tool's explicit layer resumes only what the supplied continuation stands for. -/
lemma PlanTool.explicitLayer_resumes {input : PlanInput} {explicit : PartialTurn}
    (h : PlanTool.explicitLayer resolve scope input = .ok explicit)
    (hs : explicit.context.resume.map ResumeBinding.toSessionHandle = some session) :
    ∃ id : ContinuationId, input.continuation = some id.asStr ∧
      resolve id scope = .ok (some session) := by
  unfold explicitLayer at h
  split at h
  · rename_i raw hc
    obtain ⟨s,hr,h⟩ := bind_eq_ok.mp h
    split at h
    · rename_i provider hp
      obtain rfl := Except.ok.inj h
      have hsession : (⟨provider.asStr,s.value⟩ : SessionHandle) = session := Option.some.inj hs
      rw [ProviderId.asStr_of_fromStr hp] at hsession
      obtain rfl : s = session := hsession
      obtain ⟨id,rfl,hid⟩ := resolved_of_parse hr
      exact ⟨id,hc,hid⟩
    · cases h
  · obtain rfl := Except.ok.inj h
    cases hs

/-- The turn that a dialogue makes ready resumes what the explicit layer binds. -/
lemma PlanTool.dialogue_session {tool : PlanTool} (hd : tool.defaults.context.resume = none)
    {client : Client} {explicit : PartialTurn} {n round : ℕ} {answers : List Answer}
    {ready : ReadyTurn}
    (h : (tool.dialogue client explicit n round answers).result = .ok ready) :
    ready.session = explicit.context.resume.map ResumeBinding.toSessionHandle := by
  obtain ⟨k,-,after,-,hp⟩ := dialogue_ready_iff.mp h
  obtain ⟨resolved,hr,hc⟩ := prepare_ready hp
  rw [compile_session hc]
  have hview : (resolve (tool.layers explicit after)).view = some resolved.merged := by rw [hr]; rfl
  rw [(view_spec hview).1]
  have hresume : (named (tool.layers explicit after)).context.resume = explicit.context.resume := by
    have hb : baseline (tool.layers explicit after) = {} := by
      unfold baseline
      split
      · rename_i hdefaults
        cases hdefaults
      · rfl
    rw [named,hb,PartialTurn.default_mergeFrom]
    simp [upper, PlanTool.layers, PartialTurn.mergeFrom, PartialContext.mergeFrom, hd]
  rw [hresume]

/-- What is pending resumes only what the supplied continuation stands for in the caller's scope. -/
theorem Request.admission_resumes {request : Request} {pending : Pending}
    (h : request.admission resolve = .ok (scope,pending)) : request.scope = .ok scope ∧
      ∀ session, pending.session = some session →
        ∃ id : ContinuationId, request.continuation = some id.asStr ∧
          resolve id scope = .ok (some session) := by
  cases request with
  | turn answer input =>
    obtain ⟨⟨scope',turn⟩,ha,heq⟩ := map_eq_ok h
    obtain ⟨rfl,rfl⟩ := Prod.mk.inj heq
    exact TurnTool.admission_resumes ha
  | plan tool unbound answer input =>
    obtain ⟨⟨scope',explicit⟩,ha,heq⟩ := map_eq_ok h
    obtain ⟨rfl,rfl⟩ := Prod.mk.inj heq
    obtain ⟨hs,he⟩ := PlanTool.admission_ok.mp ha
    exact ⟨hs,fun session hsession => PlanTool.explicitLayer_resumes he hsession⟩

theorem Pending.body_session {pending : Pending} {client : Client} {body : Body}
    (h : pending.body client = .ok body) : body.session = pending.session := by
  cases pending with
  | turn turn =>
    obtain rfl := Except.ok.inj h
    rfl
  | plan tool unbound explicit =>
    obtain ⟨ready,hr,rfl⟩ := map_eq_ok h
    exact PlanTool.dialogue_session unbound hr

/-- No scope, or a continuation that the store does not resolve. -/
def Request.Barred (resolve : Resolver) (request : Request) : Prop :=
  (∃ unavailable, request.scope = .error unavailable) ∨
    ∃ scope raw, request.scope = .ok scope ∧ request.continuation = some raw ∧
      Unresolved resolve raw scope

/-- A turn tool admits no call whose continuation does not resolve. -/
lemma TurnTool.resumed_unresolved {raw : String} (h : Unresolved resolve raw scope)
    {resumed : Option SessionHandle} : TurnTool.resumed resolve (some raw) scope ≠ .ok resumed := by
  obtain ⟨e,he⟩ := resolveContinuation_unresolved h
  simp [TurnTool.resumed, he]

theorem Request.barred_refused {request : Request} (h : request.Barred resolve)
    {admitted : Scope × Pending} : request.admission resolve ≠ .ok admitted := by
  obtain ⟨sc,pending⟩ := admitted
  intro ha
  obtain ⟨hs,-⟩ := Request.admission_resumes ha
  rcases h with ⟨unavailable,hu⟩ | ⟨sc',raw,hs',hc,hraw⟩
  · rw [hs] at hu
    cases hu
  · obtain rfl := Except.ok.inj (hs.symm.trans hs')
    cases request with
    | turn answer input =>
      obtain ⟨⟨_,_⟩,ha,-⟩ := map_eq_ok ha
      obtain ⟨sc',hsc,ha⟩ := bind_eq_ok.mp ha
      obtain ⟨resumed,hr,-⟩ := bind_eq_ok.mp ha
      obtain rfl := Except.ok.inj (hs.symm.trans (scopeOf_ok.mp hsc))
      have hc : input.continuation = some raw := hc
      rw [hc] at hr
      exact TurnTool.resumed_unresolved hraw hr
    | plan tool unbound answer input =>
      obtain ⟨⟨sc',explicit⟩,ha,-⟩ := map_eq_ok ha
      obtain ⟨hsc,he⟩ := PlanTool.admission_ok.mp ha
      obtain rfl := Except.ok.inj (hs.symm.trans hsc)
      exact PlanTool.explicitLayer_unresolved hc hraw he

end Resumes

/-- How far a call has come. -/
inductive Phase where
  | admitted (scope : Scope) (pending : Pending)
  | running (scope : Scope)
  | closed

structure CallState where
  request : Request
  phase : Phase

/-- What happens over a history, calls being numbered as they begin. -/
inductive HistoryEvent where
  | began (call : ℕ) (request : Request)
  | launched (call : ℕ) (body : Body)
  | minted (call : ℕ) (id : ContinuationId) (scope : Scope) (result : CallResult)
  | evicted (id : ContinuationId)
  | forgot (scope : Scope)

/-- The shared store, the calls, and what happened so far. -/
structure History where
  store : InMemoryContinuationStore
  calls : List CallState := []
  log : List HistoryEvent := []

/-- The steps; a settling call brings the identifier generated for it. -/
inductive HistoryLabel where
  | begin (request : Request)
  | launch (call : ℕ) (client : Client)
  | settle (call : ℕ) (result : CallResult) (id : ContinuationId)
  | forget (scope : Scope)

namespace History
variable (s : History)

def begin (request : Request) : History :=
  let phase := match request.admission s.store.resolver with
    | .ok (scope,pending) => Phase.admitted scope pending
    | .error _ => .closed
  { s with
    calls := s.calls ++ [⟨request,phase⟩]
    log := s.log ++ [.began s.calls.length request] }

def launch (i : ℕ) (request : Request) (scope : Scope) (pending : Pending) (client : Client) :
    History :=
  match pending.body client with
  | .ok body => { s with
      calls := s.calls.set i ⟨request,.running scope⟩
      log := s.log ++ [.launched i body] }
  | .error _ => { s with calls := s.calls.set i ⟨request,.closed⟩ }

def settle (i : ℕ) (request : Request) (scope : Scope) (result : CallResult)
    (id : ContinuationId) : History :=
  let calls := s.calls.set i ⟨request,.closed⟩
  match settledSession result with
  | some session => {
      store := s.store.mint id session scope
      calls := calls
      log := s.log ++ .minted i id scope result::(s.store.evicts id session scope).map .evicted }
  | none => { s with calls := calls }

def forget (scope : Scope) : History :=
  { s with store := s.store.forgetScope scope, log := s.log ++ [.forgot scope] }

def step : HistoryLabel → Option History
  | .begin request => some (s.begin request)
  | .launch i client => s.calls[i]?.bind fun c =>
    match c.phase with
    | .admitted scope pending => some (s.launch i c.request scope pending client)
    | _ => none
  | .settle i result id => s.calls[i]?.bind fun c =>
    match c.phase with
    | .running scope => some (s.settle i c.request scope result id)
    | _ => none
  | .forget scope => some (s.forget scope)

variable {s} {s' : History}

/-- What a step can do. -/
theorem step_cases {l : HistoryLabel} (h : s.step l = some s') :
    (∃ request, l = .begin request ∧ s' = s.begin request) ∨
    (∃ i client request scope pending, l = .launch i client ∧
      s.calls[i]? = some ⟨request,.admitted scope pending⟩ ∧
      s' = s.launch i request scope pending client) ∨
    (∃ i result id request scope, l = .settle i result id ∧
      s.calls[i]? = some ⟨request,.running scope⟩ ∧ s' = s.settle i request scope result id) ∨
    ∃ scope, l = .forget scope ∧ s' = s.forget scope := by
  cases l with
  | begin request => exact .inl ⟨request,rfl,(Option.some.inj h).symm⟩
  | launch i client =>
    obtain ⟨⟨request,phase⟩,hc,h⟩ := Option.bind_eq_some_iff.mp h
    cases phase with
    | admitted scope pending =>
      exact .inr (.inl ⟨i,client,request,scope,pending,rfl,hc,(Option.some.inj h).symm⟩)
    | running scope => cases h
    | closed => cases h
  | settle i result id =>
    obtain ⟨⟨request,phase⟩,hc,h⟩ := Option.bind_eq_some_iff.mp h
    cases phase with
    | running scope =>
      exact .inr (.inr (.inl ⟨i,result,id,request,scope,rfl,hc,(Option.some.inj h).symm⟩))
    | admitted scope pending => cases h
    | closed => cases h
  | forget scope => exact .inr (.inr (.inr ⟨scope,rfl,(Option.some.inj h).symm⟩))

end History

/-- Histories over one store of a given capacity. -/
def history (capacity : ℕ) (h : 0 < capacity) : Machine History HistoryLabel where
  start := { store := .withCapacity capacity h }
  step := History.step

end TowerAgent.Mcp
