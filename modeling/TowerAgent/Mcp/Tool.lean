import TowerAgent.Lib.Fallible
import TowerAgent.Mcp.Projection

/-! One finite turn as a tool: the scope of the request, the continuation it names, the launch, and
the projection of the result with the continuation minted for it. -/
namespace TowerAgent.Mcp
open Lib Kernel

/-- Why a request could not be given a continuation scope. -/
structure ScopeUnavailable where
  reason : String
  deriving DecidableEq, Repr

def ScopeUnavailable.display (u : ScopeUnavailable) : String :=
  "no continuation scope for this request: " ++ u.reason

/-- The scope of a request, as the host's source derives it. -/
abbrev ScopeAnswer := Except ScopeUnavailable Scope

/-- The result of a tool call. -/
structure CallToolResult where
  text : String
  isError : Bool
  structuredContent : Option Json

/-- What a tool call does to the outside, in order: the forms it asks the client to fill in, the
turns it launches and the sessions it names. -/
inductive ToolStep (F B : Type) where
  | asked (form : F)
  | launched (body : B)
  | minted (session : SessionHandle) (scope : Scope)

namespace ToolStep
variable {F B : Type}

def form : ToolStep F B → Option F
  | .asked form => some form
  | _ => none

def body : ToolStep F B → Option B
  | .launched body => some body
  | _ => none

/-- The forms asked. -/
def forms (steps : List (ToolStep F B)) : List F := steps.filterMap form

/-- The turns launched. -/
def launches (steps : List (ToolStep F B)) : List B := steps.filterMap body

@[simp] lemma forms_asked (fs : List F) : forms (fs.map asked : List (ToolStep F B)) = fs := by
  simp [forms, List.filterMap_map, Function.comp_def, form]

@[simp] lemma launches_asked (fs : List F) :
    launches (fs.map asked : List (ToolStep F B)) = [] := by
  simp [launches, List.filterMap_map, Function.comp_def, body]

@[simp] lemma forms_append (s t : List (ToolStep F B)) : forms (s ++ t) = forms s ++ forms t :=
  List.filterMap_append

@[simp] lemma launches_append (s t : List (ToolStep F B)) :
    launches (s ++ t) = launches s ++ launches t := List.filterMap_append

end ToolStep

/-- The session a supplied continuation stands for, or why it cannot be honored. -/
def resolveContinuation (resolve : Resolver) (raw : String) (scope : Scope) :
    Except AgentError SessionHandle := do
  let id ← (ContinuationId.parse raw).mapError (fun error => .invalidRequest error.display)
  match resolve id scope with
  | .ok (some session) => .ok session
  | .ok none =>
    .error (.invalidRequest "continuation is unknown or does not belong to this caller")
  | .error error => .error (.new .internal ("continuation store failed: " ++ error.display)
      .validation .none)

/-- No session is named by the continuation in the scope. -/
def Unresolved (resolve : Resolver) (raw : String) (scope : Scope) : Prop :=
  ∀ id session, ContinuationId.parse raw = .ok id → resolve id scope ≠ .ok (some session)

section Resolve
variable {resolve : Resolver} {raw : String} {scope : Scope}

theorem resolveContinuation_ok {session : SessionHandle} :
    resolveContinuation resolve raw scope = .ok session ↔
      ∃ id, ContinuationId.parse raw = .ok id ∧ resolve id scope = .ok (some session) := by
  unfold resolveContinuation
  cases ContinuationId.parse raw with
  | error e => simp [Except.mapError, bind, Except.bind]
  | ok id =>
    simp only [Except.mapError, bind, Except.bind, Except.ok.injEq, exists_eq_left']
    rcases resolve id scope with e | - | s <;> simp

theorem resolveContinuation_fails : Fails Refusal (resolveContinuation resolve raw scope) := by
  refine Fails.bind (Fails.mapError (fun _ _ => refusal_invalidRequest _)) (fun id => ?_)
  split
  · exact Fails.ok _
  · exact Fails.error (refusal_invalidRequest _)
  · exact Fails.error ⟨.inr rfl,rfl⟩

/-- A continuation that does not resolve is refused, before anything is launched. -/
theorem resolveContinuation_unresolved (h : Unresolved resolve raw scope) :
    ∃ e, resolveContinuation resolve raw scope = .error e := by
  cases hr : resolveContinuation resolve raw scope with
  | error e => exact ⟨e,rfl⟩
  | ok session =>
    obtain ⟨id,hid,hs⟩ := resolveContinuation_ok.mp hr
    exact absurd hs (h id session hid)

end Resolve

def scopeOf (scope : ScopeAnswer) : Except AgentError Scope :=
  scope.mapError (fun unavailable => .invalidRequest unavailable.display)

lemma scopeOf_ok {answer : ScopeAnswer} {scope : Scope} :
    scopeOf answer = .ok scope ↔ answer = .ok scope := by
  cases answer <;> simp [scopeOf, Except.mapError]

lemma scopeOf_fails (scope : ScopeAnswer) : Fails Refusal (scopeOf scope) :=
  Fails.mapError (fun _ _ => refusal_invalidRequest _)

/-- The session that a settled turn left to continue: an outcome's, or a failure's evidence's. -/
def settledSession : CallResult → Option SessionHandle
  | .ok outcome => outcome.session
  | .error error => error.evidence.bind FailureEvidence.session

section Respond
variable (projection : Projection) (decimal : F64 → String)

/-- A refusal that never reached the provider. -/
def refuseWith (error : AgentError) (operationId : UInt64) : CallToolResult where
  text := projection.message error
  isError := true
  structuredContent := some (projection.failure decimal error operationId none)

/-- The response to a settled turn. -/
def respond (result : CallResult) (operationId : UInt64) (continuation : Option ContinuationId) :
    CallToolResult :=
  match result with
  | .ok outcome => {
      text := outcome.output
      isError := false
      structuredContent := some (projection.outcome decimal outcome operationId continuation) }
  | .error error => {
      text := projection.message error
      isError := true
      structuredContent := some (projection.failure decimal error operationId continuation) }

/-- Name a session, or leave it unnamed if the store refuses. -/
def mint (store : ContinuationStore) (session : Option SessionHandle) (scope : Scope) :
    Option ContinuationId :=
  session.bind fun session => (store.mint session scope).toOption

/-- Run a turn and respond to it. -/
def executeTurn {F B : Type} (store : ContinuationStore) (service : B → CallResult)
    (operationId : UInt64) (scope : Scope) (body : B) : List (ToolStep F B) × CallToolResult :=
  let result := service body
  let session := settledSession result
  (.launched body::session.toList.map (.minted · scope),
    respond projection decimal result operationId (mint store session scope))

/-- A refusal before the launch, as the client sees it. -/
def Refused (operationId : UInt64) (result : CallToolResult) : Prop :=
  ∃ error, Refusal error ∧ result = refuseWith projection decimal error operationId

variable {projection decimal}

/-- A refusal is an error that reports no effects. -/
theorem Refused.effects {operationId : UInt64} {result : CallToolResult}
    (h : Refused projection decimal operationId result) : result.isError = true ∧
      (result.structuredContent.bind (Json.get "effects")) = some (.string "none") := by
  obtain ⟨error,hr,rfl⟩ := h
  refine ⟨rfl,?_⟩
  change (projection.failure decimal error operationId none).get "effects" = _
  rw [Projection.failure_effects,hr.effects]
  rfl

variable {F B : Type} {store : ContinuationStore} {service : B → CallResult}
  {operationId : UInt64} {scope : Scope} {body : B}

@[simp] lemma executeTurn_launches : ToolStep.launches
    (executeTurn projection decimal store service operationId scope body :
      List (ToolStep F B) × CallToolResult).1 = [body] := by
  unfold executeTurn
  dsimp only
  cases settledSession (service body) <;> rfl

@[simp] lemma executeTurn_forms : ToolStep.forms
    (executeTurn projection decimal store service operationId scope body :
      List (ToolStep F B) × CallToolResult).1 = [] := by
  unfold executeTurn
  dsimp only
  cases settledSession (service body) <;> rfl

end Respond

/-- The input of a turn tool. -/
structure TurnInput where
  prompt : String
  continuation : Option String := none

/-- One finite agent turn, exposed as a tool. -/
structure TurnTool where
  projection : Projection := {}

namespace TurnTool

/-- The session to resume, if a continuation is supplied. -/
def resumed (resolve : Resolver) (continuation : Option String) (scope : Scope) :
    Except AgentError (Option SessionHandle) :=
  match continuation with
  | none => .ok none
  | some raw => some <$> resolveContinuation resolve raw scope

/-- What is decided before the launch. -/
def admission (resolve : Resolver) (scope : ScopeAnswer) (input : TurnInput) :
    Except AgentError (Scope × Turn Unit) := do
  let scope ← scopeOf scope
  let session ← resumed resolve input.continuation scope
  return (scope,{ prompt := input.prompt, session := session, options := () })

/-- One call of the tool. -/
def run (tool : TurnTool) (decimal : F64 → String) (store : ContinuationStore)
    (service : Turn Unit → CallResult) (operationId : UInt64) (scope : ScopeAnswer)
    (input : TurnInput) : List (ToolStep Empty (Turn Unit)) × CallToolResult :=
  match admission store.resolve scope input with
  | .error error => ([],refuseWith tool.projection decimal error operationId)
  | .ok (scope,turn) => executeTurn tool.projection decimal store service operationId scope turn

end TurnTool
end TowerAgent.Mcp
