import TowerAgent.Mcp.Tool
import TowerAgent.Plan.Planner

/-! A turn that is planned before it is run: the client is asked for what is missing, a bounded
number of times. -/
namespace TowerAgent.Mcp
open Lib Kernel Plan

inductive PrimitiveSchemaDefinition where
  | singleSelectEnum (title description : String) (enumValues : List String)
  | string (label : String)
  deriving DecidableEq, Repr

/-- A form for the client to fill in. -/
structure ElicitFormParams where
  message : String
  properties : List (String × PrimitiveSchemaDefinition)
  required : List String
  deriving DecidableEq, Repr

/-- What a client does with a form; `other` is an action this build does not know. -/
inductive ElicitAction where
  | accept
  | decline
  | cancel
  | other
  deriving DecidableEq, Repr

/-- The value of a field; the form only ever asks for strings. -/
inductive ElicitFieldValue where
  | string (value : String)
  | other (value : Json)

/-- A client's reply; its fields in the order in which they are read. -/
structure ElicitResult where
  action : ElicitAction
  content : Option (List (String × ElicitFieldValue)) := none

/-- A client: its reply to the form of each round, or the text of a failed exchange. -/
abbrev Client := ℕ → ElicitFormParams → Except String ElicitResult

/-- The steps of a planning tool. -/
abbrev PlanStep := ToolStep ElicitFormParams ReadyTurn

/-- Most elicitation rounds before a plan is abandoned. -/
def defaultMaxElicitationRounds : ℕ := 4

structure PlanInput where
  prompt : Option String := none
  provider : Option String := none
  continuation : Option String := none

/-- A tool that plans a turn, then runs it. -/
structure PlanTool where
  projection : Projection := {}
  defaults : PartialTurn := {}
  providers : List ProviderId := [.claude,.codex]
  maxRounds : ℕ := defaultMaxElicitationRounds

/-- The string-valued fields of a form's content. -/
def stringAnswers (content : List (String × ElicitFieldValue)) : List Answer :=
  content.filterMap fun (id,value) =>
    match value with
    | .string value => some ⟨id,value⟩
    | .other _ => none

/-- What a reply to a form answers, or why it is refused. -/
def replyAnswers (reply : Except String ElicitResult) : Except AgentError (List Answer) :=
  match reply with
  | .error error =>
    .error (.new .internal ("elicitation failed: " ++ error) .validation .none)
  | .ok result =>
    match result.action with
    | .decline | .cancel =>
      .error (.new .cancelled "the request for missing values was declined" .validation .none)
    | .accept => .ok (stringAnswers (result.content.getD []))
    | .other => .error (.unsupported
        "the client answered with an elicitation action this adapter does not understand")

namespace PlanTool
variable (tool : PlanTool)

/-- The form's field for one requirement: a provider is picked, a text is typed. -/
def formField (requirement : Requirement) : String × PrimitiveSchemaDefinition :=
  match requirement.kind with
  | .provider => (requirement.id,.singleSelectEnum requirement.label requirement.path
      (tool.providers.map ProviderId.asStr))
  | .text => (requirement.id,.string requirement.label)

def form (requirements : List Requirement) : ElicitFormParams where
  message := "More information is needed to run this turn"
  properties := requirements.map tool.formField
  required := requirements.map Requirement.id

open Traced in
/-- Ask the client for the unbound values. -/
def elicit (client : ElicitFormParams → Except String ElicitResult)
    (requirements : List Requirement) : Traced PlanStep AgentError (List Answer) :=
  match requirements.find? Requirement.sensitive with
  | some sensitive => check (.error (.unsupported
      ("requirement " ++ sensitive.id ++ " is sensitive and cannot be elicited")))
  | none => do
    step (.asked (tool.form requirements))
    check (replyAnswers (client (tool.form requirements)))

/-- The layer the client supplies. A continuation settles the provider; a name of no known provider
leaves it unbound. -/
def explicitLayer (resolve : Resolver) (scope : Scope) (input : PlanInput) :
    Except AgentError PartialTurn :=
  match input.continuation with
  | some raw => do
    let session ← resolveContinuation resolve raw scope
    match ProviderId.fromStr session.provider with
    | some provider => .ok {
        prompt := input.prompt
        provider := some provider
        context := { resume := some ⟨provider,session.value⟩ } }
    | none => .error (.unsupported
        "the continuation belongs to a provider this build cannot plan for")
  | none => .ok {
      prompt := input.prompt
      provider := input.provider.bind ProviderId.fromStr }

def layers (explicit : PartialTurn) (answers : List Answer) : Layers where
  applicationDefaults := some tool.defaults
  explicit := explicit
  answers := answers

def invalidPlan (diagnostics : List Diagnostic) : AgentError :=
  .invalidRequest ("plan is invalid: " ++ ", ".intercalate (diagnostics.map Diagnostic.code))

/-- A round that binds nothing new would be asked again. -/
def addedNothing : AgentError :=
  .invalidRequest "the plan is still incomplete and elicitation added nothing"

def unresolvedPlan : AgentError :=
  .invalidRequest "the plan did not resolve within the allowed rounds"

open Traced in
/-- The loop of a call: the rounds that remain, the number of the next one, and the answers so
far. -/
def dialogue (client : Client) (explicit : PartialTurn) :
    ℕ → ℕ → List Answer → Traced PlanStep AgentError ReadyTurn
  | 0,_,_ => check (.error unresolvedPlan)
  | remaining+1,round,answers =>
    match prepare (tool.layers explicit answers) with
    | .ready ready => pure ready
    | .invalid diagnostics => check (.error (invalidPlan diagnostics))
    | .missing _ requirements => do
      let added ← tool.elicit (client round) requirements
      check (if added.isEmpty then .error addedNothing else .ok ())
      dialogue client explicit remaining (round+1) (answers ++ added)

end PlanTool

/-- The scope of a call, and the layer its client supplies. -/
def PlanTool.admission (resolve : Resolver) (scope : ScopeAnswer) (input : PlanInput) :
    Except AgentError (Scope × PartialTurn) := do
  let scope ← scopeOf scope
  let explicit ← PlanTool.explicitLayer resolve scope input
  return (scope,explicit)

/-- What surrounds one call of a planning tool. -/
structure PlanCall where
  scope : ScopeAnswer
  input : PlanInput
  client : Client
  store : ContinuationStore
  service : ReadyTurn → CallResult
  operationId : UInt64

def PlanCall.admission (call : PlanCall) : Except AgentError (Scope × PartialTurn) :=
  PlanTool.admission call.store.resolve call.scope call.input

namespace PlanTool
variable (tool : PlanTool) (call : PlanCall)

open Traced in
/-- What is decided before the launch. -/
def plan : Traced PlanStep AgentError (Scope × ReadyTurn) := do
  let (scope,explicit) ← check call.admission
  let ready ← tool.dialogue call.client explicit (max tool.maxRounds 1) 0 []
  return (scope,ready)

/-- One call of the tool. -/
def run (decimal : F64 → String) : List PlanStep × CallToolResult :=
  let planned := tool.plan call
  match planned.result with
  | .error error =>
    (planned.steps,refuseWith tool.projection decimal error call.operationId)
  | .ok (scope,ready) =>
    let executed :=
      executeTurn tool.projection decimal call.store call.service call.operationId scope ready
    (planned.steps ++ executed.1,executed.2)

end PlanTool
end TowerAgent.Mcp
