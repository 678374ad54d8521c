import TowerAgent.Claude.Query

/-! The Claude adapter from the launch on: the wrapper's report, its settlement, and the whole call. -/
namespace TowerAgent.Claude
open Lib Kernel Adapter

/-- The wrapper's accounting of one query. -/
structure WrapperUsage where
  inputTokens : Option UInt64 := none
  cachedInputTokens : Option UInt64 := none
  cacheWriteInputTokens : Option UInt64 := none
  outputTokens : Option UInt64 := none
  reasoningOutputTokens : Option UInt64 := none
  isEmpty : Bool
  total : UInt64
  deriving DecidableEq, Repr

/-- The terminal result that the wrapper parsed. -/
structure QueryResult where
  result : String
  sessionId : String := ""
  isError : Bool := false
  usage : Option WrapperUsage := none
  costUsd : Option F64 := none
  durationMs : Option UInt64 := none
  numTurns : Option UInt32 := none
  extra : List (String × Json) := []
  deriving Repr

inductive AuthErrorKind where
  | notAuthenticated | expired | invalidCredentials | rateLimit | providerError | other
  deriving DecidableEq, Repr

/-- The wrapper's errors that the adapter tells apart, with what it reads of them. -/
inductive WrapperError where
  | maxTurnsExceeded (maxTurns : Option UInt32) (costUsd : Option F64) (numTurns : Option UInt32)
      (sessionId : Option String)
  | maxBudgetExceeded (maxUsd : Option F64) (costUsd : Option F64) (numTurns : Option UInt32)
      (sessionId : Option String)
  | notFound
  | timeout (timeoutSeconds : UInt64)
  | cancelled
  | auth (kind : AuthErrorKind)
  | budgetExceeded
  | versionMismatch
  | io (message : String)
  | json
  | commandFailed (exitCode : Int)
  | outputLimitExceeded
  | other
  deriving DecidableEq, Repr

/-- How the wrapper ends a query. -/
abbrev Report := Except WrapperError QueryResult

/-- The wrapper: the construction of its client, and the execution of a query. -/
structure Wrapper where
  build : List ClientOption → Except WrapperError Unit
  executeJson : List ClientOption → QueryCommand → Report

def mapUsage (usage : WrapperUsage) : TokenUsage where
  input := usage.inputTokens
  cachedInput := usage.cachedInputTokens
  cacheWriteInput := usage.cacheWriteInputTokens
  output := usage.outputTokens
  reasoningOutput := usage.reasoningOutputTokens
  providerTotal := if usage.isEmpty then none else some usage.total

namespace QueryResult
variable (result : QueryResult)

/-- The session id, if the result names one. -/
def session : Option String := if result.sessionId.isEmpty then none else some result.sessionId

/-- The accounting, if there is any. -/
def tokenUsage : Option TokenUsage := (result.usage.filter (fun usage => !usage.isEmpty)).map mapUsage

def cost : Option Cost := result.costUsd.map Cost.usd

def duration : Option Duration := result.durationMs.map (fun ms => ms.toNat*1000000)

/-- The payload that the provider validated against a schema. -/
def payload : Option Json :=
  (result.extra.lookup "structured_output").filter (fun value => !value.isNull)

end QueryResult

def handle (value : String) : SessionHandle := ⟨names.provider,value⟩

def queryEvidence (result : QueryResult) (preassignedSession : Option SessionHandle) :
    FailureEvidence where
  session := preassignedSession.or (result.session.map handle)
  usage := result.tokenUsage
  cost := result.cost
  duration := result.duration
  providerTurns := result.numTurns

def queryEvidenceWithoutSession (result : QueryResult) : FailureEvidence :=
  { queryEvidence result none with session := none }

def settlementError (message : String) : AgentError := .new .provider message .settlement .possible

/-- Take the schema-constrained payload; a turn that asked for one and did not receive it fails. -/
def structuredOutput (result : QueryResult) (schemaRequested : Bool) :
    Except AgentError (Option Json) :=
  match schemaRequested,result.payload with
  | true,none => .error (settlementError
      "Claude reported success without the requested structured output")
  | true,payload => .ok payload
  | false,_ => .ok none

def runningError (kind : ErrorKind) (message : String) : AgentError :=
  .new kind message .running .possible

def mapQueryError (result : QueryResult) (preassignedSession : Option SessionHandle) : AgentError :=
  let error := match (result.extra.lookup "subtype").bind Json.asStr with
    | some "error_max_turns" => runningError .limit "Claude reached its maximum turn limit"
    | some "error_max_budget_usd" => runningError .budget "Claude reached its budget limit"
    | _ => runningError .provider "Claude reported a failed turn"
  error.withEvidence (queryEvidence result preassignedSession)

/-- Name the preassigned session in the evidence, whatever it named before. -/
def attachPreassignedSession (preassignedSession : Option SessionHandle) (error : AgentError) :
    AgentError :=
  match preassignedSession with
  | some session => { error with
      evidence := some { error.evidence.getD {} with session := some session } }
  | none => error

/-- A run that the CLI stopped at one of its ceilings. -/
def railStopError (kind : ErrorKind) (message : String) (sessionId : Option String)
    (costUsd : Option F64) (providerTurns : Option UInt32) : AgentError :=
  (runningError kind message).withEvidence {
    session := sessionId.map handle
    cost := costUsd.map Cost.usd
    providerTurns := providerTurns }

def mapAuthError : AuthErrorKind → AgentError
  | .notAuthenticated => runningError .authentication "Claude credentials are not configured"
  | .expired => runningError .authentication "Claude credentials have expired"
  | .invalidCredentials => runningError .authentication "Claude credentials were rejected"
  | .rateLimit => runningError .limit "Claude request was rate limited"
  | .providerError => runningError .provider "Claude authentication provider failed"
  | .other => runningError .provider "Claude provider rejected the request"

def mapWrapperError : WrapperError → AgentError
  | .maxTurnsExceeded maxTurns costUsd numTurns sessionId =>
    railStopError .limit
      (match maxTurns with
        | none => "Claude reached its maximum turn limit"
        | some turns => "Claude reached its maximum turn limit of " ++ toString turns)
      sessionId costUsd numTurns
  | .maxBudgetExceeded maxUsd costUsd numTurns sessionId =>
    railStopError .budget
      (match maxUsd with
        | none => "Claude reached its budget limit"
        | some amount => "Claude reached its budget limit of $" ++ amount.fixed2)
      sessionId costUsd numTurns
  | .notFound => .new .provider "claude binary not found" .launch .none
  | .timeout timeoutSeconds => runningError .deadlineExceeded
      ("claude command timed out after " ++ toString timeoutSeconds ++ "s")
  | .cancelled => runningError .cancelled "Claude turn was cancelled"
  | .auth kind => mapAuthError kind
  | .budgetExceeded =>
    .new .budget "Claude wrapper budget exceeded before dispatch" .admission .none
  | .versionMismatch =>
    .new .unsupported "Claude CLI is older than the required version" .launch .none
  | .io message =>
    if message.startsWith "failed to spawn claude" then
      .new .provider "Claude process could not be launched" .launch .none
    else runningError .provider "Claude process I/O failed"
  | .json => settlementError "Claude returned an invalid terminal result"
  | .commandFailed exitCode => .commandFailed names.display exitCode
  | .outputLimitExceeded => runningError .limit "Claude output exceeded the host capture limit"
  | .other => runningError .provider "Claude provider failed"

/-- A session id that contradicts the one the host assigned. -/
def disputes (preassignedSession : Option SessionHandle) (sessionId : String) : Bool :=
  preassignedSession.any (fun session => !sessionId.isEmpty && sessionId != session.value)

/-- What a parsed result settles to. -/
def settleResult (result : QueryResult) (priorSession : Option String)
    (preassignedSession : Option SessionHandle) (schemaRequested : Bool) : CallResult :=
  if disputes preassignedSession result.sessionId then
    .error ((settlementError
      "Claude returned a different session than the host preassigned").withEvidence
        (queryEvidenceWithoutSession result))
  else if result.isError then
    .error (mapQueryError result preassignedSession)
  else
    match structuredOutput result schemaRequested with
    | .error error => .error (error.withEvidence (queryEvidenceWithoutSession result))
    | .ok structured => .ok {
        output := result.result
        structured := structured
        session := preassignedSession.or ((result.session.or priorSession).map handle)
        usage := result.tokenUsage
        cost := result.cost
        duration := result.duration
        providerTurns := result.numTurns }

/-- What the wrapper's report settles to. -/
def settleReport (report : Report) (priorSession : Option String)
    (preassignedSession : Option SessionHandle) (schemaRequested : Bool) : CallResult :=
  match report with
  | .error error => .error (attachPreassignedSession preassignedSession (mapWrapperError error))
  | .ok result => settleResult result priorSession preassignedSession schemaRequested

/-- A call with the steps of its launch. -/
abbrev Launched := Traced (LaunchStep Report) AgentError

open Traced in
/-- Execute a query, unless the call was cancelled. -/
def run (wrapper : Wrapper) (claude : List ClientOption) (query : QueryCommand) (cancelled : Bool)
    (priorSession : Option String) (preassignedSession : Option SessionHandle)
    (schemaRequested : Bool) : Launched TurnOutcome := do
  check (if cancelled then .error (attachPreassignedSession preassignedSession
    (.cancelledBeforeLaunch names.display)) else .ok ())
  execute (wrapper.executeJson claude query) (fun report =>
    settleReport report priorSession preassignedSession schemaRequested)

namespace ClaudeService
variable (service : ClaudeService) (host : Host) (wrapper : Wrapper) (token : ℕ → Bool)

def buildClaude (request : TurnRequest ClaudeOptions) : Launched (List ClientOption) :=
  buildClient names service.settings host.environment
    (fun options => (wrapper.build options).mapError (fun _ => .launchFailed names.display))
    request.body.workingDirectory request.context.operationId

open Traced in
/-- From the query on: the client is built and the query executed. -/
def launch (request : TurnRequest ClaudeOptions) (query : QueryCommand)
    (preassignedSession : Option SessionHandle) : Launched TurnOutcome := do
  let claude ← (service.buildClaude host wrapper request).mapError
    (attachPreassignedSession preassignedSession)
  run wrapper claude query (token 1) (request.body.session.map SessionHandle.value)
    preassignedSession request.body.options.jsonSchema.isSome

open Traced in
/-- One call; `token` is the cancellation token as it reads at each of its checks. -/
def call (request : TurnRequest ClaudeOptions) : Launched TurnOutcome := do
  check (if token 0 then .error (.cancelledBeforeLaunch names.display) else .ok ())
  check (preflightSession request.body)
  let preassignedSession ← check (validatePreassignedSession host request)
  let ambientContext ← check ((effectiveAmbientContext service.ambientContext
    request.body.options.ambientContext).mapError (attachPreassignedSession preassignedSession))
  let query ← check ((buildQuery host request.body ambientContext preassignedSession).mapError
    (attachPreassignedSession preassignedSession))
  service.launch host wrapper token request query preassignedSession

end ClaudeService

section Executed
variable {service : ClaudeService} {host : Host} {wrapper : Wrapper} {token : ℕ → Bool}
  {request : TurnRequest ClaudeOptions} {report : Report}

/-- A call that the wrapper reported on settles as its report says. -/
theorem call_executed (h : .executed report ∈ (service.call host wrapper token request).steps) :
    ∃ claude query preassigned, report = wrapper.executeJson claude query ∧
      validatePreassignedSession host request = .ok preassigned ∧
      (service.call host wrapper token request).result = settleReport report
        (request.body.session.map SessionHandle.value) preassigned
        request.body.options.jsonSchema.isSome := by
  have hends : (service.call host wrapper token request).EndsBy fun step result =>
      ∀ report, step = .executed report → ∃ claude query preassigned,
        report = wrapper.executeJson claude query ∧
        validatePreassignedSession host request = .ok preassigned ∧
        result = settleReport report (request.body.session.map SessionHandle.value) preassigned
          request.body.options.jsonSchema.isSome := by
    refine .check_bind fun _ _ => .check_bind fun _ _ => .check_bind fun preassigned hpre => ?_
    refine .check_bind fun ambient _ => .check_bind fun query _ => ?_
    refine .bind ?_ fun claude _ => .check_bind fun _ _ => ?_
    · rintro _ hs _ report rfl
      exact absurd hs buildClient_executed
    · rintro _ hs report rfl
      obtain ⟨hreport,hresult⟩ := execute_executed hs
      exact ⟨claude,query,preassigned,hreport,hpre,hresult⟩
  exact hends _ h report rfl

/-- A call that succeeds was reported on. -/
theorem call_ok {outcome : TurnOutcome}
    (h : (service.call host wrapper token request).result = .ok outcome) :
    ∃ report, .executed report ∈ (service.call host wrapper token request).steps := by
  have hstops : (service.call host wrapper token request).StopsBefore
      (fun step => ∃ report, step = .executed report) fun _ => True :=
    .bind .trivial fun _ _ => .bind .trivial fun _ _ => .bind .trivial fun preassigned _ =>
      .bind .trivial fun ambient _ => .bind .trivial fun query _ =>
      .bind .trivial fun claude _ => .bind .trivial fun _ _ => execute_stops
  rcases hstops with ⟨e,he,-⟩ | ⟨_,hs,report,rfl⟩
  · rw [h] at he
    cases he
  · exact ⟨report,hs⟩

end Executed
end TowerAgent.Claude
