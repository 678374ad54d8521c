import TowerAgent.Codex.Preflight

/-! The Codex adapter from the launch on: its commands, the event stream, its settlement on both paths,
and the whole call. -/
namespace TowerAgent.Codex
open Lib Kernel Adapter

/-- The wrapper's classes of a failed turn. -/
inductive TurnFailureKind where
  | apiRequestRejected
  | rolloutBudgetExhausted
  | other
  deriving DecidableEq, Repr

/-- One line of the event stream, by what the wrapper's accessors say of it. -/
structure JsonLineEvent where
  isTurnCompleted : Bool := false
  isTurnFailed : Bool := false
  turnFailureKind : Option TurnFailureKind := none
  threadId : Option String := none
  sessionId : Option String := none
  agentMessageText : Option String := none
  isItemCompleted : Bool := false
  deriving DecidableEq, Repr

/-- The wrapper's accounting of one command. -/
structure WrapperUsage where
  inputTokens : Option UInt64 := none
  cachedInputTokens : Option UInt64 := none
  cacheWriteInputTokens : Option UInt64 := none
  outputTokens : Option UInt64 := none
  reasoningOutputTokens : Option UInt64 := none
  total : Option UInt64 := none
  deriving DecidableEq, Repr

/-- The result that the wrapper parsed from the event stream. -/
structure QueryResult where
  result : String := ""
  threadId : Option String := none
  sessionId : Option String := none
  usage : Option WrapperUsage := none
  events : List JsonLineEvent
  deriving DecidableEq, Repr

/-- The wrapper's errors that the adapter tells apart, with what it reads of them. -/
inductive WrapperError where
  | notFound
  | io (message : String)
  | timeout
  | outputLimitExceeded
  | cancelled
  | auth
  | config
  | notTrustedDirectory
  | sessionNotFound
  | commandFailed (exitCode : Int) (stdout : String)
  | json
  | tokenBudgetExceeded (totalTokens maxTokens : UInt64)
  | invalidRolloutBudget
  | dangerousNotAllowed
  | versionMismatch (found minimum : String)
  | untestedCliVersion (found testedMin testedMax : String)
  | other
  deriving DecidableEq, Repr

/-- How the wrapper ends a command. -/
abbrev Report := Except WrapperError QueryResult

/-- What the adapter asks of the wrapper's command after its prompt, in order. -/
inductive CommandOption where
  | sandbox (mode : FilesystemAuthority)
  | sessionId (session : String)
  | config (config : String)
  | skipGitRepoCheck
  | strictConfig
  | ignoreUserConfig
  | ignoreRules
  | ephemeral
  | model (model : String)
  | outputSchema (path : String)
  | addDir (directory : String)
  deriving DecidableEq, Repr

/-- A fresh or a resumed command, its prompt on standard input. -/
structure Command where
  resumed : Bool
  prompt : String
  options : List CommandOption
  deriving DecidableEq, Repr

/-- The wrapper, the parser of its event lines, and the temporary files of the host. -/
structure Wrapper where
  build : List ClientOption → Except WrapperError Unit
  executeJson : List ClientOption → Command → Report
  parseLine : String → Option JsonLineEvent
  /-- A temporary file with these contents, by its path. -/
  materialize : String → Option PathBuf

/-- The state of a turn's terminal event. -/
inductive TerminalState where
  | completed
  | failed (kind : TurnFailureKind)
  deriving DecidableEq, Repr

def settlementError (message : String) : AgentError := .new .provider message .settlement .possible

def JsonLineEvent.isTerminal (event : JsonLineEvent) : Bool :=
  event.isTurnCompleted || event.isTurnFailed

/-- The one terminal event of a stream, its last. -/
def validateTerminalEvents (events : List JsonLineEvent) : Except AgentError TerminalState :=
  match events.zipIdx.filter (fun entry => entry.1.isTerminal) with
  | [] => .error (settlementError "Codex event stream did not contain a terminal turn event")
  | (terminal,index)::terminals =>
    if !terminals.isEmpty || index + 1 != events.length then
      .error (settlementError "Codex event stream contained conflicting terminal state")
    else if terminal.isTurnCompleted then .ok .completed
    else .ok (.failed (terminal.turnFailureKind.getD .other))

/-- The one value that all agree on. -/
def consistentProviderHandle : List String → Except AgentError (Option String)
  | [] => .ok none
  | first::values =>
    if Text.isBlank first || first.startsWith "-" || values.any (· != first) then
      .error (settlementError "Codex event stream contained invalid session evidence")
    else .ok (some first)

def handle (value : String) : SessionHandle := ⟨names.provider,value⟩

def validatedResultSession (result : QueryResult) (priorSession : Option String)
    (ephemeral : Bool) : Except AgentError (Option SessionHandle) := do
  let thread ← consistentProviderHandle
    (result.events.filterMap JsonLineEvent.threadId ++ result.threadId.toList)
  let session ← consistentProviderHandle
    (result.events.filterMap JsonLineEvent.sessionId ++ result.sessionId.toList)
  return if ephemeral then none else ((thread.or session).or priorSession).map handle

section Fails

/-- A stream whose evidence is refused fails in settlement. -/
lemma validateTerminalEvents_fails {events : List JsonLineEvent} :
    Fails (fun e => ∃ message, e = settlementError message) (validateTerminalEvents events) := by
  unfold validateTerminalEvents
  split
  · exact Fails.error ⟨_,rfl⟩
  · split
    · exact Fails.error ⟨_,rfl⟩
    · split <;> exact Fails.ok _

lemma consistentProviderHandle_fails {values : List String} :
    Fails (fun e => ∃ message, e = settlementError message) (consistentProviderHandle values) := by
  unfold consistentProviderHandle
  split
  · exact Fails.ok _
  · split
    · exact Fails.error ⟨_,rfl⟩
    · exact Fails.ok _

lemma validatedResultSession_fails {result : QueryResult} {prior : Option String}
    {ephemeral : Bool} : Fails (fun e => ∃ message, e = settlementError message)
      (validatedResultSession result prior ephemeral) :=
  consistentProviderHandle_fails.bind fun _ => consistentProviderHandle_fails.bind fun _ =>
    Fails.ok _

end Fails

def mapUsage (usage : WrapperUsage) : TokenUsage where
  input := usage.inputTokens
  cachedInput := usage.cachedInputTokens
  cacheWriteInput := usage.cacheWriteInputTokens
  output := usage.outputTokens
  reasoningOutput := usage.reasoningOutputTokens
  providerTotal := usage.total

/-- What a terminal failure means, for both settlement paths. -/
def classifyTerminalFailure (failure : TurnFailureKind) (session : Option SessionHandle)
    (usage : Option TokenUsage) (duration : Option Duration) : AgentError :=
  match failure with
  | .apiRequestRejected =>
    (AgentError.new .invalidRequest "Codex rejected the request before generating output"
      .validation .none).withEvidence { usage := usage, duration := duration }
  | .rolloutBudgetExhausted =>
    (AgentError.new .budget "Codex turn exhausted its rollout token budget" .running
      .possible).withEvidence { session := session, usage := usage, duration := duration }
  | .other =>
    (AgentError.new .provider "Codex reported a failed turn" .running .possible).withEvidence
      { session := session, usage := usage, duration := duration }

/-- The final text: with a schema, that of the last agent message. -/
def finalOutput (result : QueryResult) (structuredOutput : Bool) : String :=
  if structuredOutput then
    (result.events.reverse.findSome? JsonLineEvent.agentMessageText).getD ""
  else result.result

/-- What a parsed result settles to. -/
def settleOutcome (result : QueryResult) (priorSession : Option String) (duration : Duration)
    (ephemeral structuredOutput : Bool) : CallResult := do
  let terminal ← validateTerminalEvents result.events
  let session ← validatedResultSession result priorSession ephemeral
  let usage := result.usage.map mapUsage
  match terminal with
  | .completed => .ok {
      output := finalOutput result structuredOutput
      session := session
      usage := usage
      duration := some duration }
  | .failed failure => .error (classifyTerminalFailure failure session usage (some duration))

/-- The classification that a captured stream still allows. -/
def terminalFailureFromStream (parseLine : String → Option JsonLineEvent) (stdout : String) :
    Option AgentError :=
  match validateTerminalEvents ((Text.lines stdout).filterMap parseLine) with
  | .ok (.failed failure) => some (classifyTerminalFailure failure none none none)
  | .ok .completed => none
  | .error _ => none

def mapLaunchError : WrapperError → AgentError
  | .notFound => .new .provider "Codex executable was not found" .launch .none
  | _ => .new .provider "Codex could not be initialized" .launch .none

def runningError (kind : ErrorKind) (message : String) : AgentError :=
  .new kind message .running .possible

def validationError (kind : ErrorKind) (message : String) : AgentError :=
  .new kind message .validation .none

def mapRunError (parseLine : String → Option JsonLineEvent) : WrapperError → AgentError
  | .notFound => .new .provider "Codex executable was not found" .launch .none
  | .io message =>
    if message.startsWith "failed to spawn codex" then
      .new .provider "Codex process could not be launched" .launch .none
    else runningError .provider "Codex process I/O failed"
  | .timeout => runningError .deadlineExceeded "Codex command exceeded its configured timeout"
  | .outputLimitExceeded => runningError .limit "Codex output exceeded the host capture limit"
  | .cancelled => .cancelledInFlight names.display
  | .auth => runningError .authentication "Codex credentials were rejected"
  | .config => validationError .provider "Codex rejected its launch configuration"
  | .notTrustedDirectory => validationError .unauthorized "Codex refused the working directory"
  | .sessionNotFound => validationError .invalidRequest "Codex session was not found"
  | .commandFailed exitCode stdout =>
    (terminalFailureFromStream parseLine stdout).getD (.commandFailed names.display exitCode)
  | .json => settlementError "Codex returned an invalid event stream"
  | .tokenBudgetExceeded totalTokens maxTokens => runningError .budget
      ("Codex token budget exceeded: " ++ toString totalTokens ++ " of " ++ toString maxTokens ++
        " tokens")
  | .invalidRolloutBudget =>
    validationError .invalidRequest "Codex rollout budget configuration was invalid"
  | .dangerousNotAllowed =>
    validationError .unauthorized "Codex safety controls cannot be bypassed by this host"
  | .versionMismatch found minimum => .new .unsupported
      ("Codex CLI " ++ found ++ " is older than required version " ++ minimum) .launch .none
  | .untestedCliVersion found testedMin testedMax => .new .unsupported
      ("Codex CLI " ++ found ++ " is outside the tested range " ++ testedMin ++ "..=" ++
        testedMax) .launch .none
  | .other => runningError .provider "Codex command failed"

/-- What the wrapper's report settles to. -/
def settleReport (parseLine : String → Option JsonLineEvent) (report : Report)
    (priorSession : Option String) (duration : Duration) (ephemeral structuredOutput : Bool) :
    CallResult :=
  match report with
  | .error error => .error (mapRunError parseLine error)
  | .ok result => settleOutcome result priorSession duration ephemeral structuredOutput

/-- A checked turn. -/
structure PreparedTurn where
  prompt : String
  workingDirectory : Option PathBuf
  session : Option String
  model : Option String
  additionalDirectories : List String
  outputSchema : Option String
  filesystemAuthority : FilesystemAuthority
  ephemeral : Bool

def composePrompt (prompt : String) (systemPrompt : Option String) : String :=
  match systemPrompt with
  | some systemPrompt => if systemPrompt.isEmpty then prompt else systemPrompt ++ "\n\n" ++ prompt
  | none => prompt

/-- The checks of a request, unless it was cancelled. -/
def prepare (host : Host) (authorityPolicy : AuthorityPolicy) (cancelled : Bool)
    (turn : CodexTurn) : Except AgentError PreparedTurn :=
  if cancelled then .error (.cancelledBeforeLaunch names.display)
  else do
    let validated ← preflightTurn host authorityPolicy turn
    return {
      prompt := composePrompt turn.prompt turn.options.systemPrompt
      workingDirectory := turn.workingDirectory
      session := validated.session
      model := turn.options.model
      additionalDirectories := validated.additionalDirectories
      outputSchema := validated.outputSchema
      filesystemAuthority := turn.options.filesystemAuthority
      ephemeral := turn.options.ephemeral }

def sandboxConfig : FilesystemAuthority → String
  | .readOnly => "sandbox_mode=\"read-only\""
  | .workspaceWrite => "sandbox_mode=\"workspace-write\""
  | .fullAccess => "sandbox_mode=\"danger-full-access\""

/-- The options that fresh and resumed commands share. -/
def commonOptions (turn : PreparedTurn) (ambient : CodexAmbientContextPolicy)
    (outputSchemaPath skillConfig : Option String) : List CommandOption :=
  (if ambient = .automation then
    [.strictConfig,.ignoreUserConfig,.ignoreRules,.config "project_doc_max_bytes=0"] else []) ++
  skillConfig.toList.flatMap (fun config => [.strictConfig,.config config]) ++
  (if turn.ephemeral then [.ephemeral] else []) ++
  turn.model.toList.map .model ++
  outputSchemaPath.toList.map .outputSchema

def freshCommand (turn : PreparedTurn) (ambient : CodexAmbientContextPolicy)
    (outputSchemaPath skillConfig : Option String) : Command :=
  ⟨false,turn.prompt,[.sandbox turn.filesystemAuthority,.skipGitRepoCheck] ++
    commonOptions turn ambient outputSchemaPath skillConfig ++
    turn.additionalDirectories.map .addDir⟩

def resumeCommand (turn : PreparedTurn) (session : String) (ambient : CodexAmbientContextPolicy)
    (outputSchemaPath skillConfig : Option String) : Command :=
  ⟨true,turn.prompt,[.sessionId session,.config (sandboxConfig turn.filesystemAuthority),
    .skipGitRepoCheck] ++ commonOptions turn ambient outputSchemaPath skillConfig⟩

def command (turn : PreparedTurn) (ambient : CodexAmbientContextPolicy)
    (outputSchemaPath skillConfig : Option String) : Command :=
  match turn.session with
  | some session => resumeCommand turn session ambient outputSchemaPath skillConfig
  | none => freshCommand turn ambient outputSchemaPath skillConfig

/-- A call with the steps of its launch. -/
abbrev Launched := Traced (LaunchStep Report) AgentError

open Traced in
/-- The path of the temporary file that holds a schema. -/
def schemaFile (wrapper : Wrapper) (schema : String) : Launched String := do
  step (.schemaFile schema)
  match wrapper.materialize schema with
  | none => check (.error (launchError "Codex output schema temporary file could not be prepared"))
  | some path =>
    match path.toStr with
    | some path => return path
    | none => check (.error (launchError
        "Codex output schema temporary path is not valid UTF-8"))

open Traced in
/-- The path of the schema file of a turn, if it has a schema. -/
def schemaPath (wrapper : Wrapper) : Option String → Launched (Option String)
  | none => return none
  | some schema => do
    let path ← schemaFile wrapper schema
    return some path

namespace CodexService
variable (service : CodexService) (host : Host) (wrapper : Wrapper) (token : ℕ → Bool)
  (elapsed : Duration)

def cancelledCheck (cancelled : Bool) : Except AgentError Unit :=
  if cancelled then .error (.cancelledBeforeLaunch names.display) else .ok ()

open Traced in
/-- From the client on: it is built, the schema written to its file, and the command executed. -/
def launch (request : TurnRequest CodexOptions) (turn : PreparedTurn)
    (skillConfig : Option String) : Launched TurnOutcome := do
  let codex ← buildClient names service.settings host.environment
    (fun options => (wrapper.build options).mapError mapLaunchError) turn.workingDirectory
    request.context.operationId
  check (cancelledCheck (token 2))
  let outputSchemaPath ← schemaPath wrapper turn.outputSchema
  execute (wrapper.executeJson codex
    (command turn service.ambientContext outputSchemaPath skillConfig)) (fun report =>
    settleReport wrapper.parseLine report turn.session elapsed turn.ephemeral
      turn.outputSchema.isSome)

open Traced in
/-- One call; `token` is the cancellation token as it reads at each of its checks, and `elapsed` the
time its command takes. -/
def call (request : TurnRequest CodexOptions) : Launched TurnOutcome := do
  check (if request.context.preassignedSession.isSome then .error (.unsupported
    "Codex does not support host-preassigned fresh session IDs") else .ok ())
  let turn ← check (prepare host service.authorityPolicy (token 0) request.body)
  check (cancelledCheck (token 1))
  let skillConfig ← check (renderSkillConfig host service.skillPolicy)
  service.launch host wrapper token elapsed request turn skillConfig

end CodexService

section Executed
variable {service : CodexService} {host : Host} {wrapper : Wrapper} {token : ℕ → Bool}
  {elapsed : Duration} {request : TurnRequest CodexOptions} {report : Report}

/-- Writing the schema file runs no command. -/
lemma schemaPath_executed {schema : Option String} :
    .executed report ∉ (schemaPath wrapper schema).steps := by
  intro h
  cases schema with
  | none => cases h
  | some schema =>
    rcases Traced.mem_bind_steps.mp h with h | ⟨path,-,h⟩
    · unfold schemaFile at h
      rw [Traced.step_bind] at h
      rcases List.mem_cons.mp h with h | h
      · cases h
      · split at h
        · cases h
        · split at h <;> cases h
    · cases h

/-- The failures of the schema file. -/
lemma schemaPath_error {schema : Option String} {e : AgentError}
    (h : (schemaPath wrapper schema).result = .error e) :
    e = launchError "Codex output schema temporary file could not be prepared" ∨
      e = launchError "Codex output schema temporary path is not valid UTF-8" := by
  cases schema with
  | none => cases h
  | some schema =>
    rcases Traced.bind_result_error.mp h with h | ⟨path,-,h⟩
    · unfold schemaFile at h
      rw [Traced.step_bind] at h
      dsimp only at h
      split at h
      · exact .inl (Except.error.inj h).symm
      · split at h
        · cases h
        · exact .inr (Except.error.inj h).symm
    · cases h

/-- What the checks of an accepted turn found. -/
lemma preflightTurn_parts {policy : AuthorityPolicy} {turn : CodexTurn}
    {validated : ValidatedCodexTurn} (h : preflightTurn host policy turn = .ok validated) :
    ∃ sessions schemas, turn.session.toList.mapM checkSession = .ok sessions ∧
      checkResumedDirectories sessions.head? turn.options.additionalDirectories = .ok () ∧
      turn.options.additionalDirectories.mapM directoryText = .ok validated.additionalDirectories ∧
      turn.options.outputSchema.toList.mapM (validateOutputSchema host) = .ok schemas ∧
      validated.session = sessions.head? ∧ validated.outputSchema = schemas.head? := by
  obtain ⟨_,-,h⟩ := bind_eq_ok.mp h
  obtain ⟨_,-,h⟩ := bind_eq_ok.mp h
  obtain ⟨_,-,h⟩ := bind_eq_ok.mp h
  obtain ⟨sessions,hsession,h⟩ := bind_eq_ok.mp h
  obtain ⟨_,hresumed,h⟩ := bind_eq_ok.mp h
  obtain ⟨directories,hdirectories,h⟩ := bind_eq_ok.mp h
  obtain ⟨schemas,hschema,h⟩ := bind_eq_ok.mp h
  obtain rfl := Except.ok.inj h
  exact ⟨sessions,schemas,hsession,hresumed,hdirectories,hschema,rfl,rfl⟩

/-- What preparing keeps of an accepted turn. -/
lemma prepare_parts {policy : AuthorityPolicy} {cancelled : Bool} {turn : CodexTurn}
    {prepared : PreparedTurn} (h : prepare host policy cancelled turn = .ok prepared) :
    ∃ validated, preflightTurn host policy turn = .ok validated ∧
      prepared.session = validated.session ∧ prepared.outputSchema = validated.outputSchema ∧
      prepared.ephemeral = turn.options.ephemeral := by
  unfold prepare at h
  split at h
  · cases h
  · obtain ⟨validated,hv,h⟩ := bind_eq_ok.mp h
    obtain rfl := Except.ok.inj h
    exact ⟨validated,hv,rfl,rfl,rfl⟩

/-- Whether a prepared turn asks for a schema-constrained output. -/
lemma prepare_outputSchema {policy : AuthorityPolicy} {cancelled : Bool} {turn : CodexTurn}
    {prepared : PreparedTurn} (h : prepare host policy cancelled turn = .ok prepared) :
    prepared.outputSchema.isSome = turn.options.outputSchema.isSome := by
  obtain ⟨validated,hv,-,hprepared,-⟩ := prepare_parts h
  obtain ⟨sessions,schemas,-,-,-,hschema,-,hvalidated⟩ := preflightTurn_parts hv
  rw [hprepared,hvalidated]
  rcases mapM_toList_eq_ok hschema with ⟨hnone,rfl⟩ | ⟨schema,encoded,hsome,-,rfl⟩
  · rw [hnone]
    rfl
  · rw [hsome]
    rfl

/-- A call that the wrapper reported on settles as its report says. -/
theorem call_executed
    (h : .executed report ∈ (service.call host wrapper token elapsed request).steps) :
    ∃ codex command turn, report = wrapper.executeJson codex command ∧
      prepare host service.authorityPolicy (token 0) request.body = .ok turn ∧
      (service.call host wrapper token elapsed request).result = settleReport wrapper.parseLine
        report turn.session elapsed turn.ephemeral turn.outputSchema.isSome := by
  have hends : (service.call host wrapper token elapsed request).EndsBy fun step result =>
      ∀ report, step = .executed report → ∃ codex command turn,
        report = wrapper.executeJson codex command ∧
        prepare host service.authorityPolicy (token 0) request.body = .ok turn ∧
        result = settleReport wrapper.parseLine report turn.session elapsed turn.ephemeral
          turn.outputSchema.isSome := by
    refine .check_bind fun _ _ => .check_bind fun turn hturn => ?_
    refine .check_bind fun _ _ => .check_bind fun skillConfig _ => ?_
    refine .bind ?_ fun codex _ => .check_bind fun _ _ => .bind ?_ fun path _ => ?_
    · rintro _ hs _ report rfl
      exact absurd hs buildClient_executed
    · rintro _ hs _ report rfl
      exact absurd hs schemaPath_executed
    · rintro _ hs report rfl
      obtain ⟨hreport,hresult⟩ := execute_executed hs
      exact ⟨codex,_,turn,hreport,hturn,hresult⟩
  exact hends _ h report rfl

/-- A call that succeeds was reported on. -/
theorem call_ok {outcome : TurnOutcome}
    (h : (service.call host wrapper token elapsed request).result = .ok outcome) :
    ∃ report, .executed report ∈ (service.call host wrapper token elapsed request).steps := by
  have hstops : (service.call host wrapper token elapsed request).StopsBefore
      (fun step => ∃ report, step = .executed report) fun _ => True :=
    .bind .trivial fun _ _ => .bind .trivial fun turn _ => .bind .trivial fun _ _ =>
      .bind .trivial fun skillConfig _ => .bind .trivial fun codex _ => .bind .trivial fun _ _ =>
      .bind .trivial fun path _ => execute_stops
  rcases hstops with ⟨e,he,-⟩ | ⟨_,hs,report,rfl⟩
  · rw [h] at he
    cases he
  · exact ⟨report,hs⟩

end Executed
end TowerAgent.Codex
