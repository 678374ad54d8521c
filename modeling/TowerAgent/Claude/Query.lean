import TowerAgent.Adapter.Launch

/-! The Claude adapter before a launch: its options, the checks of a turn and the query command that
is built from it. -/
namespace TowerAgent.Claude
open Lib Kernel Adapter

def names : ProviderNames where
  provider := "claude"
  display := "Claude"
  homeVariable := "CLAUDE_CONFIG_DIR"
  homeError := "configured Claude directory is not valid UTF-8"

/-- Maximum serialized size accepted for a JSON schema. -/
def maxJsonSchemaBytes : ℕ := 1024*1024

inductive ClaudeEffort where
  | low | medium | high
  deriving DecidableEq, Repr

inductive ClaudePermissionMode where
  | default | acceptEdits | dontAsk | plan | auto
  deriving DecidableEq, Repr

/-- Setting-source scope of a hermetic context. -/
inductive ClaudeHermetic where
  | full | project
  deriving DecidableEq, Repr

/-- Mutually exclusive ambient-context modes. -/
inductive ClaudeAmbientContext where
  | inherit
  | hermetic (scope : ClaudeHermetic)
  | safe
  | bare
  deriving DecidableEq, Repr

/-- Provider-specific controls for one turn. -/
structure ClaudeOptions where
  systemPrompt : Option String := none
  appendSystemPrompt : Option String := none
  model : Option String := none
  fallbackModel : Option String := none
  effort : Option ClaudeEffort := none
  allowedTools : List String := []
  disallowedTools : List String := []
  additionalDirectories : List PathBuf := []
  maxTurns : Option UInt32 := none
  maxBudgetUsd : Option F64 := none
  permissionMode : Option ClaudePermissionMode := none
  jsonSchema : Option Json := none
  strictMcpConfig : Bool := false
  ambientContext : ClaudeAmbientContext := .inherit

/-- A finite-turn service backed by the Claude Code CLI. -/
structure ClaudeService where
  settings : ChildSettings := {}
  ambientContext : ClaudeAmbientContext := .inherit

/-- What the adapter asks of the wrapper's query command after its prompt, in order. -/
inductive QueryOption where
  | systemPrompt (prompt : String)
  | appendSystemPrompt (prompt : String)
  | model (model : String)
  | fallbackModel (model : String)
  | effort (effort : ClaudeEffort)
  | maxBudgetUsd (budget : F64)
  | permissionMode (mode : ClaudePermissionMode)
  | jsonSchema (schema : String)
  | resume (session : String)
  | sessionId (session : String)
  | maxTurns (turns : UInt32)
  | allowedTools (tools : List String)
  | disallowedTools (tools : List String)
  | addDir (directory : String)
  | strictMcpConfig
  | hermeticScoped (scope : ClaudeHermetic)
  | safeMode
  | bare
  | promptViaStdin (enabled : Bool)
  deriving DecidableEq, Repr

structure QueryCommand where
  prompt : String
  options : List QueryOption
  deriving DecidableEq, Repr

abbrev ClaudeTurn := Turn ClaudeOptions

/-- The checks on a handle to resume. -/
def checkSession (session : SessionHandle) : Except AgentError Unit :=
  if session.provider ≠ names.provider then
    .error (.unsupported ("cannot resume " ++ session.provider ++ " session with Claude service"))
  else do
    refuse (Text.isBlank session.value) "Claude session handle must not be empty"
    refuse (session.value.startsWith "-") "Claude session handle must not begin with a hyphen"

/-- The prompt and session checks. -/
def preflightSession (turn : ClaudeTurn) : Except AgentError Unit := do
  refuse (Text.isBlank turn.prompt) "prompt must not be empty"
  forM turn.session.toList checkSession

/-- Validate a JSON schema and return its encoding. -/
def validateJsonSchema (host : Host) (schema : Json) : Except AgentError String :=
  if !schema.isObject then .error (.invalidRequest "Claude JSON schema must be an object")
  else
    match host.serialize schema with
    | none =>
      .error (.new .internal "Claude JSON schema could not be serialized" .validation .none)
    | some encoded => do
      refuse (maxJsonSchemaBytes < encoded.utf8ByteSize)
        ("Claude JSON schema exceeds the " ++ toString maxJsonSchemaBytes ++ "-byte limit")
      refuse (!host.draft7 schema) "Claude JSON schema is not valid JSON Schema draft-07"
      return encoded

/-- The host's baseline combined with the mode a turn asks for. -/
def effectiveAmbientContext (host requested : ClaudeAmbientContext) :
    Except AgentError ClaudeAmbientContext :=
  match host,requested with
  | .inherit,requested => .ok requested
  | host,.inherit => .ok host
  | host,requested =>
    if host = requested then .ok host
    else
      match host,requested with
      | .hermetic .project,.hermetic .full | .hermetic .full,.hermetic .project =>
        .ok (.hermetic .full)
      | _,_ => .error (.invalidRequest
          "requested Claude ambient-context mode conflicts with the host baseline")

/-- A budget that is not a positive amount. -/
def badBudget (budget : F64) : Bool := !budget.isFinite || budget.lezero

/-- The checks on the options; the encoding of the schema. -/
def checkOptions (host : Host) (options : ClaudeOptions) : Except AgentError (Option String) := do
  refuse (options.model.any Text.isBlank) "Claude model must not be empty"
  refuse (options.maxTurns == some 0) "Claude maximum turns must be greater than zero"
  refuse ((options.allowedTools ++ options.disallowedTools).any Text.isBlank)
    "Claude tool patterns must not be empty"
  refuse (options.maxBudgetUsd.any badBudget) "Claude budget must be a positive amount"
  refuse (options.fallbackModel.any Text.isBlank) "Claude fallback model must not be empty"
  let encoded ← options.jsonSchema.toList.mapM (validateJsonSchema host)
  return encoded.head?

/-- The encoding of one additional directory. -/
def directoryOption (directory : PathBuf) : Except AgentError QueryOption :=
  match directory.toStr with
  | some directory => .ok (.addDir directory)
  | none => .error (.invalidRequest "additional Claude directories must be valid UTF-8")

def ambientOptions : ClaudeAmbientContext → List QueryOption
  | .inherit => []
  | .hermetic scope => [.hermeticScoped scope]
  | .safe => [.safeMode]
  | .bare => [.bare]

/-- The session a command continues or starts under. -/
def sessionOptions (resume preassigned : Option SessionHandle) : List QueryOption :=
  match resume,preassigned with
  | some session,_ => [.resume session.value]
  | none,some session => [.sessionId session.value]
  | none,none => []

/-- The query command of a turn. -/
def buildQuery (host : Host) (turn : ClaudeTurn) (ambientContext : ClaudeAmbientContext)
    (preassignedSession : Option SessionHandle) : Except AgentError QueryCommand := do
  let options := turn.options
  let jsonSchema ← checkOptions host options
  let directories ← options.additionalDirectories.mapM directoryOption
  return ⟨turn.prompt,
    options.systemPrompt.toList.map .systemPrompt ++
    options.appendSystemPrompt.toList.map .appendSystemPrompt ++
    options.model.toList.map .model ++
    options.fallbackModel.toList.map .fallbackModel ++
    options.effort.toList.map .effort ++
    options.maxBudgetUsd.toList.map .maxBudgetUsd ++
    options.permissionMode.toList.map .permissionMode ++
    jsonSchema.toList.map .jsonSchema ++
    sessionOptions turn.session preassignedSession ++
    options.maxTurns.toList.map .maxTurns ++
    (if options.allowedTools.isEmpty then [] else [.allowedTools options.allowedTools]) ++
    (if options.disallowedTools.isEmpty then [] else [.disallowedTools options.disallowedTools]) ++
    directories ++
    (if options.strictMcpConfig then [.strictMcpConfig] else []) ++
    ambientOptions ambientContext ++
    [.promptViaStdin true]⟩

/-- Every refusal of a turn that needs no launch. -/
def ClaudeService.preflight (service : ClaudeService) (host : Host) (turn : ClaudeTurn) :
    Except AgentError Unit := do
  preflightSession turn
  let ambientContext ← effectiveAmbientContext service.ambientContext turn.options.ambientContext
  let _ ← buildQuery host turn ambientContext none
  return

/-- The host-preassigned handle of a request, if it has an acceptable one. -/
def validatePreassignedSession (host : Host) (request : TurnRequest ClaudeOptions) :
    Except AgentError (Option SessionHandle) :=
  match request.context.preassignedSession with
  | none => .ok none
  | some session => do
    refuse request.body.session.isSome
      "a preassigned Claude session cannot be combined with resume"
    if session.provider ≠ names.provider then
      .error (.unsupported "the preassigned session is not a Claude session")
    else
      match host.uuid session.value with
      | none =>
        .error (.invalidRequest "a preassigned Claude session must be a canonical UUID")
      | some canonical => do
        refuse (session.value != canonical)
          "a preassigned Claude session must be a canonical lowercase UUID"
        return some ⟨names.provider,canonical⟩

section Refusals
variable {service : ClaudeService} {host : Host} {turn : ClaudeTurn}

lemma checkSession_refused (session : SessionHandle) : Fails Refused (checkSession session) := by
  unfold checkSession
  split
  · exact Fails.error ⟨_,_,rfl⟩
  · exact refuse_refused.bind fun _ => refuse_refused

lemma preflightSession_refused : Fails Refused (preflightSession turn) :=
  refuse_refused.bind fun _ => Fails.forM_list fun session _ => checkSession_refused session

lemma effectiveAmbientContext_refused {baseline requested : ClaudeAmbientContext} :
    Fails Refused (effectiveAmbientContext baseline requested) := by
  unfold effectiveAmbientContext
  repeat' split
  all_goals first | exact Fails.ok _ | exact Fails.error ⟨_,_,rfl⟩

lemma validateJsonSchema_refused (schema : Json) :
    Fails Refused (validateJsonSchema host schema) := by
  unfold validateJsonSchema
  split
  · exact Fails.error ⟨_,_,rfl⟩
  · split
    · exact Fails.error ⟨_,_,rfl⟩
    · exact refuse_refused.bind fun _ => refuse_refused.bind fun _ => Fails.ok _

lemma directoryOption_refused (directory : PathBuf) :
    Fails Refused (directoryOption directory) := by
  unfold directoryOption
  split
  · exact Fails.ok _
  · exact Fails.error ⟨_,_,rfl⟩

lemma buildQuery_refused {ambient : ClaudeAmbientContext} {preassigned : Option SessionHandle} :
    Fails Refused (buildQuery host turn ambient preassigned) := by
  refine Fails.bind ?_ fun _ => (Fails.mapM_list fun directory _ =>
    directoryOption_refused directory).bind fun _ => Fails.ok _
  exact refuse_refused.bind fun _ => refuse_refused.bind fun _ => refuse_refused.bind fun _ =>
    refuse_refused.bind fun _ => refuse_refused.bind fun _ => (Fails.mapM_list fun schema _ =>
      validateJsonSchema_refused schema).bind fun _ => Fails.ok _

/-- Every refusal of a preflight is one of the validation phase. -/
theorem preflight_refused : Fails Refused (service.preflight host turn) :=
  preflightSession_refused.bind fun _ => effectiveAmbientContext_refused.bind fun _ =>
    buildQuery_refused.bind fun _ => Fails.ok _

end Refusals
end TowerAgent.Claude
