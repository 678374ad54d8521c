import TowerAgent.Adapter.Launch
import TowerAgent.Mcp.Continuation

/-! What leaves the process: the structured content of a terminal result, and the progress that is
reported while a turn runs. -/
namespace TowerAgent.Mcp
open Lib Kernel Adapter

/-- Whether provider-authored text may be published. -/
inductive ProviderMessages where
  | redacted
  | verbatim
  deriving DecidableEq, Repr

/-- Turns terminal results into structured content. -/
structure Projection where
  providerMessages : ProviderMessages := .redacted

/-- A double in JSON; `decimal` is the text of a finite one, and the others have none. -/
def doubleJson (decimal : F64 → String) (x : F64) : Json :=
  if x.isFinite then .number (decimal x) else .null

def u64Json (n : UInt64) : Json := .nat n.toNat

/-- Names a session without revealing it. -/
def sessionJson (session : Option SessionHandle) (continuation : Option ContinuationId) : Json :=
  match session with
  | none => .null
  | some session => .object [
      ("provider",.string session.provider),
      ("present",.bool true),
      ("continuation",.ofOption (fun id => .string id.asStr) continuation)]

/-- Absent buckets stay null. -/
def usageJson : Option TokenUsage → Json
  | none => .null
  | some usage => .object [
      ("input",.ofOption u64Json usage.input),
      ("cachedInput",.ofOption u64Json usage.cachedInput),
      ("cacheWriteInput",.ofOption u64Json usage.cacheWriteInput),
      ("output",.ofOption u64Json usage.output),
      ("reasoningOutput",.ofOption u64Json usage.reasoningOutput),
      ("total",.ofOption u64Json usage.total)]

def costJson (decimal : F64 → String) : Option Cost → Json
  | none => .null
  | some cost => .object [
      ("amount",doubleJson decimal ⟨cost.amount⟩),
      ("currency",.string cost.currency)]

/-- Whole milliseconds, at most what a 64-bit number holds. -/
def durationMillis (duration : Duration) : ℕ := min (duration / 1000000) (2^64-1)

def evidenceJson (decimal : F64 → String) (evidence : Option FailureEvidence)
    (continuation : Option ContinuationId) : Json :=
  .object [
    ("session",sessionJson (evidence.bind FailureEvidence.session) continuation),
    ("usage",usageJson (evidence.bind FailureEvidence.usage)),
    ("cost",costJson decimal (evidence.bind FailureEvidence.cost)),
    ("durationMs",.ofOption (fun d => .nat (durationMillis d))
      (evidence.bind FailureEvidence.duration)),
    ("providerTurns",.ofOption (fun n => .nat n.toNat)
      (evidence.bind FailureEvidence.providerTurns))]

namespace Projection
variable (p : Projection) (decimal : F64 → String)

/-- The failure text that a kind and a provider's message give. -/
def text (kind : ErrorKind) (message : String) : String :=
  match p.providerMessages with
  | .redacted => "agent operation failed (" ++ kind.display ++ ")"
  | .verbatim => message

/-- The failure text this projection is willing to publish. -/
def message (error : AgentError) : String := p.text error.kind error.message

def outcome (_ : Projection) (outcome : TurnOutcome) (operationId : UInt64)
    (continuation : Option ContinuationId) : Json :=
  .object [
    ("operationId",u64Json operationId),
    ("output",.string outcome.output),
    ("structured",.ofOption id outcome.structured),
    ("session",sessionJson outcome.session continuation),
    ("usage",usageJson outcome.usage),
    ("cost",costJson decimal outcome.cost),
    ("durationMs",.ofOption (fun d => .nat (durationMillis d)) outcome.duration),
    ("providerTurns",.ofOption (fun n => .nat n.toNat) outcome.providerTurns)]

mutual

def failureBody (error : AgentError) (continuation : Option ContinuationId) : Json :=
  match error with
  | ⟨kind,message,phase,effects,evidence,_,cause⟩ => .object [
      ("kind",.string kind.display),
      ("phase",.string phase.display),
      ("effects",.string effects.display),
      ("message",.string (p.text kind message)),
      ("replaySafe",.bool (effects = .none)),
      ("evidence",evidenceJson decimal evidence continuation),
      ("cause",causeJson cause)]

/-- Causes are projected under the same policy; their sessions have no continuation. -/
def causeJson : Option AgentError → Json
  | none => .null
  | some cause => failureBody cause none

end

def failure (error : AgentError) (operationId : UInt64) (continuation : Option ContinuationId) :
    Json :=
  (p.failureBody decimal error continuation).insert "operationId" (u64Json operationId)

/-- A projected failure publishes the error's effect state. -/
theorem failure_effects (error : AgentError) (operationId : UInt64)
    (continuation : Option ContinuationId) :
    (p.failure decimal error operationId continuation).get "effects" =
      some (.string error.effects.display) := by
  obtain ⟨kind,message,phase,effects,evidence,retryAfter,cause⟩ := error
  rw [failure,Json.get_insert_of_ne (by decide)]
  unfold failureBody
  rfl

end Projection

/-- Why an event was not delivered. -/
inductive EventSendError where
  | full
  | closed
  deriving DecidableEq, Repr

/-- One progress notification: a count of what was observed, and its message. -/
structure ProgressReport where
  progress : UInt64
  message : String
  deriving DecidableEq, Repr

/-- What happened, never what it said; the source's default arm is for events of later kernels. -/
def structural : AgentEvent → String
  | .started => "started"
  | .outputDelta _ => "output"
  | .thinkingDelta _ => "thinking"
  | .toolStarted _ => "tool started"
  | .turnStarted number => "turn " ++ toString number.toNat
  | .status _ => "status"
  | .usage usage =>
    match usage.total with
    | some total => "usage " ++ toString total.toNat
    | none => "usage"
  | .warning _ => "warning"

def verbatim : AgentEvent → String
  | .outputDelta text => text
  | .thinkingDelta text => text
  | .toolStarted name => "tool " ++ name
  | .status message => message
  | .warning message => "warning: " ++ message
  | other => structural other

/-- Reports events as progress of the request; `progressToken` says whether its client asked. -/
structure ProgressEvents where
  progressToken : Bool
  providerMessages : ProviderMessages := .redacted
  emitted : UInt64 := 0

namespace ProgressEvents
variable (sink : ProgressEvents)

def message (event : AgentEvent) : String :=
  match sink.providerMessages with
  | .redacted => structural event
  | .verbatim => verbatim event

/-- Offer one event: what the caller learns, the sink afterwards, and what was reported. -/
def tryEmit (event : AgentEvent) :
    Except EventSendError Unit × ProgressEvents × Option ProgressReport :=
  if sink.progressToken then
    (.ok (),{ sink with emitted := sink.emitted + 1 },
      some ⟨sink.emitted + 1,sink.message event⟩)
  else (.error .closed,sink,none)

/-- What is reported while a sequence of events is offered. -/
def reports : ProgressEvents → List AgentEvent → List ProgressReport
  | _,[] => []
  | sink,event::events =>
    let (_,sink',report) := sink.tryEmit event
    report.toList ++ reports sink' events

end ProgressEvents
end TowerAgent.Mcp
