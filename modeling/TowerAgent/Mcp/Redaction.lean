import TowerAgent.Mcp.Projection
import Mathlib.Logic.Function.Basic

/-! Noninterference at the protocol boundary: with provider text redacted, what is published is a
function of what remains once that text and the session values are blanked out. -/
namespace TowerAgent.Kernel

/-- A handle of the same provider, without its value. -/
def SessionHandle.masked (s : SessionHandle) : SessionHandle := { s with value := "" }

def FailureEvidence.masked (e : FailureEvidence) : FailureEvidence :=
  { e with session := e.session.map SessionHandle.masked }

def TurnOutcome.masked (o : TurnOutcome) : TurnOutcome :=
  { o with session := o.session.map SessionHandle.masked }

namespace AgentError

mutual

/-- An error without its message texts and session values, at any depth of its causes. -/
def masked : AgentError → AgentError
  | ⟨kind,_,phase,effects,evidence,retryAfter,cause⟩ =>
    ⟨kind,"",phase,effects,evidence.map FailureEvidence.masked,retryAfter,maskedCause cause⟩

def maskedCause : Option AgentError → Option AgentError
  | none => none
  | some cause => some cause.masked

end

end AgentError
end TowerAgent.Kernel

namespace TowerAgent.Adapter

/-- An event without its text, name or message. -/
def AgentEvent.masked : AgentEvent → AgentEvent
  | .outputDelta _ => .outputDelta ""
  | .thinkingDelta _ => .thinkingDelta ""
  | .toolStarted _ => .toolStarted ""
  | .status _ => .status ""
  | .warning _ => .warning ""
  | event => event

end TowerAgent.Adapter

namespace TowerAgent.Mcp
open Lib Kernel Adapter Function

/-- What is unchanged by masking is a function of the masked input. -/
theorem factorsThrough_of_masked {α β : Type} {f : α → β} {masked : α → α}
    (h : ∀ a, f a = f (masked a)) : FactorsThrough f masked := by
  intro a b hab
  rw [h a,hab,←h b]

section Masked
variable {p : Projection} (decimal : F64 → String)

/-- A session is named by its provider and its continuation alone. -/
lemma sessionJson_masked (session : Option SessionHandle) (continuation : Option ContinuationId) :
    sessionJson session continuation =
      sessionJson (session.map SessionHandle.masked) continuation := by
  cases session <;> rfl

lemma evidenceJson_masked (evidence : Option FailureEvidence)
    (continuation : Option ContinuationId) : evidenceJson decimal evidence continuation =
      evidenceJson decimal (evidence.map FailureEvidence.masked) continuation := by
  cases evidence with
  | none => rfl
  | some e =>
    have hs := sessionJson_masked e.session continuation
    simp only [evidenceJson, Option.bind_some, Option.map_some, FailureEvidence.masked, hs]

lemma text_redacted (hp : p.providerMessages = .redacted) (kind : ErrorKind)
    (message message' : String) : p.text kind message = p.text kind message' := by
  simp only [Projection.text, hp]

lemma message_masked (hp : p.providerMessages = .redacted) (e : AgentError) :
    p.message e = p.message e.masked := by
  cases e
  exact text_redacted hp _ _ _

mutual

/-- A projected failure shows nothing that masking removes; by recursion along the causes. -/
theorem failureBody_masked (hp : p.providerMessages = .redacted) :
    ∀ (e : AgentError) (continuation : Option ContinuationId),
      p.failureBody decimal e continuation = p.failureBody decimal e.masked continuation
  | ⟨kind,message,phase,effects,evidence,retryAfter,cause⟩,continuation => by
    have ht := text_redacted hp kind message ""
    have he := evidenceJson_masked decimal evidence continuation
    have hc := causeJson_masked hp cause
    simp only [AgentError.masked, Projection.failureBody, ht, he, hc]

theorem causeJson_masked (hp : p.providerMessages = .redacted) : ∀ cause : Option AgentError,
    p.causeJson decimal cause = p.causeJson decimal (AgentError.maskedCause cause)
  | none => rfl
  | some cause => failureBody_masked hp cause none

end

lemma failure_masked (hp : p.providerMessages = .redacted) (e : AgentError)
    (operationId : UInt64) (continuation : Option ContinuationId) :
    p.failure decimal e operationId continuation =
      p.failure decimal e.masked operationId continuation := by
  unfold Projection.failure
  rw [failureBody_masked decimal hp]

/-- A settled turn's projection does not depend on the policy: its session is never shown. -/
lemma outcome_masked (o : TurnOutcome) (operationId : UInt64)
    (continuation : Option ContinuationId) : p.outcome decimal o operationId continuation =
      p.outcome decimal o.masked operationId continuation := by
  simp only [Projection.outcome, TurnOutcome.masked, sessionJson_masked o.session]

end Masked

section Progress
variable {sink : ProgressEvents}

lemma structural_masked (event : AgentEvent) : structural event = structural event.masked := by
  cases event <;> rfl

/-- Offering an event and offering it masked leave the same sink and report the same. -/
lemma tryEmit_masked (h : sink.providerMessages = .redacted) (event : AgentEvent) :
    sink.tryEmit event = sink.tryEmit event.masked := by
  have hm : sink.message event = sink.message event.masked := by
    simp only [ProgressEvents.message, h]
    exact structural_masked event
  simp only [ProgressEvents.tryEmit, hm]

lemma tryEmit_providerMessages (event : AgentEvent) :
    (sink.tryEmit event).2.1.providerMessages = sink.providerMessages := by
  unfold ProgressEvents.tryEmit
  split <;> rfl

theorem reports_masked (h : sink.providerMessages = .redacted) (events : List AgentEvent) :
    sink.reports events = sink.reports (events.map AgentEvent.masked) := by
  induction events generalizing sink with
  | nil => rfl
  | cons event events ih =>
    have he := tryEmit_masked h event
    have hs := ih ((tryEmit_providerMessages event).trans h)
    rw [he] at hs
    simp only [List.map_cons, ProgressEvents.reports, he, hs]

end Progress

/-- With provider text redacted, failures that agree but for message texts and session values, at
any depth of the cause chain, are published alike; so are outcomes that agree but for the session
value, and so is the progress of event sequences that agree but for their texts and names. -/
theorem redacted_noninterference (p : Projection) (hp : p.providerMessages = .redacted)
    (decimal : F64 → String) :
    (∀ e e' : AgentError, e.masked = e'.masked → p.message e = p.message e' ∧
      ∀ operationId continuation, p.failure decimal e operationId continuation =
        p.failure decimal e' operationId continuation) ∧
    (∀ o o' : TurnOutcome, o.masked = o'.masked → ∀ operationId continuation,
      p.outcome decimal o operationId continuation =
        p.outcome decimal o' operationId continuation) ∧
    ∀ sink : ProgressEvents, sink.providerMessages = p.providerMessages →
      ∀ events events' : List AgentEvent,
        events.map AgentEvent.masked = events'.map AgentEvent.masked →
        sink.reports events = sink.reports events' := by
  refine ⟨fun e e' h => ⟨?_,fun operationId continuation => ?_⟩,
    fun o o' h operationId continuation => ?_,fun sink hs events events' h => ?_⟩
  · exact factorsThrough_of_masked (message_masked hp) h
  · exact factorsThrough_of_masked (fun e => failure_masked decimal hp e operationId continuation) h
  · exact factorsThrough_of_masked (fun o => outcome_masked decimal o operationId continuation) h
  · exact factorsThrough_of_masked (reports_masked (hs.trans hp)) h

/-- A deadline failure over a provider's, whose text and session value are the argument. -/
def sampleFailure (secret : String) : AgentError :=
  (AgentError.deadlineExceeded .possible).withCause
    ((AgentError.new .provider ("partial edit for " ++ secret) .settlement .reported).withEvidence
      { session := some ⟨"claude",secret⟩, providerTurns := some 2 })

theorem redacted_noninterference_sample :
    ({} : Projection).failure (fun _ => "0.25") (sampleFailure "a") 42 none =
        ({} : Projection).failure (fun _ => "0.25") (sampleFailure "b") 42 none ∧
      ({ progressToken := true } : ProgressEvents).reports [.started,.warning "a"] =
        ({ progressToken := true } : ProgressEvents).reports [.started,.warning "b"] :=
  have h := redacted_noninterference {} rfl (fun _ => "0.25")
  ⟨(h.1 (sampleFailure "a") (sampleFailure "b") rfl).2 42 none,h.2.2 _ rfl _ _ rfl⟩

end TowerAgent.Mcp
