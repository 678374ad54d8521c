import Mathlib.Order.MinMax
import Mathlib.Data.Option.Basic
import TowerAgent.Lib.Json
import TowerAgent.Lib.Overlay

/-! The failures of a call: classification, effect state, terminal evidence, and how an outer
failure folds in an inner one. -/
namespace TowerAgent.Kernel
open Lib Lib.Bindings

/-- What kind of failure occurred. -/
inductive ErrorKind where
  | invalidRequest | authentication | unauthorized | unsupported | busy | unavailable
  | deadlineExceeded | cancelled | budget | limit | provider | internal
  deriving DecidableEq, Repr

def ErrorKind.display : ErrorKind → String
  | .invalidRequest => "invalid_request"
  | .authentication => "authentication"
  | .unauthorized => "unauthorized"
  | .unsupported => "unsupported"
  | .busy => "busy"
  | .unavailable => "unavailable"
  | .deadlineExceeded => "deadline_exceeded"
  | .cancelled => "cancelled"
  | .budget => "budget"
  | .limit => "limit"
  | .provider => "provider"
  | .internal => "internal"

/-- How far a call got before it failed. -/
inductive FailurePhase where
  | admission | validation | launch | running | settlement
  deriving DecidableEq, Repr

def FailurePhase.display : FailurePhase → String
  | .admission => "admission"
  | .validation => "validation"
  | .launch => "launch"
  | .running => "running"
  | .settlement => "settlement"

/-- What is known about the external effects of a failed call, the least severe first. -/
inductive EffectState where
  | none | possible | reported
  deriving DecidableEq, Repr

namespace EffectState

def display : EffectState → String
  | .none => "none"
  | .possible => "possible"
  | .reported => "reported"

def severity : EffectState → ℕ
  | .none => 0
  | .possible => 1
  | .reported => 2

instance : LinearOrder EffectState :=
  LinearOrder.lift' severity (by intro a b; cases a <;> cases b <;> simp [severity])

/-- The more severe of two effect states. -/
def combine : EffectState → EffectState → EffectState
  | .reported, _ | _, .reported => .reported
  | .possible, _ | _, .possible => .possible
  | .none, .none => .none

theorem combine_eq_max (a b : EffectState) : a.combine b = max a b := by
  cases a <;> cases b <;> rfl

theorem none_le (a : EffectState) : none ≤ a := by cases a <;> decide

theorem le_reported (a : EffectState) : a ≤ .reported := by cases a <;> decide

theorem possible_le_iff {a : EffectState} : possible ≤ a ↔ a ≠ .none := by cases a <;> decide

theorem eq_reported_of_le {a : EffectState} (h : reported ≤ a) : a = .reported :=
  le_antisymm a.le_reported h

end EffectState

/-- A span of time, in nanoseconds. -/
abbrev Duration := ℕ

/-- A provider-tagged handle of a conversation. -/
structure SessionHandle where
  provider : String
  value : String
  deriving DecidableEq, Repr

structure TokenUsage where
  input : Option UInt64 := none
  cachedInput : Option UInt64 := none
  cacheWriteInput : Option UInt64 := none
  output : Option UInt64 := none
  reasoningOutput : Option UInt64 := none
  providerTotal : Option UInt64 := none
  deriving DecidableEq, Repr

namespace TokenUsage
variable (u : TokenUsage)

def buckets : List (Option UInt64) :=
  [u.input,u.cachedInput,u.cacheWriteInput,u.output,u.reasoningOutput]

/-- The reported total, or else the sum of what was reported. -/
def total : Option UInt64 :=
  u.providerTotal.or (if u.buckets.any Option.isSome then
    some (u.buckets.reduceOption.foldl (· + ·) 0) else none)

end TokenUsage

/-- A monetary amount; the double is held by its bits, since the kernel only copies it. -/
structure Cost where
  amount : UInt64
  currency : String
  deriving DecidableEq, Repr

def Cost.usd (amount : F64) : Cost := ⟨amount.bits,"USD"⟩

/-- Terminal facts retained when a call fails. -/
structure FailureEvidence where
  session : Option SessionHandle := none
  usage : Option TokenUsage := none
  cost : Option Cost := none
  duration : Option Duration := none
  providerTurns : Option UInt32 := none
  deriving DecidableEq, Repr

/-- The fields of terminal evidence. -/
inductive EvidenceField where
  | session | usage | cost | duration | providerTurns
  deriving DecidableEq, Repr

@[reducible] def EvidenceField.Val : EvidenceField → Type
  | .session => SessionHandle
  | .usage => TokenUsage
  | .cost => Cost
  | .duration => Duration
  | .providerTurns => UInt32

namespace FailureEvidence

/-- What the evidence establishes, field by field. -/
def binding (e : FailureEvidence) : Bindings EvidenceField.Val
  | .session => e.session
  | .usage => e.usage
  | .cost => e.cost
  | .duration => e.duration
  | .providerTurns => e.providerTurns

/-- Fill only the fields this evidence still lacks. -/
def mergeMissing (self other : FailureEvidence) : FailureEvidence where
  session := if self.session.isNone then other.session else self.session
  usage := if self.usage.isNone then other.usage else self.usage
  cost := if self.cost.isNone then other.cost else self.cost
  duration := if self.duration.isNone then other.duration else self.duration
  providerTurns := if self.providerTurns.isNone then other.providerTurns else self.providerTurns

theorem ite_isNone {α : Type} (a b : Option α) : (if a.isNone then b else a) = a.or b := by
  cases a <;> rfl

/-- Merging lays the existing evidence over the added one. -/
theorem mergeMissing_binding (self other : FailureEvidence) :
    (self.mergeMissing other).binding = overlay other.binding self.binding := by
  funext field
  cases field <;> exact ite_isNone _ _

end FailureEvidence

/-- What optional evidence establishes. -/
def evidenceBinding (evidence : Option FailureEvidence) : Bindings EvidenceField.Val :=
  evidence.elim unbound FailureEvidence.binding

/-- A failure whose category and evidence survive middleware. -/
structure AgentError where
  kind : ErrorKind
  message : String
  phase : FailurePhase
  effects : EffectState
  evidence : Option FailureEvidence := none
  retryAfter : Option Duration := none
  cause : Option AgentError := none
  deriving Repr

/-- The longest retry delay an error carries. -/
def maxRetryAfter : Duration := 3600*1000000000

namespace AgentError

def new (kind : ErrorKind) (message : String) (phase : FailurePhase) (effects : EffectState) :
    AgentError where
  kind := kind
  message := message
  phase := phase
  effects := effects

def invalidRequest (message : String) : AgentError :=
  new .invalidRequest message .validation .none

def withRetryAfter (self : AgentError) (after : Duration) : AgentError :=
  { self with retryAfter := some (min after maxRetryAfter) }

def cancelledBeforeLaunch (provider : String) : AgentError :=
  new .cancelled (provider ++ " turn was cancelled before launch") .admission .none

def cancelledInFlight (provider : String) : AgentError :=
  new .cancelled (provider ++ " turn was cancelled") .running .possible

def launchFailed (provider : String) : AgentError :=
  new .provider (provider ++ " could not be initialized") .launch .none

def commandFailed (provider : String) (exitCode : Int) : AgentError :=
  new .provider (provider ++ " command failed with exit code " ++ toString exitCode)
    .running .possible

def busy : AgentError := new .busy "agent service is busy" .admission .none

def deadlineExceeded (effects : EffectState) : AgentError :=
  new .deadlineExceeded "agent operation exceeded its deadline" .running effects

def cancelled (effects : EffectState) : AgentError :=
  new .cancelled "agent operation was cancelled" .running effects

def unsupported (message : String) : AgentError := new .unsupported message .validation .none

/-- Fold an inner failure into this one. -/
def withCause (self cause : AgentError) : AgentError :=
  { self with
    effects := self.effects.combine cause.effects
    retryAfter := if self.retryAfter.isNone then cause.retryAfter else self.retryAfter
    evidence := match cause.evidence with
      | some causeEvidence => match self.evidence with
        | some evidence => some (evidence.mergeMissing causeEvidence)
        | none => some causeEvidence
      | none => self.evidence
    cause := some cause }

def withEvidence (self : AgentError) (evidence : FailureEvidence) : AgentError :=
  { self with evidence := some evidence }

/-- What an error's evidence establishes. -/
def binding (e : AgentError) : Bindings EvidenceField.Val := evidenceBinding e.evidence

@[simp] theorem withCause_effects (self cause : AgentError) :
    (self.withCause cause).effects = max self.effects cause.effects :=
  EffectState.combine_eq_max _ _

@[simp] theorem withCause_phase (self cause : AgentError) :
    (self.withCause cause).phase = self.phase := by rfl

theorem withCause_retryAfter (self cause : AgentError) :
    (self.withCause cause).retryAfter = self.retryAfter.or cause.retryAfter :=
  FailureEvidence.ite_isNone _ _

/-- Folding in a cause lays the outer evidence over the cause's. -/
theorem withCause_binding (self cause : AgentError) :
    (self.withCause cause).binding = overlay cause.binding self.binding := by
  unfold binding withCause evidenceBinding
  cases hc : cause.evidence with
  | none => simp
  | some c =>
    cases hs : self.evidence with
    | none => simp
    | some s => exact s.mergeMissing_binding c

end AgentError

/-- The typed terminal result of one finite turn. -/
structure TurnOutcome where
  output : String
  structured : Option Json := none
  session : Option SessionHandle := none
  usage : Option TokenUsage := none
  cost : Option Cost := none
  duration : Option Duration := none
  providerTurns : Option UInt32 := none
  deriving Repr

namespace TurnOutcome

def terminalEvidence (o : TurnOutcome) : FailureEvidence where
  session := o.session
  usage := o.usage
  cost := o.cost
  duration := o.duration
  providerTurns := o.providerTurns

/-- Payload bytes a caller would receive. -/
def outputBytes (o : TurnOutcome) : ℕ :=
  o.output.utf8ByteSize + (o.structured.map fun value => value.text.utf8ByteSize).getD 0

end TurnOutcome

/-- What a call of an agent service resolves to. -/
abbrev CallResult := Except AgentError TurnOutcome

/-- The terminal facts of a call, whether it succeeded or failed. -/
def settledEvidence : CallResult → FailureEvidence
  | .ok outcome => outcome.terminalEvidence
  | .error error => error.evidence.getD {}

end TowerAgent.Kernel
