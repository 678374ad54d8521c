import TowerAgent.Lib.Machine
import TowerAgent.Lib.Slot
import TowerAgent.Mcp.Projection

/-! The event channel that bounds retained bytes: calls of `try_emit` reserve before they send, the
receiver gives back what it has taken, and their atomic steps interleave in any order. -/
namespace TowerAgent.Events
open Lib Kernel Adapter Mcp

/-- Bytes of caller-visible payload an event carries. -/
def payloadBytes : AgentEvent → ℕ
  | .outputDelta text | .thinkingDelta text => text.utf8ByteSize
  | .toolStarted name => name.utf8ByteSize
  | .status message | .warning message => message.utf8ByteSize
  | _ => 0

/-- Ceilings for one event and for the unconsumed backlog. -/
structure EventLimits where
  maxEventBytes : ℕ := 256*1024
  maxQueuedBytes : ℕ := 4*1024*1024

/-- Where a call of `try_emit` stands: before one of its atomic steps, or returned. -/
inductive Stage where
  | loading
  | exchanging (current : ℕ)
  | sending
  | releasing (error : EventSendError)
  | returned (result : Except EventSendError Unit)

/-- One call of `try_emit`; `held` counts the bytes it added to the counter and has neither sent nor
released. -/
structure Emitter where
  event : AgentEvent
  stage : Stage
  held : ℕ := 0

namespace Emitter
variable (e : Emitter)

def bytes : ℕ := payloadBytes e.event

/-- The payload the call still keeps in memory: a failed send hands the event back. -/
def owned : ℕ :=
  match e.stage with
  | .returned _ => 0
  | _ => e.bytes

/-- The bytes the counter owes the call, by where it stands. -/
def reserved : ℕ :=
  match e.stage with
  | .sending | .releasing _ => e.bytes
  | _ => 0

/-- The event of a call that returned success. -/
def sent : Option AgentEvent :=
  match e.stage with
  | .returned (.ok ()) => some e.event
  | _ => none

end Emitter

/-- `try_emit` is entered: an event beyond the ceiling of one event is refused at once. -/
def enter (limits : EventLimits) (event : AgentEvent) : Emitter :=
  if limits.maxEventBytes < payloadBytes event then
    { event, stage := .returned (.error .full) }
  else { event, stage := .loading }

/-- An event in the channel, with the call that sent it. -/
structure Sent where
  emitter : ℕ
  event : AgentEvent

def Sent.bytes (x : Sent) : ℕ := payloadBytes x.event

/-- The counter, the channel and its receiver, and the calls so far; `accepted` and `delivered` keep
what was sent and what the consumer got, and `peak` the most payload there was at once. -/
structure Channel where
  queued : ℕ := 0
  channel : List Sent := []
  taken : Option Sent := none
  alive : Bool := true
  emitters : List Emitter := []
  accepted : List Sent := []
  delivered : List Sent := []
  peak : ℕ := 0

/-- The atomic steps: those of the emitter with a number, and the receiver's. `exchange` may fail
for no reason, `take` is that of `recv` and of `try_recv`, and `close` drops the receiver. -/
inductive Label where
  | emit (event : AgentEvent)
  | load (i : ℕ)
  | exchange (i : ℕ) (spurious : Bool)
  | send (i : ℕ)
  | release (i : ℕ)
  | take
  | giveBack
  | close

namespace Channel
variable (limits : EventLimits) (capacity : ℕ) (s : Channel)

def channelBytes : ℕ := (s.channel.map Sent.bytes).sum
def heldBytes : ℕ := (s.emitters.map Emitter.held).sum
def takenBytes : ℕ := s.taken.elim 0 Sent.bytes

/-- The payload held in memory by the channel, the receiver and the unfinished calls. -/
def live : ℕ := s.channelBytes + s.takenBytes + (s.emitters.map Emitter.owned).sum

def put (i : ℕ) (e : Emitter) : Channel := { s with emitters := s.emitters.set i e }

def emit (event : AgentEvent) : Channel :=
  { s with
    emitters := s.emitters ++ [enter limits event]
    peak := max s.peak (s.live + payloadBytes event) }

def load (i : ℕ) (e : Emitter) : Option Channel :=
  match e.stage with
  | .loading => some (s.put i { e with stage := .exchanging s.queued })
  | _ => none

/-- The loop of the reservation: a failed exchange goes round with what it read. -/
def exchange (i : ℕ) (spurious : Bool) (e : Emitter) : Option Channel :=
  match e.stage with
  | .exchanging current =>
    if limits.maxQueuedBytes < current + e.bytes then
      some (s.put i { e with stage := .returned (.error .full) })
    else if spurious || s.queued != current then
      some (s.put i { e with stage := .exchanging s.queued })
    else
      let s := s.put i { e with stage := .sending, held := e.held + e.bytes }
      some { s with queued := current + e.bytes }
  | _ => none

/-- `try_send` on the bounded channel. -/
def send (i : ℕ) (e : Emitter) : Option Channel :=
  match e.stage with
  | .sending =>
    if s.alive then
      if capacity ≤ s.channel.length then some (s.put i { e with stage := .releasing .full })
      else
        let s := s.put i { e with stage := .returned (.ok ()), held := e.held - e.bytes }
        some { s with
          channel := s.channel ++ [⟨i,e.event⟩]
          accepted := s.accepted ++ [⟨i,e.event⟩] }
    else some (s.put i { e with stage := .releasing .closed })
  | _ => none

def release (i : ℕ) (e : Emitter) : Option Channel :=
  match e.stage with
  | .releasing error =>
    let s := s.put i { e with stage := .returned (.error error), held := e.held - e.bytes }
    some { s with queued := s.queued - e.bytes }
  | _ => none

/-- The receiver takes the oldest event; with none it waits, or answers that there is none. -/
def take : Option Channel :=
  match s.taken,s.channel with
  | none,x::rest => some { s with channel := rest, taken := some x }
  | _,_ => none

/-- The receiver releases what it took, and hands it to the consumer. -/
def giveBack : Option Channel :=
  s.taken.map fun x =>
    { s with queued := s.queued - x.bytes, taken := none, delivered := s.delivered ++ [x] }

/-- Dropping the receiver drops what is in the channel. -/
def close : Option Channel :=
  match s.taken with
  | none => some { s with alive := false, channel := [] }
  | some _ => none

def step : Label → Option Channel
  | .emit event => some (s.emit limits event)
  | .load i => s.emitters[i]?.bind (s.load i)
  | .exchange i spurious => s.emitters[i]?.bind (s.exchange limits i spurious)
  | .send i => s.emitters[i]?.bind (s.send capacity i)
  | .release i => s.emitters[i]?.bind (s.release i)
  | .take => s.take
  | .giveBack => s.giveBack
  | .close => s.close

/-- Every call has returned, and the receiver is not in the middle of one. -/
def Quiescent : Prop := s.taken = none ∧ ∀ e ∈ s.emitters, ∃ result, e.stage = .returned result

end Channel

/-- `bounded_channel` with its two halves, used by any number of threads. -/
def boundedChannel (limits : EventLimits) (capacity : ℕ) : Machine Channel Label where
  start := {}
  step := Channel.step limits capacity

end TowerAgent.Events
