import TowerAgent.Kernel.Request
import TowerAgent.Lib.Service

/-! The surroundings of one agent call and the innermost service of a stack: a provider of which
nothing is known but what it answers. -/
namespace TowerAgent.Kernel
open Lib

/-- What the outside answers when a service consults it. -/
structure Reply where
  readiness : Unwind (Poll (Except AgentError Unit)) := .returned (.ready (.ok ()))
  launch : Unwind Unit := .returned ()
  progress : Unwind (Poll CallResult) := .returned .pending
  freePermits : ℕ := 1
  startBranch : ℕ := 0
  fired : Bool := true
  joinError : String := ""

inductive ReceiptStatus where
  | succeeded
  | failed (kind : ErrorKind) (phase : FailurePhase) (effects : EffectState)
  | abandoned (effects : EffectState)
  deriving DecidableEq, Repr

/-- The terminal record of one call. -/
structure Receipt where
  operationId : UInt64
  elapsed : Duration
  status : ReceiptStatus
  deriving DecidableEq, Repr

/-- What happens to one call: at the provider, then in the layers. -/
inductive Event where
  | unready (error : AgentError)
  | called
  | created
  | polled
  | settled (result : CallResult)
  | panicked
  | dropped
  | admitted
  | released
  | drained
  | caught
  | faulted
  | withdrawn
  | receipt (receipt : Receipt)

abbrev CallWorld := World Reply Event

/-- A service over requests of one type that resolves to turn outcomes. -/
abbrev AgentService (R : Type) := Service CallWorld R CallResult AgentError

abbrev Readiness := Unwind (Poll (Except AgentError Unit))

namespace Provider

def pollReady (w : CallWorld) : Readiness × Unit × CallWorld :=
  (w.answer.readiness,(),match w.answer.readiness with
    | .returned (.ready (.error error)) => w.pass.emit (.unready error)
    | _ => w.pass)

def call (w : CallWorld) : Unwind Unit × Unit × CallWorld :=
  let w := w.emit .called
  match w.answer.launch with
  | .returned () => (.returned (),(),w.pass.emit .created)
  | .panicked payload => (.panicked payload,(),w.pass)

def poll (w : CallWorld) : Polled Unit CallResult × CallWorld :=
  let w := w.emit .polled
  match w.answer.progress with
  | .returned .pending => (.pending (),w.pass)
  | .returned (.ready result) => (.ready result,w.pass.emit (.settled result))
  | .panicked payload => (.panicked payload,w.pass.emit .panicked)

/-- The innermost service; its future is only what the log says of it. -/
def service (R : Type) : AgentService R where
  State := Unit
  Future := Unit
  clone := id
  pollReady _ := pollReady
  call _ _ := call
  poll _ := poll
  drop _ w := ((),w.emit .dropped)
  background _ f w := (f,w)

end Provider
end TowerAgent.Kernel
