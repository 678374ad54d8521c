import TowerAgent.Kernel.Provider

/-! The kernel layers and the workflow's step adapter, each a service over an inner service. -/
namespace TowerAgent.Kernel
open Lib

/-- A response future that was refused without an inner call, or that holds what it forwards. -/
inductive Gate (F : Type) where
  | refused (error : AgentError)
  | opened (future : F)

namespace Gate
variable {F : Type}

def poll (next : F → CallWorld → Polled F CallResult × CallWorld) :
    Gate F → CallWorld → Polled (Gate F) CallResult × CallWorld
  | .refused error, w => (.ready (.error error),w)
  | .opened f, w => let (p,w) := next f w; (p.map .opened,w)

def update (next : F → CallWorld → F × CallWorld) : Gate F → CallWorld → Gate F × CallWorld
  | .refused error, w => (.refused error,w)
  | .opened f, w => let (f,w) := next f w; (.opened f,w)

end Gate

/-- The outcome of an inner `call`, forwarded. -/
def forward {F G σ τ : Type} (future : F → G) (state : σ → τ) (x : Unwind F × σ × CallWorld) :
    Unwind G × τ × CallWorld :=
  (x.1.map future,state x.2.1,x.2.2)

namespace Admission

/-- Drop what may be a permit. -/
def release (permit : Bool) (free : ℕ) : ℕ := if permit then free+1 else free

def tryAcquire : ℕ → Bool × ℕ
  | 0 => (false,0)
  | free+1 => (true,free)

/-- `poll_ready` on the clone's reservation and the free permits, by the inner readiness. -/
def reserve (permit : Bool) (free : ℕ) : Readiness → Readiness × Bool × ℕ
  | .returned (.ready (.error error)) =>
    (.returned (.ready (.error error)),false,release permit free)
  | .returned .pending => (.returned (.ready (.ok ())),false,release permit free)
  | .returned (.ready (.ok ())) =>
    if permit then (.returned (.ready (.ok ())),true,free)
    else (.returned (.ready (.ok ())),tryAcquire free)
  | .panicked payload => (.panicked payload,permit,free)

structure State (σ : Type) where
  inner : σ
  permit : Bool := false

/-- The admitted response future. -/
structure Admitted (F : Type) where
  permit : Bool
  inner : F

variable {R : Type} (S : AgentService R)

def pollReady (s : State S.State) (w : CallWorld) : Readiness × State S.State × CallWorld :=
  let (readiness,inner,w) := S.pollReady s.inner w
  let (answer,permit,_) := reserve s.permit w.answer.freePermits readiness
  (answer,{ inner, permit },w.pass)

def call (s : State S.State) (request : R) (w : CallWorld) :
    Unwind (Gate (Admitted S.Future)) × State S.State × CallWorld :=
  if s.permit then
    match S.call s.inner request (w.emit .admitted) with
    | (.returned f,inner,w) => (.returned (.opened { permit := true, inner := f }),{ inner },w)
    | (.panicked payload,inner,w) => (.panicked payload,{ inner },w.emit .released)
  else (.returned (.refused .busy),s,w)

/-- Drop the permit an admitted future holds. -/
def letGo (permit : Bool) (w : CallWorld) : CallWorld := if permit then w.emit .released else w

def poll (f : Admitted S.Future) (w : CallWorld) :
    Polled (Admitted S.Future) CallResult × CallWorld :=
  match S.poll f.inner w with
  | (.pending inner,w) => (.pending { f with inner },w)
  | (.ready result,w) => (.ready result,letGo f.permit w)
  | (.panicked payload,w) => (.panicked payload,letGo f.permit w)

def drop (f : Admitted S.Future) (w : CallWorld) : Admitted S.Future × CallWorld :=
  let (inner,w) := S.drop f.inner w
  ({ permit := false, inner },letGo f.permit w)

/-- Shared capacity with immediate shedding. -/
def service : AgentService R where
  State := State S.State
  Future := Gate (Admitted S.Future)
  clone s := { inner := S.clone s.inner }
  pollReady := pollReady S
  call := call S
  poll := Gate.poll (poll S)
  drop := Gate.update (drop S)
  background k := Gate.update fun f w =>
    let (inner,w) := S.background k f.inner w; ({ f with inner },w)

end Admission

namespace Deadline

/-- Why a race ended before the inner call did. -/
inductive Interruption where
  | deadline
  | cancelled

def Interruption.error : Interruption → AgentError
  | .deadline => .deadlineExceeded .possible
  | .cancelled => .cancelled .possible

/-- Merge whatever the inner call established into the outer failure. -/
def preserveSettlement (error : AgentError) : CallResult → AgentError
  | .error cause => error.withCause cause
  | .ok response =>
    { error with
      effects := error.effects.combine .reported
      evidence := match error.evidence with
        | some evidence => some (evidence.mergeMissing response.terminalEvidence)
        | none => some response.terminalEvidence }

/-- The response future: racing the deadline and the token, or awaiting settlement after one. -/
inductive Enforced (F : Type) where
  | racing (deadline : Option ℕ) (inner : F)
  | draining (cause : Interruption) (inner : F)

/-- The branches of the race besides the inner call, in source order. -/
def branches : Option ℕ → List (Interruption × Option ℕ)
  | some deadline => [(.deadline,some deadline),(.cancelled,none)]
  | none => [(.cancelled,none)]

/-- `select!` starts at a random branch and goes round: what it polls before and after the inner
call, which is its first branch. -/
def rotate {β : Type} (start : ℕ) (rest : List β) : List β × List β :=
  match start % (rest.length+1) with
  | 0 => ([],rest)
  | i+1 => (rest.drop i,rest.take i)

/-- Whether a branch is ready: a timer past its deadline, or a cancelled token. -/
def fires (w : CallWorld) : Option ℕ → Bool
  | some deadline => w.answer.fired && decide (deadline ≤ w.pass.now)
  | none => w.pass.cancelled

/-- Poll branches in order until one is ready. -/
def watch : List (Interruption × Option ℕ) → CallWorld → Option Interruption × CallWorld
  | [], w => (none,w)
  | (cause,timer)::rest, w => if fires w timer then (some cause,w.pass) else watch rest w.pass

variable {R T : Type} (S : AgentService R)

/-- Await the inner call's settlement. -/
def drain (cause : Interruption) (f : S.Future) (w : CallWorld) :
    Polled (Enforced S.Future) CallResult × CallWorld :=
  match S.poll f w with
  | (.pending f,w) => (.pending (.draining cause f),w)
  | (.ready result,w) =>
    (.ready (.error (preserveSettlement cause.error result)),w.emit .drained)
  | (.panicked payload,w) => (.panicked payload,w)

/-- A branch won: signal cancellation on a deadline, then await settlement. -/
def interrupt (cause : Interruption) (f : S.Future) (w : CallWorld) :
    Polled (Enforced S.Future) CallResult × CallWorld :=
  drain S cause f (match cause with
    | .deadline => w.cancel
    | .cancelled => w)

def poll : Enforced S.Future → CallWorld → Polled (Enforced S.Future) CallResult × CallWorld
  | .draining cause f, w => drain S cause f w
  | .racing deadline f, w =>
    let (before,after) := rotate w.answer.startBranch (branches deadline)
    match watch before w.pass with
    | (some cause,w) => interrupt S cause f w
    | (none,w) => match S.poll f w with
      | (.ready result,w) => (.ready result,w)
      | (.panicked payload,w) => (.panicked payload,w)
      | (.pending f,w) => match watch after w with
        | (some cause,w) => interrupt S cause f w
        | (none,w) => (.pending (.racing deadline f),w)

def cancelledBefore : AgentError :=
  .new .cancelled "agent operation was cancelled before execution" .admission .none

def elapsedBefore : AgentError :=
  .new .deadlineExceeded "agent operation deadline elapsed before execution" .admission .none

/-- Apply a change to the inner future, in either phase. -/
def Enforced.update {F : Type} (next : F → CallWorld → F × CallWorld) :
    Enforced F → CallWorld → Enforced F × CallWorld
  | .racing deadline f, w => let (f,w) := next f w; (.racing deadline f,w)
  | .draining cause f, w => let (f,w) := next f w; (.draining cause f,w)

variable (S : AgentService (AgentRequest T))

def call (s : S.State) (request : AgentRequest T) (w : CallWorld) :
    Unwind (Gate (Enforced S.Future)) × S.State × CallWorld :=
  let deadline := request.context.deadline
  let w := w.pass
  if w.cancelled then (.returned (.refused cancelledBefore),s,w)
  else
    let w := w.pass
    if deadline.any (fun deadline => decide (deadline ≤ w.now)) then
      (.returned (.refused elapsedBefore),s,w.cancel)
    else forward (fun f => .opened (.racing deadline f)) id (S.call s request w)

/-- Enforces the deadline and the cancellation of each request. -/
def service : AgentService (AgentRequest T) where
  State := S.State
  Future := Gate (Enforced S.Future)
  clone := S.clone
  pollReady := S.pollReady
  call := call S
  poll := Gate.poll (poll S)
  drop := Gate.update (Enforced.update S.drop)
  background k := Gate.update (Enforced.update (S.background k))

end Deadline

namespace ValidateTurn
variable {O : Type} (maxPromptBytes : Option ℕ) (S : AgentService (TurnRequest O))

def check (prompt : String) : Option AgentError :=
  if Text.isBlank prompt then some (.invalidRequest "prompt must not be empty")
  else if maxPromptBytes.any (fun maximum => decide (maximum < prompt.utf8ByteSize)) then
    some (.invalidRequest "prompt exceeds the configured limit")
  else none

def call (s : S.State) (request : TurnRequest O) (w : CallWorld) :
    Unwind (Gate S.Future) × S.State × CallWorld :=
  match check maxPromptBytes request.body.prompt with
  | some error => (.returned (.refused error),s,w)
  | none => forward .opened id (S.call s request w)

/-- Refuses malformed turns. -/
def service : AgentService (TurnRequest O) where
  State := S.State
  Future := Gate S.Future
  clone := S.clone
  pollReady := S.pollReady
  call := call maxPromptBytes S
  poll := Gate.poll S.poll
  drop := Gate.update S.drop
  background k := Gate.update (S.background k)

end ValidateTurn

namespace EnforceAuthority
variable {O : Type} [RequestsFilesystemAuthority O] (policy : AuthorityPolicy)
  (canonicalize : Canonicalize) (S : AgentService (TurnRequest O))

def call (s : S.State) (request : TurnRequest O) (w : CallWorld) :
    Unwind (Gate S.Future) × S.State × CallWorld :=
  match policy.authorize canonicalize request.body with
  | .ok () => forward .opened id (S.call s request w)
  | .error error => (.returned (.refused error),s,w)

/-- Rejects filesystem authority beyond the host's policy. -/
def service : AgentService (TurnRequest O) where
  State := S.State
  Future := Gate S.Future
  clone := S.clone
  pollReady := S.pollReady
  call := call policy canonicalize S
  poll := Gate.poll S.poll
  drop := Gate.update S.drop
  background k := Gate.update (S.background k)

end EnforceAuthority

namespace LimitOutput
variable {R : Type} (maxBytes : ℕ) (S : AgentService R)

def exceeded (response : TurnOutcome) : AgentError :=
  (AgentError.new .limit ("provider output exceeded the " ++ toString maxBytes ++
    "-byte host limit") .settlement .reported).withEvidence response.terminalEvidence

def accept : CallResult → CallResult
  | .error error => .error error
  | .ok response =>
    if maxBytes < response.outputBytes then .error (exceeded maxBytes response) else .ok response

def poll (f : S.Future) (w : CallWorld) : Polled S.Future CallResult × CallWorld :=
  match S.poll f w with
  | (.ready result,w) => (.ready (accept maxBytes result),w)
  | unsettled => unsettled

/-- Refuses a terminal output larger than the host allows. -/
def service : AgentService R where
  State := S.State
  Future := S.Future
  clone := S.clone
  pollReady := S.pollReady
  call := S.call
  poll := poll maxBytes S
  drop := S.drop
  background := S.background

end LimitOutput

namespace CatchPanic
variable {R : Type} (S : AgentService R)

def panicError (payload : Option String) (phase : FailurePhase) (effects : EffectState) :
    AgentError :=
  .new .internal ("agent service panicked: " ++ payload.getD "unknown panic payload") phase effects

def pollReady (s : S.State) (w : CallWorld) : Readiness × S.State × CallWorld :=
  match S.pollReady s w with
  | (.panicked payload,s,w) =>
    (.returned (.ready (.error (panicError payload .admission .none))),s,w)
  | returned => returned

def call (s : S.State) (request : R) (w : CallWorld) :
    Unwind (Gate S.Future) × S.State × CallWorld :=
  match S.call s request w with
  | (.returned f,s,w) => (.returned (.opened f),s,w)
  | (.panicked payload,s,w) => (.returned (.refused (panicError payload .launch .possible)),s,w)

def poll (f : S.Future) (w : CallWorld) : Polled S.Future CallResult × CallWorld :=
  match S.poll f w with
  | (.panicked payload,w) =>
    (.ready (.error (panicError payload .settlement .possible)),w.emit .caught)
  | settled => settled

/-- Converts a panic of an inner call into a typed failure. -/
def service : AgentService R where
  State := S.State
  Future := Gate S.Future
  clone := S.clone
  pollReady := pollReady S
  call := call S
  poll := Gate.poll (poll S)
  drop := Gate.update S.drop
  background k := Gate.update (S.background k)

end CatchPanic

/-- One injected fault, applied to one call. -/
inductive Fault where
  | delayBeforeLaunch (delay : Duration)
  | refuseBeforeLaunch (kind : ErrorKind) (message : String)
  | delaySettlement (delay : Duration)
  | failAfterSettlement (kind : ErrorKind) (message : String)

namespace InjectFaults

structure State (σ : Type) where
  inner : σ
  script : List Fault

/-- The response future under each fault. -/
inductive Faulty (F : Type) where
  | delaying (delay : Duration) (wake : Option ℕ) (inner : F)
  | passing (inner : F)
  | settling (delay : Duration) (inner : F)
  | holding (wake : ℕ) (settled : CallResult)
  | failing (kind : ErrorKind) (message : String) (inner : F)

/-- Build a post-settlement failure without discarding what settled. -/
def failAfter (kind : ErrorKind) (message : String) : CallResult → AgentError
  | .ok response =>
    (AgentError.new kind message .settlement .reported).withEvidence response.terminalEvidence
  | .error cause => (AgentError.new kind message .settlement cause.effects).withCause cause

/-- A timer sleeps from its first poll. -/
def start (delay : Duration) : Option ℕ → CallWorld → ℕ × CallWorld
  | some wake, w => (wake,w)
  | none, w => (w.pass.now+delay,w.pass)

def elapsed (wake : ℕ) (w : CallWorld) : Bool := w.answer.fired && decide (wake ≤ w.pass.now)

def hold (wake : ℕ) (settled : CallResult) {F : Type} (w : CallWorld) :
    Polled (Faulty F) CallResult × CallWorld :=
  if elapsed wake w then (.ready settled,w.pass) else (.pending (.holding wake settled),w.pass)

variable {R : Type} (S : AgentService R)

def pass (f : S.Future) (w : CallWorld) : Polled (Faulty S.Future) CallResult × CallWorld :=
  let (p,w) := S.poll f w; (p.map .passing,w)

def poll : Faulty S.Future → CallWorld → Polled (Faulty S.Future) CallResult × CallWorld
  | .delaying delay wake f, w =>
    let (wake,w) := start delay wake w
    if elapsed wake w then pass S f w.pass else (.pending (.delaying delay (some wake) f),w.pass)
  | .passing f, w => pass S f w
  | .settling delay f, w => match S.poll f w with
    | (.pending f,w) => (.pending (.settling delay f),w)
    | (.ready settled,w) => let (wake,w) := start delay none w; hold wake settled w
    | (.panicked payload,w) => (.panicked payload,w)
  | .holding wake settled, w => hold wake settled w
  | .failing kind message f, w => match S.poll f w with
    | (.pending f,w) => (.pending (.failing kind message f),w)
    | (.ready settled,w) => (.ready (.error (failAfter kind message settled)),w.emit .faulted)
    | (.panicked payload,w) => (.panicked payload,w)

def call (s : State S.State) (request : R) (w : CallWorld) :
    Unwind (Gate (Faulty S.Future)) × State S.State × CallWorld :=
  let script := s.script.tail
  let call (future : S.Future → Faulty S.Future) :=
    forward (fun f => .opened (future f)) (fun inner => { inner, script })
      (S.call s.inner request w)
  match s.script.head? with
  | some (.refuseBeforeLaunch kind message) =>
    (.returned (.refused (.new kind message .admission .none)),{ s with script },w)
  | some (.delayBeforeLaunch delay) => call (.delaying delay none)
  | some (.delaySettlement delay) => call (.settling delay)
  | some (.failAfterSettlement kind message) => call (.failing kind message)
  | none => call .passing

def Faulty.update {F : Type} (next : F → CallWorld → F × CallWorld) :
    Faulty F → CallWorld → Faulty F × CallWorld
  | .delaying delay wake f, w => let (f,w) := next f w; (.delaying delay wake f,w)
  | .passing f, w => let (f,w) := next f w; (.passing f,w)
  | .settling delay f, w => let (f,w) := next f w; (.settling delay f,w)
  | .holding wake settled, w => (.holding wake settled,w)
  | .failing kind message f, w => let (f,w) := next f w; (.failing kind message f,w)

/-- Deterministic fault injection from a script consumed one fault a call. -/
def service : AgentService R where
  State := State S.State
  Future := Gate (Faulty S.Future)
  clone s := { s with inner := S.clone s.inner }
  pollReady s w :=
    let (answer,inner,w) := S.pollReady s.inner w; (answer,{ s with inner },w)
  call := call S
  poll := Gate.poll (poll S)
  drop := Gate.update (Faulty.update S.drop)
  background k := Gate.update (Faulty.update (S.background k))

end InjectFaults

namespace Observe

/-- The receipt guard and the inner future. -/
structure Observed (F : Type) where
  operationId : UInt64
  started : ℕ
  launched : Bool := false
  inner : F

def finish {F : Type} (f : Observed F) (status : ReceiptStatus) (w : CallWorld) : CallWorld :=
  w.pass.emit (.receipt
    { operationId := f.operationId, elapsed := w.pass.now - f.started, status })

/-- The guard dropped without a status. -/
def abandon {F : Type} (f : Observed F) : CallWorld → CallWorld :=
  finish f (.abandoned (if f.launched then .possible else .none))

def status : CallResult → ReceiptStatus
  | .ok _ => .succeeded
  | .error error => .failed error.kind error.phase error.effects

variable {T : Type} (S : AgentService (AgentRequest T))

def call (s : S.State) (request : AgentRequest T) (w : CallWorld) :
    Unwind (Observed S.Future) × S.State × CallWorld :=
  match S.call s request w with
  | (.returned f,s,w) => (.returned
      { operationId := request.context.operationId, started := w.pass.now, inner := f },s,w.pass)
  | (.panicked payload,s,w) => (.panicked payload,s,w)

def poll (f : Observed S.Future) (w : CallWorld) :
    Polled (Observed S.Future) CallResult × CallWorld :=
  let f := { f with launched := true }
  match S.poll f.inner w with
  | (.pending inner,w) => (.pending { f with inner },w)
  | (.ready result,w) => (.ready result,finish f (status result) w)
  | (.panicked payload,w) => (.panicked payload,abandon f w)

/-- Emits one receipt a call, also for an abandoned one. -/
def service : AgentService (AgentRequest T) where
  State := S.State
  Future := Observed S.Future
  clone := S.clone
  pollReady := S.pollReady
  call := call S
  poll := poll S
  drop f w := let (inner,w) := S.drop f.inner w; ({ f with inner },abandon f w)
  background k f w := let (inner,w) := S.background k f.inner w; ({ f with inner },w)

end Observe

namespace Supervise

/-- The spawned task; dropping its handle only detaches it. -/
inductive Task (F : Type) where
  | running (inner : F)
  | finished (result : CallResult)
  | panicked (payload : Option String)

def joinError (error : String) : AgentError :=
  .new .internal ("agent supervisor task failed: " ++ error) .settlement .possible

variable {T : Type} (S : AgentService (AgentRequest T))

def poll : Task S.Future → CallWorld → Polled (Task S.Future) CallResult × CallWorld
  | .running f, w => (.pending (.running f),w)
  | .finished result, w => (.ready result,w)
  | .panicked _, w => (.ready (.error (joinError w.answer.joinError)),w.pass)

/-- The runtime polls this task, or one spawned below it. -/
def background : ℕ → Task S.Future → CallWorld → Task S.Future × CallWorld
  | 0, .running f, w => match S.poll f w with
    | (.pending f,w) => (.running f,w)
    | (.ready result,w) => (.finished result,w)
    | (.panicked payload,w) => (.panicked payload,w)
  | k+1, .running f, w => let (f,w) := S.background k f w; (.running f,w)
  | _, task, w => (task,w)

/-- Keeps an inner call owned and polled after its caller goes away. -/
def service : AgentService (AgentRequest T) where
  State := S.State
  Future := Task S.Future
  clone := S.clone
  pollReady := S.pollReady
  call s request w := forward .running id (S.call s request w)
  poll := poll S
  drop task w := (task,w.cancel)
  background := background S

end Supervise

/-- One step of a workflow: what its dispatcher is given. -/
structure StepCall (I : Type) where
  context : CallContext
  input : I

namespace AgentStepService

inductive Stepping (σ F O : Type) where
  | starting (service : σ) (request : TurnRequest O)
  | running (inner : F)

variable {O I : Type} (prepare : StepCall I → Unwind (Except AgentError (Turn O)))
  (S : AgentService (TurnRequest O))

def call (s : S.State) (step : StepCall I) (w : CallWorld) :
    Unwind (Gate (Stepping S.State S.Future O)) × S.State × CallWorld :=
  match prepare step with
  | .returned (.ok turn) =>
    (.returned (.opened (.starting (S.clone s) { context := step.context, body := turn })),s,w)
  | .returned (.error error) => (.returned (.refused error),s,w)
  | .panicked payload => (.panicked payload,s,w)

def run (f : S.Future) (w : CallWorld) :
    Polled (Stepping S.State S.Future O) CallResult × CallWorld :=
  let (p,w) := S.poll f w; (p.map .running,w)

def poll : Stepping S.State S.Future O → CallWorld →
    Polled (Stepping S.State S.Future O) CallResult × CallWorld
  | .running f, w => run S f w
  | .starting service request, w =>
    let w := w.pass
    if w.cancelled then (.ready (.error (.cancelled .none)),w.emit .withdrawn)
    else match S.pollReady service w with
      | (.returned .pending,service,w) => (.pending (.starting service request),w)
      | (.returned (.ready (.error error)),_,w) => (.ready (.error error),w)
      | (.panicked payload,_,w) => (.panicked payload,w)
      | (.returned (.ready (.ok ())),service,w) =>
        let w := w.pass
        if w.cancelled then (.ready (.error (.cancelled .none)),w.emit .withdrawn)
        else match S.call service request w with
          | (.returned f,_,w) => run S f w
          | (.panicked payload,_,w) => (.panicked payload,w)

def Stepping.update {σ F : Type} (next : F → CallWorld → F × CallWorld) :
    Stepping σ F O → CallWorld → Stepping σ F O × CallWorld
  | .starting service request, w => (.starting service request,w)
  | .running f, w => let (f,w) := next f w; (.running f,w)

/-- The workflow's adapter of an agent service. -/
def service : AgentService (StepCall I) where
  State := S.State
  Future := Gate (Stepping S.State S.Future O)
  clone := S.clone
  pollReady s w := (.returned (.ready (.ok ())),s,w)
  call := call prepare S
  poll := Gate.poll (poll S)
  drop := Gate.update (Stepping.update S.drop)
  background k := Gate.update (Stepping.update (S.background k))

end AgentStepService
end TowerAgent.Kernel
