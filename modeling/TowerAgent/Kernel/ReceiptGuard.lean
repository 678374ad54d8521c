import TowerAgent.Kernel.Layer
import TowerAgent.Lib.Machine

/-! The receipt of one observed call: a guard with two flags, in a response future that may settle,
panic or be dropped wherever it is suspended. -/
namespace TowerAgent.Kernel.Observe
open Lib

/-- What the response future holds so that its receipt is offered. -/
structure ReceiptGuard where
  operationId : UInt64
  started : ℕ
  finished : Bool := false
  launched : Bool := false

namespace ReceiptGuard
variable (guard : ReceiptGuard) (now : ℕ)

def receipt (status : ReceiptStatus) : Receipt :=
  { operationId := guard.operationId, elapsed := now - guard.started, status }

def markLaunched : ReceiptGuard := { guard with launched := true }

/-- `finish`, with the receipt it offers. -/
def finish (status : ReceiptStatus) : ReceiptGuard × Receipt :=
  ({ guard with finished := true },guard.receipt now status)

/-- The guard's destructor, by what it offers. -/
def drop : List Receipt :=
  if !guard.finished then
    [guard.receipt now (.abandoned (if guard.launched then .possible else .none))]
  else []

end ReceiptGuard

/-- The `async` block of `call`: before its first poll, suspended at the inner future, or over. -/
inductive Block (F : Type) where
  | unresumed (guard : ReceiptGuard) (future : F)
  | awaiting (guard : ReceiptGuard) (future : F)
  | returned (result : CallResult)
  | panicked
  | dropped

/-- One observed call, with the receipts it has offered to its observer. -/
structure Call (F : Type) where
  block : Block F
  offered : List Receipt := []

/-- What becomes of a response future, each time in a world of its own: whoever holds it polls it or
drops it, and the runtime may poll a task below it. -/
inductive Move where
  | poll (w : CallWorld)
  | drop (w : CallWorld)
  | background (k : ℕ) (w : CallWorld)

namespace Call
variable {R : Type} (S : AgentService R) (c : Call S.Future)

/-- Poll the inner future under the guard; whichever way the block ends, it drops the guard. -/
def resume (guard : ReceiptGuard) (f : S.Future) (w : CallWorld) : Call S.Future :=
  match S.poll f w with
  | (.pending f,_) => { c with block := .awaiting guard f }
  | (.ready result,w) =>
    let (guard,receipt) := guard.finish w.pass.now (status result)
    { block := .returned result, offered := c.offered ++ [receipt] ++ guard.drop w.pass.now }
  | (.panicked _,w) => { block := .panicked, offered := c.offered ++ guard.drop w.pass.now }

def drop (guard : ReceiptGuard) (f : S.Future) (w : CallWorld) : Call S.Future :=
  { block := .dropped, offered := c.offered ++ guard.drop (S.drop f w).2.pass.now }

/-- A block that has returned or panicked offers nothing more, polled or dropped; a dropped one is
gone. -/
def step (c : Call S.Future) : Move → Option (Call S.Future)
  | .poll w =>
    match c.block with
    | .unresumed guard f => some (c.resume S guard.markLaunched f w)
    | .awaiting guard f => some (c.resume S guard f w)
    | .dropped => none
    | _ => some c
  | .drop w =>
    match c.block with
    | .unresumed guard f | .awaiting guard f => some (c.drop S guard f w)
    | .dropped => none
    | _ => some c
  | .background k w =>
    match c.block with
    | .unresumed guard f => some { c with block := .unresumed guard (S.background k f w).1 }
    | .awaiting guard f => some { c with block := .awaiting guard (S.background k f w).1 }
    | _ => some c

end Call

/-- A call, whatever becomes of its future. -/
def observed {R : Type} (S : AgentService R) (c : Call S.Future) :
    Machine (Call S.Future) Move where
  start := c
  step := Call.step S

/-- What a future has come to under its service. -/
inductive Fate (F : Type) where
  | held (future : F)
  | settled (result : CallResult)
  | panicked
  | dropped

namespace Fate
variable {R : Type} (S : AgentService R)

/-- A future that nothing has ended. -/
def Held {F : Type} : Fate F → Prop
  | .held _ => True
  | _ => False

def ofPolled {F : Type} : Polled F CallResult → Fate F
  | .pending future => .held future
  | .ready result => .settled result
  | .panicked _ => .panicked

/-- What one move makes of a future of the service. -/
def step : Fate S.Future → Move → Fate S.Future
  | .held f, .poll w => ofPolled (S.poll f w).1
  | .held _, .drop _ => .dropped
  | .held f, .background k w => .held (S.background k f w).1
  | fate, _ => fate

/-- What has been logged after one move. -/
def log : Fate S.Future → Move → List Event
  | .held f, .poll w => (S.poll f w).2.log
  | .held f, .drop w => (S.drop f w).2.log
  | .held f, .background k w => (S.background k f w).2.log
  | _, .poll w | _, .drop w | _, .background _ w => w.log

/-- What becomes of a future. -/
def after (f : S.Future) (t : List Move) : Fate S.Future := t.foldl (step S) (.held f)

@[simp] lemma after_nil (f : S.Future) : after S f [] = .held f := by rfl

@[simp] lemma after_concat (f : S.Future) (t : List Move) (m : Move) :
    after S f (t ++ [m]) = step S (after S f t) m := List.foldl_concat ..

end Fate

section Service
variable {T : Type} (S : AgentService (AgentRequest T))

/-- The layer's future that a guard and an inner future make up. -/
def ReceiptGuard.observing {F : Type} (guard : ReceiptGuard) (f : F) : Observed F where
  operationId := guard.operationId
  started := guard.started
  launched := guard.launched
  inner := f

/-- The guard of a call that begins. -/
def ReceiptGuard.new (operationId : UInt64) (w : CallWorld) : ReceiptGuard :=
  { operationId, started := w.pass.now }

/-- The call as `Observe` begins it on the future that the inner `call` returned. -/
def begun {F : Type} (request : AgentRequest T) (f : F) (w : CallWorld) : Call F where
  block := .unresumed (.new request.context.operationId w) f

/-- What has come of the inner future. -/
def Block.inner {F : Type} : Block F → Fate F
  | .unresumed _ f | .awaiting _ f => .held f
  | .returned result => .settled result
  | .panicked => .panicked
  | .dropped => .dropped

/-- What has come of the layer's future. -/
def Block.layer {F : Type} : Block F → Fate (Observed F)
  | .unresumed guard f | .awaiting guard f => .held (guard.observing f)
  | .returned result => .settled result
  | .panicked => .panicked
  | .dropped => .dropped

/-- The receipts that the layer logs in a run, each after what the inner call logs in that move. -/
inductive Emitted (layered : Observed S.Future) (f : S.Future) : List Move → List Receipt → Prop where
  | nil : Emitted layered f [] []
  | concat {t : List Move} {m : Move} {receipts new : List Receipt}
      (h : Emitted layered f t receipts)
      (hlog : Fate.log (Observe.service S) (Fate.after (Observe.service S) layered t) m =
        Fate.log S (Fate.after S f t) m ++ new.map .receipt) :
      Emitted layered f (t ++ [m]) (receipts ++ new)

/-- The layer's `call` returns the future of the call as it begins. -/
lemma call_begun {s s₁ : S.State} {request : AgentRequest T} {w w₁ : CallWorld} {f : S.Future}
    (h : S.call s request w = (.returned f,s₁,w₁)) : (Observe.service S).call s request w =
      (.returned ((ReceiptGuard.new request.context.operationId w₁).observing f),s₁,w₁.pass) := by
  simp only [Observe.service, Observe.call, h]
  rfl

/-- The layer's future polls as the block does, and logs what the guard offers. -/
theorem poll_agrees (c : Call S.Future) {guard : ReceiptGuard} (hopen : guard.finished = false)
    (f : S.Future) (w : CallWorld) :
    (c.resume S guard.markLaunched f w).block.inner = .ofPolled (S.poll f w).1 ∧
    (c.resume S guard.markLaunched f w).block.layer =
      .ofPolled (Observe.poll S (guard.observing f) w).1 ∧
    ∃ new, (c.resume S guard.markLaunched f w).offered = c.offered ++ new ∧
      (Observe.poll S (guard.observing f) w).2.log = (S.poll f w).2.log ++ new.map .receipt := by
  obtain ⟨operationId,started,finished,launched⟩ := guard
  obtain rfl : finished = false := hopen
  simp only [Call.resume, Observe.poll, ReceiptGuard.observing]
  rcases S.poll f w with ⟨f' | result | payload,w'⟩
  · exact ⟨rfl,rfl,[],by simp⟩
  · exact ⟨rfl,rfl,[_],List.append_nil _,rfl⟩
  · exact ⟨rfl,rfl,[_],rfl,rfl⟩

/-- Dropping the layer's future drops the inner one and then the guard. -/
theorem drop_agrees {guard : ReceiptGuard} (hopen : guard.finished = false) (f : S.Future)
    (w : CallWorld) : ((Observe.service S).drop (guard.observing f) w).2.log =
      (S.drop f w).2.log ++ (guard.drop (S.drop f w).2.pass.now).map .receipt := by
  obtain ⟨operationId,started,finished,launched⟩ := guard
  obtain rfl : finished = false := hopen
  rfl

end Service

/-- The future was polled, which is also when the inner future was. -/
def Polls (t : List Move) : Bool := t.any fun m => m matches .poll _

/-- What a call of an operation has offered, by where its block stands and whether it was polled. -/
def Recorded {F : Type} (operationId : UInt64) (polled : Bool) (c : Call F) : Prop :=
  match c.block with
  | .unresumed guard _ => c.offered = [] ∧ guard.operationId = operationId ∧
    guard.finished = false ∧ guard.launched = false ∧ polled = false
  | .awaiting guard _ => c.offered = [] ∧ guard.operationId = operationId ∧
    guard.finished = false ∧ guard.launched = true ∧ polled = true
  | .returned result => ∃ elapsed, c.offered = [⟨operationId,elapsed,status result⟩]
  | .panicked => ∃ elapsed, c.offered = [⟨operationId,elapsed,.abandoned .possible⟩] ∧
    polled = true
  | .dropped => ∃ elapsed, c.offered =
    [⟨operationId,elapsed,.abandoned (if polled then .possible else .none)⟩]

section Runs
variable {R : Type} {S : AgentService R} {operationId : UInt64} {c c' : Call S.Future}
  {polled : Bool}

/-- A poll under a guard that is launched and unfinished. -/
lemma resume_recorded (guard : ReceiptGuard) (hoffered : c.offered = [])
    (hid : guard.operationId = operationId) (hfinished : guard.finished = false)
    (hlaunched : guard.launched = true) (f : S.Future) (w : CallWorld) :
    Recorded operationId true (c.resume S guard f w) := by
  obtain ⟨_,started,_,_⟩ := guard
  subst hid hfinished hlaunched
  unfold Call.resume
  rcases S.poll f w with ⟨f' | result | payload,w'⟩
  · exact ⟨hoffered,rfl,rfl,rfl,rfl⟩
  · exact ⟨_,by rw [hoffered]; rfl⟩
  · exact ⟨_,by rw [hoffered]; rfl,rfl⟩

/-- What one move keeps. -/
theorem Recorded.step (h : Recorded operationId polled c) {m : Move}
    (hs : Call.step S c m = some c') : Recorded operationId (polled || Polls [m]) c' := by
  obtain ⟨block,offered⟩ := c
  cases m with
  | poll w =>
    rw [show (polled || Polls [.poll w]) = true from Bool.or_true _]
    cases block with
    | unresumed guard f =>
      obtain ⟨hoffered,hid,hfinished,-,-⟩ := h
      obtain rfl := Option.some.inj hs
      exact resume_recorded guard.markLaunched hoffered hid hfinished rfl f w
    | awaiting guard f =>
      obtain ⟨hoffered,hid,hfinished,hlaunched,-⟩ := h
      obtain rfl := Option.some.inj hs
      exact resume_recorded guard hoffered hid hfinished hlaunched f w
    | returned result =>
      obtain rfl := Option.some.inj hs
      exact h
    | panicked =>
      obtain rfl := Option.some.inj hs
      obtain ⟨elapsed,hoffered,-⟩ := h
      exact ⟨elapsed,hoffered,rfl⟩
    | dropped => cases hs
  | drop w =>
    rw [show (polled || Polls [.drop w]) = polled from Bool.or_false _]
    cases block with
    | unresumed guard f =>
      obtain ⟨hoffered,hid,hfinished,hlaunched,hpolled⟩ := h
      obtain rfl := Option.some.inj hs
      obtain ⟨_,started,_,_⟩ := guard
      subst hid hfinished hlaunched hpolled
      exact ⟨_,by simp only [Call.drop, show offered = [] from hoffered]; rfl⟩
    | awaiting guard f =>
      obtain ⟨hoffered,hid,hfinished,hlaunched,hpolled⟩ := h
      obtain rfl := Option.some.inj hs
      obtain ⟨_,started,_,_⟩ := guard
      subst hid hfinished hlaunched hpolled
      exact ⟨_,by simp only [Call.drop, show offered = [] from hoffered]; rfl⟩
    | returned result =>
      obtain rfl := Option.some.inj hs
      exact h
    | panicked =>
      obtain rfl := Option.some.inj hs
      exact h
    | dropped => cases hs
  | background k w =>
    rw [show (polled || Polls [.background k w]) = polled from Bool.or_false _]
    cases block <;> obtain rfl := Option.some.inj hs <;> exact h

theorem recorded_of_run {t : List Move} (h : (observed S c).run t = some c')
    (hc : Recorded operationId false c) : Recorded operationId (Polls t) c' := by
  refine Machine.invariant (M := observed S c)
    (P := fun t c => Recorded operationId (Polls t) c) hc (fun t _ m _ _ hs hl => ?_) h
  have hconcat : Polls (t ++ [m]) = (Polls t || Polls [m]) := List.any_append
  rw [hconcat]
  exact hs.step hl

end Runs

section Tracking
variable {T : Type} {S : AgentService (AgentRequest T)} {operationId : UInt64}
  {c c' : Call S.Future} {polled : Bool}

/-- One move of a call is that move of the inner future and of the layer's, and what the call offers
is what the layer logs after what the inner call logs. -/
structure Tracks (S : AgentService (AgentRequest T)) (c : Call S.Future) (m : Move)
    (c' : Call S.Future) : Prop where
  inner : c'.block.inner = Fate.step S c.block.inner m
  layer : c'.block.layer = Fate.step (Observe.service S) c.block.layer m
  logged : ∃ new, c'.offered = c.offered ++ new ∧
    Fate.log (Observe.service S) c.block.layer m =
      Fate.log S c.block.inner m ++ new.map .receipt

/-- A move that ends nothing offers nothing. -/
lemma Tracks.idle {m : Move} (hinner : Fate.step S c.block.inner m = c.block.inner)
    (hlayer : Fate.step (Observe.service S) c.block.layer m = c.block.layer)
    (hlog : Fate.log (Observe.service S) c.block.layer m = Fate.log S c.block.inner m) :
    Tracks S c m c :=
  ⟨hinner.symm,hlayer.symm,[],(List.append_nil _).symm,by simpa using hlog⟩

theorem Recorded.tracks (h : Recorded operationId polled c) {m : Move}
    (hs : Call.step S c m = some c') : Tracks S c m c' := by
  obtain ⟨block,offered⟩ := c
  cases m with
  | poll w =>
    cases block with
    | unresumed guard f =>
      obtain ⟨-,-,hfinished,-,-⟩ := h
      obtain rfl := Option.some.inj hs
      obtain ⟨hinner,hlayer,hlogged⟩ := poll_agrees S ⟨.unresumed guard f,offered⟩ hfinished f w
      exact ⟨hinner,hlayer,hlogged⟩
    | awaiting guard f =>
      obtain ⟨-,-,hfinished,hlaunched,-⟩ := h
      obtain rfl := Option.some.inj hs
      have hguard : guard.markLaunched = guard := by
        rw [ReceiptGuard.markLaunched,←hlaunched]
      obtain ⟨hinner,hlayer,hlogged⟩ := poll_agrees S ⟨.awaiting guard f,offered⟩ hfinished f w
      rw [hguard] at hinner hlayer hlogged
      exact ⟨hinner,hlayer,hlogged⟩
    | dropped => cases hs
    | returned | panicked =>
      obtain rfl := Option.some.inj hs
      exact .idle rfl rfl rfl
  | drop w =>
    cases block with
    | unresumed guard f | awaiting guard f =>
      obtain rfl := Option.some.inj hs
      exact ⟨rfl,rfl,_,rfl,drop_agrees S h.2.2.1 f w⟩
    | dropped => cases hs
    | returned | panicked =>
      obtain rfl := Option.some.inj hs
      exact .idle rfl rfl rfl
  | background k w =>
    cases block with
    | unresumed guard f | awaiting guard f =>
      obtain rfl := Option.some.inj hs
      exact ⟨rfl,rfl,[],(List.append_nil _).symm,(List.append_nil _).symm⟩
    | returned | panicked | dropped =>
      obtain rfl := Option.some.inj hs
      exact .idle rfl rfl rfl

/-- A run of a call is that run of the inner future and of the layer's, and offers what the layer
logs. -/
theorem tracked_of_run {request : AgentRequest T} {f : S.Future} {w : CallWorld} {t : List Move}
    (h : (observed S (begun request f w)).run t = some c')
    {layered : Observed S.Future}
    (hlayered : layered = (ReceiptGuard.new request.context.operationId w).observing f) :
    Recorded request.context.operationId (Polls t) c' ∧ c'.block.inner = Fate.after S f t ∧
      c'.block.layer = Fate.after (Observe.service S) layered t ∧
      Emitted S layered f t c'.offered := by
  have hstart : Recorded request.context.operationId false (begun request f w) :=
    ⟨rfl,rfl,rfl,rfl,rfl⟩
  refine ⟨recorded_of_run h hstart,?_⟩
  refine Machine.invariant (M := observed S (begun request f w))
    (P := fun t c => c.block.inner = Fate.after S f t ∧
      c.block.layer = Fate.after (Observe.service S) layered t ∧ Emitted S layered f t c.offered)
    ⟨rfl,by rw [hlayered]; rfl,.nil⟩ (fun t c m c'' hr ⟨hinner,hlayer,hemitted⟩ hl => ?_) h
  obtain ⟨hinner',hlayer',new,hnew,hlog⟩ := (recorded_of_run hr hstart).tracks hl
  rw [hinner,hlayer] at hlog
  refine ⟨?_,?_,?_⟩
  · rw [hinner',hinner,Fate.after_concat]
  · rw [hlayer',hlayer]
    exact (Fate.after_concat (Observe.service S) layered t m).symm
  · rw [hnew]
    exact .concat hemitted hlog

end Tracking

/-- Every call whose inner `call` returned a future offers nothing while the inner call is held, and
then one receipt, under the identity of its operation: that it succeeded or failed as the inner call
settled, or that it was abandoned by a panic or a drop of the inner call, possibly with effects
exactly when it had been polled. These are the receipts that the layer's own future logs. -/
theorem call_receipted {T : Type} (S : AgentService (AgentRequest T)) {s s₁ : S.State}
    {request : AgentRequest T} {w w₁ : CallWorld} {f : S.Future} {c : Call S.Future}
    {t : List Move} (hcall : S.call s request w = (.returned f,s₁,w₁))
    (h : (observed S (begun request f w₁)).run t = some c) :
    (∃ layered, (Observe.service S).call s request w = (.returned layered,s₁,w₁.pass) ∧
      c.block.layer = Fate.after (Observe.service S) layered t ∧ Emitted S layered f t c.offered) ∧
    ((Fate.after S f t).Held → c.offered = []) ∧
    (¬(Fate.after S f t).Held → ∃ r, c.offered = [r] ∧
      r.operationId = request.context.operationId ∧
      (r.status = .succeeded ↔ ∃ o, Fate.after S f t = .settled (.ok o)) ∧
      (∀ kind phase effects, r.status = .failed kind phase effects ↔
        ∃ e, Fate.after S f t = .settled (.error e) ∧
          e.kind = kind ∧ e.phase = phase ∧ e.effects = effects) ∧
      ∀ effects, r.status = .abandoned effects ↔
        (Fate.after S f t = .panicked ∨ Fate.after S f t = .dropped) ∧
          effects = if Polls t then .possible else .none) := by
  obtain ⟨hrecorded,hinner,hlayer,hemitted⟩ := tracked_of_run h rfl
  refine ⟨⟨_,call_begun S hcall,hlayer,hemitted⟩,?_⟩
  rw [←hinner]
  obtain ⟨block,offered⟩ := c
  cases block with
  | unresumed guard f | awaiting guard f =>
    exact ⟨fun _ => hrecorded.1,fun hover => absurd trivial hover⟩
  | returned result =>
    refine ⟨False.elim,fun _ => ?_⟩
    obtain ⟨elapsed,hoffered⟩ := hrecorded
    refine ⟨_,hoffered,rfl,?_⟩
    cases result <;> simp [status, Block.inner]
  | panicked =>
    refine ⟨False.elim,fun _ => ?_⟩
    obtain ⟨elapsed,hoffered,hpolled⟩ := hrecorded
    refine ⟨_,hoffered,rfl,by simp [Block.inner],by simp [Block.inner],fun effects => ?_⟩
    simp only [hpolled, if_true, ReceiptStatus.abandoned.injEq, Block.inner, true_or, true_and]
    exact eq_comm
  | dropped =>
    refine ⟨False.elim,fun _ => ?_⟩
    obtain ⟨elapsed,hoffered⟩ := hrecorded
    refine ⟨_,hoffered,rfl,by simp [Block.inner],by simp [Block.inner],fun effects => ?_⟩
    simp only [ReceiptStatus.abandoned.injEq, Block.inner, or_true, true_and]
    exact eq_comm

/-- A future that is polled once and then dropped. -/
theorem call_receipted_sample :
    let S := Provider.service (AgentRequest Unit)
    let request : AgentRequest Unit := { context := ⟨7,none,none⟩, body := () }
    let w : CallWorld := { oracle := fun _ => { answer := {} } }
    ∃ f s₁ w₁ c, S.call () request w = (.returned f,s₁,w₁) ∧
      (observed S (begun request f w₁)).run [.poll w,.drop w] = some c ∧
      ∃ r, c.offered = [r] ∧ r.operationId = 7 ∧ r.status = .abandoned .possible := by
  intro S request w
  obtain ⟨f,s₁,w₁,c,hcall,hrun,hdropped⟩ : ∃ f s₁ w₁ c,
      S.call () request w = (.returned f,s₁,w₁) ∧
      (observed S (begun request f w₁)).run [.poll w,.drop w] = some c ∧
      Fate.after S f [.poll w,.drop w] = .dropped := ⟨_,_,_,_,rfl,rfl,rfl⟩
  have hover : ¬(Fate.after S f [.poll w,.drop w]).Held := by
    rw [hdropped]
    exact not_false
  obtain ⟨r,hoffered,hid,-,-,habandoned⟩ := (call_receipted S hcall hrun).2.2 hover
  exact ⟨f,s₁,w₁,c,hcall,hrun,r,hoffered,hid,(habandoned .possible).mpr ⟨.inr hdropped,rfl⟩⟩

end TowerAgent.Kernel.Observe
