import Mathlib.Data.List.Induction

/-! Poll-driven services over a shared world: readiness, calls, futures that are polled or dropped,
tasks a runtime polls, and the contract rule that carries what a service promises to whole runs of
its caller. The world answers from an oracle, so a statement for every oracle is one for every
environment and every schedule. -/
namespace TowerAgent.Lib

/-- Code returns a value or unwinds with the text of its panic, when it has one. -/
inductive Unwind (α : Type) where
  | returned (value : α)
  | panicked (payload : Option String)

def Unwind.map {α β : Type} (f : α → β) : Unwind α → Unwind β
  | .returned value => .returned (f value)
  | .panicked payload => .panicked payload

/-- The value that was returned, if the code did not unwind. -/
def Unwind.toOption {α : Type} : Unwind α → Option α
  | .returned value => some value
  | .panicked _ => none

inductive Poll (α : Type) where
  | pending
  | ready (value : α)

/-- What one poll of a future gave: the future that is left, its result, or a panic. -/
inductive Polled (F R : Type) where
  | pending (future : F)
  | ready (result : R)
  | panicked (payload : Option String)

namespace Polled
variable {F G R : Type}

def map (f : F → G) : Polled F R → Polled G R
  | .pending future => .pending (f future)
  | .ready result => .ready result
  | .panicked payload => .panicked payload

/-- The future that is left to poll. -/
def left : Polled F R → Option F
  | .pending future => some future
  | _ => none

end Polled

/-- What the outside contributes when the code consults it: whether someone cancelled the call,
the time that passed, and the answer itself. -/
structure Moment (α : Type) where
  cancel : Bool := false
  elapsed : ℕ := 0
  answer : α

/-- The surroundings of one call: its cancellation token, the clock, the outside's answers, and
the events so far, the oldest first. -/
structure World (α ε : Type) where
  oracle : ℕ → Moment α
  tick : ℕ := 0
  cancelled : Bool := false
  now : ℕ := 0
  log : List ε := []

namespace World
variable {α ε : Type} (w : World α ε)

/-- Let the outside move. -/
def pass : World α ε :=
  { w with
    tick := w.tick+1
    cancelled := w.cancelled || (w.oracle w.tick).cancel
    now := w.now + (w.oracle w.tick).elapsed }

/-- The outside's next answer. -/
def answer : α := (w.oracle w.tick).answer

def cancel : World α ε := { w with cancelled := true }

def emit (e : ε) : World α ε := { w with log := w.log ++ [e] }

@[simp] theorem pass_log : w.pass.log = w.log := by rfl

end World

/-- The log is extended by events of one kind. -/
def Grows {α ε : Type} (P : ε → Prop) (w w' : World α ε) : Prop :=
  ∃ ext, w'.log = w.log ++ ext ∧ ∀ e ∈ ext, P e

namespace Grows
variable {α ε : Type} {P : ε → Prop} {w w' w'' : World α ε}

theorem refl (w : World α ε) : Grows P w w := ⟨[],by simp⟩

theorem trans (h : Grows P w w') (h' : Grows P w' w'') : Grows P w w'' := by
  obtain ⟨u,hu,he⟩ := h
  obtain ⟨u',hu',he'⟩ := h'
  refine ⟨u ++ u',by rw [hu',hu,List.append_assoc],fun e hm => ?_⟩
  exact (List.mem_append.mp hm).elim (he e) (he' e)

theorem emit {e : ε} (h : Grows P w w') (he : P e) : Grows P w (w'.emit e) :=
  h.trans ⟨[e],rfl,fun _ hx => List.mem_singleton.mp hx ▸ he⟩

/-- A new event is of the kind. -/
theorem of_mem (h : Grows P w w') {e : ε} (he : e ∈ w'.log) : e ∈ w.log ∨ P e := by
  obtain ⟨u,hu,hP⟩ := h
  rw [hu] at he
  exact (List.mem_append.mp he).imp_right (hP e)

end Grows

/-- A service: readiness and calls on its state, and the futures its calls return. Polling is the
caller's; `background` lets the runtime poll one of the tasks spawned below a future; a dropped
future is kept as what it leaves behind. -/
structure Service (W Request Result Error : Type) where
  State : Type
  Future : Type
  clone : State → State
  pollReady : State → W → Unwind (Poll (Except Error Unit)) × State × W
  call : State → Request → W → Unwind Future × State × W
  poll : Future → W → Polled Future Result × W
  drop : Future → W → Future × W
  background : ℕ → Future → W → Future × W

/-- What a contract says of the log: before the call, once readiness or the call is answered, after
a panic, and at all times; `probe` is what readiness may log. -/
structure Terms (ε Result Error : Type) where
  safe : List ε → Prop
  idle : List ε → Prop
  refused : Error → List ε → Prop
  done : Result → List ε → Prop
  broken : List ε → Prop
  probe : ε → Prop

section Contract
variable {α ε σ τ F G Request Result Error : Type}

/-- A call that returns a future within the invariant, or breaks. -/
def Launches (T : Terms ε Result Error) (inv : F → List ε → Prop) :
    Unwind F × σ × World α ε → Prop
  | (.returned f,_,w) => inv f w.log
  | (.panicked _,_,w) => T.broken w.log

/-- A poll that leaves a future within the invariant, is done, or breaks. -/
def Settles (T : Terms ε Result Error) (inv : F → List ε → Prop) :
    Polled F Result × World α ε → Prop
  | (.pending f,w) => inv f w.log
  | (.ready r,w) => T.done r w.log
  | (.panicked _,w) => T.broken w.log

/-- A readiness poll that only probes, and whose errors are refusals. -/
structure Probes (T : Terms ε Result Error) (w : World α ε)
    (x : Unwind (Poll (Except Error Unit)) × σ × World α ε) : Prop where
  log : ∃ ext, x.2.2.log = w.log ++ ext ∧ ∀ e ∈ ext, T.probe e
  error : ∀ e, x.1 = .returned (.ready (.error e)) → T.refused e x.2.2.log

/-- What is stable under probing survives a readiness poll. -/
theorem Probes.stable {T : Terms ε Result Error} {w : World α ε}
    {x : Unwind (Poll (Except Error Unit)) × σ × World α ε} (h : Probes T w x)
    {P : List ε → Prop} (hP : ∀ log e, P log → T.probe e → P (log ++ [e])) (hw : P w.log) :
    P x.2.2.log := by
  obtain ⟨ext,hx,he⟩ := h.log
  rw [hx]
  clear hx
  induction ext using List.reverseRecOn with
  | nil => simpa using hw
  | append_singleton ext e ih =>
    rw [←List.append_assoc]
    exact hP _ e (ih fun e' hm => he e' (List.mem_append_left _ hm)) (he e (by simp))

theorem Launches.map {T : Terms ε Result Error} {inv : F → List ε → Prop}
    {inv' : G → List ε → Prop} {x : Unwind F × σ × World α ε} (h : Launches T inv x)
    (future : F → G) (state : σ → τ) (hf : ∀ f log, inv f log → inv' (future f) log) :
    Launches T inv' (x.1.map future,state x.2.1,x.2.2) := by
  obtain ⟨u,s,w⟩ := x
  cases u with
  | returned f => exact hf f _ h
  | panicked payload => exact h

theorem Settles.map {T : Terms ε Result Error} {inv : F → List ε → Prop}
    {inv' : G → List ε → Prop} {x : Polled F Result × World α ε} (h : Settles T inv x)
    (future : F → G) (hf : ∀ f log, inv f log → inv' (future f) log) :
    Settles T inv' (x.1.map future,x.2) := by
  obtain ⟨p,w⟩ := x
  cases p with
  | pending f => exact hf f _ h
  | ready r => exact h
  | panicked payload => exact h

/-- A service keeps the terms, with an invariant relating each open future to the log. -/
structure Keeps (T : Terms ε Result Error) (S : Service (World α ε) Request Result Error)
    (inv : S.Future → List ε → Prop) : Prop where
  safe : ∀ f log, inv f log → T.safe log
  pollReady : ∀ s w, Probes T w (S.pollReady s w)
  call : ∀ s request w, T.idle w.log → Launches T inv (S.call s request w)
  poll : ∀ f w, inv f w.log → Settles T inv (S.poll f w)
  background : ∀ k f w, inv f w.log → inv (S.background k f w).1 (S.background k f w).2.log

/-- An invariant may be restated. -/
theorem Keeps.congr {T : Terms ε Result Error} {S : Service (World α ε) Request Result Error}
    {inv inv' : S.Future → List ε → Prop} (h : Keeps T S inv)
    (hinv : ∀ f log, inv f log ↔ inv' f log) : Keeps T S inv' := by
  obtain rfl : inv = inv' := funext fun f => funext fun log => propext (hinv f log)
  exact h

end Contract

/-- Where the caller of one call stands. -/
inductive Caller (F R : Type) where
  | idle
  | holding (future : F)
  | dropped (left : F)
  | resolved (result : R)
  | crashed

/-- One caller, its service and the world; `refusals` are the readiness errors it was given, each
with the log at that time. -/
structure Session {α ε Request Result Error : Type}
    (S : Service (World α ε) Request Result Error) where
  world : World α ε
  service : S.State
  caller : Caller S.Future Result := .idle
  refusals : List (Error × List ε) := []

/-- What can happen next: the caller acts, the runtime polls a spawned task, or time passes. -/
inductive Op (Request : Type) where
  | pollReady
  | clone
  | call (request : Request)
  | poll
  | background (k : ℕ)
  | drop
  | pass

namespace Session
variable {α ε Request Result Error : Type} {S : Service (World α ε) Request Result Error}

/-- One step; a step the caller cannot take leaves the session as it is. -/
def drive (s : Session S) : Op Request → Session S
  | .pollReady => match s.caller with
    | .idle => match S.pollReady s.service s.world with
      | (.returned (.ready (.error e)), service, world) =>
        { s with service, world, refusals := s.refusals ++ [(e, world.log)] }
      | (.returned _, service, world) => { s with service, world }
      | (.panicked _, service, world) => { s with service, world, caller := .crashed }
    | _ => s
  | .clone => match s.caller with
    | .idle => { s with service := S.clone s.service }
    | _ => s
  | .call request => match s.caller with
    | .idle => match S.call s.service request s.world with
      | (.returned f, service, world) => { s with service, world, caller := .holding f }
      | (.panicked _, service, world) => { s with service, world, caller := .crashed }
    | _ => s
  | .poll => match s.caller with
    | .holding f => match S.poll f s.world with
      | (.pending f', world) => { s with world, caller := .holding f' }
      | (.ready r, world) => { s with world, caller := .resolved r }
      | (.panicked _, world) => { s with world, caller := .crashed }
    | _ => s
  | .background k => match s.caller with
    | .holding f => let (f', world) := S.background k f s.world
      { s with world, caller := .holding f' }
    | .dropped f => let (f', world) := S.background k f s.world
      { s with world, caller := .dropped f' }
    | _ => s
  | .drop => match s.caller with
    | .holding f => let (f', world) := S.drop f s.world
      { s with world, caller := .dropped f' }
    | _ => s
  | .pass => { s with world := s.world.pass }

def run (s : Session S) (ops : List (Op Request)) : Session S := ops.foldl drive s

/-- A session before anything happened, in a world with some oracle, token and clock. -/
def fresh (oracle : ℕ → Moment α) (cancelled : Bool) (now : ℕ) (service : S.State) : Session S where
  world := { oracle, cancelled, now }
  service := service

theorem run_concat (s : Session S) (ops : List (Op Request)) (op : Op Request) :
    s.run (ops ++ [op]) = (s.run ops).drive op := by
  simp [run, List.foldl_append]

/-- A poll that is done resolves the call. -/
theorem drive_poll_ready {s : Session S} {f : S.Future} {r : Result} {w : World α ε}
    (hc : s.caller = .holding f) (hp : S.poll f s.world = (.ready r,w)) :
    (s.drive .poll).caller = .resolved r := by
  simp only [drive, hc, hp]

/-- A call resolves only by a poll that is done. -/
theorem poll_of_resolved {s : Session S} {f : S.Future} {r : Result} (hc : s.caller = .holding f)
    (h : (s.drive .poll).caller = .resolved r) : ∃ w, S.poll f s.world = (.ready r,w) := by
  simp only [drive, hc] at h
  cases hp : S.poll f s.world with
  | mk polled w =>
    rw [hp] at h
    cases polled with
    | pending f' => cases h
    | ready r' =>
      obtain rfl := Caller.resolved.inj h
      exact ⟨w,rfl⟩
    | panicked payload => cases h

/-- What the contract says of a session, with `left` for what a dropped future leaves behind. -/
structure Standing (T : Terms ε Result Error) (inv left : S.Future → List ε → Prop)
    (s : Session S) : Prop where
  caller : match s.caller with
    | .idle => T.idle s.world.log
    | .holding f => inv f s.world.log
    | .dropped f => left f s.world.log
    | .resolved r => T.done r s.world.log
    | .crashed => T.idle s.world.log ∨ T.broken s.world.log
  refusals : ∀ p ∈ s.refusals, T.refused p.1 p.2

section Run
variable {T : Terms ε Result Error} {inv : S.Future → List ε → Prop}
  (left : S.Future → List ε → Prop) (h : Keeps T S inv)
  (hp : ∀ log e, T.idle log → T.probe e → T.idle (log ++ [e]))
  (hd : ∀ f w, inv f w.log → left (S.drop f w).1 (S.drop f w).2.log)
  (hb : ∀ k f w, left f w.log → left (S.background k f w).1 (S.background k f w).2.log)
include h hp hd hb

theorem drive_standing (s : Session S) (op : Op Request) (hs : s.Standing T inv left) :
    (s.drive op).Standing T inv left := by
  obtain ⟨world,service,caller,refusals⟩ := s
  obtain ⟨hc,hr⟩ := hs
  cases op with
  | pollReady =>
    cases caller with
    | idle =>
      have hidle := (h.pollReady service world).stable hp hc
      have hrefused := (h.pollReady service world).error
      simp only [drive]
      rcases hp : S.pollReady service world with ⟨answer,service',world'⟩
      simp only [hp] at hidle hrefused
      match answer with
      | .returned (.ready (.error e)) =>
        refine ⟨hidle,fun p hm => ?_⟩
        rcases List.mem_append.mp hm with hm | hm
        · exact hr p hm
        · obtain rfl := List.mem_singleton.mp hm
          exact hrefused e rfl
      | .returned (.ready (.ok _)) | .returned .pending => exact ⟨hidle,hr⟩
      | .panicked _ => exact ⟨.inl hidle,hr⟩
    | _ => exact ⟨hc,hr⟩
  | clone => cases caller <;> exact ⟨hc,hr⟩
  | call request =>
    cases caller with
    | idle =>
      have hcall := h.call service request world hc
      simp only [drive]
      rcases hp : S.call service request world with ⟨answer,service',world'⟩
      simp only [hp] at hcall
      cases answer with
      | returned f => exact ⟨hcall,hr⟩
      | panicked payload => exact ⟨.inr hcall,hr⟩
    | _ => exact ⟨hc,hr⟩
  | poll =>
    cases caller with
    | holding f =>
      have hpoll := h.poll f world hc
      simp only [drive]
      rcases hp : S.poll f world with ⟨answer,world'⟩
      simp only [hp] at hpoll
      cases answer with
      | pending f' => exact ⟨hpoll,hr⟩
      | ready r => exact ⟨hpoll,hr⟩
      | panicked payload => exact ⟨.inr hpoll,hr⟩
    | _ => exact ⟨hc,hr⟩
  | background k =>
    cases caller with
    | holding f => exact ⟨h.background k f world hc,hr⟩
    | dropped f => exact ⟨hb k f world hc,hr⟩
    | _ => exact ⟨hc,hr⟩
  | drop =>
    cases caller with
    | holding f => exact ⟨hd f world hc,hr⟩
    | _ => exact ⟨hc,hr⟩
  | pass => cases caller <;> exact ⟨hc,hr⟩

/-- The contract holds of every session reached from a fresh one. -/
theorem run_standing (hi : T.idle []) (oracle : ℕ → Moment α) (cancelled : Bool) (now : ℕ)
    (service : S.State) (ops : List (Op Request)) :
    (run (fresh oracle cancelled now service : Session S) ops).Standing T inv left := by
  induction ops using List.reverseRecOn with
  | nil => exact ⟨hi,by simp [run, fresh]⟩
  | append_singleton ops op ih =>
    rw [run_concat]
    exact drive_standing left h hp hd hb _ op ih

end Run

end Session
end TowerAgent.Lib
