import TowerAgent.Workflow.Execution

/-! What one step of the runner can do: an inversion of `executeStep`, and the record a trace
leaves of admissions, calls and settlements. -/
namespace TowerAgent.Workflow
open Lib
open Std (ExtTreeMap ExtTreeSet)

variable {I J O E : Type}

section Inversion
variable (max : ℕ) (request : WorkflowRequest I J)

/-- Moves of the loop that change nothing but the point it stands at. -/
inductive Control (s : State I J O E) : Event O E → Pc I J O E → Prop where
  | notCancelled (h : s.pc = .start) (hc : s.callerCancelled = false) :
      Control s .advance .startDeadline
  | notExpired (h : s.pc = .startDeadline) (he : expired request s = false) :
      Control s .advance .admitStep
  | closed (h : s.pc = .admitStep) (hf : s.stopReason.isSome ∨ max ≤ s.inFlight.length) :
      Control s .advance .gate
  | clear (h : s.pc = .admitStep) (hn : s.stopReason = none) (hr : s.inFlight.length < max)
      (hc : s.callerCancelled = false) : Control s .advance .admitDeadline
  | inTime (h : s.pc = .admitDeadline) (he : expired request s = false) : Control s .advance .admitPop
  | noneReady (h : s.pc = .admitPop) (hp : popFirst s.ready = none) : Control s .advance .gate
  | busy (h : s.pc = .gate) (hf : s.inFlight ≠ []) : Control s .advance .await
  | drain (h : s.pc = .await) (hs : s.stopReason.isSome) : Control s .advance .drive
  | race (h : s.pc = .await) (hn : s.stopReason = none) (hc : s.callerCancelled = false)
      (hd : request.context.deadline.isSome) : Control s .advance .awaitDeadline
  | untimed (h : s.pc = .await) (hn : s.stopReason = none) (hc : s.callerCancelled = false)
      (hd : request.context.deadline = none) : Control s .advance .drive
  | unfired (h : s.pc = .awaitDeadline) : Control s (.timer false) .drive
  | park (h : s.pc = .drive) : Control s .park .await

/-- Moves of the loop that latch a stop reason. -/
inductive Latches (s : State I J O E) : Event O E → StopReason → Pc I J O E → Prop where
  | startCancelled (h : s.pc = .start) (hc : s.callerCancelled = true) :
      Latches s .advance .externalCancellation .admitStep
  | startExpired (h : s.pc = .startDeadline) (he : expired request s = true) :
      Latches s .advance .deadline .admitStep
  | admitCancelled (h : s.pc = .admitStep) (hn : s.stopReason = none) (hc : s.callerCancelled = true) :
      Latches s .advance .externalCancellation .gate
  | admitExpired (h : s.pc = .admitDeadline) (he : expired request s = true) :
      Latches s .advance .deadline .gate
  | awaitCancelled (h : s.pc = .await) (hn : s.stopReason = none) (hc : s.callerCancelled = true) :
      Latches s .advance .externalCancellation .admitStep
  | fired (h : s.pc = .awaitDeadline) (he : expired request s = true) :
      Latches s (.timer true) .deadline .admitStep

/-- What recording a completed flight does. -/
inductive Records (s : State I J O E) (id : StepId) :
    StepSettlement O E → State I J O E → Prop where
  | notCalled : Records s id .notCalled s
  | succeeded {output : O} {successors : List StepId} {remaining : ExtTreeMap StepId ℕ}
      {ready : ExtTreeSet StepId} (hn : s.stopReason = none)
      (ho : s.outgoing[id]? = some successors)
      (hc : countDown "validated successor must exist" (s.remaining,s.ready) successors =
        .ok (remaining,ready)) :
      Records s id (.settled (.ok output))
        { s with outputs := s.outputs.insert id output, remaining, ready }
  | drained {output : O} (hs : s.stopReason.isSome) :
      Records s id (.settled (.ok output)) { s with outputs := s.outputs.insert id output }
  | failed {error : E} (hn : s.stopReason = none) :
      Records s id (.settled (.error error))
        ({ s with failures := s.failures ++ [StepFailure.mk id error] }.latch .stepFailure)
  | drainedFailure {error : E} (hs : s.stopReason.isSome) :
      Records s id (.settled (.error error))
        { s with failures := s.failures ++ [StepFailure.mk id error] }

/-- The places where `execute` could abort. -/
inductive Aborts (s : State I J O E) : Panic → Prop where
  | admission {id : StepId} {ready : ExtTreeSet StepId} {p : Panic} (h : s.pc = .admitPop)
      (hp : popFirst s.ready = some (id,ready)) (hm : makeCall request s id = .error p) : Aborts s p
  | recording {id : StepId} {settlement : StepSettlement O E} {p : Panic}
      (h : s.pc = .settle id settlement) (hr : record s id settlement = .error p) : Aborts s p
  | conclusion {p : Panic} (h : s.pc = .gate) (hf : s.inFlight = [])
      (hc : conclude request s = .error p) : Aborts s p

/-- Events outside the runner. -/
def Event.external : Event O E → Bool
  | .cancelCaller | .cancelReturned | .tick _ => true
  | _ => false

/-- Everything one step can do. -/
inductive Transition (s : State I J O E) : Event O E → State I J O E → Prop where
  | outside {e : Event O E} {c r : Bool} {n : ℕ} (he : e.external = true)
      (hc : s.callerCancelled = true → c = true) (hk : e ≠ .cancelCaller → c = s.callerCancelled)
      (hr : r = true → s.cancelReturned = true ∨ s.callerCancelled = true) :
      Transition s e { s with callerCancelled := c, cancelReturned := r, now := n }
  | control {e : Event O E} {pc : Pc I J O E} (h : Control max request s e pc) :
      Transition s e (s.goto pc)
  | latch {e : Event O E} {reason : StopReason} {pc : Pc I J O E}
      (h : Latches request s e reason pc) : Transition s e ((s.latch reason).goto pc)
  | abort {e : Event O E} {p : Panic} (h : Aborts request s p) :
      Transition s e (s.goto (.panicked p))
  | finish {result : Except (WorkflowFailure E O) (WorkflowOutcome O)} (h : s.pc = .gate)
      (hf : s.inFlight = []) (hc : conclude request s = .ok result) :
      Transition s .advance (s.goto (.finished result))
  | record {id : StepId} {settlement : StepSettlement O E} {s' : State I J O E}
      (h : s.pc = .settle id settlement) (hr : Records s id settlement s') :
      Transition s .advance (s'.goto .admitStep)
  | admitStep {id : StepId} {ready : ExtTreeSet StepId} {call : StepCall I J O} (h : s.pc = .admitPop)
      (hp : popFirst s.ready = some (id,ready)) (hm : makeCall request s id = .ok call) :
      Transition s (.admitStep id)
        { s with ready, inFlight := s.inFlight ++ [Flight.mk call .select], pc := .admitStep }
  | poll {index : ℕ} {f : Flight I J O} (h : s.pc = .drive) (hf : s.inFlight[index]? = some f) :
      Transition s (.poll index)
        { s with inFlight := s.inFlight.eraseIdx index, pc := .polling f }
  | tokenSeen {f : Flight I J O} (h : s.pc = .polling f) (hp : f.phase = .select ∨ f.phase = .readied)
      (hc : s.callerCancelled = true ∨ s.runCancelled = true) :
      Transition s (.readToken f.id true) (s.goto (.settle f.id .notCalled))
  | tokenClear {f : Flight I J O} {p : Phase} (h : s.pc = .polling f)
      (hp : f.phase = .select ∧ p = .selectReady ∨ f.phase = .readied ∧ p = .checked)
      (hc : s.cancelReturned = false) (hr : s.runCancelled = false) :
      Transition s (.readToken f.id false) (s.goto (.polling { f with phase := p }))
  | readyPending {f : Flight I J O} (h : s.pc = .polling f) (hp : f.phase = .selectReady) :
      Transition s (.pollReady f.id .pending) (s.suspend { f with phase := .select })
  | readyOk {f : Flight I J O} (h : s.pc = .polling f) (hp : f.phase = .selectReady) :
      Transition s (.pollReady f.id .ok) (s.goto (.polling { f with phase := .readied }))
  | readyErr {f : Flight I J O} {error : E} (h : s.pc = .polling f) (hp : f.phase = .selectReady) :
      Transition s (.pollReady f.id (.err error)) (s.goto (.settle f.id (.settled (.error error))))
  | call {f : Flight I J O} (h : s.pc = .polling f) (hp : f.phase = .checked) :
      Transition s (.call f.id) (s.goto (.polling { f with phase := .calling }))
  | callPending {f : Flight I J O} (h : s.pc = .polling f) (hp : f.phase = .calling) :
      Transition s (.pollCall f.id .pending) (s.suspend f)
  | callSettled {f : Flight I J O} {result : Except E O} (h : s.pc = .polling f)
      (hp : f.phase = .calling) :
      Transition s (.pollCall f.id (.settled result)) (s.goto (.settle f.id (.settled result)))

variable {max request}

lemma record_records {s s' : State I J O E} {id : StepId} {settlement : StepSettlement O E}
    (h : record s id settlement = .ok s') : Records s id settlement s' := by
  cases settlement with
  | notCalled => exact Except.ok.inj h ▸ .notCalled
  | settled result =>
    cases result with
    | ok output =>
      simp only [record] at h
      split at h
      · next hn =>
        have hn : s.stopReason = none := by simpa using hn
        split at h
        · cases h
        · next successors ho =>
          cases hc : countDown "validated successor must exist" (s.remaining,s.ready) successors with
          | error p => simp [hc, bind, Except.bind] at h
          | ok q =>
            simp only [hc, bind, Except.bind, Except.ok.injEq] at h
            exact h ▸ .succeeded hn ho hc
      · next hs =>
        exact Except.ok.inj h ▸ .drained (by simpa [Option.isSome_iff_ne_none] using hs)
    | error error =>
      simp only [record] at h
      split at h
      · next hn => exact Except.ok.inj h ▸ .failed (by simpa using hn)
      · next hs =>
        exact Except.ok.inj h ▸ .drainedFailure (by simpa [Option.isSome_iff_ne_none] using hs)

lemma advance_transition {s s' : State I J O E} (h : advance max request s = some s') :
    Transition max request s .advance s' := by
  unfold advance at h
  split at h
  · next hpc =>
    split at h
    · next hc => exact Option.some.inj h ▸ .latch (.startCancelled hpc hc)
    · next hc => exact Option.some.inj h ▸ .control (.notCancelled hpc (by simpa using hc))
  · next hpc =>
    split at h
    · next he => exact Option.some.inj h ▸ .latch (.startExpired hpc he)
    · next he => exact Option.some.inj h ▸ .control (.notExpired hpc (by simpa using he))
  · next hpc =>
    split at h
    · next hroom =>
      simp only [Bool.and_eq_true, Option.isNone_iff_eq_none, decide_eq_true_eq] at hroom
      split at h
      · next hc => exact Option.some.inj h ▸ .latch (.admitCancelled hpc hroom.1 hc)
      · next hc =>
        exact Option.some.inj h ▸ .control (.clear hpc hroom.1 hroom.2 (by simpa using hc))
    · next hroom =>
      refine Option.some.inj h ▸ .control (.closed hpc ?_)
      simp only [Bool.and_eq_true, Option.isNone_iff_eq_none, decide_eq_true_eq, not_and] at hroom
      cases hs : s.stopReason with
      | none => exact .inr (Nat.le_of_not_lt (hroom hs))
      | some r => exact .inl rfl
  · next hpc =>
    split at h
    · next he => exact Option.some.inj h ▸ .latch (.admitExpired hpc he)
    · next he => exact Option.some.inj h ▸ .control (.inTime hpc (by simpa using he))
  · next hpc =>
    split at h
    · next hp => exact Option.some.inj h ▸ .control (.noneReady hpc (by simpa using hp))
    · cases h
  · next hpc =>
    split at h
    · next hf =>
      have hf : s.inFlight = [] := by simpa using hf
      cases hc : conclude request s with
      | error p =>
        simp only [hc, Except.map, State.land, Option.some.injEq] at h
        exact h ▸ .abort (.conclusion hpc hf hc)
      | ok r =>
        simp only [hc, Except.map, State.land, Option.some.injEq] at h
        exact h ▸ .finish hpc hf hc
    · next hf => exact Option.some.inj h ▸ .control (.busy hpc (by simpa using hf))
  · next hpc =>
    split at h
    · next hs => exact Option.some.inj h ▸ .control (.drain hpc hs)
    · next hs =>
      have hs : s.stopReason = none := by simpa using hs
      split at h
      · next hc => exact Option.some.inj h ▸ .latch (.awaitCancelled hpc hs hc)
      · next hc =>
        have hc : s.callerCancelled = false := by simpa using hc
        split at h
        · next hd => exact Option.some.inj h ▸ .control (.race hpc hs hc hd)
        · next hd =>
          exact Option.some.inj h ▸ .control (.untimed hpc hs hc (by simpa using hd))
  · next id settlement hpc =>
    cases hr : record s id settlement with
    | error p =>
      simp only [hr, Except.map, State.land, Option.some.injEq] at h
      exact h ▸ .abort (.recording hpc hr)
    | ok s'' =>
      simp only [hr, Except.map, State.land, Option.some.injEq] at h
      exact h ▸ .record hpc (record_records hr)
  · cases h

lemma admitStep_transition {s s' : State I J O E} {id : StepId} (h : admitStep request s id = some s') :
    Transition max request s (.admitStep id) s' := by
  unfold admitStep at h
  split at h
  · next step ready hpc hp =>
    split at h
    · next hid =>
      subst hid
      cases hm : makeCall request s step with
      | error p =>
        simp only [hm, Except.map, State.land, Option.some.injEq] at h
        exact h ▸ .abort (.admission hpc hp hm)
      | ok call =>
        simp only [hm, Except.map, State.land, Option.some.injEq] at h
        exact h ▸ .admitStep hpc hp hm
    · cases h
  · cases h

lemma flightStep_transition {s s' : State I J O E} {f : Flight I J O} {e : Event O E}
    (hpc : s.pc = .polling f) (h : flightStep s f e = some s') : Transition max request s e s' := by
  cases e with
  | readToken id cancelled =>
    simp only [flightStep] at h
    split at h
    · next hid =>
      obtain ⟨rfl,hread⟩ := hid
      cases cancelled with
      | true =>
        have hc : s.callerCancelled = true ∨ s.runCancelled = true := by
          simpa [tokenMayRead] using hread
        split at h
        · next hp => exact Option.some.inj h ▸ .tokenSeen hpc (.inl hp) hc
        · next hp => exact Option.some.inj h ▸ .tokenSeen hpc (.inr hp) hc
        · cases h
      | false =>
        have hc : s.cancelReturned = false ∧ s.runCancelled = false := by
          simpa [tokenMayRead] using hread
        split at h
        · next hp => exact Option.some.inj h ▸ .tokenClear hpc (.inl ⟨hp,rfl⟩) hc.1 hc.2
        · next hp => exact Option.some.inj h ▸ .tokenClear hpc (.inr ⟨hp,rfl⟩) hc.1 hc.2
        · cases h
    · cases h
  | pollReady id answer =>
    simp only [flightStep] at h
    split at h
    · next hid =>
      obtain ⟨rfl,hp⟩ := hid
      cases answer with
      | pending => exact Option.some.inj h ▸ .readyPending hpc hp
      | ok => exact Option.some.inj h ▸ .readyOk hpc hp
      | err error => exact Option.some.inj h ▸ .readyErr hpc hp
    · cases h
  | call id =>
    simp only [flightStep] at h
    split at h
    · next hid =>
      obtain ⟨rfl,hp⟩ := hid
      exact Option.some.inj h ▸ .call hpc hp
    · cases h
  | pollCall id answer =>
    simp only [flightStep] at h
    split at h
    · next hid =>
      obtain ⟨rfl,hp⟩ := hid
      cases answer with
      | pending => exact Option.some.inj h ▸ .callPending hpc hp
      | settled result => exact Option.some.inj h ▸ .callSettled hpc hp
    · cases h
  | _ => simp [flightStep] at h

/-- The inversion of one step. -/
theorem executeStep_transition {s s' : State I J O E} {e : Event O E}
    (h : executeStep max request s e = some s') : Transition max request s e s' := by
  cases e with
  | cancelCaller => exact Option.some.inj h ▸ .outside rfl (fun _ => rfl) (fun h => absurd rfl h) .inl
  | cancelReturned =>
    simp only [executeStep] at h
    split at h
    · next hc => exact Option.some.inj h ▸ .outside rfl id (fun _ => rfl) (fun _ => .inr hc)
    · cases h
  | tick n => exact Option.some.inj h ▸ .outside rfl id (fun _ => rfl) .inl
  | advance => exact advance_transition h
  | admitStep id => exact admitStep_transition h
  | timer fired =>
    simp only [executeStep, timer] at h
    split at h
    · next hpc =>
      cases fired with
      | true =>
        simp only [if_true] at h
        split at h
        · next he => exact Option.some.inj h ▸ .latch (.fired hpc he)
        · cases h
      | false => exact Option.some.inj h ▸ .control (.unfired hpc)
    · cases h
  | poll index =>
    simp only [executeStep, poll] at h
    split at h
    · next f hpc hf => exact Option.some.inj h ▸ .poll hpc hf
    · cases h
  | park =>
    simp only [executeStep, park] at h
    split at h
    · next hpc => exact Option.some.inj h ▸ .control (.park hpc)
    · cases h
  -- the events inside the flight being polled
  | _ =>
    simp only [executeStep] at h
    split at h
    · next f hpc => exact flightStep_transition hpc h
    · cases h

end Inversion
end TowerAgent.Workflow
