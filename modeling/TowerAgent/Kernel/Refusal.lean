import TowerAgent.Kernel.Stack

/-! A refusal before launch below an enforced deadline: it stays effect-free exactly when the race
with the timer and the token was still open as the inner call settled. -/
namespace TowerAgent.Kernel.Deadline
open Lib

section Race
variable {R : Type} (S : AgentService R)

/-- The world in which a settlement is awaited: a deadline cancels the call first. -/
def signalled : Interruption → CallWorld → CallWorld
  | .deadline, w => w.cancel
  | .cancelled, w => w

/-- What the race polls before and after the inner call. -/
def order (deadline : Option ℕ) (w : CallWorld) :
    List (Interruption × Option ℕ) × List (Interruption × Option ℕ) :=
  rotate w.answer.startBranch (branches deadline)

/-- In one poll of the response future the inner call settles with `r`: while the race is open, or
after the named branch has won it. -/
inductive Race : Enforced S.Future → CallWorld → CallResult → Option Interruption → Prop where
  /-- No branch polled before the inner call is ready. -/
  | within {deadline : Option ℕ} {f : S.Future} {w w₁ w₂ : CallWorld} {r : CallResult}
      (hb : watch (order deadline w).1 w.pass = (none,w₁))
      (hs : S.poll f w₁ = (.ready r,w₂)) : Race (.racing deadline f) w r none
  /-- A branch wins before the inner call is polled. -/
  | before {deadline : Option ℕ} {f : S.Future} {w w₁ w₂ : CallWorld} {r : CallResult}
      {cause : Interruption} (hb : watch (order deadline w).1 w.pass = (some cause,w₁))
      (hs : S.poll f (signalled cause w₁) = (.ready r,w₂)) :
      Race (.racing deadline f) w r (some cause)
  /-- A branch wins after the inner call was polled. -/
  | after {deadline : Option ℕ} {f f' : S.Future} {w w₁ w₂ w₃ w₄ : CallWorld} {r : CallResult}
      {cause : Interruption} (hb : watch (order deadline w).1 w.pass = (none,w₁))
      (hp : S.poll f w₁ = (.pending f',w₂))
      (ha : watch (order deadline w).2 w₂ = (some cause,w₃))
      (hs : S.poll f' (signalled cause w₃) = (.ready r,w₄)) :
      Race (.racing deadline f) w r (some cause)
  /-- A branch won in an earlier poll. -/
  | earlier {cause : Interruption} {f : S.Future} {w w₁ : CallWorld} {r : CallResult}
      (hs : S.poll f w = (.ready r,w₁)) : Race (.draining cause f) w r (some cause)

/-- What the future resolves to. -/
def outcome (r : CallResult) : Option Interruption → CallResult
  | none => r
  | some cause => .error (preserveSettlement cause.error r)

variable {S}

lemma drain_ready {cause : Interruption} {f : S.Future} {w w' : CallWorld} {r : CallResult}
    (h : S.poll f w = (.ready r,w')) :
    drain S cause f w = (.ready (outcome r (some cause)),w'.emit .drained) := by
  simp only [drain, h, outcome]

lemma ready_of_drain {cause : Interruption} {f : S.Future} {w w' : CallWorld}
    {result : CallResult} (h : drain S cause f w = (.ready result,w')) :
    ∃ r w₁, S.poll f w = (.ready r,w₁) ∧ result = outcome r (some cause) := by
  unfold drain at h
  cases hs : S.poll f w with
  | mk polled w₁ =>
    rw [hs] at h
    cases polled with
    | ready r =>
      obtain ⟨hr,-⟩ := Prod.mk.inj h
      exact ⟨r,w₁,rfl,(Polled.ready.inj hr).symm⟩
    | pending f' => cases h
    | panicked payload => cases h

lemma interrupt_eq (cause : Interruption) (f : S.Future) (w : CallWorld) :
    interrupt S cause f w = drain S cause f (signalled cause w) := by cases cause <;> rfl

/-- A poll in which the inner call settles resolves the future as the race then stands. -/
theorem Race.poll {f : Enforced S.Future} {w : CallWorld} {r : CallResult}
    {won : Option Interruption} (h : Race S f w r won) :
    ∃ w', Deadline.poll S f w = (.ready (outcome r won),w') := by
  cases h with
  | within hb hs =>
    rw [order] at hb
    simp only [Deadline.poll, hb, hs]
    exact ⟨_,rfl⟩
  | before hb hs =>
    rw [order] at hb
    simp only [Deadline.poll, hb, interrupt_eq, drain_ready hs]
    exact ⟨_,rfl⟩
  | after hb hp ha hs =>
    rw [order] at hb ha
    simp only [Deadline.poll, hb, hp, ha, interrupt_eq, drain_ready hs]
    exact ⟨_,rfl⟩
  | earlier hs =>
    simp only [Deadline.poll, drain_ready hs]
    exact ⟨_,rfl⟩

/-- The future resolves only in a poll in which the inner call settles. -/
theorem race_of_ready {f : Enforced S.Future} {w w' : CallWorld} {result : CallResult}
    (h : Deadline.poll S f w = (.ready result,w')) :
    ∃ r won, Race S f w r won ∧ result = outcome r won := by
  cases f with
  | draining cause f =>
    obtain ⟨r,w₁,hs,rfl⟩ := ready_of_drain h
    exact ⟨r,_,.earlier hs,rfl⟩
  | racing deadline f =>
    unfold Deadline.poll at h
    dsimp only at h
    cases hb : watch (order deadline w).1 w.pass with
    | mk winner w₁ =>
      rw [order] at hb
      rw [hb] at h
      cases winner with
      | some cause =>
        simp only [interrupt_eq] at h
        obtain ⟨r,w₂,hs,rfl⟩ := ready_of_drain h
        exact ⟨r,_,.before hb hs,rfl⟩
      | none =>
        simp only at h
        cases hs : S.poll f w₁ with
        | mk polled w₂ =>
          rw [hs] at h
          cases polled with
          | ready r =>
            obtain ⟨hr,-⟩ := Prod.mk.inj h
            exact ⟨r,none,.within hb hs,(Polled.ready.inj hr).symm⟩
          | panicked payload => cases h
          | pending f' =>
            simp only at h
            cases ha : watch (order deadline w).2 w₂ with
            | mk winner w₃ =>
              rw [order] at ha
              rw [ha] at h
              cases winner with
              | none => cases h
              | some cause =>
                simp only [interrupt_eq] at h
                obtain ⟨r,w₄,hr,rfl⟩ := ready_of_drain h
                exact ⟨r,_,.after hb hs ha hr,rfl⟩

end Race

/-- A refusal that had no effects: nothing ran. -/
def Unlaunched (c : AgentError) : Prop :=
  c.effects = .none ∧ (c.phase = .admission ∨ c.phase = .validation ∨ c.phase = .launch)

/-- A failure a host may safely replay. -/
def Replayable (r : CallResult) : Prop :=
  ∃ e, r = .error e ∧ e.effects = .none ∧ e.phase ≠ .running

/-- A refusal reported within the race is returned as it is; after a branch has won, the error built
for that branch claims possible effects of a running call. -/
theorem outcome_replayable {c : AgentError} (hc : Unlaunched c) (won : Option Interruption) :
    Replayable (outcome (.error c) won) ↔ won = none := by
  obtain ⟨heffects,hphase⟩ := hc
  cases won with
  | none =>
    refine iff_of_true ⟨c,rfl,heffects,?_⟩ rfl
    rcases hphase with h | h | h <;> simp [h]
  | some cause =>
    refine iff_of_false ?_ (by simp)
    intro h
    obtain ⟨e,he,hnone,-⟩ := h
    obtain rfl := Except.error.inj he
    have hpossible : EffectState.possible ≤ EffectState.none := by
      cases cause <;> simpa [preserveSettlement, Interruption.error, AgentError.deadlineExceeded,
        AgentError.cancelled, AgentError.new, heffects] using hnone
    exact absurd hpossible (by decide)

section Run
variable {T : Type} {S : AgentService (AgentRequest T)} {oracle : ℕ → Moment Reply}
  {cancelled : Bool} {now : ℕ} {service : (Deadline.service S).State}
  {ops : List (Op (AgentRequest T))} {f : Enforced S.Future} {won : Option Interruption}

/-- A session over an enforced deadline, after some operations. -/
def session (S : AgentService (AgentRequest T)) (oracle : ℕ → Moment Reply) (cancelled : Bool)
    (now : ℕ) (service : (Deadline.service S).State) (ops : List (Op (AgentRequest T))) :
    Session (Deadline.service S) := (Session.fresh oracle cancelled now service).run ops

/-- The caller's next poll resolves as the race stands. -/
lemma session_poll
    (hheld : (session S oracle cancelled now service ops).caller = .holding (.opened f))
    {r : CallResult} (hrace : Race S f (session S oracle cancelled now service ops).world r won) :
    (session S oracle cancelled now service (ops ++ [.poll])).caller = .resolved (outcome r won) := by
  obtain ⟨w,hw⟩ := hrace.poll
  have hstep : session S oracle cancelled now service (ops ++ [.poll]) =
      (session S oracle cancelled now service ops).drive .poll := Session.run_concat _ _ _
  rw [hstep]
  refine Session.drive_poll_ready (w := w) hheld ?_
  simp only [Deadline.service, Gate.poll, hw]
  rfl

/-- The call resolves only in a poll in which the inner call settles, as the race then stands. -/
lemma race_of_resolved
    (hheld : (session S oracle cancelled now service ops).caller = .holding (.opened f))
    {result : CallResult}
    (h : (session S oracle cancelled now service (ops ++ [.poll])).caller = .resolved result) :
    ∃ r won, Race S f (session S oracle cancelled now service ops).world r won ∧
      result = outcome r won := by
  have hstep : session S oracle cancelled now service (ops ++ [.poll]) =
      (session S oracle cancelled now service ops).drive .poll := Session.run_concat _ _ _
  rw [hstep] at h
  obtain ⟨w,hw⟩ := Session.poll_of_resolved hheld h
  simp only [Deadline.service, Gate.poll] at hw
  generalize hp : Deadline.poll S f _ = polled at hw
  obtain ⟨p,w'⟩ := polled
  cases p with
  | ready result' =>
    obtain rfl := Polled.ready.inj (Prod.mk.inj hw).1
    exact race_of_ready hp
  | pending f' => cases hw
  | panicked payload => cases hw

/-- In every run, a call that resolves does so as the race stands when the inner call settles, and
if that is with a refusal that had no effects, then it resolves to a replayable failure exactly when
no other branch of the race has won by then. -/
theorem refusal_replayable_iff
    (hheld : (session S oracle cancelled now service ops).caller = .holding (.opened f)) :
    (∀ result, (session S oracle cancelled now service (ops ++ [.poll])).caller = .resolved result →
      ∃ r won, Race S f (session S oracle cancelled now service ops).world r won ∧
        result = outcome r won) ∧
    ∀ c won, Race S f (session S oracle cancelled now service ops).world (.error c) won →
      Unlaunched c →
      ((∃ r, (session S oracle cancelled now service (ops ++ [.poll])).caller = .resolved r ∧
        Replayable r) ↔ won = none) := by
  refine ⟨fun result h => race_of_resolved hheld h,fun c won hrace hc => ?_⟩
  rw [session_poll hheld hrace]
  simp only [Caller.resolved.injEq, exists_eq_left', outcome_replayable hc]

end Run

/-- A provider that refuses as busy in its first poll. -/
def refusingOracle : ℕ → Moment Reply
  | 4 => { answer := { progress := .returned (.ready (.error .busy)) } }
  | _ => { answer := {} }

/-- The same, but the deadline passes in the poll before. -/
def hurriedOracle : ℕ → Moment Reply
  | 3 => { answer := { startBranch := 1 } }
  | 4 => { elapsed := 10, answer := {} }
  | 5 => { answer := { progress := .returned (.ready (.error .busy)) } }
  | _ => { answer := {} }

/-- The provider below the deadline. -/
abbrev innermost : AgentService (TurnRequest SampleOptions) := Provider.service _

lemma unlaunched_busy : Unlaunched .busy := ⟨rfl,.inl rfl⟩

theorem refusal_replayable_sample :
    (∃ r, (session innermost refusingOracle false 0 () ([.call sampleRequest] ++ [.poll])).caller =
      .resolved r ∧ Replayable r) ↔ (none : Option Interruption) = none :=
  (refusal_replayable_iff (f := .racing (some 5) ()) rfl).2 .busy none (.within rfl rfl)
    unlaunched_busy

/-- A busy refusal that arrives after the deadline is reported as a running call with possible
effects. -/
theorem refusal_overstated : ¬∀ (S : AgentService (TurnRequest SampleOptions))
    (oracle : ℕ → Moment Reply) (cancelled : Bool) (now : ℕ)
    (service : (Deadline.service S).State) (ops : List (Op (TurnRequest SampleOptions)))
    (f : Enforced S.Future) (c : AgentError) (won : Option Interruption),
    (session S oracle cancelled now service ops).caller = .holding (.opened f) →
    Race S f (session S oracle cancelled now service ops).world (.error c) won → Unlaunched c →
    ∃ r, (session S oracle cancelled now service (ops ++ [.poll])).caller = .resolved r ∧
      Replayable r := by
  intro hclaim
  obtain ⟨r,hr,hreplay⟩ := hclaim innermost hurriedOracle false 0 () [.call sampleRequest]
    (.racing (some 5) ()) .busy (some .deadline) rfl (.before rfl rfl) unlaunched_busy
  have hlate : (session innermost hurriedOracle false 0 () ([.call sampleRequest] ++ [.poll])).caller =
    .resolved (outcome (.error .busy) (some .deadline)) := rfl
  obtain rfl := Caller.resolved.inj (hlate.symm.trans hr)
  exact absurd ((outcome_replayable unlaunched_busy _).mp hreplay) (by simp)

end TowerAgent.Kernel.Deadline
