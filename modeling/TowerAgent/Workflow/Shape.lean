import TowerAgent.Workflow.Transitions

/-! The control invariant of the runner: where its loop stands, what a latched stop reason means for
the flights, and how many of them there are. -/
namespace TowerAgent.Workflow
open Lib
open Std (ExtTreeMap ExtTreeSet)

variable {I J O E : Type}

/-- The points at which no stop reason has been latched. -/
def Pc.undecided : Pc I J O E → Bool
  | .start | .startDeadline | .admitDeadline | .admitPop | .awaitDeadline => true
  | _ => false

/-- The places in the concurrency bound that the loop holds besides the in-flight set. -/
def Pc.places : Pc I J O E → ℕ
  | .admitDeadline | .admitPop | .polling _ | .settle _ _ => 1
  | _ => 0

/-- The points at which the loop waits for its flights. -/
def Pc.waiting : Pc I J O E → Bool
  | .await | .awaitDeadline | .drive => true
  | _ => false

/-- The phases a flight can be in between two polls. -/
def Phase.resting (p : Phase) : Prop := p = .select ∨ p = .calling

structure Shape (max : ℕ) (request : WorkflowRequest I J) (s : State I J O E) : Prop where
  /-- The run's token is cancelled exactly when a stop reason is latched. -/
  cancelled : s.runCancelled = s.stopReason.isSome
  undecided : s.pc.undecided = true → s.stopReason = none
  suspended : ∀ f ∈ s.inFlight, f.phase.resting
  /-- After a stop reason only flights already calling, or yet to look at their token, are polled. -/
  stopped : ∀ f, s.pc = .polling f → s.stopReason.isSome → f.phase.resting
  room : s.inFlight.length + s.pc.places ≤ max
  working : s.pc.waiting = true → s.inFlight ≠ []
  failed : s.failures ≠ [] → s.stopReason.isSome
  noneReady : s.pc = .gate → s.stopReason = none → s.inFlight.length < max →
    popFirst s.ready = none
  finished : ∀ r, s.pc = .finished r →
    s.inFlight = [] ∧ conclude request s = .ok r ∧ (s.stopReason = none → popFirst s.ready = none)

variable {max : ℕ} {request : WorkflowRequest I J}

lemma shape_initial : Shape max request (initial request : State I J O E) := by
  unfold initial
  split
  · exact ⟨rfl,fun _ => rfl,by simp,by simp,by simp [Pc.places],by simp [Pc.waiting],by simp,
      by simp,by simp⟩
  · exact ⟨rfl,fun _ => rfl,by simp,by simp,by simp [Pc.places],by simp [Pc.waiting],by simp,
      by simp,by simp⟩

lemma Shape.outside {s : State I J O E} (h : Shape max request s) {c r : Bool} {n : ℕ} :
    Shape max request { s with callerCancelled := c, cancelReturned := r, now := n } :=
  ⟨h.cancelled,h.undecided,h.suspended,h.stopped,h.room,h.working,h.failed,h.noneReady,h.finished⟩

lemma Shape.control {s : State I J O E} (h : Shape max request s) {e : Event O E} {pc : Pc I J O E}
    (hc : Control max request s e pc) : Shape max request (s.goto pc) := by
  have hroom := h.room
  have keep : pc.undecided = true → s.stopReason = none := by
    cases hc with
    | notCancelled hpc => exact fun _ => h.undecided (by rw [hpc]; rfl)
    | inTime hpc => exact fun _ => h.undecided (by rw [hpc]; rfl)
    | clear _ hn => exact fun _ => hn
    | race _ hn => exact fun _ => hn
    | _ => exact fun hu => absurd hu (by simp [Pc.undecided])
  have places : s.inFlight.length + pc.places ≤ max := by
    cases hc with
    | clear _ _ hr => exact hr
    | inTime hpc => rw [hpc] at hroom; exact hroom
    | _ => simp only [Pc.places]; omega
  have wait : pc.waiting = true → s.inFlight ≠ [] := by
    cases hc with
    | busy _ hf => exact fun _ => hf
    | drain hpc => exact fun _ => h.working (by rw [hpc]; rfl)
    | race hpc => exact fun _ => h.working (by rw [hpc]; rfl)
    | untimed hpc => exact fun _ => h.working (by rw [hpc]; rfl)
    | unfired hpc => exact fun _ => h.working (by rw [hpc]; rfl)
    | park hpc => exact fun _ => h.working (by rw [hpc]; rfl)
    | _ => exact fun hw => absurd hw (by simp [Pc.waiting])
  refine ⟨h.cancelled,keep,h.suspended,?_,places,wait,h.failed,?_,?_⟩
  · rintro f rfl
    cases hc
  · rintro rfl hn hlt
    cases hc with
    | closed _ hf =>
      rcases hf with hf | hf
      · simp [show s.stopReason = none from hn] at hf
      · exact absurd hlt (Nat.not_lt_of_le hf)
    | noneReady _ hp => exact hp
  · rintro r rfl
    cases hc

lemma Shape.latch {s : State I J O E} (h : Shape max request s) {e : Event O E} {reason : StopReason}
    {pc : Pc I J O E} (hl : Latches request s e reason pc) :
    Shape max request ((s.latch reason).goto pc) := by
  have hroom := h.room
  refine ⟨rfl,?_,h.suspended,?_,?_,?_,fun _ => rfl,by simp [State.goto, State.latch],?_⟩
  · cases hl <;> simp [State.goto, Pc.undecided]
  · rintro f rfl
    cases hl
  · cases hl <;> simp only [State.goto, State.latch, Pc.places] <;> omega
  · cases hl <;> simp [State.goto, Pc.waiting]
  · rintro r rfl
    cases hl

lemma Shape.record {s s' : State I J O E} (h : Shape max request s) {id : StepId}
    {settlement : StepSettlement O E} (hpc : s.pc = .settle id settlement)
    (hr : Records s id settlement s') : Shape max request (s'.goto .admitStep) := by
  have hroom := h.room
  rw [hpc] at hroom
  have key : s'.runCancelled = s'.stopReason.isSome ∧ s'.inFlight = s.inFlight ∧
      (s'.failures ≠ [] → s'.stopReason.isSome) := by
    cases hr with
    | notCalled => exact ⟨h.cancelled,rfl,h.failed⟩
    | succeeded => exact ⟨h.cancelled,rfl,h.failed⟩
    | drained => exact ⟨h.cancelled,rfl,h.failed⟩
    | failed => exact ⟨rfl,rfl,fun _ => rfl⟩
    | drainedFailure hs => exact ⟨h.cancelled,rfl,fun _ => hs⟩
  obtain ⟨hc,hf,hfail⟩ := key
  refine ⟨hc,by simp [State.goto, Pc.undecided],?_,by simp [State.goto],?_,
    by simp [State.goto, Pc.waiting],hfail,by simp [State.goto],by simp [State.goto]⟩
  · simp only [State.goto, hf]
    exact h.suspended
  · simp only [State.goto, hf, Pc.places] at hroom ⊢
    omega

/-- A suspended flight rests. -/
lemma Shape.suspend {s : State I J O E} (h : Shape max request s) {f g : Flight I J O}
    (hpc : s.pc = .polling f) (hg : g.phase.resting) : Shape max request (s.suspend g) := by
  have hroom := h.room
  rw [hpc] at hroom
  refine ⟨h.cancelled,by simp [State.suspend, Pc.undecided],?_,by simp [State.suspend],?_,
    by simp [State.suspend],h.failed,by simp [State.suspend],by simp [State.suspend]⟩
  · intro k hk
    rcases List.mem_append.mp hk with hk | hk
    · exact h.suspended k hk
    · exact List.mem_singleton.mp hk ▸ hg
  · simp only [State.suspend, Pc.places, List.length_append, List.length_singleton] at hroom ⊢
    exact hroom

/-- A flight moves on within its poll, or completes it. -/
lemma Shape.within {s : State I J O E} (h : Shape max request s) {f : Flight I J O}
    {pc : Pc I J O E} (hpc : s.pc = .polling f) (hp : pc.places = 1) (hu : pc.undecided = false)
    (hs : ∀ g, pc = .polling g → s.stopReason.isSome → g.phase.resting) :
    Shape max request (s.goto pc) := by
  have hroom := h.room
  rw [hpc] at hroom
  have hw : pc.waiting = false := by
    cases pc <;> first | rfl | cases hp
  refine ⟨h.cancelled,fun hu' => by simp [State.goto, hu] at hu',h.suspended,hs,?_,
    fun hw' => by simp [State.goto, hw] at hw',h.failed,?_,?_⟩
  · simp only [State.goto, hp]
    exact hroom
  · rintro rfl
    cases hp
  · rintro r rfl
    cases hp

/-- Every step keeps the control invariant. -/
theorem Shape.step {s s' : State I J O E} {e : Event O E} (hmax : 0 < max)
    (h : Shape max request s) (ht : Transition max request s e s') : Shape max request s' := by
  cases ht with
  | outside => exact h.outside
  | control hc => exact h.control hc
  | latch hl => exact h.latch hl
  | abort ha =>
    have hroom := h.room
    exact ⟨h.cancelled,by simp [State.goto, Pc.undecided],h.suspended,by simp [State.goto],
      by simp only [State.goto, Pc.places]; omega,by simp [State.goto, Pc.waiting],h.failed,
      by simp [State.goto],by simp [State.goto]⟩
  | finish hpc hf hc =>
    refine ⟨h.cancelled,by simp [State.goto, Pc.undecided],h.suspended,by simp [State.goto],
      by simp [State.goto, hf, Pc.places],by simp [State.goto, Pc.waiting],h.failed,
      by simp [State.goto],?_⟩
    intro r hr
    obtain rfl := Pc.finished.inj hr
    exact ⟨hf,hc,fun hn => h.noneReady hpc hn (by simpa [hf] using hmax)⟩
  | record hpc hr => exact h.record hpc hr
  | admitStep hpc hp hm =>
    have hroom := h.room
    rw [hpc] at hroom
    refine ⟨h.cancelled,by simp [Pc.undecided],?_,by simp,?_,by simp,h.failed,by simp,by simp⟩
    · intro k hk
      rcases List.mem_append.mp hk with hk | hk
      · exact h.suspended k hk
      · exact List.mem_singleton.mp hk ▸ .inl rfl
    · simpa [Pc.places] using hroom
  | poll hpc hf =>
    have hlt := (List.getElem?_eq_some_iff.mp hf).1
    have hroom := h.room
    refine ⟨h.cancelled,by simp [Pc.undecided],fun k hk => h.suspended k (List.mem_of_mem_eraseIdx hk),
      ?_,?_,by simp [Pc.waiting],h.failed,by simp,by simp⟩
    · intro g hg _
      obtain rfl := Pc.polling.inj hg
      exact h.suspended _ (List.mem_of_getElem? hf)
    · simp only [List.length_eraseIdx, if_pos hlt, Pc.places]
      omega
  | tokenSeen hpc => exact h.within hpc rfl rfl (by simp)
  | tokenClear hpc _ _ hr =>
    refine h.within hpc rfl rfl fun g _ hs => ?_
    rw [←h.cancelled,hr] at hs
    cases hs
  | readyPending hpc => exact h.suspend hpc (.inl rfl)
  | readyOk hpc hp =>
    refine h.within hpc rfl rfl fun g _ hs => ?_
    have hrest := h.stopped _ hpc hs
    simp [Phase.resting, hp] at hrest
  | readyErr hpc => exact h.within hpc rfl rfl (by simp)
  | call hpc =>
    refine h.within hpc rfl rfl fun g hg _ => ?_
    obtain rfl := Pc.polling.inj hg
    exact .inr rfl
  | callPending hpc hp => exact h.suspend hpc (.inr hp)
  | callSettled hpc => exact h.within hpc rfl rfl (by simp)

end TowerAgent.Workflow
