import TowerAgent.Kernel.Disclaimer
import TowerAgent.Kernel.Frugal

/-! What the guards of a stack promise of every run: the provider is called at most once, and only
with a turn that every guard lets through; and a success is the provider's own, within every output
limit. -/
namespace TowerAgent.Kernel
open Lib

/-- A service that calls the provider in `call` only; its futures owe nothing. -/
abbrev Direct {Q : Type} (S : AgentService Q) (passes : Q → Prop) : Prop :=
  Frugal S passes fun _ _ => True

section Direct
variable {Q : Type} {S : AgentService Q} {passes : Q → Prop}

lemma Direct.of (pollReady : ∀ s w, Quiet w (S.pollReady s w).2.2)
    (call : ∀ s q w, Screened (passes q) w (S.call s q w).2.2)
    (poll : ∀ f w, Quiet w (S.poll f w).2) (background : ∀ k f w, Quiet w (S.background k f w).2)
    (drop : Drops (· ≠ Event.called) S) : Direct S passes where
  pollReady := pollReady
  call s q w := ⟨(call s q w).imp fun hp => ⟨q,rfl,hp⟩,fun _ _ => .inl trivial⟩
  poll _ f w _ := .rest (poll f w) fun _ _ => trivial
  background k f w := ⟨background k f w,fun _ _ => trivial⟩
  drop f w := ⟨drop f w,fun _ _ => trivial⟩

variable (h : Direct S passes)
include h

lemma Direct.screens (s : S.State) (q : Q) (w : CallWorld) :
    Screened (passes q) w (S.call s q w).2.2 := by
  refine (h.call s q w).1.imp ?_
  rintro ⟨r,hr,hp⟩
  obtain rfl := Option.some.inj hr
  exact hp

lemma Direct.poll_quiet (f : S.Future) (w : CallWorld) : Quiet w (S.poll f w).2 :=
  (h.poll none f w trivial).1.quiet (by simp)

lemma Direct.background_quiet (k : ℕ) (f : S.Future) (w : CallWorld) :
    Quiet w (S.background k f w).2 := (h.background k f w).1

lemma Direct.drops : Drops (· ≠ Event.called) S := fun f w => (h.drop f w).1

lemma GenericLayer.direct (g : GenericLayer) : Direct (g.layer S) passes := by
  have hall : g.Owes (fun _ (_ : S.Future) => True) = fun (_ : Option Q) _ => True := by
    funext q f
    cases g with
    | limitOutput maxBytes => rfl
    | admission | catchPanic => rcases f with error | f <;> rfl
    | injectFaults => rcases f with error | (f | f | f | f | f) <;> rfl
  have hg := g.frugal h
  rwa [hall] at hg

end Direct

section Gate
variable {F : Type} {P : Event → Prop}

lemma Gate.poll_grows {next : F → CallWorld → Polled F CallResult × CallWorld}
    (h : ∀ f w, Grows P w (next f w).2) (g : Gate F) (w : CallWorld) :
    Grows P w (Gate.poll next g w).2 := by
  cases g with
  | refused error => exact .refl w
  | opened f => exact h f w

end Gate

section Context
variable {T : Type} {S : AgentService (AgentRequest T)} {passes : AgentRequest T → Prop}

lemma Deadline.watch_quiet (branches : List (Interruption × Option ℕ)) (w : CallWorld) :
    Quiet w (watch branches w).2 := ⟨[],by simp [watch_log],by simp⟩

lemma Deadline.drain_quiet (h : Direct S passes) (cause : Interruption) (f : S.Future)
    (w : CallWorld) : Quiet w (drain S cause f w).2 := by
  have hp := h.poll_quiet f w
  simp only [drain]
  generalize S.poll f w = x at hp ⊢
  rcases x with ⟨f' | r | payload,w'⟩
  · exact hp
  · exact hp.emit (by simp)
  · exact hp

lemma Deadline.interrupt_quiet (h : Direct S passes) (cause : Interruption) (f : S.Future)
    (w : CallWorld) : Quiet w (interrupt S cause f w).2 := by
  cases cause with
  | deadline => exact (show Quiet w w.cancel from .refl w).trans (drain_quiet h _ f w.cancel)
  | cancelled => exact drain_quiet h _ f w

lemma Deadline.poll_quiet (h : Direct S passes) (f : Enforced S.Future) (w : CallWorld) :
    Quiet w (Deadline.poll S f w).2 := by
  cases f with
  | draining cause f => exact drain_quiet h cause f w
  | racing deadline f =>
    simp only [Deadline.poll]
    generalize rotate w.answer.startBranch (branches deadline) = order
    have hb : Quiet w (watch order.1 w.pass).2 := watch_quiet order.1 w.pass
    generalize watch order.1 w.pass = x at hb ⊢
    rcases x with ⟨- | cause,w₁⟩
    · have hp := hb.trans (h.poll_quiet f w₁)
      dsimp only
      generalize S.poll f w₁ = y at hp ⊢
      rcases y with ⟨f' | r | payload,w₂⟩
      · have ha := hp.trans (watch_quiet order.2 w₂)
        dsimp only
        generalize watch order.2 w₂ = z at ha ⊢
        rcases z with ⟨- | cause,w₃⟩
        · exact ha
        · exact ha.trans (interrupt_quiet h cause _ _)
      · exact hp
      · exact hp
    · exact hb.trans (interrupt_quiet h cause _ _)

lemma Observe.poll_quiet (h : Direct S passes) (f : Observed S.Future) (w : CallWorld) :
    Quiet w (Observe.poll S f w).2 := by
  have hp := h.poll_quiet f.inner w
  simp only [Observe.poll]
  generalize S.poll f.inner w = x at hp ⊢
  rcases x with ⟨f' | r | payload,w'⟩
  · exact hp
  · exact hp.trans (finish_grows _ _ _ fun _ _ => by simp)
  · exact hp.trans (finish_grows _ _ _ fun _ _ => by simp)

lemma Supervise.poll_quiet (task : Task S.Future) (w : CallWorld) :
    Quiet w (Supervise.poll S task w).2 := by cases task <;> exact .refl w

lemma Supervise.background_quiet (h : Direct S passes) (k : ℕ) (task : Task S.Future)
    (w : CallWorld) : Quiet w (Supervise.background S k task w).2 := by
  cases task with
  | running f =>
    cases k with
    | zero =>
      have hp := h.poll_quiet f w
      simp only [Supervise.background]
      generalize S.poll f w = x at hp ⊢
      rcases x with ⟨f' | r | payload,w'⟩ <;> exact hp
    | succ k => exact h.background_quiet k f w
  | finished result => cases k <;> exact .refl w
  | panicked payload => cases k <;> exact .refl w

end Context

section Turn
variable {O : Type} [RequestsFilesystemAuthority O] {S : AgentService (TurnRequest O)}

/-- A layer hands on, in its call, the turns that pass it. -/
theorem Layer.direct (l : Layer) (passes : Turn O → Prop)
    (h : Direct S fun request => passes request.body) :
    Direct (l.layer S) fun request => l.Passes request.body ∧ passes request.body := by
  have hdrops : Drops (· ≠ Event.called) (l.layer S) :=
    l.drops (by simp) (fun _ _ => by simp) h.drops
  cases l with
  | generic g =>
    have hg := g.direct h
    exact .of hg.pollReady (fun s q w => (hg.screens s q w).imp fun hp => ⟨trivial,hp⟩)
      hg.poll_quiet hg.background_quiet hdrops
  | deadline =>
    refine .of h.pollReady (fun s q w => ?_) (Gate.poll_grows (Deadline.poll_quiet h))
      (fun k f w => Gate.update_grows fun f _ => ?_) hdrops
    · simp only [Layer.layer, Deadline.service, Deadline.call]
      split
      · exact .inl (.refl w)
      · split
        · exact .inl (.refl w)
        · exact (h.screens s q w.pass.pass).imp fun hp => ⟨trivial,hp⟩
    · cases f <;> exact h.background_quiet k _ w
  | validateTurn maxPromptBytes =>
    refine .of h.pollReady (fun s q w => ?_) (Gate.poll_grows h.poll_quiet)
      (fun k f w => Gate.update_grows fun f _ => h.background_quiet k f w) hdrops
    simp only [Layer.layer, ValidateTurn.service, ValidateTurn.call]
    split
    · exact .inl (.refl w)
    · next hcheck => exact (h.screens s q w).imp fun hp => ⟨hcheck,hp⟩
  | enforceAuthority policy canonicalize =>
    refine .of h.pollReady (fun s q w => ?_) (Gate.poll_grows h.poll_quiet)
      (fun k f w => Gate.update_grows fun f _ => h.background_quiet k f w) hdrops
    simp only [Layer.layer, EnforceAuthority.service, EnforceAuthority.call]
    split
    · next hauth => exact (h.screens s q w).imp fun hp => ⟨hauth,hp⟩
    · exact .inl (.refl w)
  | observe =>
    refine .of h.pollReady (fun s q w => ?_) (Observe.poll_quiet h)
      (fun k f w => h.background_quiet k f.inner w) hdrops
    have hc := (h.screens s q w).imp fun hp => (⟨trivial,hp⟩ : Layer.observe.Passes q.body ∧ _)
    simp only [Layer.layer, Observe.service, Observe.call]
    generalize S.call s q w = x at hc ⊢
    rcases x with ⟨f | payload,s',w'⟩ <;> exact hc
  | supervise =>
    exact .of h.pollReady (fun s q w => (h.screens s q w).imp fun hp => ⟨trivial,hp⟩)
      Supervise.poll_quiet (Supervise.background_quiet h) hdrops

end Turn

/-- The promise of a result: a success is what the provider settled with, once it was called. -/
def genuine : Regime where
  safe _ := True
  idle _ _ := True
  refused _ _ := True
  live v := .called ∈ v
  done r v := ∀ o, r = .ok o → .called ∈ v ∧ .settled (.ok o) ∈ v
  broken _ := True

theorem genuine_lawful : genuine.TurnLawful where
  idle_safe _ _ _ := trivial
  done_safe _ _ _ := trivial
  broken_safe _ _ := trivial
  idle_unready _ _ _ _ := trivial
  admitted _ _ _ := trivial
  done_released _ _ h o ho := (h o ho).imp (List.mem_append_left _) (List.mem_append_left _)
  broken_released _ _ := trivial
  refuse _ _ _ _ _ _ ho := (by cases ho)
  unready _ _ _ := trivial
  exceeded _ _ _ _ _ ho := (by cases ho)
  unlaunched _ _ _ _ ho := (by cases ho)
  caught _ _ _ _ ho := (by cases ho)
  faulted _ _ _ _ _ _ ho := (by cases ho)
  preserve _ _ _ _ _ ho := (by cases ho)
  done_receipt _ _ _ _ h o ho := (h o ho).imp (List.mem_append_left _) (List.mem_append_left _)
  broken_receipt _ _ _ _ := trivial
  joined _ _ _ _ ho := (by cases ho)

theorem genuine_provides (full : ℕ) : genuine.Provides full where
  safe _ _ := trivial
  unready _ _ := trivial
  unlaunched _ _ := trivial
  launched _ _ := by simp [genuine]
  polled _ h := List.mem_append_left _ h
  settled r v h o ho := by
    subst ho
    exact ⟨List.mem_append_left _ (List.mem_append_left _ h),by simp⟩
  panicked _ _ := trivial

/-- The promise that a success is no larger than a limit, if there is one. -/
def ceiling (limit : Option ℕ) : Regime where
  safe _ := True
  idle _ _ := True
  refused _ _ := True
  live _ := True
  done r _ := ∀ o, r = .ok o → ∀ n ∈ limit, o.outputBytes ≤ n
  broken _ := True

theorem ceiling_lawful (limit : Option ℕ) : (ceiling limit).TurnLawful where
  idle_safe _ _ _ := trivial
  done_safe _ _ _ := trivial
  broken_safe _ _ := trivial
  idle_unready _ _ _ _ := trivial
  admitted _ _ _ := trivial
  done_released _ _ h := h
  broken_released _ _ := trivial
  refuse _ _ _ _ _ _ ho := (by cases ho)
  unready _ _ _ := trivial
  exceeded _ _ _ _ _ ho := (by cases ho)
  unlaunched _ _ _ _ ho := (by cases ho)
  caught _ _ _ _ ho := (by cases ho)
  faulted _ _ _ _ _ _ ho := (by cases ho)
  preserve _ _ _ _ _ ho := (by cases ho)
  done_receipt _ _ _ _ h := h
  broken_receipt _ _ _ _ := trivial
  joined _ _ _ _ ho := (by cases ho)

theorem ceiling_provides (full : ℕ) : (ceiling none).Provides full where
  safe _ _ := trivial
  unready _ _ := trivial
  unlaunched _ _ := trivial
  launched _ _ := trivial
  polled _ _ := trivial
  settled _ _ _ _ _ _ hn := (by cases hn)
  panicked _ _ := trivial

/-- An output limit makes a promise of its own, whatever is promised below it. -/
lemma LimitOutput.bounds {Q : Type} {S : AgentService Q} {limit : Option ℕ} {k : ℕ}
    {inv : S.Future → List Event → Prop} (h : Keeps ((ceiling limit).terms k) S inv)
    (maxBytes : ℕ) :
    Keeps ((ceiling (some maxBytes)).terms k) (LimitOutput.service maxBytes S) inv where
  safe _ _ _ := trivial
  pollReady s w := ⟨(h.pollReady s w).log,fun _ _ => trivial⟩
  call s request w hw := by
    have hc := h.call s request w hw
    simp only [LimitOutput.service]
    generalize S.call s request w = x at hc ⊢
    rcases x with ⟨f | payload,s',w'⟩ <;> exact hc
  poll f w hf := by
    have hp := h.poll f w hf
    simp only [LimitOutput.service, LimitOutput.poll]
    generalize S.poll f w = x at hp ⊢
    rcases x with ⟨f' | (e | o) | payload,w'⟩
    · exact hp
    · exact fun _ ho => (by cases ho)
    · simp only [accept]
      split
      · exact fun _ ho => (by cases ho)
      · next hle =>
        intro o' ho n hn
        obtain rfl := Except.ok.inj ho
        obtain rfl := Option.some.inj hn
        exact Nat.le_of_not_lt hle
    · exact hp
  background := h.background

section Stacks
variable {O : Type} [RequestsFilesystemAuthority O]

/-- A stack hands its provider only turns that pass every layer, and that in its call. -/
theorem stack_direct (layers : List Layer) :
    Direct (stack O layers) fun request => ∀ l ∈ layers, l.Passes request.body := by
  induction layers with
  | nil =>
    refine .of (fun s w => ?_) (fun s q w => .inr ⟨by simp,w,.refl w,?_⟩) (fun f w => ?_)
      (fun _ _ w => .refl w) (Provider.drops (by simp))
    · simp only [stack, List.foldr_nil, Provider.service, Provider.pollReady]
      split
      · exact (show Quiet w w.pass from .refl w).emit (by simp)
      · exact .refl w
    · simp only [stack, List.foldr_nil, Provider.service, Provider.call]
      cases (w.emit .called).answer.launch with
      | returned u => exact (show Quiet _ (w.emit .called).pass from .refl _).emit (by simp)
      | panicked payload => exact .refl _
    · have hp : Quiet w (w.emit .polled) := (Grows.refl w).emit (by simp)
      simp only [stack, List.foldr_nil, Provider.service, Provider.poll]
      cases (w.emit .polled).answer.progress with
      | panicked payload => exact hp.trans ((Grows.refl _).emit (by simp))
      | returned p =>
        cases p with
        | pending => exact hp
        | ready r => exact hp.trans ((Grows.refl _).emit (by simp))
  | cons l layers ih =>
    have hl := l.direct (fun turn => ∀ l ∈ layers, l.Passes turn) ih
    refine .of hl.pollReady (fun s q w => (hl.screens s q w).imp ?_) hl.poll_quiet
      hl.background_quiet hl.drops
    rintro ⟨hl,hp⟩ l' hl'
    rcases List.mem_cons.mp hl' with rfl | hl'
    · exact hl
    · exact hp l' hl'

/-- The limits above and below it leave an output limit's promise standing. -/
lemma stack_ceiling {layers : List Layer} {n : ℕ} (h : .generic (.limitOutput n) ∈ layers) :
    ∃ inv, Keeps ((ceiling (some n)).terms 0) (stack O layers) inv := by
  obtain ⟨above,below,rfl⟩ := List.append_of_mem h
  have hbelow (k : ℕ) : ∃ inv, Keeps ((ceiling none).terms k) (stack O below) inv :=
    stack_keeps (ceiling_lawful none) (ceiling_provides _) below rfl
  generalize 0 = k
  induction above generalizing k with
  | nil => exact ⟨_,LimitOutput.bounds (hbelow k).choose_spec n⟩
  | cons l above ih => exact l.keeps (ceiling_lawful (some n)) (ih (by simp) _)

/-- What a run of a stack has kept of its guards' promises. -/
structure Guarded (layers : List Layer) (ops : List (Op (TurnRequest O)))
    (s : Session (stack O layers)) : Prop where
  /-- The provider is called at most once. -/
  once : s.world.log.countP Event.isCalled ≤ 1
  /-- It is called for a turn that every layer lets through. -/
  passed : .called ∈ s.world.log →
    ∃ request, .call request ∈ ops ∧ ∀ l ∈ layers, l.Passes request.body
  /-- A success is the provider's own outcome, within every output limit. -/
  success : ∀ o, s.caller = .resolved (.ok o) → .called ∈ s.world.log ∧
    .settled (.ok o) ∈ s.world.log ∧ ∀ n, .generic (.limitOutput n) ∈ layers → o.outputBytes ≤ n

/-- In every run of every stack, whatever is cancelled, expires, panics or is dropped: the provider
is called at most once, for a turn that every check of the stack lets through, and a success that
reaches the caller is what the provider settled with, within every output limit of the stack. -/
theorem stack_guarded (layers : List Layer) (oracle : ℕ → Moment Reply) (cancelled : Bool)
    (now : ℕ) (service : (stack O layers).State) (ops : List (Op (TurnRequest O))) :
    Guarded layers ops ((Session.fresh oracle cancelled now service).run ops) := by
  have hthrifty := (stack_direct (O := O) layers).run oracle cancelled now service ops
  refine ⟨hthrifty.once,hthrifty.passed,fun o ho => ?_⟩
  obtain ⟨_,hg⟩ := stack_keeps (O := O) (k := 0) genuine_lawful (genuine_provides _) layers rfl
  have hgenuine := (Session.run_standing (fun _ _ => True) hg (fun _ _ _ _ => trivial) (by simp)
    (by simp) trivial oracle cancelled now service ops).caller
  rw [ho] at hgenuine
  obtain ⟨hcalled,hsettled⟩ := hgenuine o rfl
  refine ⟨hcalled,hsettled,fun n hn => ?_⟩
  obtain ⟨_,hb⟩ := stack_ceiling (O := O) hn
  have hbound := (Session.run_standing (fun _ _ => True) hb (fun _ _ _ _ => trivial) (by simp)
    (by simp) trivial oracle cancelled now service ops).caller
  rw [ho] at hbound
  exact hbound o rfl n rfl

end Stacks
end TowerAgent.Kernel
