import TowerAgent.Kernel.Stack

/-! What an abandonment receipt that claims no effects is worth: the observer goes by the polls of
its own future, while a supervised call below it is polled by the runtime. -/
namespace TowerAgent.Kernel
open Lib

/-- A receipt of an abandoned call that claims no effects. -/
def Event.Disclaims (e : Event) : Prop := ∃ r, e = .receipt r ∧ r.status = .abandoned .none

/-- Nothing in the log disclaims effects. -/
def Candid (log : List Event) : Prop := ∀ e ∈ log, ¬e.Disclaims

theorem Candid.concat {v : List Event} (h : Candid v) {e : Event} (he : ¬e.Disclaims) :
    Candid (v ++ [e]) := by
  intro x hx
  rcases List.mem_append.mp hx with hx | hx
  · exact h x hx
  · exact List.mem_singleton.mp hx ▸ he

@[simp] theorem disclaims_receipt {r : Receipt} :
    Event.Disclaims (.receipt r) ↔ r.status = .abandoned .none := by
  simp [Event.Disclaims]

/-- As long as nobody drops the caller's future, nothing disclaims effects; before the call the
provider is not polled either. -/
def candour : Regime where
  safe := Candid
  idle _ v := Candid v ∧ .polled ∉ v
  refused _ _ := True
  live := Candid
  done _ := Candid
  broken := Candid

theorem candour_lawful : candour.TurnLawful where
  idle_safe _ _ h := h.1
  done_safe _ _ h := h
  broken_safe _ h := h
  idle_unready _ _ _ h := ⟨h.1.concat (by simp [Event.Disclaims]),by simpa using h.2⟩
  admitted _ _ h := ⟨h.1.concat (by simp [Event.Disclaims]),by simpa using h.2⟩
  done_released _ _ h := h.concat (by simp [Event.Disclaims])
  broken_released _ h := h.concat (by simp [Event.Disclaims])
  refuse _ _ _ h _ := h.1
  unready _ _ _ := trivial
  exceeded _ _ _ h := h
  unlaunched _ _ h := h
  caught _ _ h := h.concat (by simp [Event.Disclaims])
  faulted _ _ _ _ h := h.concat (by simp [Event.Disclaims])
  preserve _ _ _ h := h.concat (by simp [Event.Disclaims])
  done_receipt _ _ _ hr h := h.concat (mt disclaims_receipt.mp hr)
  broken_receipt _ _ hr h := h.concat (mt disclaims_receipt.mp hr)
  joined _ _ h := h

/-- A call polls nothing. -/
def Lazy {Q : Type} (S : AgentService Q) : Prop :=
  ∀ s request w, Grows (· ≠ Event.polled) w (S.call s request w).2.2

/-- Dropping a future logs events of one kind only. -/
def Drops {Q : Type} (P : Event → Prop) (S : AgentService Q) : Prop :=
  ∀ f w, Grows P w (S.drop f w).2

section Gate
variable {F : Type} {P : Event → Prop} {next : F → CallWorld → F × CallWorld}

lemma Gate.update_grows {g : Gate F} {w : CallWorld}
    (h : ∀ f, g = .opened f → Grows P w (next f w).2) : Grows P w (Gate.update next g w).2 := by
  cases g with
  | refused error => exact .refl w
  | opened f => exact h f rfl

lemma Gate.update_still (h : ∀ f w, (next f w).2 = w) (g : Gate F) (w : CallWorld) :
    (Gate.update next g w).2 = w := by
  cases g with
  | refused error => rfl
  | opened f => exact h f w

end Gate

section Generic
variable {Q : Type} {S : AgentService Q} {P : Event → Prop}

lemma Admission.letGo_grows (hP : P .released) (permit : Bool) (w : CallWorld) :
    Grows P w (letGo permit w) := by
  cases permit with
  | false => exact .refl w
  | true => exact (Grows.refl w).emit hP

theorem GenericLayer.drops (hP : P .released) (h : Drops P S) (g : GenericLayer) :
    Drops P (g.layer S) := by
  cases g with
  | admission =>
    exact fun f w => Gate.update_grows fun f _ =>
      (h f.inner w).trans (Admission.letGo_grows hP f.permit _)
  | limitOutput maxBytes => exact h
  | catchPanic => exact fun f w => Gate.update_grows fun f _ => h f w
  | injectFaults =>
    refine fun f w => Gate.update_grows fun f _ => ?_
    cases f with
    | holding wake settled => exact .refl w
    | delaying delay wake f => exact h f w
    | passing f => exact h f w
    | settling delay f => exact h f w
    | failing kind message f => exact h f w

end Generic

section Turn
variable {O : Type} {S : AgentService (TurnRequest O)} {P : Event → Prop}

theorem Supervise.drops : Drops P (Supervise.service S) := fun _ w => .refl w

lemma Observe.finish_grows {F : Type} (f : Observed F) (status : ReceiptStatus) (w : CallWorld)
    (hP : ∀ r : Receipt, r.status = status → P (.receipt r)) : Grows P w (finish f status w) :=
  (show Grows P w w.pass from .refl w).emit (hP _ rfl)

variable [RequestsFilesystemAuthority O]

/-- What a dropped future logs below a layer, and the layer's own permits and receipts. -/
theorem Layer.drops (hP : P .released) (l : Layer) (hr : l = .observe → ∀ r, P (.receipt r))
    (h : Drops P S) : Drops P (l.layer S) := by
  cases l with
  | generic g => exact g.drops hP h
  | deadline =>
    refine fun f w => Gate.update_grows fun f _ => ?_
    cases f with
    | racing deadline f => exact h f w
    | draining cause f => exact h f w
  | validateTurn maxPromptBytes => exact fun f w => Gate.update_grows fun f _ => h f w
  | enforceAuthority policy canonicalize => exact fun f w => Gate.update_grows fun f _ => h f w
  | observe =>
    exact fun f w => (h f.inner w).trans (Observe.finish_grows f _ _ fun r _ => hr rfl r)
  | supervise => exact Supervise.drops

end Turn

section Stacks
variable {O : Type} [RequestsFilesystemAuthority O]

theorem Provider.drops {Q : Type} {P : Event → Prop} (hP : P .dropped) :
    Drops P (Provider.service Q) := fun _ w => (Grows.refl w).emit hP

end Stacks

/-- A service in which only its caller polls: once the provider was polled, dropping the future
disclaims nothing, and nothing happens in the background. -/
structure Attended {Q : Type} (S : AgentService Q) (inv : S.Future → List Event → Prop) : Prop
    extends Keeps (candour.terms 0) S inv where
  drop : ∀ f w, inv f w.log → .polled ∈ w.log → Grows (fun e => ¬e.Disclaims) w (S.drop f w).2
  still : ∀ k f w, (S.background k f w).2 = w

section Attended

lemma not_disclaims_released : ¬Event.Disclaims .released := by simp [Event.Disclaims]

theorem GenericLayer.attended {Q : Type} {S : AgentService Q} {inv : S.Future → List Event → Prop}
    (h : Attended S inv) (g : GenericLayer) : ∃ inv, Attended (g.layer S) inv := by
  have L := candour_lawful.toLawful
  cases g with
  | admission =>
    refine ⟨_,Admission.keeps (k := 0) L h.toKeeps,fun g w hg hw => ?_,
      fun k => Gate.update_still fun f => h.still k f.inner⟩
    refine Gate.update_grows fun f hf => ?_
    subst hf
    exact (h.drop f.inner w hg hw).trans
      (Admission.letGo_grows not_disclaims_released f.permit _)
  | limitOutput maxBytes => exact ⟨_,LimitOutput.keeps L maxBytes h.toKeeps,h.drop,h.still⟩
  | catchPanic =>
    refine ⟨_,CatchPanic.keeps L h.toKeeps,fun g w hg hw => ?_,
      fun k => Gate.update_still (h.still k)⟩
    refine Gate.update_grows fun f hf => ?_
    subst hf
    exact h.drop f w hg hw
  | injectFaults =>
    refine ⟨_,InjectFaults.keeps L h.toKeeps,fun g w hg hw => ?_,
      fun k => Gate.update_still fun f w => ?_⟩
    · refine Gate.update_grows fun f hf => ?_
      subst hf
      cases f with
      | holding wake settled => exact .refl w
      | delaying delay wake f => exact h.drop f w hg hw
      | passing f => exact h.drop f w hg hw
      | settling delay f => exact h.drop f w hg hw
      | failing kind message f => exact h.drop f w hg hw
    · cases f with
      | holding wake settled => rfl
      | delaying delay wake f => exact h.still k f w
      | passing f => exact h.still k f w
      | settling delay f => exact h.still k f w
      | failing kind message f => exact h.still k f w

variable {O : Type} {S : AgentService (TurnRequest O)} {inv : S.Future → List Event → Prop}

/-- The observer knows of every poll of the provider: each one is a poll of its own future. -/
theorem Observe.attended (hlazy : Lazy S) (h : Attended S inv) :
    Attended (Observe.service S)
      fun f v => (.polled ∈ v → f.launched = true) ∧ inv f.inner v where
  safe f v hf := h.safe f.inner v hf.2
  pollReady := h.pollReady
  call := by
    intro s request w hw
    have hc := h.call s request w hw
    have hunpolled : .polled ∉ (S.call s request w).2.2.log :=
      fun hm => ((hlazy s request w).of_mem hm).elim hw.2 (· rfl)
    simp only [Observe.service, Observe.call]
    generalize S.call s request w = x at hc hunpolled ⊢
    rcases x with ⟨f | payload,s',w'⟩
    · exact ⟨fun hm => absurd hm hunpolled,hc⟩
    · exact hc
  poll := by
    intro f w hf
    have hp := h.poll f.inner w hf.2
    simp only [Observe.service, Observe.poll]
    generalize S.poll f.inner w = x at hp ⊢
    rcases x with ⟨f' | r | payload,w'⟩
    · exact ⟨fun _ => rfl,hp⟩
    · exact candour_lawful.done_receipt _ r _ (status_settled r) hp
    · exact candour_lawful.broken_receipt _ _ (by simp) hp
  background k f w hf := by
    refine ⟨fun hm => hf.1 ?_,h.background k f.inner w hf.2⟩
    exact h.still k f.inner w ▸ hm
  drop f w hf hw := by
    refine (h.drop f.inner w hf.2 hw).trans (finish_grows f _ _ fun r hr => ?_)
    simp [hr, hf.1 hw]
  still k f := h.still k f.inner

theorem Layer.attended [RequestsFilesystemAuthority O] (hlazy : Lazy S) (h : Attended S inv)
    (l : Layer) (hl : l ≠ .supervise) : ∃ inv, Attended (l.layer S) inv := by
  have L := candour_lawful
  cases l with
  | generic g => exact g.attended h
  | deadline =>
    refine ⟨_,Deadline.keeps L h.toKeeps,fun g w hg hw => ?_,
      fun k => Gate.update_still fun f w => ?_⟩
    · refine Gate.update_grows fun f hf => ?_
      subst hf
      cases f with
      | racing deadline f => exact h.drop f w hg hw
      | draining cause f => exact h.drop f w hg hw
    · cases f with
      | racing deadline f => exact h.still k f w
      | draining cause f => exact h.still k f w
  | validateTurn maxPromptBytes =>
    refine ⟨_,ValidateTurn.keeps L maxPromptBytes h.toKeeps,fun g w hg hw => ?_,
      fun k => Gate.update_still (h.still k)⟩
    refine Gate.update_grows fun f hf => ?_
    subst hf
    exact h.drop f w hg hw
  | enforceAuthority policy canonicalize =>
    refine ⟨_,EnforceAuthority.keeps L policy canonicalize h.toKeeps,fun g w hg hw => ?_,
      fun k => Gate.update_still (h.still k)⟩
    refine Gate.update_grows fun f hf => ?_
    subst hf
    exact h.drop f w hg hw
  | observe => exact ⟨_,Observe.attended hlazy h⟩
  | supervise => exact absurd rfl hl

end Attended

section Run
variable {Q : Type} {S : AgentService Q} (oracle : ℕ → Moment Reply) (cancelled : Bool) (now : ℕ)
  (service : S.State) (ops : List (Op Q))

end Run

end TowerAgent.Kernel
