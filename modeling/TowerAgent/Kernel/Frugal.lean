import TowerAgent.Kernel.Abandonment

/-! Services that call the provider at most once for each request they are called with, whether in
the call itself or in a later poll, and only for a request that passes their checks. -/
namespace TowerAgent.Kernel
open Lib

def Event.isCalled : Event → Bool
  | .called => true
  | _ => false

/-- Events other than the provider's call. -/
abbrev Quiet (w w' : CallWorld) : Prop := Grows (· ≠ Event.called) w w'

lemma Quiet.countP_eq {w w' : CallWorld} (h : Quiet w w') :
    w'.log.countP Event.isCalled = w.log.countP Event.isCalled := by
  obtain ⟨u,hu,hP⟩ := h
  rw [hu,List.countP_append]
  have hzero : u.countP Event.isCalled = 0 := List.countP_eq_zero.mpr fun e he => by
    cases e with
    | called => exact absurd rfl (hP _ he)
    | _ => simp [Event.isCalled]
  rw [hzero,Nat.add_zero]

lemma called_mem_iff {log : List Event} : .called ∈ log ↔ 0 < log.countP Event.isCalled := by
  rw [List.countP_pos_iff]
  constructor
  · exact fun h => ⟨_,h,rfl⟩
  · rintro ⟨e,he,h⟩
    cases e with
    | called => exact he
    | _ => cases h

lemma Quiet.called_mem {w w' : CallWorld} (h : Quiet w w') :
    .called ∈ w'.log ↔ .called ∈ w.log := by
  rw [called_mem_iff,called_mem_iff,h.countP_eq]

/-- At most one call of the provider, and that on a condition. -/
def Screened (condition : Prop) (w w' : CallWorld) : Prop :=
  Quiet w w' ∨ condition ∧ ∃ w₁, Quiet w w₁ ∧ Quiet (w₁.emit .called) w'

namespace Screened
variable {p q : Prop} {w w' w'' : CallWorld}

lemma after (hq : Quiet w w') (h : Screened p w' w'') : Screened p w w'' := by
  rcases h with h | ⟨hp,w₁,h,h'⟩
  · exact .inl (hq.trans h)
  · exact .inr ⟨hp,w₁,hq.trans h,h'⟩

lemma before (h : Screened p w w') (hq : Quiet w' w'') : Screened p w w'' := by
  rcases h with h | ⟨hp,w₁,h,h'⟩
  · exact .inl (h.trans hq)
  · exact .inr ⟨hp,w₁,h,h'.trans hq⟩

lemma imp (h : Screened p w w') (hpq : p → q) : Screened q w w' :=
  Or.imp_right (And.imp_left hpq) h

/-- On a condition that fails there is no call. -/
lemma quiet (h : Screened p w w') (hp : ¬ p) : Quiet w w' := h.resolve_right fun h => hp h.1

lemma countP_le (h : Screened p w w') :
    w'.log.countP Event.isCalled ≤ w.log.countP Event.isCalled + 1 := by
  rcases h with h | ⟨-,w₁,h,h'⟩
  · rw [h.countP_eq]
    exact Nat.le_succ _
  · rw [h'.countP_eq,←h.countP_eq,World.emit,List.countP_append]
    exact le_rfl

lemma of_called (h : Screened p w w') (hn : .called ∉ w.log) (hc : .called ∈ w'.log) : p := by
  rcases h with h | ⟨hp,-⟩
  · exact absurd (h.called_mem.mp hc) hn
  · exact hp

end Screened

section Spends
variable {Q F G : Type}

/-- What is done for the request that a future still owes the provider, if any: at most one call,
if the request passes, and from then on nothing is owed. -/
def Spends (passes : Q → Prop) (owes : Option Q → F → Prop) (q : Option Q) (w : CallWorld)
    (left : Option F) (w' : CallWorld) : Prop :=
  Screened (∃ r ∈ q, passes r) w w' ∧ ∀ f ∈ left, owes none f ∨ owes q f ∧ Quiet w w'

namespace Spends
variable {passes : Q → Prop} {owes : Option Q → F → Prop} {q : Option Q} {w w' w'' : CallWorld}
  {left : Option F}

/-- Nothing was done for the request. -/
lemma rest (hq : Quiet w w') (h : ∀ f ∈ left, owes q f) : Spends passes owes q w left w' :=
  ⟨.inl hq,fun f hf => .inr ⟨h f hf,hq⟩⟩

lemma after (hq : Quiet w w') (h : Spends passes owes q w' left w'') :
    Spends passes owes q w left w'' :=
  ⟨h.1.after hq,fun f hf => (h.2 f hf).imp_right (And.imp_right hq.trans)⟩

lemma before (h : Spends passes owes q w left w') (hq : Quiet w' w'') :
    Spends passes owes q w left w'' :=
  ⟨h.1.before hq,fun f hf => (h.2 f hf).imp_right (And.imp_right fun h => h.trans hq)⟩

/-- No future is left. -/
lemma ended {owes' : Option Q → G → Prop} (h : Spends passes owes q w left w') :
    Spends passes owes' q w none w' :=
  ⟨h.1,fun _ hf => (by cases hf)⟩

/-- The future that is left is held by another one. -/
lemma map (h : Spends passes owes q w left w') (owes' : Option Q → G → Prop) (wrap : F → G)
    (hwrap : ∀ q f, owes q f → owes' q (wrap f)) :
    Spends passes owes' q w (left.map wrap) w' := by
  refine ⟨h.1,fun g hg => ?_⟩
  obtain ⟨f,hf,rfl⟩ := Option.map_eq_some_iff.mp hg
  exact (h.2 f hf).imp (hwrap _ _) (And.imp_left (hwrap _ _))

end Spends
end Spends

/-- A change of a future that does nothing for the request it owes. -/
def Rests {Q F : Type} (owes : Option Q → F → Prop) (next : F → CallWorld → F × CallWorld) : Prop :=
  ∀ f w, Quiet w (next f w).2 ∧ ∀ q, owes q f → owes q (next f w).1

/-- A service that calls the provider at most once for a request, if it passes; `owes` tells the
request that a future may still call the provider for, when it is polled. -/
structure Frugal {Q : Type} (S : AgentService Q) (passes : Q → Prop)
    (owes : Option Q → S.Future → Prop) : Prop where
  pollReady : ∀ s w, Quiet w (S.pollReady s w).2.2
  call : ∀ s q w,
    Spends passes owes (some q) w (S.call s q w).1.toOption (S.call s q w).2.2
  poll : ∀ q f w, owes q f → Spends passes owes q w (S.poll f w).1.left (S.poll f w).2
  background : ∀ k, Rests owes (S.background k)
  drop : Rests owes S.drop

section Gate
variable {Q F : Type} {passes : Q → Prop} {owes : Option Q → F → Prop} {q : Option Q}

/-- What a gate owes is owed by the future it forwards. -/
def Gate.Owes (owes : Option Q → F → Prop) (q : Option Q) : Gate F → Prop
  | .refused _ => True
  | .opened f => owes q f

lemma Gate.poll_spends {next : F → CallWorld → Polled F CallResult × CallWorld}
    (h : ∀ f w, owes q f → Spends passes owes q w (next f w).1.left (next f w).2) (g : Gate F)
    (w : CallWorld) (hg : g.Owes owes q) :
    Spends passes (Gate.Owes owes) q w (Gate.poll next g w).1.left (Gate.poll next g w).2 := by
  cases g with
  | refused error => exact .rest (.refl w) (fun _ hf => (by cases hf))
  | opened f =>
    have hp := h f w hg
    simp only [Gate.poll]
    generalize next f w = x at hp ⊢
    rcases x with ⟨f' | r | payload,w'⟩
    · exact hp.map (Gate.Owes owes) Gate.opened fun q f hf => hf
    · exact hp.ended
    · exact hp.ended

lemma Gate.update_rests {next : F → CallWorld → F × CallWorld} (h : Rests owes next) :
    Rests (Gate.Owes owes) (Gate.update next) := by
  intro g w
  cases g with
  | refused error => exact ⟨.refl w,fun q _ => trivial⟩
  | opened f => exact h f w

end Gate

section Generic
variable {Q : Type} {S : AgentService Q} {passes : Q → Prop} {owes : Option Q → S.Future → Prop}

/-- What an admitted future owes. -/
def Admission.Admitted.Owes {F : Type} (owes : Option Q → F → Prop) (q : Option Q)
    (f : Admitted F) : Prop := owes q f.inner

lemma Admission.call_spends (h : Frugal S passes owes) (s : State S.State) (q : Q) (w : CallWorld) :
    Spends passes (Gate.Owes (Admitted.Owes owes)) (some q) w
      (call S s q w).1.toOption (call S s q w).2.2 := by
  unfold call
  split
  · have hc := (h.call s.inner q (w.emit .admitted)).after ((Grows.refl w).emit (by simp))
    generalize S.call s.inner q (w.emit .admitted) = x at hc ⊢
    rcases x with ⟨f | payload,inner,w'⟩
    · exact hc.map (Gate.Owes (Admitted.Owes owes)) (fun f => .opened ⟨true,f⟩) fun q f hf => hf
    · exact hc.ended.before ((Grows.refl w').emit (by simp))
  · refine .rest (.refl w) fun f hf => ?_
    obtain rfl := Option.some.inj hf
    trivial

lemma Admission.poll_spends (h : Frugal S passes owes) {q : Option Q} (f : Admitted S.Future)
    (w : CallWorld) (hf : f.Owes owes q) :
    Spends passes (Admitted.Owes owes) q w (poll S f w).1.left (poll S f w).2 := by
  have hp := h.poll q f.inner w hf
  unfold poll
  generalize S.poll f.inner w = x at hp ⊢
  rcases x with ⟨f' | r | payload,w'⟩
  · exact hp.map (Admitted.Owes owes) (Admitted.mk f.permit) fun q f hf => hf
  · exact hp.ended.before (letGo_grows (by simp) _ _)
  · exact hp.ended.before (letGo_grows (by simp) _ _)

lemma Admission.frugal (h : Frugal S passes owes) : Frugal (Admission.service S) passes
    (Gate.Owes (Admitted.Owes owes)) where
  pollReady s w := h.pollReady s.inner w
  call := call_spends h
  poll _ := Gate.poll_spends (poll_spends h)
  background k := Gate.update_rests fun f w => h.background k f.inner w
  drop := Gate.update_rests fun f w =>
    ⟨(h.drop f.inner w).1.trans (letGo_grows (by simp) _ _),(h.drop f.inner w).2⟩

lemma LimitOutput.frugal (h : Frugal S passes owes) (maxBytes : ℕ) :
    Frugal (LimitOutput.service maxBytes S) passes owes where
  pollReady := h.pollReady
  call := h.call
  poll := by
    intro q f w hf
    have hp := h.poll q f w hf
    simp only [LimitOutput.service, LimitOutput.poll]
    generalize S.poll f w = x at hp ⊢
    rcases x with ⟨f' | r | payload,w'⟩ <;> exact hp
  background := h.background
  drop := h.drop

lemma CatchPanic.poll_spends (h : Frugal S passes owes) {q : Option Q} (f : S.Future)
    (w : CallWorld) (hf : owes q f) :
    Spends passes owes q w (poll S f w).1.left (poll S f w).2 := by
  have hp := h.poll q f w hf
  unfold poll
  generalize S.poll f w = x at hp ⊢
  rcases x with ⟨f' | r | payload,w'⟩
  · exact hp
  · exact hp
  · exact hp.before ((Grows.refl w').emit (by simp))

lemma CatchPanic.frugal (h : Frugal S passes owes) :
    Frugal (CatchPanic.service S) passes (Gate.Owes owes) where
  pollReady := by
    intro s w
    have hr := h.pollReady s w
    simp only [CatchPanic.service, CatchPanic.pollReady]
    generalize S.pollReady s w = x at hr ⊢
    rcases x with ⟨r | payload,s',w'⟩ <;> exact hr
  call := by
    intro s q w
    have hc := h.call s q w
    simp only [CatchPanic.service, CatchPanic.call]
    generalize S.call s q w = x at hc ⊢
    rcases x with ⟨f | payload,s',w'⟩
    · exact hc.map (Gate.Owes owes) Gate.opened fun q f hf => hf
    · refine ⟨hc.1,fun f hf => ?_⟩
      obtain rfl := Option.some.inj hf
      exact .inl trivial
  poll _ := Gate.poll_spends (poll_spends h)
  background k := Gate.update_rests (h.background k)
  drop := Gate.update_rests h.drop

namespace InjectFaults

/-- What a fault's future owes; nothing once the call has settled. -/
def Faulty.Owes {F : Type} (owes : Option Q → F → Prop) (q : Option Q) : Faulty F → Prop
  | .delaying _ _ f | .passing f | .settling _ f | .failing _ _ f => owes q f
  | .holding _ _ => True

lemma hold_quiet {F : Type} (wake : ℕ) (settled : CallResult) (w : CallWorld) :
    Quiet w (hold wake settled w : Polled (Faulty F) CallResult × CallWorld).2 := by
  simp only [hold]
  split <;> exact .refl w

lemma start_quiet (delay : Duration) (wake : Option ℕ) (w : CallWorld) :
    Quiet w (start delay wake w).2 := by
  cases wake <;> exact .refl w

/-- Once the call has settled, what is held owes nothing. -/
lemma hold_spends {F : Type} {owes : Option Q → F → Prop} {q : Option Q} (wake : ℕ)
    (settled : CallResult) {w w' : CallWorld} (h : Screened (∃ r ∈ q, passes r) w w') :
    Spends passes (Faulty.Owes owes) q w
      (hold wake settled w' : Polled (Faulty F) CallResult × CallWorld).1.left
      (hold wake settled w' : Polled (Faulty F) CallResult × CallWorld).2 := by
  refine ⟨h.before (hold_quiet wake settled w'),fun f hf => .inl ?_⟩
  simp only [hold] at hf
  split at hf
  · cases hf
  · obtain rfl := Option.some.inj hf
    trivial

lemma pass_spends (h : Frugal S passes owes) {q : Option Q} {f : S.Future} (w : CallWorld)
    (hf : owes q f) : Spends passes (Faulty.Owes owes) q w (pass S f w).1.left (pass S f w).2 := by
  have hp := h.poll q f w hf
  unfold pass
  generalize S.poll f w = x at hp ⊢
  rcases x with ⟨f' | r | payload,w'⟩
  · exact hp.map (Faulty.Owes owes) Faulty.passing fun q f hf => hf
  · exact hp.ended
  · exact hp.ended

lemma poll_spends (h : Frugal S passes owes) {q : Option Q} (f : Faulty S.Future) (w : CallWorld)
    (hf : f.Owes owes q) :
    Spends passes (Faulty.Owes owes) q w (poll S f w).1.left (poll S f w).2 := by
  cases f with
  | delaying delay wake f =>
    have hs := start_quiet delay wake w
    simp only [poll]
    split
    · exact (pass_spends h _ hf).after hs
    · refine .rest hs fun f' hf' => ?_
      obtain rfl := Option.some.inj hf'
      exact hf
  | passing f => exact pass_spends h w hf
  | settling delay f =>
    have hp := h.poll q f w hf
    simp only [poll]
    generalize S.poll f w = x at hp ⊢
    rcases x with ⟨f' | r | payload,w'⟩
    · exact hp.map (Faulty.Owes owes) (Faulty.settling delay) fun q f hf => hf
    · exact hold_spends _ _ (hp.1.before (start_quiet delay none w'))
    · exact hp.ended
  | holding wake settled => exact hold_spends wake settled (.inl (.refl w))
  | failing kind message f =>
    have hp := h.poll q f w hf
    simp only [poll]
    generalize S.poll f w = x at hp ⊢
    rcases x with ⟨f' | r | payload,w'⟩
    · exact hp.map (Faulty.Owes owes) (Faulty.failing kind message) fun q f hf => hf
    · exact hp.ended.before ((Grows.refl w').emit (by simp))
    · exact hp.ended

lemma update_rests {next : S.Future → CallWorld → S.Future × CallWorld} (h : Rests owes next) :
    Rests (Faulty.Owes owes) (Faulty.update next) := by
  intro f w
  cases f with
  | holding wake settled => exact ⟨.refl w,fun q _ => trivial⟩
  | delaying delay wake f | passing f | settling delay f | failing kind message f => exact h f w

lemma call_spends (h : Frugal S passes owes) (s : State S.State) (q : Q) (w : CallWorld) :
    Spends passes (Gate.Owes (Faulty.Owes owes)) (some q) w (call S s q w).1.toOption
      (call S s q w).2.2 := by
  have hc := h.call s.inner q w
  have hfuture : ∀ wrap : S.Future → Faulty S.Future, (∀ q f, owes q f → (wrap f).Owes owes q) →
      Spends passes (Gate.Owes (Faulty.Owes owes)) (some q) w
        ((S.call s.inner q w).1.map fun f => Gate.opened (wrap f)).toOption
        (S.call s.inner q w).2.2 := by
    intro wrap hwrap
    generalize S.call s.inner q w = x at hc ⊢
    rcases x with ⟨f | payload,inner,w'⟩
    · exact hc.map (Gate.Owes (Faulty.Owes owes)) (fun f => .opened (wrap f)) hwrap
    · exact hc.ended
  unfold call
  split
  · refine .rest (.refl w) fun f hf => ?_
    obtain rfl := Option.some.inj hf
    trivial
  all_goals exact hfuture _ fun q f hf => hf

lemma frugal (h : Frugal S passes owes) :
    Frugal (InjectFaults.service S) passes (Gate.Owes (Faulty.Owes owes)) where
  pollReady s w := h.pollReady s.inner w
  call := call_spends h
  poll _ := Gate.poll_spends (poll_spends h)
  background k := Gate.update_rests (update_rests (h.background k))
  drop := Gate.update_rests (update_rests h.drop)

end InjectFaults

/-- What a layer's futures owe, by what the inner ones do. -/
def GenericLayer.Owes (owes : Option Q → S.Future → Prop) :
    (g : GenericLayer) → Option Q → (g.layer S).Future → Prop
  | .admission => Gate.Owes (Admission.Admitted.Owes owes)
  | .limitOutput _ => owes
  | .catchPanic => Gate.Owes owes
  | .injectFaults => Gate.Owes (InjectFaults.Faulty.Owes owes)

theorem GenericLayer.frugal (h : Frugal S passes owes) (g : GenericLayer) :
    Frugal (g.layer S) passes (g.Owes owes) := by
  cases g with
  | admission => exact Admission.frugal h
  | limitOutput maxBytes => exact LimitOutput.frugal h maxBytes
  | catchPanic => exact CatchPanic.frugal h
  | injectFaults => exact InjectFaults.frugal h

end Generic

section Session
variable {Q : Type} {S : AgentService Q} {passes : Q → Prop} {owes : Option Q → S.Future → Prop}
  {ops : List (Op Q)} {s : Session S}

/-- Before its call the provider is not called; a future owes nothing, or the provider's call for
the request the session was called with. -/
def Owing (owes : Option Q → S.Future → Prop) (ops : List (Op Q)) (log : List Event) :
    Caller S.Future CallResult → Prop
  | .idle => .called ∉ log
  | .holding f | .dropped f => ∃ q, owes q f ∧ ∀ r ∈ q, .called ∉ log ∧ .call r ∈ ops
  | _ => True

lemma Owing.quiet {w w' : CallWorld} {caller : Caller S.Future CallResult}
    (h : Owing owes ops w.log caller) (op : Op Q) (hw : Quiet w w') :
    Owing owes (ops ++ [op]) w'.log caller := by
  cases caller with
  | idle => exact fun hm => h (hw.called_mem.mp hm)
  | holding f | dropped f =>
    obtain ⟨q,hf,hq⟩ := h
    exact ⟨q,hf,fun r hr =>
      ⟨fun hm => (hq r hr).1 (hw.called_mem.mp hm),List.mem_append_left _ (hq r hr).2⟩⟩
  | _ => trivial

/-- A future that rests owes what it did. -/
lemma Owing.rest {next : S.Future → CallWorld → S.Future × CallWorld} {f : S.Future} {w : CallWorld}
    (h : Owing owes ops w.log (.holding f)) (op : Op Q) (hr : Rests owes next) :
    Owing owes (ops ++ [op]) (next f w).2.log (.holding (next f w).1) := by
  obtain ⟨q,hf,hq⟩ := h.quiet op (hr f w).1
  exact ⟨q,(hr f w).2 q hf,hq⟩

/-- What a session keeps. -/
structure Thrifty (passes : Q → Prop) (owes : Option Q → S.Future → Prop) (ops : List (Op Q))
    (s : Session S) : Prop where
  caller : Owing owes ops s.world.log s.caller
  /-- The provider is called at most once. -/
  once : s.world.log.countP Event.isCalled ≤ 1
  /-- It is called for a request of the caller that passes. -/
  passed : .called ∈ s.world.log → ∃ request, .call request ∈ ops ∧ passes request

namespace Thrifty

/-- What does not concern the provider keeps its promises. -/
lemma quiet {s' : Session S} (h : Thrifty passes owes ops s) (op : Op Q)
    (hw : Quiet s.world s'.world) (hc : Owing owes (ops ++ [op]) s'.world.log s'.caller) :
    Thrifty passes owes (ops ++ [op]) s' := by
  refine ⟨hc,hw.countP_eq ▸ h.once,fun hm => ?_⟩
  obtain ⟨request,hr,hp⟩ := h.passed (hw.called_mem.mp hm)
  exact ⟨request,List.mem_append_left _ hr,hp⟩

/-- What is done for a request the session was called with keeps the promises of the provider. -/
lemma spend {q : Option Q} {left : Option S.Future} {w : CallWorld}
    (h : Thrifty passes owes ops s) (op : Op Q) (hs : Spends passes owes q s.world left w)
    (hq : ∀ r ∈ q, .called ∉ s.world.log ∧ .call r ∈ ops ++ [op]) :
    w.log.countP Event.isCalled ≤ 1 ∧
      (.called ∈ w.log → ∃ request, .call request ∈ ops ++ [op] ∧ passes request) ∧
      ∀ f ∈ left, ∃ q, owes q f ∧ ∀ r ∈ q, .called ∉ w.log ∧ .call r ∈ ops ++ [op] := by
  refine ⟨?_,fun hm => ?_,fun f hf => ?_⟩
  · cases q with
    | none =>
      rw [(hs.1.quiet (by simp)).countP_eq]
      exact h.once
    | some r =>
      have hzero : s.world.log.countP Event.isCalled = 0 :=
        Nat.eq_zero_of_not_pos (mt called_mem_iff.mpr (hq r rfl).1)
      have := hs.1.countP_le
      omega
  · by_cases hcalled : .called ∈ s.world.log
    · obtain ⟨request,hr,hp⟩ := h.passed hcalled
      exact ⟨request,List.mem_append_left _ hr,hp⟩
    · obtain ⟨r,hr,hp⟩ := hs.1.of_called hcalled hm
      exact ⟨r,(hq r hr).2,hp⟩
  · rcases hs.2 f hf with hnone | ⟨howes,hquiet⟩
    · exact ⟨none,hnone,fun _ hr => (by cases hr)⟩
    · exact ⟨q,howes,fun r hr => ⟨fun hm => (hq r hr).1 (hquiet.called_mem.mp hm),(hq r hr).2⟩⟩

lemma drive (hS : Frugal S passes owes) (h : Thrifty passes owes ops s) (op : Op Q) :
    Thrifty passes owes (ops ++ [op]) (s.drive op) := by
  obtain ⟨world,service,caller,refusals⟩ := s
  have same : Thrifty passes owes (ops ++ [op]) (⟨world,service,caller,refusals⟩ : Session S) :=
    h.quiet op (.refl _) (h.caller.quiet op (.refl _))
  cases op with
  | pollReady =>
    cases caller with
    | idle =>
      have hr := hS.pollReady service world
      have hc := h.caller.quiet .pollReady hr
      simp only [Session.drive]
      rcases hp : S.pollReady service world with ⟨answer,service',world'⟩
      simp only [hp] at hr hc
      cases answer with
      | panicked payload => exact h.quiet _ hr trivial
      | returned ready =>
        cases ready with
        | pending => exact h.quiet _ hr hc
        | ready result => cases result <;> exact h.quiet _ hr hc
    | _ => exact same
  | clone => cases caller <;> exact h.quiet _ (.refl _) (h.caller.quiet _ (.refl _))
  | call request =>
    cases caller with
    | idle =>
      have hc := hS.call service request world
      simp only [Session.drive]
      rcases hp : S.call service request world with ⟨answer,service',world'⟩
      simp only [hp] at hc
      obtain ⟨honce,hpassed,hleft⟩ := h.spend (.call request) hc fun r hr => by
        obtain rfl := Option.some.inj hr
        exact ⟨h.caller,by simp⟩
      cases answer with
      | returned f => exact ⟨hleft f rfl,honce,hpassed⟩
      | panicked payload => exact ⟨trivial,honce,hpassed⟩
    | _ => exact same
  | poll =>
    cases caller with
    | holding f =>
      obtain ⟨q,hf,hq⟩ := h.caller
      have hr := hS.poll q f world hf
      simp only [Session.drive]
      rcases hp : S.poll f world with ⟨answer,world'⟩
      simp only [hp] at hr
      obtain ⟨honce,hpassed,hleft⟩ := h.spend .poll hr fun r hr =>
        ⟨(hq r hr).1,List.mem_append_left _ (hq r hr).2⟩
      cases answer with
      | pending f' => exact ⟨hleft f' rfl,honce,hpassed⟩
      | ready result => exact ⟨trivial,honce,hpassed⟩
      | panicked payload => exact ⟨trivial,honce,hpassed⟩
    | _ => exact same
  | background k =>
    have hrests := hS.background k
    cases caller with
    | holding f => exact h.quiet _ (hrests f world).1 (h.caller.rest _ hrests)
    | dropped f =>
      have hc : Owing owes ops world.log (.holding f) := h.caller
      exact h.quiet _ (hrests f world).1 (hc.rest _ hrests)
    | _ => exact same
  | drop =>
    cases caller with
    | holding f => exact h.quiet _ (hS.drop f world).1 (h.caller.rest _ hS.drop)
    | _ => exact same
  | pass => exact h.quiet _ (show Quiet world world.pass from .refl _) (h.caller.quiet _ (.refl _))

end Thrifty

/-- So does every run of a session over a frugal service. -/
theorem Frugal.run (hS : Frugal S passes owes) (oracle : ℕ → Moment Reply) (cancelled : Bool)
    (now : ℕ) (service : S.State) (ops : List (Op Q)) :
    Thrifty passes owes ops ((Session.fresh oracle cancelled now service : Session S).run ops) := by
  induction ops using List.reverseRecOn with
  | nil => exact ⟨List.not_mem_nil,by simp [Session.run, Session.fresh],
      by simp [Session.run, Session.fresh]⟩
  | append_singleton ops op ih =>
    rw [Session.run_concat]
    exact ih.drive hS op

/-- Only calls and polls call the provider. -/
lemma Frugal.drive_quiet (hS : Frugal S passes owes) (s : Session S) {op : Op Q}
    (hop : (∃ k, op = .background k) ∨ op = .drop ∨ op = .pass) :
    Quiet s.world (s.drive op).world := by
  obtain ⟨world,service,caller,refusals⟩ := s
  rcases hop with ⟨k,rfl⟩ | rfl | rfl
  · cases caller with
    | holding f | dropped f => exact (hS.background k f world).1
    | _ => exact .refl world
  · cases caller with
    | holding f => exact (hS.drop f world).1
    | _ => exact .refl world
  · exact (show Quiet world world.pass from .refl world)

end Session
end TowerAgent.Kernel
