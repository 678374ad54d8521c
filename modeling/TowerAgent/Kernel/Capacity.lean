import TowerAgent.Kernel.Layer
import TowerAgent.Lib.Machine
import TowerAgent.Lib.Slot

/-! One admission semaphore shared by any number of clones: every permit is free, reserved by a
clone, or held by an admitted call that has not settled. -/
namespace TowerAgent.Kernel.Admission
open Lib

/-- What the inner service answers to `poll_ready`. -/
abbrev InnerReadiness := Poll (Except AgentError Unit)

/-- One clone of the service; beside its reservation, what its inner readiness last was and whether
a call happened since. -/
structure Clone where
  permit : Bool := false
  latest : Option InnerReadiness := none
  called : Bool := false

inductive Answer where
  | busy
  | forwarded
  | settled
  deriving DecidableEq

/-- A response future: how its call was answered, and the permit it holds. -/
structure Response where
  answer : Answer
  permit : Bool

/-- The free permits, the clones and the response futures; `invoked` keeps each clone that invoked
the inner `call`, as it was then. -/
structure Shared where
  free : ℕ
  clones : List Clone
  responses : List Response := []
  invoked : List Clone := []

/-- The atomic operations: each touches the semaphore at most once. -/
inductive Label where
  | pollReady (i : ℕ) (readiness : InnerReadiness)
  | call (i : ℕ) (launched : Bool)
  | clone (i : ℕ)
  | drop (i : ℕ)
  | settle (j : ℕ)

namespace Shared
variable (s : Shared)

def pollReady (i : ℕ) (c : Clone) (readiness : InnerReadiness) : Shared :=
  let reserved := (reserve c.permit s.free (.returned readiness)).2
  { s with
    free := reserved.2
    clones := s.clones.set i { permit := reserved.1, latest := some readiness } }

/-- `call` takes the reservation; an inner `call` that panics drops it. -/
def call (i : ℕ) (c : Clone) (launched : Bool) : Shared :=
  let s' := { s with clones := s.clones.set i { c with permit := false, called := true } }
  if c.permit then
    let s' := { s' with invoked := s.invoked ++ [c] }
    if launched then { s' with responses := s.responses ++ [⟨.forwarded,true⟩] }
    else { s' with free := release c.permit s.free }
  else { s' with responses := s.responses ++ [⟨.busy,false⟩] }

def drop (i : ℕ) (c : Clone) : Shared :=
  { s with free := release c.permit s.free, clones := s.clones.eraseIdx i }

def settle (j : ℕ) (r : Response) : Shared :=
  { s with free := release r.permit s.free, responses := s.responses.set j ⟨.settled,false⟩ }

def step : Label → Option Shared
  | .pollReady i readiness => s.clones[i]?.map (s.pollReady i · readiness)
  | .call i launched => s.clones[i]?.map (s.call i · launched)
  | .clone i => s.clones[i]?.map fun _ => { s with clones := s.clones ++ [{}] }
  | .drop i => s.clones[i]?.map (s.drop i)
  | .settle j => s.responses[j]?.bind fun r =>
    if r.answer = .forwarded then some (s.settle j r) else none

/-- The admitted calls that have not settled. -/
def inFlight : ℕ := s.responses.countP (fun r => decide (r.answer = .forwarded))

/-- The reservations the clones hold. -/
def reserved : ℕ := s.clones.countP Clone.permit

end Shared

/-- A service with `n` permits, cloned and called in any order. -/
def capacity (n : ℕ) : Machine Shared Label where
  start := { free := n, clones := [{}] }
  step := Shared.step

/-- A clone holds a reservation only while its latest inner readiness was a success that no call
has used. -/
def Clone.Valid (c : Clone) : Prop :=
  c.permit = true → c.latest = some (.ready (.ok ())) ∧ c.called = false

/-- A response future holds a permit exactly while it is admitted and unsettled. -/
def Response.Valid (r : Response) : Prop := r.permit = decide (r.answer = .forwarded)

structure Conserved (n : ℕ) (s : Shared) : Prop where
  total : s.free + s.reserved + s.inFlight = n
  clones : ∀ c ∈ s.clones, c.Valid
  responses : ∀ r ∈ s.responses, r.Valid
  invoked : ∀ c ∈ s.invoked, c.latest = some (.ready (.ok ())) ∧ c.called = false

theorem release_eq (permit : Bool) (free : ℕ) :
    release permit free = free + (if permit then 1 else 0) := by
  cases permit <;> rfl

/-- A readiness poll moves at most one permit between the semaphore and the reservation. -/
theorem reserve_total (permit : Bool) (free : ℕ) (readiness : InnerReadiness) :
    (reserve permit free (.returned readiness)).2.2 +
      (if (reserve permit free (.returned readiness)).2.1 then 1 else 0) =
    free + (if permit then 1 else 0) := by
  rcases readiness with - | (e | u)
  · simp [reserve, release_eq]
  · simp [reserve, release_eq]
  · cases permit with
    | true => simp [reserve]
    | false => cases free <;> simp [reserve, tryAcquire]

/-- A readiness poll that leaves a reservation saw the inner service ready. -/
theorem reserve_permit {permit : Bool} {free : ℕ} {readiness : InnerReadiness}
    (h : (reserve permit free (.returned readiness)).2.1 = true) : readiness = .ready (.ok ()) := by
  rcases readiness with - | (e | u)
  · cases h
  · cases h
  · rfl

namespace Conserved
variable {n : ℕ} {s : Shared}

theorem pollReady (h : Conserved n s) {i : ℕ} {c : Clone} (hc : s.clones[i]? = some c)
    (readiness : InnerReadiness) : Conserved n (s.pollReady i c readiness) := by
  obtain ⟨front,back,he,hset,-⟩ := exists_slot hc
  have htotal := h.total
  have hmoved := reserve_total c.permit s.free readiness
  refine ⟨?_,?_,h.responses,h.invoked⟩
  · simp only [Shared.pollReady, Shared.reserved, Shared.inFlight, hset] at htotal ⊢
    simp only [he, List.countP_append, List.countP_cons] at htotal ⊢
    omega
  · simp only [Shared.pollReady, hset]
    refine forall_mem_slot (he ▸ h.clones) fun hp => ?_
    exact ⟨congrArg some (reserve_permit hp),rfl⟩

theorem call (h : Conserved n s) {i : ℕ} {c : Clone} (hc : s.clones[i]? = some c)
    (launched : Bool) : Conserved n (s.call i c launched) := by
  obtain ⟨front,back,he,hset,-⟩ := exists_slot hc
  have htotal := h.total
  have hvalid : c.Valid := h.clones c (by simp [he])
  have hclones : ∀ x ∈ front ++ { c with permit := false, called := true }::back, x.Valid :=
    forall_mem_slot (he ▸ h.clones) (by simp [Clone.Valid])
  have hinvoked : c.permit = true → ∀ x ∈ s.invoked ++ [c],
      x.latest = some (.ready (.ok ())) ∧ x.called = false := fun hp =>
    forall_mem_concat h.invoked (hvalid hp)
  have hresponses : ∀ r : Response, r.Valid → ∀ x ∈ s.responses ++ [r], x.Valid := fun r hr =>
    forall_mem_concat h.responses hr
  simp only [Shared.reserved, Shared.inFlight] at htotal
  simp only [he, List.countP_append, List.countP_cons] at htotal
  cases hp : c.permit with
  | false =>
    simp only [Shared.call, hp, hset]
    refine ⟨?_,hclones,hresponses _ rfl,h.invoked⟩
    simpa [Shared.reserved, Shared.inFlight, List.countP_append, hp] using htotal
  | true =>
    cases launched with
    | true =>
      simp only [Shared.call, hp, hset, if_true]
      refine ⟨?_,hclones,hresponses _ rfl,hinvoked hp⟩
      simp only [Shared.reserved, Shared.inFlight, List.countP_append, List.countP_cons,
        List.countP_nil, hp] at htotal ⊢
      simp at htotal ⊢
      omega
    | false =>
      simp only [Shared.call, hp, hset, if_true, release]
      refine ⟨?_,hclones,h.responses,hinvoked hp⟩
      simp [Shared.reserved, Shared.inFlight, hp] at htotal ⊢
      omega

theorem drop (h : Conserved n s) {i : ℕ} {c : Clone} (hc : s.clones[i]? = some c) :
    Conserved n (s.drop i c) := by
  obtain ⟨front,back,he,-,herase⟩ := exists_slot hc
  have htotal := h.total
  refine ⟨?_,fun x hx => h.clones x ?_,h.responses,h.invoked⟩
  · simp only [Shared.drop, Shared.reserved, Shared.inFlight, herase, release_eq] at htotal ⊢
    simp only [he, List.countP_append, List.countP_cons] at htotal ⊢
    omega
  · exact List.mem_of_mem_eraseIdx hx

theorem settle (h : Conserved n s) {j : ℕ} {r : Response} (hr : s.responses[j]? = some r)
    (hf : r.answer = .forwarded) : Conserved n (s.settle j r) := by
  obtain ⟨front,back,he,hset,-⟩ := exists_slot hr
  have htotal := h.total
  have hvalid : r.Valid := h.responses r (by simp [he])
  refine ⟨?_,h.clones,?_,h.invoked⟩
  · simp only [Shared.settle, Shared.reserved, Shared.inFlight, hset, release_eq] at htotal ⊢
    simp only [he, List.countP_append, List.countP_cons] at htotal ⊢
    simp [show r.permit = true by simpa [Response.Valid, hf] using hvalid, hf] at htotal ⊢
    omega
  · simp only [Shared.settle, hset]
    exact forall_mem_slot (he ▸ h.responses) rfl

/-- What one operation keeps. -/
theorem step (h : Conserved n s) {l : Label} {s' : Shared} (hs : s.step l = some s') :
    Conserved n s' := by
  cases l with
  | pollReady i readiness =>
    obtain ⟨c,hc,rfl⟩ := Option.map_eq_some_iff.mp hs
    exact h.pollReady hc readiness
  | call i launched =>
    obtain ⟨c,hc,rfl⟩ := Option.map_eq_some_iff.mp hs
    exact h.call hc launched
  | clone i =>
    obtain ⟨c,hc,rfl⟩ := Option.map_eq_some_iff.mp hs
    refine ⟨?_,forall_mem_concat h.clones (by simp [Clone.Valid]),h.responses,h.invoked⟩
    simpa [Shared.reserved, Shared.inFlight, List.countP_append] using h.total
  | drop i =>
    obtain ⟨c,hc,rfl⟩ := Option.map_eq_some_iff.mp hs
    exact h.drop hc
  | settle j =>
    obtain ⟨r,hr,hs⟩ := Option.bind_eq_some_iff.mp hs
    split at hs
    · obtain rfl := Option.some.inj hs
      exact h.settle hr ‹_›
    · cases hs

end Conserved

theorem conserved_of_run {n : ℕ} {t : List Label} {s : Shared} (h : (capacity n).run t = some s) :
    Conserved n s := by
  refine Machine.invariant (P := fun _ s => Conserved n s) ?_ (fun _ _ _ _ _ hs hl => hs.step hl) h
  exact ⟨by simp [capacity, Shared.reserved, Shared.inFlight],by simp [capacity, Clone.Valid],
    by simp [capacity],by simp [capacity]⟩

/-- In every interleaving: the free permits, the reservations and the admitted unsettled calls add
up to the capacity; an inner `call` only uses the clone's latest readiness; and neither a clone
whose inner service was not ready nor a call answered busy holds a permit. -/
theorem capacity_conserved {n : ℕ} {t : List Label} {s : Shared}
    (h : (capacity n).run t = some s) :
    s.free + s.reserved + s.inFlight = n ∧ s.inFlight ≤ n ∧
    (∀ c ∈ s.invoked, c.latest = some (.ready (.ok ())) ∧ c.called = false) ∧
    (∀ c ∈ s.clones, (c.latest = some .pending ∨ ∃ e, c.latest = some (.ready (.error e))) →
      c.permit = false) ∧
    (∀ r ∈ s.responses, r.answer = .busy → r.permit = false) := by
  have hs := conserved_of_run h
  refine ⟨hs.total,?_,hs.invoked,fun c hc hl => ?_,fun r hr hb => ?_⟩
  · have := hs.total
    omega
  · by_contra hp
    obtain ⟨hlatest,-⟩ := hs.clones c hc (by simpa using hp)
    rcases hl with hl | ⟨e,hl⟩ <;> simp [hlatest] at hl
  · have hv := hs.responses r hr
    simpa [Response.Valid, hb] using hv

/-- Two clones race for one permit: the second call is shed while the first is in flight. -/
def raceLabels : List Label :=
  [.clone 0,.pollReady 0 (.ready (.ok ())),.pollReady 1 (.ready (.ok ())),.call 0 true,.call 1 true,
    .pollReady 0 .pending]

theorem capacity_conserved_sample : ∃ s, (capacity 1).run raceLabels = some s ∧
    s.responses = [⟨.forwarded,true⟩,⟨.busy,false⟩] ∧ s.free + s.reserved + s.inFlight = 1 :=
  ⟨_,rfl,rfl,(capacity_conserved (t := raceLabels) rfl).1⟩

end TowerAgent.Kernel.Admission
