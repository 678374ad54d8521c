import TowerAgent.Kernel.Capacity

/-! Two admission layers around one service, with a semaphore each: the outer layer asks the inner
one for readiness, which reserves there, before it tries its own semaphore. -/
namespace TowerAgent.Kernel.Nested
open Lib Admission

/-- One clone of the nested service, by its reservations. -/
structure Clone where
  outer : Bool := false
  inner : Bool := false

/-- How a call was answered: busy by the outer layer, busy by the inner one, or admitted by both;
and then settled. -/
inductive Answer where
  | outerBusy
  | innerBusy
  | forwarded
  | settled
  deriving DecidableEq

/-- A response future, with the permits it holds. -/
structure Response where
  answer : Answer
  outer : Bool
  inner : Bool

structure Shared where
  outerFree : ℕ
  innerFree : ℕ
  clones : List Clone
  responses : List Response := []

/-- The operations on one clone or one response; readiness and `launched` are those of the service
that both layers wrap. -/
inductive Label where
  | pollReady (i : ℕ) (readiness : Readiness)
  | call (i : ℕ) (launched : Bool)
  | clone (i : ℕ)
  | drop (i : ℕ)
  | settle (j : ℕ)

namespace Shared
variable (s : Shared)

def pollReady (i : ℕ) (c : Clone) (readiness : Readiness) : Shared :=
  let (answer,inner,innerFree) := reserve c.inner s.innerFree readiness
  let (_,outer,outerFree) := reserve c.outer s.outerFree answer
  { s with outerFree, innerFree, clones := s.clones.set i { outer, inner } }

/-- Without an outer reservation the inner layer is not called; a panic of the wrapped service's
`call` drops both permits. -/
def call (i : ℕ) (c : Clone) (launched : Bool) : Shared :=
  if c.outer then
    let s' := { s with clones := s.clones.set i {} }
    if c.inner then
      if launched then { s' with responses := s.responses ++ [⟨.forwarded,true,true⟩] }
      else { s' with outerFree := s.outerFree+1, innerFree := s.innerFree+1 }
    else { s' with responses := s.responses ++ [⟨.innerBusy,true,false⟩] }
  else { s with responses := s.responses ++ [⟨.outerBusy,false,false⟩] }

/-- The clone after a readiness poll. -/
def polled (c : Clone) (readiness : Readiness) : Clone where
  outer := (reserve c.outer s.outerFree (reserve c.inner s.innerFree readiness).1).2.1
  inner := (reserve c.inner s.innerFree readiness).2.1

def drop (i : ℕ) (c : Clone) : Shared :=
  { s with
    outerFree := release c.outer s.outerFree
    innerFree := release c.inner s.innerFree
    clones := s.clones.eraseIdx i }

/-- A response future resolves or is dropped, with the permits it holds. -/
def settle (j : ℕ) (r : Response) : Shared :=
  { s with
    outerFree := release r.outer s.outerFree
    innerFree := release r.inner s.innerFree
    responses := s.responses.set j ⟨.settled,false,false⟩ }

def step : Label → Option Shared
  | .pollReady i readiness => s.clones[i]?.map (s.pollReady i · readiness)
  | .call i launched => s.clones[i]?.map (s.call i · launched)
  | .clone i => s.clones[i]?.map fun _ => { s with clones := s.clones ++ [{}] }
  | .drop i => s.clones[i]?.map (s.drop i)
  | .settle j => s.responses[j]?.map (s.settle j)

/-- The permits of each layer that clones and response futures hold. -/
def outerInUse : ℕ := s.clones.countP Clone.outer + s.responses.countP Response.outer

def innerInUse : ℕ := s.clones.countP Clone.inner + s.responses.countP Response.inner

/-- The calls both layers admitted that have not settled, and the clones that hold an outer
reservation. -/
def backed : ℕ :=
  s.responses.countP (fun r => decide (r.answer = .forwarded)) + s.clones.countP Clone.outer

end Shared

/-- A service behind an outer limit and an inner one, cloned and called in any order. -/
def nested (outer inner : ℕ) : Machine Shared Label where
  start := { outerFree := outer, innerFree := inner, clones := [{}] }
  step := Shared.step

/-- What shedding should leave of one step: a clone whose outer readiness poll obtained no permit,
or whose call the outer layer answered busy, holds nothing of the inner layer. -/
def Released (s : Shared) (l : Label) (s' : Shared) : Prop :=
  match l with
  | .pollReady i _ => ∀ c ∈ s'.clones[i]?, c.outer = false → c.inner = false
  | .call i _ => ∀ c ∈ s.clones[i]?, c.outer = false → ∀ c' ∈ s'.clones[i]?, c'.inner = false
  | _ => True

/-- A readiness poll that finds the wrapped service ready finds a permit of the outer layer too, or
none of the inner layer. -/
def Backed (s : Shared) : Label → Prop
  | .pollReady i (.returned (.ready (.ok ()))) => ∀ c ∈ s.clones[i]?,
    c.outer = true ∨ 0 < s.outerFree ∨ (c.inner = false ∧ s.innerFree = 0)
  | _ => True

instance (s : Shared) : DecidablePred (Backed s)
  | .pollReady i (.returned (.ready (.ok ()))) => inferInstanceAs (Decidable (∀ c ∈ s.clones[i]?,
    c.outer = true ∨ 0 < s.outerFree ∨ (c.inner = false ∧ s.innerFree = 0)))
  | .pollReady _ (.returned (.ready (.error _))) => .isTrue trivial
  | .pollReady _ (.returned .pending) => .isTrue trivial
  | .pollReady _ (.panicked _) => .isTrue trivial
  | .call _ _ => .isTrue trivial
  | .clone _ => .isTrue trivial
  | .drop _ => .isTrue trivial
  | .settle _ => .isTrue trivial

/-- In every run the permits of each layer are conserved. -/
structure Conserved (outer inner : ℕ) (s : Shared) : Prop where
  outer : s.outerFree + s.outerInUse = outer
  inner : s.innerFree + s.innerInUse = inner
  responses : ∀ r ∈ s.responses, r.inner = true → r.answer = .forwarded

lemma release_toNat (permit : Bool) (free : ℕ) : release permit free = free + permit.toNat := by
  cases permit <;> rfl

/-- A readiness poll moves at most one permit, whatever it is told. -/
lemma reserve_toNat (permit : Bool) (free : ℕ) (readiness : Readiness) :
    (reserve permit free readiness).2.2 + (reserve permit free readiness).2.1.toNat =
      free + permit.toNat := by
  rcases readiness with (- | e | u) | payload
  · exact release_toNat permit free
  · exact release_toNat permit free
  · cases permit with
    | true => rfl
    | false => cases free <;> rfl
  · rfl

/-- Told that what it wraps is ready, a layer is ready, and holds a permit if it can. -/
lemma reserve_ready (permit : Bool) (free : ℕ) :
    (reserve permit free (.returned (.ready (.ok ())))).1 = .returned (.ready (.ok ())) ∧
    (reserve permit free (.returned (.ready (.ok ())))).2.1 = (permit || decide (0 < free)) := by
  cases permit with
  | true => exact ⟨rfl,rfl⟩
  | false => cases free <;> exact ⟨rfl,rfl⟩

namespace Conserved
variable {outer inner : ℕ} {s s' : Shared}

theorem call (h : Conserved outer inner s) {i : ℕ} {c : Clone} (hc : s.clones[i]? = some c)
    (launched : Bool) : Conserved outer inner (s.call i c launched) := by
  have ho := h.outer
  have hi := h.inner
  have hco := sum_set (fun c => c.outer.toNat) hc {}
  have hci := sum_set (fun c => c.inner.toNat) hc {}
  have hnew (r : Response) (hr : r.inner = true → r.answer = .forwarded) :
      ∀ x ∈ s.responses ++ [r], x.inner = true → x.answer = .forwarded :=
    forall_mem_concat h.responses hr
  obtain ⟨_ | _,_ | _⟩ := c
  · refine ⟨?_,?_,hnew _ (by simp)⟩
    · simpa [Shared.call, Shared.outerInUse, countP_eq_sum] using ho
    · simpa [Shared.call, Shared.innerInUse, countP_eq_sum] using hi
  · refine ⟨?_,?_,hnew _ (by simp)⟩
    · simpa [Shared.call, Shared.outerInUse, countP_eq_sum] using ho
    · simpa [Shared.call, Shared.innerInUse, countP_eq_sum] using hi
  · refine ⟨?_,?_,hnew _ (by simp)⟩
    · simp [Shared.call, Shared.outerInUse, countP_eq_sum] at ho hco ⊢
      omega
    · simp [Shared.call, Shared.innerInUse, countP_eq_sum] at hi hci ⊢
      omega
  · cases launched with
    | true =>
      refine ⟨?_,?_,hnew _ (by simp)⟩
      · simp [Shared.call, Shared.outerInUse, countP_eq_sum] at ho hco ⊢
        omega
      · simp [Shared.call, Shared.innerInUse, countP_eq_sum] at hi hci ⊢
        omega
    | false =>
      refine ⟨?_,?_,h.responses⟩
      · simp [Shared.call, Shared.outerInUse, countP_eq_sum] at ho hco ⊢
        omega
      · simp [Shared.call, Shared.innerInUse, countP_eq_sum] at hi hci ⊢
        omega

theorem step (h : Conserved outer inner s) {l : Label} (hs : s.step l = some s') :
    Conserved outer inner s' := by
  have ho := h.outer
  have hi := h.inner
  simp only [Shared.outerInUse, countP_eq_sum] at ho
  simp only [Shared.innerInUse, countP_eq_sum] at hi
  cases l with
  | pollReady i readiness =>
    obtain ⟨c,hc,rfl⟩ := Option.map_eq_some_iff.mp hs
    have hmi := reserve_toNat c.inner s.innerFree readiness
    rcases hri : reserve c.inner s.innerFree readiness with ⟨answer,inner',innerFree⟩
    have hmo := reserve_toNat c.outer s.outerFree answer
    rcases hro : reserve c.outer s.outerFree answer with ⟨told,outer',outerFree⟩
    have hco := sum_set (fun c => c.outer.toNat) hc ⟨outer',inner'⟩
    have hci := sum_set (fun c => c.inner.toNat) hc ⟨outer',inner'⟩
    dsimp only at hco hci
    simp only [hri] at hmi
    simp only [hro] at hmo
    refine ⟨?_,?_,h.responses⟩
    · simp only [Shared.pollReady, Shared.outerInUse, countP_eq_sum, hri, hro]
      omega
    · simp only [Shared.pollReady, Shared.innerInUse, countP_eq_sum, hri, hro]
      omega
  | call i launched =>
    obtain ⟨c,hc,rfl⟩ := Option.map_eq_some_iff.mp hs
    exact h.call hc launched
  | clone i =>
    obtain ⟨c,hc,rfl⟩ := Option.map_eq_some_iff.mp hs
    refine ⟨?_,?_,h.responses⟩
    · simpa [Shared.outerInUse, countP_eq_sum] using ho
    · simpa [Shared.innerInUse, countP_eq_sum] using hi
  | drop i =>
    obtain ⟨c,hc,rfl⟩ := Option.map_eq_some_iff.mp hs
    have hco := sum_eraseIdx (fun c => c.outer.toNat) hc
    have hci := sum_eraseIdx (fun c => c.inner.toNat) hc
    refine ⟨?_,?_,h.responses⟩
    · simp only [Shared.drop, Shared.outerInUse, countP_eq_sum, release_toNat]
      omega
    · simp only [Shared.drop, Shared.innerInUse, countP_eq_sum, release_toNat]
      omega
  | settle j =>
    obtain ⟨r,hr,rfl⟩ := Option.map_eq_some_iff.mp hs
    have hro := sum_set (fun r => r.outer.toNat) hr ⟨.settled,false,false⟩
    have hri := sum_set (fun r => r.inner.toNat) hr ⟨.settled,false,false⟩
    simp only [Bool.toNat_false] at hro hri
    refine ⟨?_,?_,forall_mem_set h.responses (by simp)⟩
    · simp only [Shared.settle, Shared.outerInUse, countP_eq_sum, release_toNat]
      omega
    · simp only [Shared.settle, Shared.innerInUse, countP_eq_sum, release_toNat]
      omega

end Conserved

theorem conserved_of_run {outer inner : ℕ} {t : List Label} {s : Shared}
    (h : (nested outer inner).run t = some s) : Conserved outer inner s := by
  refine Machine.invariant (P := fun _ s => Conserved outer inner s) ?_
    (fun _ _ _ _ _ hs hl => hs.step hl) h
  exact ⟨by simp [nested, Shared.outerInUse],by simp [nested, Shared.innerInUse],by simp [nested]⟩

section Parking
variable {s s' : Shared} {l : Label}

/-- Every reservation of the inner layer is behind one of the outer layer. -/
def Unparked (s : Shared) : Prop := ∀ c ∈ s.clones, c.inner = true → c.outer = true

/-- A readiness poll parks a permit of the inner layer when the wrapped service is ready, that
layer has a permit for the clone, and the outer layer has none. -/
lemma polled_parked_iff {c : Clone} {readiness : Readiness} :
    ((s.polled c readiness).inner = true ∧ (s.polled c readiness).outer = false) ↔
    match readiness with
    | .returned (.ready (.ok ())) =>
      c.outer = false ∧ s.outerFree = 0 ∧ (c.inner = true ∨ 0 < s.innerFree)
    | .panicked _ => c.inner = true ∧ c.outer = false
    | _ => False := by
  obtain ⟨outer,inner⟩ := c
  rcases readiness with (- | e | u) | payload
  · simp [Shared.polled, reserve]
  · simp [Shared.polled, reserve]
  · obtain ⟨htold,hinner⟩ := reserve_ready inner s.innerFree
    obtain ⟨-,houter⟩ := reserve_ready outer s.outerFree
    simp only [Shared.polled, htold, hinner, houter]
    simp [and_comm, and_assoc]
  · simp [Shared.polled, reserve]

/-- A step that meets the condition parks nothing. -/
theorem Unparked.step (h : Unparked s) (hl : Backed s l) (hs : s.step l = some s') :
    Unparked s' := by
  cases l with
  | pollReady i readiness =>
    obtain ⟨c,hc,rfl⟩ := Option.map_eq_some_iff.mp hs
    have hpolled : (s.polled c readiness).inner = true → (s.polled c readiness).outer = true := by
      intro hinner
      by_contra houter
      have hparked := polled_parked_iff.mp ⟨hinner,Bool.eq_false_iff.mpr houter⟩
      rcases readiness with (- | e | u) | payload
      · exact hparked
      · exact hparked
      · obtain ⟨ho,hfree,hi⟩ := hparked
        rcases hl c hc with hl | hl | ⟨hl,hzero⟩
        · simp [hl] at ho
        · omega
        · rcases hi with hi | hi
          · simp [hl] at hi
          · omega
      · obtain ⟨hi,ho⟩ := hparked
        simp [h c (List.mem_of_getElem? hc) hi] at ho
    exact forall_mem_set h hpolled
  | call i launched =>
    obtain ⟨c,hc,rfl⟩ := Option.map_eq_some_iff.mp hs
    have hidle : ∀ x ∈ s.clones.set i {}, x.inner = true → x.outer = true :=
      forall_mem_set h (by simp)
    unfold Shared.call
    split
    · split
      · split
        · exact hidle
        · exact hidle
      · exact hidle
    · exact h
  | clone i =>
    obtain ⟨c,hc,rfl⟩ := Option.map_eq_some_iff.mp hs
    exact forall_mem_concat h (by simp)
  | drop i =>
    obtain ⟨c,hc,rfl⟩ := Option.map_eq_some_iff.mp hs
    exact fun x hx => h x (List.mem_of_mem_eraseIdx hx)
  | settle j =>
    obtain ⟨r,hr,rfl⟩ := Option.map_eq_some_iff.mp hs
    exact h

/-- Where nothing is parked before and after a step, its shedding left nothing behind. -/
theorem Unparked.released (h : Unparked s) (h' : Unparked s') (hs : s.step l = some s') :
    Released s l s' := by
  cases l with
  | pollReady i readiness =>
    intro c hc ho
    by_contra hi
    have := h' c (List.mem_of_getElem? hc) (by simpa using hi)
    simp [this] at ho
  | call i launched =>
    obtain ⟨c,hc,rfl⟩ := Option.map_eq_some_iff.mp hs
    intro c' hc' ho
    obtain rfl := Option.some.inj (hc.symm.trans hc')
    have hidle : c.inner = false := by
      by_contra hi
      have := h c (List.mem_of_getElem? hc) (by simpa using hi)
      simp [this] at ho
    intro c' hc'
    simp only [Shared.call, ho, Bool.false_eq_true, if_false] at hc'
    obtain rfl := Option.some.inj (hc.symm.trans hc')
    exact hidle
  | _ => trivial

/-- A readiness poll that leaves nothing behind met the condition. -/
theorem backed_of_released (hs : s.step l = some s') (h : Released s l s') : Backed s l := by
  cases l with
  | pollReady i readiness =>
    obtain ⟨c,hc,rfl⟩ := Option.map_eq_some_iff.mp hs
    rcases readiness with (- | e | u) | payload
    · trivial
    · trivial
    · intro c' hc'
      obtain rfl := Option.some.inj (hc.symm.trans hc')
      by_contra hunbacked
      simp only [not_or, not_and_or, Bool.not_eq_true] at hunbacked
      obtain ⟨ho,hfree,hi⟩ := hunbacked
      have hparked : (s.polled c (.returned (.ready (.ok ())))).inner = true ∧
          (s.polled c (.returned (.ready (.ok ())))).outer = false := by
        refine polled_parked_iff.mpr ⟨ho,by omega,hi.imp (by simp) (by omega)⟩
      obtain ⟨hlt,-⟩ := List.getElem?_eq_some_iff.mp hc
      have hreleased : (s.polled c (.returned (.ready (.ok ())))).inner = false :=
        h _ (List.getElem?_set_self hlt) hparked.2
      exact absurd hparked.1 (Bool.eq_false_iff.mp hreleased)
    · trivial
  | _ => trivial

end Parking

/-- Permits of the inner layer are held by calls both layers admitted, or by clones that hold an
outer reservation. -/
theorem Unparked.backed {outer inner : ℕ} {s : Shared} (h : Unparked s)
    (hs : Conserved outer inner s) : s.innerInUse ≤ s.backed := by
  have hclones : s.clones.countP Clone.inner ≤ s.clones.countP Clone.outer :=
    List.countP_mono_left h
  have hresponses : s.responses.countP Response.inner ≤
      s.responses.countP (fun r => decide (r.answer = .forwarded)) :=
    List.countP_mono_left fun r hr hi => decide_eq_true (hs.responses r hr hi)
  unfold Shared.innerInUse Shared.backed
  omega

/-- In every interleaving, every step sheds without parking a permit of the inner layer, and its
permits in use stay within the calls both layers admitted and the clones that hold an outer
reservation, exactly when every readiness poll that finds the wrapped service ready finds a permit
of the outer layer, or none of the inner one. -/
theorem sheds_unparked_iff {outer inner : ℕ} {t : List Label} {s : Shared}
    (h : (nested outer inner).run t = some s) :
    (∀ before l after m m', t = before ++ l::after → (nested outer inner).run before = some m →
      m.step l = some m' → Released m l m' ∧ m'.innerInUse ≤ m'.backed) ↔
    (nested outer inner).Guarded Backed t := by
  constructor
  · intro hsheds
    refine Machine.GuardedFrom.of_steps fun before l after m ht hm => ?_
    subst ht
    obtain ⟨m₀,m',hm₀,hl,-⟩ := Machine.run_step_of_split h
    obtain rfl := Option.some.inj (hm₀.symm.trans hm)
    exact backed_of_released hl (hsheds before l after m₀ m' rfl hm hl).1
  · intro hg before l after m m' ht hm hl
    subst ht
    obtain ⟨hbefore,hguard⟩ := Machine.GuardedFrom.split hg hm
    have hunparked : Unparked m := by
      refine Machine.invariant_guarded (P := fun _ s => Unparked s) ?_
        (fun _ _ _ _ _ hs hl hstep => hs.step hl hstep) hm hbefore
      simp [nested, Unparked]
    have hunparked' := hunparked.step hguard hl
    exact ⟨hunparked.released hunparked' hl,
      hunparked'.backed ((conserved_of_run hm).step hl)⟩

/-- The wrapped service is ready at every poll. -/
abbrev ready : Readiness := .returned (.ready (.ok ()))

/-- A call settles, and then another clone is admitted. -/
def backedLabels : List Label := [.clone 0,.pollReady 0 ready,.call 0 true,.settle 0,
  .pollReady 1 ready]

theorem sheds_unparked_sample : ∃ m m', (nested 1 2).run backedLabels = some m ∧
    m.step (.call 1 true) = some m' ∧ Released m (.call 1 true) m' ∧
    m'.innerInUse = 1 ∧ m'.innerInUse ≤ m'.backed := by
  obtain ⟨m,m',hm,hl,hrun,huse⟩ : ∃ m m', (nested 1 2).run backedLabels = some m ∧
      m.step (.call 1 true) = some m' ∧
      (nested 1 2).run (backedLabels ++ [.call 1 true]) = some m' ∧ m'.innerInUse = 1 :=
    ⟨_,_,rfl,rfl,rfl,rfl⟩
  have hg : (nested 1 2).Guarded Backed (backedLabels ++ [.call 1 true]) := by decide +kernel
  obtain ⟨hreleased,hle⟩ := (sheds_unparked_iff hrun).mpr hg backedLabels _ [] m m' rfl hm hl
  exact ⟨m,m',hm,hl,hreleased,huse,hle⟩

/-- One clone holds the only outer permit; the other is about to be shed. -/
def parkingLabels : List Label := [.clone 0,.pollReady 0 ready,.pollReady 1 ready]

/-- The clone that was shed keeps the inner permit its readiness poll reserved, and more inner
permits are in use than calls and outer reservations back. -/
theorem shedding_parks : ¬ ∀ (outer inner : ℕ) (t : List Label) (s : Shared),
    (nested outer inner).run t = some s →
    ∀ before l after m m', t = before ++ l::after → (nested outer inner).run before = some m →
      m.step l = some m' → Released m l m' ∧ m'.innerInUse ≤ m'.backed := by
  intro hclaim
  obtain ⟨-,hle⟩ := hclaim 1 2 (parkingLabels ++ [.call 1 true]) _ rfl parkingLabels _ [] _ _
    rfl rfl rfl
  revert hle
  decide

end TowerAgent.Kernel.Nested
