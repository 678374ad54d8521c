import TowerAgent.Workflow.CallSafety

/-! Work-conserving admission: while no stop reason is latched, no slot is free at a point where the
runner waits unless nothing is ready, and what is ready is what the graph allows. -/
namespace TowerAgent.Workflow
open Lib Lib.Digraph
open Std (ExtTreeMap ExtTreeSet)

variable {I J O E : Type}

/-- The points of the loop between its admission loop and the record of a completed flight. -/
def Pc.awaiting : Pc I J O E → Bool
  | .gate | .await | .awaitDeadline | .drive | .polling _ => true
  | _ => false

/-- Every slot is taken or nothing is ready; a flight being polled holds its slot. -/
def Packed (max : ℕ) (s : State I J O E) : Prop :=
  s.pc.awaiting = true → s.stopReason = none →
    s.inFlight.length + s.pc.places = max ∨ popFirst s.ready = none

section Packed
variable {max : ℕ} {request : WorkflowRequest I J} {s s' : State I J O E} {e : Event O E}

lemma Packed.idle (h : s.pc.awaiting = false) : Packed max s := by
  intro ha
  simp [h] at ha

/-- A move between two waiting points keeps the flights and what is ready. -/
lemma Packed.goto (h : Packed max s) {pc : Pc I J O E} (ha : s.pc.awaiting = true)
    (hp : s.pc.places = pc.places) : Packed max (s.goto pc) := by
  intro _ hn
  have := h ha hn
  rwa [hp] at this

lemma Packed.control (h : Packed max s) (hs : Shape max request s) {pc : Pc I J O E}
    (hc : Control max request s e pc) : Packed max (s.goto pc) := by
  cases hc with
  | closed hpc hf =>
    intro _ hn
    have hroom := hs.room
    rcases hf with hf | hf
    · simp [show s.stopReason = none from hn] at hf
    · refine .inl ?_
      simp only [State.goto, Pc.places]
      omega
  | noneReady hpc hp => exact fun _ _ => .inr hp
  | busy hpc => exact h.goto (by rw [hpc]; rfl) (by rw [hpc]; rfl)
  | drain hpc => exact h.goto (by rw [hpc]; rfl) (by rw [hpc]; rfl)
  | race hpc => exact h.goto (by rw [hpc]; rfl) (by rw [hpc]; rfl)
  | untimed hpc => exact h.goto (by rw [hpc]; rfl) (by rw [hpc]; rfl)
  | unfired hpc => exact h.goto (by rw [hpc]; rfl) (by rw [hpc]; rfl)
  | park hpc => exact h.goto (by rw [hpc]; rfl) (by rw [hpc]; rfl)
  | _ => exact .idle rfl

lemma Packed.suspend (h : Packed max s) {f g : Flight I J O} (hpc : s.pc = .polling f) :
    Packed max (s.suspend g) := by
  intro _ hn
  have := h (by rw [hpc]; rfl) hn
  simpa [State.suspend, hpc, Pc.places] using this

lemma Packed.within (h : Packed max s) {f g : Flight I J O} (hpc : s.pc = .polling f) :
    Packed max (s.goto (.polling g)) := h.goto (by rw [hpc]; rfl) (by rw [hpc]; rfl)

/-- Every step keeps the slots filled: only the admission loop leads to a waiting point, and it
ends with no room or with nothing ready. -/
theorem Packed.step (h : Packed max s) (hs : Shape max request s)
    (ht : Transition max request s e s') : Packed max s' := by
  cases ht with
  | outside => exact h
  | control hc => exact h.control hs hc
  | latch => exact fun _ hn => nomatch hn
  | poll hpc hf =>
    intro _ hn
    have hlt := (List.getElem?_eq_some_iff.mp hf).1
    refine (h (by rw [hpc]; rfl) hn).imp_left fun hfull => ?_
    simp only [hpc, Pc.places, List.length_eraseIdx, if_pos hlt] at hfull ⊢
    omega
  | tokenClear hpc => exact h.within hpc
  | readyPending hpc => exact h.suspend hpc
  | readyOk hpc => exact h.within hpc
  | call hpc => exact h.within hpc
  | callPending hpc => exact h.suspend hpc
  | _ => exact .idle rfl

end Packed

/-- What the runner promises about admission after the trace `t`. -/
structure WorkConserving (max : ℕ) (request : WorkflowRequest I J) (t : List (Event O E))
    (s : State I J O E) : Prop where
  /-- Ready are exactly the steps not yet admitted whose needs have all completed. -/
  ready_iff : s.pc.awaiting = true → s.stopReason = none → ∀ k, k ∈ s.ready ↔
    k ∈ request.definition.steps ∧ k ∉ admissions t ∧
      ∀ n, Needs request.definition.steps k n → n ∈ s.outputs
  /-- No slot is free while a step is ready. -/
  packed : s.pc.awaiting = true → s.stopReason = none →
    s.inFlight.length + s.pc.places = max ∨ ∀ k, k ∉ s.ready
  /-- An admission takes the least ready step. -/
  least : ∀ id s', (execute max request).step s (.admitStep id) = some s' →
    id ∈ s.ready ∧ ∀ k ∈ s.ready, id ≤ k
  /-- No step is stranded: with nothing in flight every step has completed. -/
  drained : (s.pc.awaiting = true ∨ ∃ r, s.pc = .finished r) → s.stopReason = none → s.crew = 0 →
    ∀ k ∈ request.definition.steps, k ∈ s.outputs

section Run
variable {max : ℕ} {request : WorkflowRequest I J} {t : List (Event O E)} {s : State I J O E}

lemma packed_of_run (hmax : 0 < max) (hd : request.definition.WellFormed)
    (h : (execute max request).run t = some s) : Packed max s := by
  refine Machine.invariant (P := fun _ s => Packed max s) ?_ (fun t s l s' hr hp hl => ?_) h
  · exact .idle (by unfold execute initial; split <;> rfl)
  · exact hp.step (sound_of_run hmax hd hr).shape (executeStep_transition hl)

lemma least_of_admitStep {id : StepId} {s' : State I J O E} (h : admitStep request s id = some s') :
    id ∈ s.ready ∧ ∀ k ∈ s.ready, id ≤ k := by
  unfold admitStep at h
  split at h
  · next step ready hpc hp =>
    obtain ⟨hmem,hleast,-⟩ := popFirst_eq_some hp
    split at h
    · next hid => exact hid ▸ ⟨hmem,hleast⟩
    · cases h
  · cases h

/-- Nothing is ready at a waiting point that nothing is in flight at, nor after the loop. -/
lemma none_ready (hmax : 0 < max) (hs : Shape max request s) (hp : Packed max s)
    (hpc : s.pc.awaiting = true ∨ ∃ r, s.pc = .finished r) (hn : s.stopReason = none)
    (hcrew : s.crew = 0) : popFirst s.ready = none := by
  rcases hpc with ha | ⟨r,hr⟩
  · rcases hp ha hn with hfull | hnone
    · have hcard : s.pc.flights.card + s.inFlight.length = 0 := by
        simpa only [State.crew, Multiset.card_add, Multiset.coe_card, Multiset.card_zero] using
          congrArg Multiset.card hcrew
      have hplaces : s.pc.places ≤ s.pc.flights.card := by
        cases hpc : s.pc <;> simp [hpc, Pc.places, Pc.flights, Pc.awaiting] at ha ⊢
      omega
    · exact hnone
  · exact (hs.finished r hr).2.2 hn

/-- Along every run on an accepted definition admission is deterministic and work-conserving. -/
theorem execute_workConserving {id version : String} {specs : List (StepSpec J)}
    (hc : compile id version specs = .ok (.ok request.definition)) (hmax : 0 < max)
    (h : (execute max request).run t = some s) : WorkConserving max request t s := by
  have hd := (compile_wellFormed hc).1
  have hs := sound_of_run hmax hd h
  refine ⟨fun _ hn k => ?_,fun ha hn => ?_,fun id s' hl => ?_,fun hpc hn hcrew k hk => ?_⟩
  · rw [(hs.frontier hn).ready k,List.mem_toFinset,outstanding_eq_zero]
    simp only [List.mem_toFinset, ExtTreeMap.mem_keys]
  · exact (packed_of_run hmax hd h ha hn).imp_right popFirst_eq_none.mp
  · exact least_of_admitStep hl
  · have hset : s.pc.settling = 0 ∧ (∀ id, s.pc ≠ .settle id .notCalled) ∧ s.pc ≠ .admitStep := by
      rcases hpc with ha | ⟨r,hr⟩
      · cases hpc : s.pc <;> simp [hpc, Pc.awaiting, Pc.settling] at ha ⊢
      · simp [hr, Pc.settling]
    exact hs.all_done hd hn hcrew hset.1 (hs.no_loss hn hset.2.1 hset.2.2)
      (none_ready hmax hs.shape (packed_of_run hmax hd h) hpc hn hcrew) hk

end Run

theorem execute_workConserving_sample : ∃ d s r,
    compile "article" "1" sampleSpecs = .ok (.ok d) ∧
    (execute 2 (sampleRequest d)).run sampleTrace = some s ∧ s.pc = .finished r ∧
    WorkConserving 2 (sampleRequest d) sampleTrace s := by
  obtain ⟨d,s,r,hd,hs,hpc⟩ := sample_run
  exact ⟨d,s,r,hd,hs,hpc,execute_workConserving hd (by decide) hs⟩

end TowerAgent.Workflow
