import TowerAgent.Workflow.Compile
import TowerAgent.Workflow.Ledger
import TowerAgent.Workflow.Shape

/-! The scheduler invariant: the ready set and the counters follow the graph as long as no stop
reason is latched, every flight carries the outputs of its needs, and no step can abort. -/
namespace TowerAgent.Workflow
open Lib Lib.Digraph
open Std (ExtTreeMap ExtTreeSet)

variable {I J O E : Type}

section Tables

/-- Gathering succeeds when every key is there, and gathers exactly those keys. -/
theorem gather_eq_ok (message : String) {outputs : ExtTreeMap StepId O} {ids : List StepId}
    (h : ∀ k ∈ ids, k ∈ outputs) : ∃ m, gather message outputs ids = .ok m ∧
      ∀ k : StepId, m[k]? = if k ∈ ids then outputs[k]? else none := by
  induction ids with
  | nil => exact ⟨∅,rfl,by simp⟩
  | cons id ids ih =>
    obtain ⟨o,ho⟩ := Option.isSome_iff_exists.mp
      (ExtTreeMap.mem_iff_isSome_getElem?.mp (h id List.mem_cons_self))
    obtain ⟨m,hm,hlook⟩ := ih (fun k hk => h k (List.mem_cons_of_mem _ hk))
    refine ⟨m.insert id o,by simp only [gather, ho, hm, bind, Except.bind],fun k => ?_⟩
    rw [getElem?_insert_eq]
    by_cases hk : id = k
    · subst hk
      simp [ho]
    · simp [hk, Ne.symm hk, hlook k]

lemma gather_lookup {message : String} {outputs m : ExtTreeMap StepId O} {ids : List StepId}
    (h : gather message outputs ids = .ok m) :
    (∀ k ∈ ids, k ∈ outputs) ∧ ∀ k : StepId, m[k]? = if k ∈ ids then outputs[k]? else none := by
  have hall : ∀ k ∈ ids, k ∈ outputs := by
    induction ids generalizing m with
    | nil => simp
    | cons id ids ih =>
      rw [gather] at h
      split at h
      · cases h
      · next o ho =>
        cases hr : gather message outputs ids with
        | error p => simp [hr, bind, Except.bind] at h
        | ok rest =>
          rintro k hk
          rcases List.mem_cons.mp hk with rfl | hk
          · rw [ExtTreeMap.mem_iff_isSome_getElem?,ho]
            rfl
          · exact ih hr k hk
  obtain ⟨m',hm',hlook⟩ := gather_eq_ok message hall
  obtain rfl := Except.ok.inj (h.symm.trans hm')
  exact ⟨hall,hlook⟩

lemma pushSuccessor_eq {step : StepId} {needs : List StepId}
    {o o' : ExtTreeMap StepId (List StepId)} (h : connectNeeds step o needs = .ok o') :
    pushSuccessor step o needs = .ok o' := by
  induction needs generalizing o with
  | nil => exact congrArg Except.ok (Except.ok.inj h)
  | cons n needs ih =>
    rw [connectNeeds] at h
    split at h
    · cases h
    · split at h
      · cases h
      · next l hl =>
        simp only [pushSuccessor, hl]
        exact ih h

lemma pushSuccessors_eq {defs : List (StepDefinition J)} {o o' : ExtTreeMap StepId (List StepId)}
    (h : connect o defs = .ok o') : pushSuccessors o defs = .ok o' := by
  induction defs generalizing o with
  | nil => exact congrArg Except.ok (Except.ok.inj h)
  | cons d defs ih =>
    rw [connect] at h
    cases hc : connectNeeds d.id o d.needs with
    | error e => simp [hc, bind, Except.bind] at h
    | ok o₁ =>
      simp only [hc, bind, Except.bind] at h
      simp only [pushSuccessors, pushSuccessor_eq hc, bind, Except.bind]
      exact ih h

/-- `execute` rebuilds the successor table of `compile`, without aborting. -/
theorem successorTable_spec {steps : ExtTreeMap StepId (StepDefinition J)}
    (hw : WellNeeded steps) : ∃ o, successorTable steps = .ok o ∧ Inverts steps o := by
  have hnodup : ∀ d ∈ valuesOf steps, d.needs.Nodup := by
    intro d hd
    obtain ⟨k,hk⟩ := mem_valuesOf.mp hd
    exact (hw.sorted k d hk).imp (fun hlt => hlt.ne)
  obtain ⟨o,ho⟩ := connect_isOk (o := steps.map (fun _ _ => [])) hnodup (fun d hd n hn => by
    obtain ⟨k,hk⟩ := mem_valuesOf.mp hd
    have hneeds : Needs steps k n := by rwa [Needs,needsOf_eq hk]
    refine ⟨?_,ExtTreeMap.mem_map.mpr (hw.known k n hneeds)⟩
    rintro rfl
    rw [hw.id_eq k d hk] at hneeds
    exact hw.irrefl k hneeds)
  refine ⟨sortSuccessors o,?_,sortSuccessors_inverts hw.id_eq (connect_spec hnodup ho).2⟩
  simp only [successorTable, pushSuccessors_eq ho, bind, Except.bind]

end Tables

/-- The call a step is owed once its needs have outputs. -/
structure CallFor (request : WorkflowRequest I J) (outputs : ExtTreeMap StepId O)
    (step : StepDefinition J) (call : StepCall I J O) : Prop where
  step_eq : request.definition.step call.stepId = some step
  runId_eq : call.runId = request.context.runId
  workflowId_eq : call.workflowId = request.definition.id
  workflowVersion_eq : call.workflowVersion = request.definition.version
  input_eq : call.input = request.input
  job_eq : call.job = step.job
  deadline_eq : call.deadline = request.context.deadline
  needs_done : ∀ k ∈ step.needs, k ∈ outputs
  dependencies_eq : ∀ k : StepId, call.dependencies[k]? = if k ∈ step.needs then outputs[k]? else none

/-- A call stays right when a new output appears. -/
lemma CallFor.insert {request : WorkflowRequest I J} {outputs : ExtTreeMap StepId O}
    {step : StepDefinition J} {call : StepCall I J O} (h : CallFor request outputs step call)
    {id : StepId} (hid : id ∉ outputs) (output : O) :
    CallFor request (outputs.insert id output) step call := by
  refine { h with needs_done := fun k hk => ?_, dependencies_eq := fun k => ?_ }
  · exact ExtTreeMap.mem_insert.mpr (.inr (h.needs_done k hk))
  · rw [h.dependencies_eq k]
    split
    · next hk =>
      have hne : id ≠ k := fun he => hid (he ▸ h.needs_done k hk)
      rw [getElem?_insert_eq,if_neg hne]
    · rfl

/-- What holds after every trace of the runner on an accepted definition. -/
structure Sound (max : ℕ) (request : WorkflowRequest I J) (t : List (Event O E))
    (s : State I J O E) : Prop where
  shape : Shape max request s
  ledger : Ledger t s
  outgoing : Inverts request.definition.steps s.outgoing
  nodup : (admissions t).Nodup
  known : ∀ k ∈ admissions t, k ∈ request.definition.steps
  /-- Every need of an admitted step has its output. -/
  served : ∀ k ∈ admissions t, ∀ n, Needs request.definition.steps k n → n ∈ s.outputs
  frontier : s.stopReason = none → Frontier request.definition.steps (admissions t).toFinset
    s.outputs.keys.toFinset s.remaining s.ready
  flights : ∀ f ∈ s.crew, ∃ step, CallFor request s.outputs step f.call
  /-- A step dropped without a latched reason is noticed at the next admission check. -/
  lost : s.stopReason = none → losses t ≠ [] → s.callerCancelled = true ∧
    ((∃ id, s.pc = .settle id .notCalled) ∨ s.pc = .admitStep ∧ s.inFlight.length < max)

section Facts
variable {max : ℕ} {request : WorkflowRequest I J} {t : List (Event O E)} {s : State I J O E}
  (h : Sound max request t s)
include h

lemma Sound.results_nodup : ((results t).map Prod.fst).Nodup := by
  rw [←Multiset.coe_nodup]
  refine Multiset.nodup_of_le ?_ (Multiset.coe_nodup.mpr h.nodup)
  rw [h.ledger.admitted]
  exact Multiset.le_add_left _ _

lemma Sound.mem_admissions_of_result {r : StepId × Except E O} (hr : r ∈ results t) :
    r.1 ∈ admissions t := by
  rw [←Multiset.mem_coe,h.ledger.admitted]
  exact Multiset.mem_add.mpr (.inr (List.mem_map_of_mem hr))

omit h in
lemma mem_recorded_ok {k : StepId} {o : O} :
    (k,(.ok o : Except E O)) ∈ s.recorded ↔ s.outputs[k]? = some o := by
  simp only [State.recorded, Multiset.mem_add, Multiset.mem_coe, List.mem_map, Prod.exists,
    Prod.mk.injEq, Except.ok.injEq, ExtTreeMap.mem_toList_iff_getElem?_eq_some, reduceCtorEq,
    and_false, exists_false, or_false]
  constructor
  · rintro ⟨a,b,hab,rfl,rfl⟩
    exact hab
  · exact fun hk => ⟨k,o,hk,rfl,rfl⟩

omit h in
lemma mem_recorded_error {k : StepId} {e : E} :
    (k,(.error e : Except E O)) ∈ s.recorded ↔ (⟨k,e⟩ : StepFailure E) ∈ s.failures := by
  simp only [State.recorded, Multiset.mem_add, Multiset.mem_coe, List.mem_map, Prod.mk.injEq,
    reduceCtorEq, and_false, exists_false, false_or, Except.error.injEq]
  constructor
  · rintro ⟨f,hf,rfl,rfl⟩
    exact hf
  · exact fun hk => ⟨_,hk,rfl,rfl⟩

lemma Sound.result_of_output {k : StepId} {o : O} (hk : s.outputs[k]? = some o) :
    (k,(.ok o : Except E O)) ∈ results t := by
  rw [←Multiset.mem_coe,h.ledger.settled]
  exact Multiset.mem_add.mpr (.inr (mem_recorded_ok.mpr hk))

lemma Sound.admitted_of_output {k : StepId} (hk : k ∈ s.outputs) : k ∈ admissions t := by
  obtain ⟨o,ho⟩ := Option.isSome_iff_exists.mp (ExtTreeMap.mem_iff_isSome_getElem?.mp hk)
  exact h.mem_admissions_of_result (h.result_of_output ho)

/-- A result that has just arrived is not among the outputs yet. -/
lemma Sound.fresh {id : StepId} {r : Except E O} (hpc : s.pc = .settle id (.settled r)) :
    id ∉ s.outputs ∧ id ∈ admissions t := by
  have hled := h.ledger.settled
  rw [hpc] at hled
  have hmem : (id,r) ∈ results t := by
    rw [←Multiset.mem_coe,hled]
    exact Multiset.mem_add.mpr (.inl (Multiset.mem_singleton_self _))
  refine ⟨fun hk => ?_,h.mem_admissions_of_result hmem⟩
  obtain ⟨o,ho⟩ := Option.isSome_iff_exists.mp (ExtTreeMap.mem_iff_isSome_getElem?.mp hk)
  have hnodup : ((results t : Multiset (StepId × Except E O)).map Prod.fst).Nodup := by
    rw [Multiset.map_coe,Multiset.coe_nodup]
    exact h.results_nodup
  rw [hled,Multiset.map_add,Pc.settling,Multiset.map_singleton,Multiset.singleton_add,
    Multiset.nodup_cons] at hnodup
  exact hnodup.1 (Multiset.mem_map.mpr ⟨_,mem_recorded_ok.mpr ho,rfl⟩)

lemma Sound.outputs_known {k : StepId} (hk : k ∈ s.outputs) : k ∈ request.definition.steps :=
  h.known k (h.admitted_of_output hk)

/-- With nothing ready, nothing in flight and nothing stopped, every step has an output. -/
theorem Sound.all_done (hd : request.definition.WellFormed) (hn : s.stopReason = none)
    (hcrew : s.crew = 0) (hset : s.pc.settling = 0) (hlost : losses t = [])
    (hready : popFirst s.ready = none) {k : StepId} (hk : k ∈ request.definition.steps) :
    k ∈ s.outputs := by
  have hf := h.frontier hn
  have hfail : s.failures = [] := by
    by_contra hne
    have := h.shape.failed hne
    simp [hn] at this
  have hdone : ∀ x ∈ admissions t, x ∈ s.outputs := by
    intro x hx
    rw [←Multiset.mem_coe,h.ledger.admitted,State.crewIds,hcrew,hlost] at hx
    obtain ⟨r,hr,rfl⟩ := List.mem_map.mp (by simpa using hx : x ∈ (results t).map Prod.fst)
    rw [←Multiset.mem_coe,h.ledger.settled,hset,zero_add] at hr
    obtain ⟨k,r⟩ := r
    cases r with
    | ok o =>
      rw [ExtTreeMap.mem_iff_isSome_getElem?,mem_recorded_ok.mp hr]
      rfl
    | error e =>
      have := mem_recorded_error.mp hr
      simp [hfail] at this
  refine hd.ordered.induction (P := fun k => k ∈ request.definition.steps → k ∈ s.outputs)
    (fun x hx hxs => ?_) k ((hd.mem_iff k).mpr hk) hk
  -- Its needs are done, so it is ready unless it was taken; nothing is ready.
  by_contra hno
  refine popFirst_eq_none.mp hready x ((hf.ready x).mpr ⟨hxs,?_,?_⟩)
  · rw [List.mem_toFinset]
    exact fun ha => hno (hdone x ha)
  · refine outstanding_eq_zero.mpr fun n hneed => ?_
    rw [List.mem_toFinset,ExtTreeMap.mem_keys]
    exact hx n hneed (hd.well.known x n hneed)

/-- No step of the runner aborts. -/
theorem Sound.no_abort (hmax : 0 < max) (hd : request.definition.WellFormed) (p : Panic) :
    ¬ Aborts request s p := by
  intro ha
  cases ha with
  | @admission id ready _ hpc hp hm =>
    have hn := h.shape.undecided (by rw [hpc]; rfl)
    obtain ⟨hin,-,-⟩ := popFirst_eq_some hp
    obtain ⟨hk,-,h0⟩ := ((h.frontier hn).ready id).mp hin
    obtain ⟨step,hstep⟩ := Option.isSome_iff_exists.mp
      (ExtTreeMap.mem_iff_isSome_getElem?.mp hk)
    have hdone : ∀ n ∈ step.needs, n ∈ s.outputs := by
      intro n hneed
      have hneed' : Needs request.definition.steps id n := by rwa [Needs,needsOf_eq hstep]
      have := outstanding_eq_zero.mp h0 n hneed'
      rwa [List.mem_toFinset,ExtTreeMap.mem_keys] at this
    obtain ⟨m,hg,-⟩ := gather_eq_ok "ready step dependencies must have completed" hdone
    simp [makeCall, WorkflowDefinition.step, hstep, hg, bind, Except.bind] at hm
  | @recording id settlement _ hpc hr =>
    cases settlement with
    | notCalled => cases hr
    | settled result =>
      cases result with
      | error e => cases hr
      | ok output =>
        simp only [record] at hr
        split at hr
        · next hn =>
          have hn : s.stopReason = none := by simpa using hn
          obtain ⟨hfresh,hadm⟩ := h.fresh hpc
          obtain ⟨l,counts,ready,hl,hc,-⟩ := (h.frontier hn).complete h.outgoing
            (h.known id hadm) (by rwa [List.mem_toFinset,ExtTreeMap.mem_keys])
            (fun x hx n hneed => by
              rw [List.mem_toFinset] at hx
              rw [List.mem_toFinset,ExtTreeMap.mem_keys]
              exact h.served x hx n hneed) "validated successor must exist"
          simp [hl, hc, bind, Except.bind] at hr
        · cases hr
  | conclusion hpc hf hc =>
    cases hs : s.stopReason with
    | some r => cases r <;> simp [conclude, hs] at hc
    | none =>
      have hlost : losses t = [] := by
        by_contra hne
        obtain ⟨-,⟨id,hid⟩ | ⟨hadmitted,-⟩⟩ := h.lost hs hne
        · simp [hpc] at hid
        · simp [hpc] at hadmitted
      have hall : ∀ k : StepId, k ∈ request.definition.steps → k ∈ s.outputs := fun k hk =>
        h.all_done hd hs (by simp [State.crew, hpc, hf, Pc.flights]) (by rw [hpc]; rfl) hlost
          (h.shape.noneReady hpc hs (by simpa [hf] using hmax)) hk
      have hleaves : ∀ k ∈ request.definition.leaves.map StepDefinition.id, k ∈ s.outputs := by
        intro k hk
        obtain ⟨step,hstep,rfl⟩ := List.mem_map.mp hk
        obtain ⟨j,hj⟩ := mem_valuesOf.mp (List.mem_filter.mp hstep).1
        rw [hd.well.id_eq j step hj]
        exact hall j (ExtTreeMap.mem_iff_isSome_getElem?.mpr (by rw [hj]; rfl))
      obtain ⟨m,hg,-⟩ := gather_eq_ok "completed workflow must contain every leaf" hleaves
      simp only [conclude, hs] at hc
      split at hc
      · cases hc
      · simp [hg, bind, Except.bind] at hc

end Facts

section Step
variable {max : ℕ} {request : WorkflowRequest I J} {t : List (Event O E)} {e : Event O E}
  {s s' : State I J O E}

/-- Away from the two points that follow a dropped step, none has been dropped. -/
lemma Sound.no_loss (h : Sound max request t s) (hn : s.stopReason = none)
    (hs : ∀ id, s.pc ≠ .settle id .notCalled) (ha : s.pc ≠ .admitStep) : losses t = [] := by
  by_contra hne
  obtain ⟨-,⟨id,hid⟩ | ⟨hadmitted,-⟩⟩ := h.lost hn hne
  · exact hs id hid
  · exact ha hadmitted

/-- A step that admits nothing and records nothing. -/
lemma Sound.quiet (h : Sound max request t s) (hshape : Shape max request s')
    (hledger : Ledger (t ++ [e]) s') (ha : e.admission = none) (ho : s'.outgoing = s.outgoing)
    (hout : s'.outputs = s.outputs)
    (hf : s'.stopReason = none → s.stopReason = none ∧ s'.remaining = s.remaining ∧
      s'.ready = s.ready)
    (hcrew : ∀ f ∈ s'.crew, ∃ g ∈ s.crew, f.call = g.call)
    (hlost : s'.stopReason = none → losses (t ++ [e]) ≠ [] → s'.callerCancelled = true ∧
      ((∃ id, s'.pc = .settle id .notCalled) ∨ s'.pc = .admitStep ∧ s'.inFlight.length < max)) :
    Sound max request (t ++ [e]) s' := by
  have hadm : admissions (t ++ [e]) = admissions t := by simp [admissions_concat, ha]
  refine ⟨hshape,hledger,ho ▸ h.outgoing,hadm ▸ h.nodup,hadm ▸ h.known,?_,?_,?_,hlost⟩
  · rw [hadm,hout]
    exact h.served
  · intro hn
    obtain ⟨hn,hr,hre⟩ := hf hn
    rw [hadm,hout,hr,hre]
    exact h.frontier hn
  · intro f hmem
    obtain ⟨g,hg,hfg⟩ := hcrew f hmem
    rw [hout,hfg]
    exact h.flights g hg

/-- A flight goes on inside its poll, or goes back into the set. -/
lemma Sound.flight (h : Sound max request t s) (hshape : Shape max request s')
    (hledger : Ledger (t ++ [e]) s') {f g : Flight I J O} (hpc : s.pc = .polling f)
    (hcrew : s'.crew = g ::ₘ (s.inFlight : Multiset (Flight I J O))) (hg : g.call = f.call)
    (ha : e.admission = none) (hl : e.loss = none) (ho : s'.outgoing = s.outgoing)
    (hout : s'.outputs = s.outputs) (hst : s'.stopReason = s.stopReason)
    (hr : s'.remaining = s.remaining) (hre : s'.ready = s.ready) :
    Sound max request (t ++ [e]) s' := by
  refine h.quiet hshape hledger ha ho hout (fun hn => ⟨hst ▸ hn,hr,hre⟩) ?_ ?_
  · intro k hk
    rw [hcrew] at hk
    rw [crew_polling hpc]
    rcases Multiset.mem_cons.mp hk with rfl | hk
    · exact ⟨f,Multiset.mem_cons_self _ _,hg⟩
    · exact ⟨k,Multiset.mem_cons_of_mem hk,rfl⟩
  · intro hn hne
    rw [losses_concat,hl] at hne
    exact absurd (h.no_loss (hst ▸ hn) (by simp [hpc]) (by simp [hpc])) (by simpa using hne)

/-- The flight being polled completes. -/
lemma Sound.settle (h : Sound max request t s) {f : Flight I J O}
    {settlement : StepSettlement O E} (hpc : s.pc = .polling f)
    (hshape : Shape max request (s.goto (.settle f.id settlement)))
    (hledger : Ledger (t ++ [e]) (s.goto (.settle f.id settlement))) (ha : e.admission = none)
    (hl : s.stopReason = none → e.loss ≠ none →
      s.callerCancelled = true ∧ settlement = .notCalled) :
    Sound max request (t ++ [e]) (s.goto (.settle f.id settlement)) := by
  refine h.quiet hshape hledger ha rfl rfl (fun hn => ⟨hn,rfl,rfl⟩) ?_ ?_
  · intro k hk
    rw [crew_polling hpc]
    exact ⟨k,Multiset.mem_cons_of_mem (by simpa [State.crew, State.goto, Pc.flights] using hk),rfl⟩
  · intro hn hne
    rw [losses_concat,h.no_loss hn (by simp [hpc]) (by simp [hpc])] at hne
    obtain ⟨hc,rfl⟩ := hl hn (by rintro he; simp [he] at hne)
    exact ⟨hc,.inl ⟨_,rfl⟩⟩

/-- Recording the output of a completed flight. -/
lemma Sound.recordOutput (h : Sound max request t s) {id : StepId} {output : O}
    {counts : ExtTreeMap StepId ℕ} {ready : ExtTreeSet StepId}
    (hpc : s.pc = .settle id (.settled (.ok output)))
    (hfr : s.stopReason = none → Frontier request.definition.steps (admissions t).toFinset
      (s.outputs.insert id output).keys.toFinset counts ready)
    (hshape : Shape max request { s with
      outputs := s.outputs.insert id output, remaining := counts, ready, pc := .admitStep })
    (hledger : Ledger (t ++ [.advance]) { s with
      outputs := s.outputs.insert id output, remaining := counts, ready, pc := .admitStep }) :
    Sound max request (t ++ [.advance]) { s with
      outputs := s.outputs.insert id output, remaining := counts, ready, pc := .admitStep } := by
  have hadm : admissions (t ++ [(.advance : Event O E)]) = admissions t := by
    simp [admissions_concat, Event.admission]
  have hloss : losses (t ++ [(.advance : Event O E)]) = losses t := by
    simp [losses_concat, Event.loss]
  refine ⟨hshape,hledger,h.outgoing,hadm ▸ h.nodup,hadm ▸ h.known,?_,?_,?_,?_⟩
  · rw [hadm]
    exact fun k hk n hn => ExtTreeMap.mem_insert.mpr (.inr (h.served k hk n hn))
  · rw [hadm]
    exact hfr
  · intro f hf
    have hin : f ∈ s.crew := by
      rw [crew_settle hpc]
      simpa [State.crew, Pc.flights] using hf
    obtain ⟨step,hstep⟩ := h.flights f hin
    exact ⟨step,hstep.insert (h.fresh hpc).1 output⟩
  · rw [hloss]
    exact fun hn hne => absurd (h.no_loss hn (by simp [hpc]) (by simp [hpc])) hne

/-- Recording a completed flight. -/
lemma Sound.record {s'' : State I J O E} (h : Sound max request t s) {id : StepId}
    {settlement : StepSettlement O E} (hpc : s.pc = .settle id settlement)
    (hr : Records s id settlement s'') (hshape : Shape max request (s''.goto .admitStep))
    (hledger : Ledger (t ++ [.advance]) (s''.goto .admitStep)) :
    Sound max request (t ++ [.advance]) (s''.goto .admitStep) := by
  have hloss : losses (t ++ [(.advance : Event O E)]) = losses t := by
    simp [losses_concat, Event.loss]
  have hroom : s.inFlight.length < max := by
    have := h.shape.room
    rw [hpc] at this
    exact this
  cases hr with
  | notCalled =>
    refine h.quiet hshape hledger rfl rfl rfl (fun hn => ⟨hn,rfl,rfl⟩) ?_ ?_
    · intro f hf
      refine ⟨f,?_,rfl⟩
      rw [crew_settle hpc]
      simpa [State.crew, State.goto, Pc.flights] using hf
    · rw [hloss]
      intro hn hne
      exact ⟨(h.lost hn hne).1,.inr ⟨rfl,hroom⟩⟩
  | @succeeded output l counts ready hn hl hc =>
    refine h.recordOutput hpc (fun _ => ?_) hshape hledger
    obtain ⟨hfresh,hin⟩ := h.fresh hpc
    obtain ⟨l',counts',ready',hl',hc',hfr⟩ := (h.frontier hn).complete h.outgoing
      (h.known id hin) (by rwa [List.mem_toFinset,ExtTreeMap.mem_keys])
      (fun x hx n hneed => by
        rw [List.mem_toFinset] at hx
        rw [List.mem_toFinset,ExtTreeMap.mem_keys]
        exact h.served x hx n hneed) "validated successor must exist"
    obtain rfl : l = l' := Option.some.inj (hl.symm.trans hl')
    simp only [hc, Except.ok.injEq, Prod.mk.injEq] at hc'
    obtain ⟨rfl,rfl⟩ := hc'
    rw [toFinset_keys_insert]
    exact hfr
  | @drained output hs =>
    refine h.recordOutput hpc (fun hn => ?_) hshape hledger
    simp [hn] at hs
  | failed hn =>
    refine h.quiet hshape hledger rfl rfl rfl (by simp [State.goto, State.latch]) ?_
      (by simp [State.goto, State.latch])
    intro f hf
    refine ⟨f,?_,rfl⟩
    rw [crew_settle hpc]
    simpa [State.crew, State.goto, State.latch, Pc.flights] using hf
  | drainedFailure hs =>
    refine h.quiet hshape hledger rfl rfl rfl (fun hn => ⟨hn,rfl,rfl⟩) ?_ ?_
    · intro f hf
      refine ⟨f,?_,rfl⟩
      rw [crew_settle hpc]
      simpa [State.crew, State.goto, Pc.flights] using hf
    · intro hn
      simp [show s.stopReason = none from hn] at hs

/-- Admitting the least ready step. -/
lemma Sound.admitStep (h : Sound max request t s) {id : StepId} {ready : ExtTreeSet StepId}
    {call : StepCall I J O} (hpc : s.pc = .admitPop) (hp : popFirst s.ready = some (id,ready))
    (hm : makeCall request s id = .ok call)
    (hshape : Shape max request
      { s with ready, inFlight := s.inFlight ++ [Flight.mk call .select], pc := .admitStep })
    (hledger : Ledger (t ++ [.admitStep id])
      { s with ready, inFlight := s.inFlight ++ [Flight.mk call .select], pc := .admitStep }) :
    Sound max request (t ++ [.admitStep id])
      { s with ready, inFlight := s.inFlight ++ [Flight.mk call .select], pc := .admitStep } := by
  have hn : s.stopReason = none := h.shape.undecided (by rw [hpc]; rfl)
  obtain ⟨hin,-,-⟩ := popFirst_eq_some hp
  obtain ⟨hk,hnew,h0⟩ := ((h.frontier hn).ready id).mp hin
  rw [List.mem_toFinset] at hnew
  have hadm : admissions (t ++ [(.admitStep id : Event O E)]) = admissions t ++ [id] := by
    simp [admissions_concat, Event.admission]
  have hmem : ∀ k, k ∈ admissions t ++ [id] ↔ k ∈ admissions t ∨ k = id := by simp
  refine ⟨hshape,hledger,h.outgoing,?_,?_,?_,?_,?_,?_⟩
  · rw [hadm,List.nodup_append]
    refine ⟨h.nodup,List.nodup_singleton id,fun a ha b hb => ?_⟩
    obtain rfl := List.mem_singleton.mp hb
    exact fun hab => hnew (hab ▸ ha)
  · intro k hkm
    rw [hadm,hmem] at hkm
    exact hkm.elim (h.known k) (fun he => he ▸ hk)
  · intro k hkm n hneed
    rw [hadm,hmem] at hkm
    rcases hkm with hkm | rfl
    · exact h.served k hkm n hneed
    · have := outstanding_eq_zero.mp h0 n hneed
      rwa [List.mem_toFinset,ExtTreeMap.mem_keys] at this
  · intro _
    have he : (admissions t ++ [id]).toFinset = insert id (admissions t).toFinset := by
      ext k
      simp
    rw [hadm,he]
    exact (h.frontier hn).take hp
  · intro f hf
    have hf : f ∈ s.inFlight ∨ f = Flight.mk call .select := by
      simpa [State.crew, Pc.flights] using hf
    rcases hf with hf | rfl
    · exact h.flights f (by simp [State.crew, hf])
    · unfold makeCall at hm
      split at hm
      · cases hm
      · next step hstep =>
        cases hg : gather "ready step dependencies must have completed" s.outputs step.needs with
        | error p => simp [hg, bind, Except.bind] at hm
        | ok deps =>
          simp only [hg, bind, Except.bind, Except.ok.injEq] at hm
          obtain ⟨hall,hlook⟩ := gather_lookup hg
          subst hm
          exact ⟨step,hstep,rfl,rfl,rfl,rfl,rfl,rfl,hall,hlook⟩
  · intro _ hne
    have hloss : losses (t ++ [(.admitStep id : Event O E)]) = losses t := by
      simp [losses_concat, Event.loss]
    rw [hloss] at hne
    exact absurd (h.no_loss hn (by simp [hpc]) (by simp [hpc])) hne

lemma silent_loss (he : e.silent = true) : losses (t ++ [e]) = losses t ∧ e.admission = none := by
  cases e <;> simp_all [Event.silent, losses_concat, Event.loss, Event.admission]

/-- Every step keeps the scheduler invariant. -/
theorem Sound.step (hmax : 0 < max) (hd : request.definition.WellFormed)
    (h : Sound max request t s) (ht : Transition max request s e s') :
    Sound max request (t ++ [e]) s' := by
  have hshape := h.shape.step hmax ht
  have hledger := h.ledger.step ht (h.no_abort hmax hd) (fun id r hpc => (h.fresh hpc).1)
  cases ht with
  | outside he hc =>
    obtain ⟨hl,ha⟩ := silent_loss (t := t) (Event.external_silent he)
    refine h.quiet hshape hledger ha rfl rfl (fun hn => ⟨hn,rfl,rfl⟩) (fun f hf => ⟨f,hf,rfl⟩) ?_
    rw [hl]
    exact fun hn hne => ⟨hc (h.lost hn hne).1,(h.lost hn hne).2⟩
  | control hc =>
    obtain ⟨he,h1,h2,-⟩ := hc.grounded
    obtain ⟨hl,ha⟩ := silent_loss (t := t) he
    refine h.quiet hshape hledger ha rfl rfl (fun hn => ⟨hn,rfl,rfl⟩) ?_ ?_
    · exact fun f hf => ⟨f,by simpa [State.crew, State.goto, h1, h2] using hf,rfl⟩
    · rw [hl]
      intro (hn : s.stopReason = none) hne
      obtain ⟨hcc,⟨id,hid⟩ | ⟨hadmitted,hroom⟩⟩ := h.lost hn hne
      · cases hc <;> simp_all
      · cases hc with
        | closed _ hf =>
          rcases hf with hf | hf
          · simp [hn] at hf
          · omega
        | clear _ _ _ hc => simp [hcc] at hc
        | _ => simp_all
  | latch hl =>
    obtain ⟨he,h1,h2,-⟩ := hl.grounded
    obtain ⟨hl',ha⟩ := silent_loss (t := t) he
    refine h.quiet hshape hledger ha rfl rfl (by simp [State.goto, State.latch]) ?_
      (by simp [State.goto, State.latch])
    exact fun f hf => ⟨f,by simpa [State.crew, State.goto, State.latch, h1, h2] using hf,rfl⟩
  | abort ha => exact absurd ha (h.no_abort hmax hd _)
  | finish hpc hf hc =>
    obtain ⟨hl,ha⟩ := silent_loss (t := t) (e := (.advance : Event O E)) rfl
    refine h.quiet hshape hledger ha rfl rfl (fun hn => ⟨hn,rfl,rfl⟩) ?_ ?_
    · exact fun f hf' => ⟨f,by simpa [State.crew, State.goto, hpc, Pc.flights] using hf',rfl⟩
    · rw [hl]
      exact fun hn hne => absurd (h.no_loss hn (by simp [hpc]) (by simp [hpc])) hne
  | record hpc hr => exact h.record hpc hr hshape hledger
  | admitStep hpc hp hm => exact h.admitStep hpc hp hm hshape hledger
  | @poll index f hpc hf =>
    obtain ⟨hl,ha⟩ := silent_loss (t := t) (e := (.poll index : Event O E)) rfl
    refine h.quiet hshape hledger ha rfl rfl (fun hn => ⟨hn,rfl,rfl⟩) ?_ ?_
    · intro k hk
      have hk : k = f ∨ k ∈ s.inFlight.eraseIdx index := by
        simpa [State.crew, Pc.flights] using hk
      refine ⟨k,?_,rfl⟩
      rcases hk with rfl | hk
      · simpa [State.crew, hpc, Pc.flights] using List.mem_of_getElem? hf
      · simpa [State.crew, hpc, Pc.flights] using List.mem_of_mem_eraseIdx hk
    · rw [hl]
      exact fun hn hne => absurd (h.no_loss hn (by simp [hpc]) (by simp [hpc])) hne
  | tokenSeen hpc _ hc =>
    refine h.settle hpc hshape hledger rfl fun hn _ => ⟨hc.resolve_right fun hr => ?_,rfl⟩
    rw [h.shape.cancelled,hn] at hr
    cases hr
  | @tokenClear f p hpc =>
    exact h.flight hshape hledger hpc (g := { f with phase := p })
      (by simp [State.crew, State.goto, Pc.flights]) rfl rfl rfl rfl rfl rfl rfl rfl
  | @readyPending f hpc =>
    exact h.flight hshape hledger hpc (g := { f with phase := .select }) crew_suspend rfl rfl rfl
      rfl rfl rfl rfl rfl
  | @readyOk f hpc =>
    exact h.flight hshape hledger hpc (g := { f with phase := .readied })
      (by simp [State.crew, State.goto, Pc.flights]) rfl rfl rfl rfl rfl rfl rfl rfl
  | readyErr hpc => exact h.settle hpc hshape hledger rfl (by simp [Event.loss])
  | @call f hpc =>
    exact h.flight hshape hledger hpc (g := { f with phase := .calling })
      (by simp [State.crew, State.goto, Pc.flights]) rfl rfl rfl rfl rfl rfl rfl rfl
  | @callPending f hpc =>
    exact h.flight hshape hledger hpc (g := f) crew_suspend rfl rfl rfl rfl rfl rfl rfl rfl
  | callSettled hpc => exact h.settle hpc hshape hledger rfl (by simp [Event.loss])

lemma sound_initial (hd : request.definition.WellFormed) :
    Sound max request [] (initial request : State I J O E) := by
  obtain ⟨o,ho,hinv⟩ := successorTable_spec hd.well
  have hi : (initial request : State I J O E) = ⟨false,false,0,false,
      needCounts request.definition.steps,o,zeroCounts (needCounts request.definition.steps),[],∅,
      [],none,.start⟩ := by
    simp only [initial, ho]
  have hshape : Shape max request (initial request : State I J O E) := shape_initial
  rw [hi] at hshape ⊢
  refine ⟨hshape,⟨?_,?_,?_⟩,hinv,by simp [admissions],by simp [admissions],by simp [admissions],
    fun _ => ?_,?_,by simp [losses]⟩
  · simp [admissions, losses, results, State.crewIds, State.crew, Pc.flights]
  · simp [calls, callResults, State.callingIds, State.crew, Pc.flights]
  · simp [results, Pc.settling, State.recorded, toList_empty]
  · simpa [admissions, keys_empty] using Frontier.start hd.well
  · simp [State.crew, Pc.flights]

/-- The scheduler invariant holds along every run on an accepted definition. -/
theorem sound_of_run (hmax : 0 < max) (hd : request.definition.WellFormed)
    (h : (execute max request).run t = some s) : Sound max request t s :=
  Machine.invariant (P := Sound max request) (sound_initial hd)
    (fun _ _ _ _ _ hs hl => hs.step hmax hd (executeStep_transition hl)) h

end Step
end TowerAgent.Workflow
