import TowerAgent.Workflow.CallSafety

/-! What the runner returns: the variant follows the latched stop reason, and nothing that settled
is missing from the result, doubled or altered. -/
namespace TowerAgent.Workflow
open Lib
open Std (ExtTreeMap ExtTreeSet)

variable {I J O E : Type}

/-- The stop reason a failure variant reports. -/
def WorkflowFailure.reason : WorkflowFailure E O → Option StopReason
  | .cancelled .. => some .externalCancellation
  | .deadlineExceeded .. => some .deadline
  | .stepsFailed .. => some .stepFailure
  | .incomplete .. => none

/-- The successful outputs a result carries. -/
def completedOf : Except (WorkflowFailure E O) (WorkflowOutcome O) → ExtTreeMap StepId O
  | .ok o => o.outputs
  | .error (.cancelled _ _ _ completed _) => completed
  | .error (.deadlineExceeded _ _ _ completed _) => completed
  | .error (.stepsFailed _ _ _ completed _) => completed
  | .error (.incomplete _ _ _ completed _) => completed

/-- The step failures a result carries. -/
def failuresOf : Except (WorkflowFailure E O) (WorkflowOutcome O) → List (StepFailure E)
  | .error (.cancelled _ _ _ _ failures) => failures
  | .error (.deadlineExceeded _ _ _ _ failures) => failures
  | .error (.stepsFailed _ _ _ _ failures) => failures
  | _ => []

/-- The failures in step-id order. -/
def sortFailures (failures : List (StepFailure E)) : List (StepFailure E) :=
  failures.insertionSort (fun left right => left.stepId ≤ right.stepId)

lemma sortFailures_perm (failures : List (StepFailure E)) :
    (sortFailures failures).Perm failures := List.perm_insertionSort _ _

lemma sortFailures_strict {failures : List (StepFailure E)}
    (h : (failures.map StepFailure.stepId).Nodup) :
    (sortFailures failures).Pairwise (fun left right => left.stepId < right.stepId) := by
  let r : StepFailure E → StepFailure E → Prop := fun left right => left.stepId ≤ right.stepId
  have : Std.Total r := ⟨fun a b => le_total a.stepId b.stepId⟩
  have : IsTrans (StepFailure E) r := ⟨fun a b c => le_trans⟩
  have hle : (sortFailures failures).Pairwise r := List.pairwise_insertionSort r failures
  have hne : ((sortFailures failures).map StepFailure.stepId).Nodup :=
    ((sortFailures_perm failures).map _).nodup_iff.mpr h
  rw [List.Nodup,List.pairwise_map] at hne
  exact List.Pairwise.imp₂ (fun _ _ hle hne => lt_of_le_of_ne hle hne) hle hne

section Conclude
variable {request : WorkflowRequest I J} {s : State I J O E}
  {r : Except (WorkflowFailure E O) (WorkflowOutcome O)}

/-- A stopped run reports its reason, its outputs and its failures. -/
lemma conclude_stopped {reason : StopReason} (hs : s.stopReason = some reason)
    (h : conclude request s = .ok r) : ∃ f, r = .error f ∧ f.reason = some reason ∧
      completedOf r = s.outputs ∧ failuresOf r = sortFailures s.failures := by
  cases reason <;>
    (simp only [conclude, hs, Except.ok.injEq] at h; subst h; exact ⟨_,rfl,rfl,rfl,rfl⟩)

/-- A run that was never stopped and has all its outputs succeeds. -/
lemma conclude_complete (hs : s.stopReason = none) (h : conclude request s = .ok r)
    (hlen : s.outputs.size = request.definition.steps.size) :
    ∃ leafOutputs, gather "completed workflow must contain every leaf" s.outputs
        (request.definition.leaves.map StepDefinition.id) = .ok leafOutputs ∧
      r = .ok ⟨request.context.runId,request.definition.id,request.definition.version,s.outputs,
        leafOutputs⟩ := by
  simp only [conclude, hs, hlen, ne_eq, not_true_eq_false, if_false] at h
  cases hg : gather "completed workflow must contain every leaf" s.outputs
      (request.definition.leaves.map StepDefinition.id) with
  | error p => simp [hg, bind, Except.bind] at h
  | ok leafOutputs =>
    simp only [hg, bind, Except.bind, Except.ok.injEq] at h
    exact ⟨leafOutputs,rfl,h.symm⟩

end Conclude

section Final
variable {max : ℕ} {request : WorkflowRequest I J} {t : List (Event O E)} {s : State I J O E}
  {r : Except (WorkflowFailure E O) (WorkflowOutcome O)}

/-- No run reaches an aborted state. -/
theorem not_panicked (hmax : 0 < max) (hd : request.definition.WellFormed)
    (h : (execute max request).run t = some s) (p : Panic) : s.pc ≠ .panicked p := by
  refine Machine.invariant (P := fun _ (s : State I J O E) => ∀ p, s.pc ≠ .panicked p)
    ?_ ?_ h p
  · intro p
    obtain ⟨o,ho,-⟩ := successorTable_spec hd.well
    simp [execute, initial, ho]
  · intro t s e s' hr hp he q
    have hs := sound_of_run hmax hd hr
    cases executeStep_transition he with
    | abort ha => exact absurd ha (hs.no_abort hmax hd _)
    | outside => exact hp q
    | control hc => cases hc <;> simp [State.goto]
    | latch hl => cases hl <;> simp [State.goto]
    | _ => simp [State.goto, State.suspend]

/-- At the end nothing is in flight and every result has been recorded. -/
lemma Sound.at_end (h : Sound max request t s) (hpc : s.pc = .finished r) :
    s.crew = 0 ∧ conclude request s = .ok r ∧
      (results t : Multiset (StepId × Except E O)) = s.recorded := by
  obtain ⟨hf,hc,-⟩ := h.shape.finished r hpc
  refine ⟨by simp [State.crew, hpc, hf, Pc.flights],hc,?_⟩
  have hled := h.ledger.settled
  rw [hpc] at hled
  simpa [Pc.settling] using hled

lemma Sound.complete (hd : request.definition.WellFormed) (h : Sound max request t s)
    (hpc : s.pc = .finished r) (hn : s.stopReason = none) :
    (∀ k, k ∈ s.outputs ↔ k ∈ request.definition.steps) ∧
      s.outputs.size = request.definition.steps.size := by
  have hmem : ∀ k, k ∈ s.outputs ↔ k ∈ request.definition.steps := by
    refine fun k => ⟨h.outputs_known,fun hk => ?_⟩
    exact h.all_done hd hn (h.at_end hpc).1 (by rw [hpc]; rfl)
      (h.no_loss hn (by simp [hpc]) (by simp [hpc])) ((h.shape.finished r hpc).2.2 hn) hk
  refine ⟨hmem,?_⟩
  rw [size_eq_card_keys,size_eq_card_keys]
  congr 1
  ext k
  rw [List.mem_toFinset,List.mem_toFinset,ExtTreeMap.mem_keys,ExtTreeMap.mem_keys,hmem]

/-- The classification of a run and of its result. -/
structure Classified (max : ℕ) (request : WorkflowRequest I J) (s : State I J O E) : Prop where
  /-- A latched stop reason is never replaced. -/
  latched : ∀ reason u s', s.stopReason = some reason →
    (execute max request).runFrom s u = some s' → s'.stopReason = some reason
  /-- No `expect` fails, no index is absent, no counter underflows. -/
  no_panic : ∀ p, s.pc ≠ .panicked p
  /-- Success means that nothing stopped the run. -/
  ok_iff : ∀ r, s.pc = .finished r → ((∃ o, r = .ok o) ↔ s.stopReason = none)
  /-- A failure is the variant of the latched reason, hence never `incomplete`. -/
  failure : ∀ f, s.pc = .finished (.error f) → f.reason = s.stopReason ∧ f.reason.isSome
  /-- A success has the outputs of all steps, and as leaf outputs those of the leaves. -/
  success : ∀ o, s.pc = .finished (.ok o) →
    (∀ k, k ∈ o.outputs ↔ k ∈ request.definition.steps) ∧
    ∀ (k : StepId) (v : O), o.leafOutputs[k]? = some v ↔
      o.outputs[k]? = some v ∧ ∀ x, ¬ Needs request.definition.steps x k

/-- A latched stop reason survives any continuation. -/
lemma stop_stable_run (hmax : 0 < max) (hd : request.definition.WellFormed)
    (h : Sound max request t s) {reason : StopReason} (hr : s.stopReason = some reason)
    {u : List (Event O E)} {s' : State I J O E}
    (hu : (execute max request).runFrom s u = some s') : s'.stopReason = some reason := by
  refine (Machine.stable (P := fun t s => Sound max request t s ∧ s.stopReason = some reason)
    ?_ hu ⟨h,hr⟩).2
  rintro t s e s' ⟨h,hr⟩ he
  have ht := executeStep_transition he
  exact ⟨h.step hmax hd ht,h.shape.stop_stable ht hr⟩

/-- Every run of the runner on an accepted definition is classified by its stop reason. -/
theorem execute_classified {id version : String} {specs : List (StepSpec J)}
    (hc : compile id version specs = .ok (.ok request.definition)) (hmax : 0 < max)
    (h : (execute max request).run t = some s) : Classified max request s := by
  have hd := (compile_wellFormed hc).1
  have hs := sound_of_run hmax hd h
  have complete : ∀ r, s.pc = .finished r → s.stopReason = none → ∃ o, r = .ok o ∧
      o.outputs = s.outputs ∧ gather "completed workflow must contain every leaf" s.outputs
        (request.definition.leaves.map StepDefinition.id) = .ok o.leafOutputs := by
    intro r hpc hn
    obtain ⟨-,hcon,-⟩ := hs.at_end hpc
    obtain ⟨leafOutputs,hg,rfl⟩ := conclude_complete hn hcon (hs.complete hd hpc hn).2
    exact ⟨_,rfl,rfl,hg⟩
  have stopped : ∀ r reason, s.pc = .finished r → s.stopReason = some reason →
      ∃ f, r = .error f ∧ f.reason = some reason := by
    intro r reason hpc hr
    obtain ⟨f,hf,hreason,-⟩ := conclude_stopped hr (hs.at_end hpc).2.1
    exact ⟨f,hf,hreason⟩
  refine ⟨fun reason u s' hr hu => stop_stable_run hmax hd hs hr hu,not_panicked hmax hd h,
    ?_,?_,?_⟩
  · intro r hpc
    constructor
    · rintro ⟨o,rfl⟩
      cases hsr : s.stopReason with
      | none => rfl
      | some reason =>
        obtain ⟨f,hf,-⟩ := stopped _ reason hpc hsr
        cases hf
    · intro hn
      obtain ⟨o,ho,-⟩ := complete r hpc hn
      exact ⟨o,ho⟩
  · intro f hpc
    cases hsr : s.stopReason with
    | none =>
      obtain ⟨o,ho,-⟩ := complete _ hpc hsr
      cases ho
    | some reason =>
      obtain ⟨g,hg,hreason⟩ := stopped _ reason hpc hsr
      obtain rfl := Except.error.inj hg
      exact ⟨hreason,by rw [hreason]; rfl⟩
  · intro o hpc
    cases hsr : s.stopReason with
    | some reason =>
      obtain ⟨f,hf,-⟩ := stopped _ reason hpc hsr
      cases hf
    | none =>
      obtain ⟨o',ho,hout,hg⟩ := complete _ hpc hsr
      obtain rfl := Except.ok.inj ho
      have hmem := (hs.complete hd hpc hsr).1
      refine ⟨fun k => by rw [hout,hmem],fun k v => ?_⟩
      rw [(gather_lookup hg).2 k,hout]
      constructor
      · intro hv
        split at hv
        · next hk => exact ⟨hv,((mem_leaves hd.well).mp hk).2⟩
        · cases hv
      · rintro ⟨hv,hno⟩
        have hk : k ∈ request.definition.steps :=
          (hmem k).mp (ExtTreeMap.mem_iff_isSome_getElem?.mpr (by rw [hv]; rfl))
        rw [if_pos ((mem_leaves hd.well).mpr ⟨hk,hno⟩),hv]

theorem execute_classified_sample : ∃ d s r, compile "article" "1" sampleSpecs = .ok (.ok d) ∧
    (execute 2 (sampleRequest d)).run sampleTrace = some s ∧ s.pc = .finished r ∧
    Classified 2 (sampleRequest d) s := by
  obtain ⟨d,s,r,hd,hs,hpc⟩ := sample_run
  exact ⟨d,s,r,hd,hs,hpc,execute_classified hd (by decide) hs⟩

/-- What a returned result keeps of the settlements in the trace. -/
structure Drained (request : WorkflowRequest I J) (t : List (Event O E))
    (r : Except (WorkflowFailure E O) (WorkflowOutcome O)) : Prop where
  /-- Every call that was begun has settled. -/
  drained : ∀ id ∈ calls t, ∃ result, .pollCall id (.settled result) ∈ t
  /-- The outputs are those the steps settled with. -/
  outputs : ∀ (k : StepId) (o : O), (completedOf r)[k]? = some o ↔
    .pollCall k (.settled (.ok o)) ∈ t
  /-- The failures are the errors of calls and of readiness. -/
  failures : ∀ k e, ⟨k,e⟩ ∈ failuresOf r ↔
    .pollCall k (.settled (.error e)) ∈ t ∨ .pollReady k (.err e) ∈ t
  /-- Each dispatch that settled with a result is recorded once, on one side. -/
  conserved : ((completedOf r).keys ++ (failuresOf r).map StepFailure.stepId).Perm
    ((results t).map Prod.fst)
  nodup : ((completedOf r).keys ++ (failuresOf r).map StepFailure.stepId).Nodup
  sorted : (failuresOf r).Pairwise (fun left right => left.stepId < right.stepId)
  /-- Every need of a completed step is completed. -/
  closed : ∀ k ∈ completedOf r, ∀ n, Needs request.definition.steps k n → n ∈ completedOf r

lemma recorded_ids : s.recorded.map Prod.fst =
    ((s.outputs.keys ++ s.failures.map StepFailure.stepId : List StepId) : Multiset StepId) := by
  rw [State.recorded,Multiset.map_add,Multiset.map_coe,Multiset.map_coe,List.map_map,List.map_map,
    ←ExtTreeMap.map_fst_toList_eq_keys,←Multiset.coe_add]
  rfl

/-- Whatever settled before the runner returned is in its result. -/
theorem execute_drained {id version : String} {specs : List (StepSpec J)}
    (hc : compile id version specs = .ok (.ok request.definition)) (hmax : 0 < max)
    (h : (execute max request).run t = some s) (hpc : s.pc = .finished r) :
    Drained request t r := by
  have hd := (compile_wellFormed hc).1
  have hs := sound_of_run hmax hd h
  obtain ⟨hcrew,hcon,hres⟩ := hs.at_end hpc
  have hparts : completedOf r = s.outputs ∧ failuresOf r = sortFailures s.failures := by
    cases hsr : s.stopReason with
    | some reason =>
      obtain ⟨f,-,-,hout,hfail⟩ := conclude_stopped hsr hcon
      exact ⟨hout,hfail⟩
    | none =>
      obtain ⟨leafOutputs,-,rfl⟩ := conclude_complete hsr hcon (hs.complete hd hpc hsr).2
      have hfail : s.failures = [] := by
        by_contra hne
        have := hs.shape.failed hne
        simp [hsr] at this
      exact ⟨rfl,by rw [hfail]; rfl⟩
  obtain ⟨hout,hfail⟩ := hparts
  have hperm : (s.outputs.keys ++ s.failures.map StepFailure.stepId).Perm
      ((results t).map Prod.fst) := by
    rw [←Multiset.coe_eq_coe,←recorded_ids,←hres,Multiset.map_coe]
  have hsort := (sortFailures_perm s.failures).map StepFailure.stepId
  have hnodup := hperm.nodup_iff.mpr hs.results_nodup
  rw [←hout] at hperm hnodup
  refine ⟨?_,?_,?_,?_,?_,?_,?_⟩
  · intro id hid
    rw [←Multiset.mem_coe,hs.ledger.begun,State.callingIds,hcrew] at hid
    obtain ⟨⟨k,result⟩,hk,rfl⟩ := List.mem_map.mp (by simpa using hid :
      id ∈ (callResults t).map Prod.fst)
    obtain ⟨e,he,hr⟩ := List.mem_filterMap.mp hk
    cases e with
    | pollCall id a =>
      cases a with
      | pending => simp [Event.callResult] at hr
      | settled v =>
        simp only [Event.callResult, Option.some.injEq, Prod.mk.injEq] at hr
        obtain ⟨rfl,rfl⟩ := hr
        exact ⟨_,he⟩
    | _ => simp [Event.callResult] at hr
  · intro k o
    rw [hout,←mem_recorded_ok (E := E),←hres,Multiset.mem_coe,mem_results_ok]
  · intro k e
    rw [hfail,(sortFailures_perm _).mem_iff,←mem_recorded_error (O := O) (s := s),←hres,
      Multiset.mem_coe,mem_results_error]
  · rw [hfail]
    exact ((List.Perm.refl _).append hsort).trans hperm
  · rw [hfail]
    exact ((List.Perm.refl _).append hsort).nodup_iff.mpr hnodup
  · rw [hfail]
    exact sortFailures_strict (List.nodup_append.mp hnodup).2.1
  · rw [hout]
    exact fun k hk n hn => hs.served k (hs.admitted_of_output hk) n hn

theorem execute_drained_sample : ∃ d s r, compile "article" "1" sampleSpecs = .ok (.ok d) ∧
    (execute 2 (sampleRequest d)).run sampleTrace = some s ∧ s.pc = .finished r ∧
    Drained (sampleRequest d) sampleTrace r := by
  obtain ⟨d,s,r,hd,hs,hr⟩ := sample_run
  exact ⟨d,s,r,hd,hs,hr,execute_drained hd (by decide) hs hr⟩

end Final
end TowerAgent.Workflow
