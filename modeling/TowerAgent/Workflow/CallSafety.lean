import TowerAgent.Workflow.Invariant

/-! When the runner calls a dispatcher: at most once for a step, with the outputs of its needs, on
a ready clone, within the concurrency bound, and never after it has been told to stop. -/
namespace TowerAgent.Workflow
open Lib
open Std (ExtTreeMap ExtTreeSet)

variable {I J O E : Type}

section Stop
variable {max : ℕ} {request : WorkflowRequest I J} {t : List (Event O E)} {e : Event O E}
  {s s' : State I J O E}

/-- A latched stop reason stays the same. -/
theorem Shape.stop_stable (h : Shape max request s) (ht : Transition max request s e s')
    {reason : StopReason} (hs : s.stopReason = some reason) : s'.stopReason = some reason := by
  cases ht with
  | latch hl =>
    exfalso
    have hn : s.stopReason = none := by
      cases hl with
      | startCancelled hpc => exact h.undecided (by rw [hpc]; rfl)
      | startExpired hpc => exact h.undecided (by rw [hpc]; rfl)
      | admitCancelled _ hn => exact hn
      | admitExpired hpc => exact h.undecided (by rw [hpc]; rfl)
      | awaitCancelled _ hn => exact hn
      | fired hpc => exact h.undecided (by rw [hpc]; rfl)
    simp [hn] at hs
  | record _ hr =>
    cases hr with
    | failed hn => simp [hn] at hs
    | _ => exact hs
  | _ => exact hs

/-- The run has been stopped, or a step has seen its token cancelled. -/
def Halting (t : List (Event O E)) (s : State I J O E) : Prop :=
  s.stopReason.isSome ∨ losses t ≠ []

/-- A halting run begins no call and stays halting. -/
lemma Halting.step (hmax : 0 < max) (hd : request.definition.WellFormed) (hh : Halting t s)
    (h : Sound max request t s) (ht : Transition max request s e s') :
    Halting (t ++ [e]) s' ∧ e.begun = none := by
  refine ⟨?_,?_⟩
  · rcases hh with hs | hl
    · obtain ⟨r,hr⟩ := Option.isSome_iff_exists.mp hs
      exact .inl (by rw [h.shape.stop_stable ht hr]; rfl)
    · exact .inr (by simp [losses_concat, hl])
  · cases ht with
    | outside he => cases e <;> first | rfl | cases he
    | control hc => cases hc <;> rfl
    | latch hl => cases hl <;> rfl
    | @call f hpc hp =>
      exfalso
      by_cases hs : s.stopReason.isSome
      · have := h.shape.stopped f hpc hs
        simp [Phase.resting, hp] at this
      · have hn : s.stopReason = none := by simpa using hs
        obtain ⟨-,⟨id,hid⟩ | ⟨hadmitted,-⟩⟩ := h.lost hn (hh.resolve_left hs)
        · simp [hpc] at hid
        · simp [hpc] at hadmitted
    | abort ha => exact absurd ha (h.no_abort hmax hd _)
    | _ => rfl

/-- Once halting, no run begins a call. -/
theorem Halting.no_call (hmax : 0 < max) (hd : request.definition.WellFormed) (hh : Halting t s)
    (h : Sound max request t s) {u : List (Event O E)}
    (hu : (execute max request).runFrom s u = some s') : calls u = [] := by
  have hcalls : calls (t ++ u) = calls t := by
    refine (Machine.stable (P := fun v m => Halting v m ∧ Sound max request v m ∧
      calls v = calls t) ?_ hu ⟨hh,h,rfl⟩).2.2
    rintro v m e m' ⟨hh,h,hv⟩ he
    have ht := executeStep_transition he
    obtain ⟨hh',hbegun⟩ := hh.step hmax hd h ht
    exact ⟨hh',h.step hmax hd ht,by simp [calls_concat, hbegun, hv]⟩
  simpa [calls] using hcalls

end Stop

section Clone

/-- The dispatcher clone an event uses, named by its step. -/
def Event.onClone : Event O E → Option StepId
  | .pollReady id _ | .call id | .pollCall id _ => some id
  | _ => none

/-- The last use of a step's dispatcher clone. -/
def lastOnClone (id : StepId) (t : List (Event O E)) : Option (Event O E) :=
  (t.filter (fun e => decide (e.onClone = some id))).getLast?

lemma lastOnClone_concat (id : StepId) (t : List (Event O E)) (e : Event O E) :
    lastOnClone id (t ++ [e]) = if e.onClone = some id then some e else lastOnClone id t := by
  unfold lastOnClone
  rw [List.filter_append]
  by_cases h : e.onClone = some id <;> simp [h]

/-- Past its readiness check, a flight's clone has just been found ready. -/
def Primed (t : List (Event O E)) (s : State I J O E) : Prop :=
  ∀ f, s.pc = .polling f → f.phase = .readied ∨ f.phase = .checked →
    lastOnClone f.id t = some (.pollReady f.id .ok)

variable {max : ℕ} {request : WorkflowRequest I J} {t : List (Event O E)} {e : Event O E}
  {s s' : State I J O E}

lemma Primed.step (h : Primed t s) (hs : Shape max request s)
    (ht : Transition max request s e s') : Primed (t ++ [e]) s' := by
  intro f hf hp
  rw [lastOnClone_concat]
  cases ht with
  | outside he =>
    have hc : e.onClone = none := by cases e <;> first | rfl | cases he
    rw [hc,if_neg (by simp)]
    exact h f hf hp
  | control hc => cases hc <;> simp [State.goto] at hf
  | latch hl => cases hl <;> simp [State.goto] at hf
  | @poll index g hpc hg =>
    obtain rfl := Pc.polling.inj hf
    have := hs.suspended _ (List.mem_of_getElem? hg)
    rcases this with h' | h' <;> simp [h'] at hp
  | @tokenClear g p hpc hg =>
    obtain rfl := Pc.polling.inj hf
    rw [if_neg (by simp [Event.onClone])]
    refine h g hpc ?_
    rcases hg with ⟨hg,rfl⟩ | ⟨hg,rfl⟩
    · simp at hp
    · exact .inl hg
  | readyOk hpc =>
    obtain rfl := Pc.polling.inj hf
    exact if_pos rfl
  | call hpc =>
    obtain rfl := Pc.polling.inj hf
    simp at hp
  | _ => simp [State.goto, State.suspend] at hf

theorem primed_of_run (hmax : 0 < max) (hd : request.definition.WellFormed)
    (h : (execute max request).run t = some s) : Primed t s := by
  refine Machine.invariant (P := Primed) (M := execute max request) ?_ ?_ h
  · intro f hf
    rw [show (execute max request).start = (initial request : State I J O E) from rfl] at hf
    unfold initial at hf
    split at hf <;> simp at hf
  · intro t s e s' hr hp he
    exact hp.step (sound_of_run hmax hd hr).shape (executeStep_transition he)

end Clone

section Settlements
variable {t : List (Event O E)}

lemma mem_results_ok {k : StepId} {o : O} :
    (k,(.ok o : Except E O)) ∈ results t ↔ .pollCall k (.settled (.ok o)) ∈ t := by
  rw [results,List.mem_filterMap]
  constructor
  · rintro ⟨e,he,hr⟩
    cases e with
    | pollReady id a => cases a <;> simp [Event.result] at hr
    | pollCall id a =>
      cases a with
      | pending => simp [Event.result] at hr
      | settled r =>
        simp only [Event.result, Option.some.injEq, Prod.mk.injEq] at hr
        obtain ⟨rfl,rfl⟩ := hr
        exact he
    | _ => simp [Event.result] at hr
  · exact fun h => ⟨_,h,rfl⟩

lemma mem_results_error {k : StepId} {e : E} : (k,(.error e : Except E O)) ∈ results t ↔
    .pollCall k (.settled (.error e)) ∈ t ∨ .pollReady k (.err e) ∈ t := by
  rw [results,List.mem_filterMap]
  constructor
  · rintro ⟨v,hv,hr⟩
    cases v with
    | pollReady id a =>
      cases a with
      | err e' =>
        simp only [Event.result, Option.some.injEq, Prod.mk.injEq, Except.error.injEq] at hr
        obtain ⟨rfl,rfl⟩ := hr
        exact .inr hv
      | _ => simp [Event.result] at hr
    | pollCall id a =>
      cases a with
      | pending => simp [Event.result] at hr
      | settled r =>
        simp only [Event.result, Option.some.injEq, Prod.mk.injEq] at hr
        obtain ⟨rfl,rfl⟩ := hr
        exact .inl hv
    | _ => simp [Event.result] at hr
  · rintro (h | h)
    · exact ⟨_,h,rfl⟩
    · exact ⟨_,h,rfl⟩

/-- The steps whose dispatch is over: called and settled, refused readiness, or dropped. -/
def settlements (t : List (Event O E)) : List StepId := losses t ++ (results t).map Prod.fst

end Settlements

/-- The promises about calls, for a trace and the state it leads to. -/
structure CallSafety (max : ℕ) (request : WorkflowRequest I J) (t : List (Event O E))
    (s : State I J O E) : Prop where
  /-- Each step is called at most once. -/
  once : (calls t).Nodup
  /-- A call comes after its needs have settled, and carries exactly their outputs. -/
  justified : ∀ before id after, t = before ++ .call id::after →
    ∃ m f step, (execute max request).run before = some m ∧ m.pc = .polling f ∧ f.id = id ∧
      request.definition.step id = some step ∧
      (∀ k, k ∈ f.call.dependencies ↔ k ∈ step.needs) ∧
      ∀ k ∈ step.needs, ∃ o, .pollCall k (.settled (.ok o)) ∈ before ∧
        f.call.dependencies[k]? = some o
  /-- The admitted steps that have not settled stay within the bound. -/
  bounded : ((admissions t).filter (fun id => decide (id ∉ settlements t))).length ≤ max
  /-- After a stop reason, or after a step saw its token cancelled, no call is begun. -/
  halted : s.stopReason.isSome ∨ (∃ id, .readToken id true ∈ t) →
    ∀ u s', (execute max request).runFrom s u = some s' → calls u = []
  /-- What the clone of a called step was last used for is a successful readiness check. -/
  ready : ∀ before id after, t = before ++ .call id::after →
    lastOnClone id before = some (.pollReady id .ok)

section Proofs
variable {max : ℕ} {request : WorkflowRequest I J} {t : List (Event O E)} {s : State I J O E}

omit t s in
lemma callResults_sublist (t : List (Event O E)) : (callResults t).Sublist (results t) := by
  induction t with
  | nil => exact .slnil
  | cons e t ih =>
    have hall : ∀ r, e.callResult = some r → e.result = some r := by
      intro r hr
      cases e with
      | pollCall id a => cases a <;> exact hr
      | _ => simp [Event.callResult] at hr
    rw [callResults,results,List.filterMap_cons,List.filterMap_cons]
    cases hc : e.callResult with
    | some r =>
      rw [hall r hc]
      exact ih.cons_cons r
    | none =>
      cases hr : e.result with
      | none => exact ih
      | some r => exact ih.cons r

/-- Calls are admissions, so none is made twice. -/
lemma Sound.calls_nodup (h : Sound max request t s) : (calls t).Nodup := by
  rw [←Multiset.coe_nodup]
  refine Multiset.nodup_of_le ?_ (Multiset.coe_nodup.mpr h.nodup)
  rw [h.ledger.begun,h.ledger.admitted]
  refine add_le_add ?_ ?_
  · exact (Multiset.map_le_map (Multiset.filter_le _ _)).trans (Multiset.le_add_right _ _)
  · exact Multiset.coe_le.mpr ((callResults_sublist t).map _).subperm

/-- What is admitted and not settled is in the crew. -/
lemma Sound.unsettled_le (h : Sound max request t s) :
    ((admissions t).filter (fun id => decide (id ∉ settlements t))).length ≤ max := by
  have hcrew : s.crew.card ≤ max := by
    refine le_trans ?_ h.shape.room
    rw [State.crew,Multiset.card_add,Multiset.coe_card,add_comm]
    refine Nat.add_le_add_left ?_ _
    cases s.pc <;> simp [Pc.flights, Pc.places]
  refine le_trans ?_ hcrew
  have hset : ∀ x ∈ (losses t : Multiset StepId) + ((results t).map Prod.fst : List StepId),
      ¬ x ∉ settlements t := by
    intro x hx
    rw [not_not,settlements,List.mem_append]
    exact (Multiset.mem_add.mp hx).imp id id
  calc ((admissions t).filter (fun id => decide (id ∉ settlements t))).length
      = ((admissions t : Multiset StepId).filter (fun id => id ∉ settlements t)).card := by
        rw [Multiset.filter_coe,Multiset.coe_card]
    _ = (s.crewIds.filter (fun id => id ∉ settlements t)).card := by
        rw [h.ledger.admitted,add_assoc,Multiset.filter_add,
          Multiset.filter_eq_nil.mpr hset,add_zero]
    _ ≤ s.crewIds.card := Multiset.card_le_card (Multiset.filter_le _ _)
    _ = s.crew.card := Multiset.card_map _ _

/-- The state in which a call is begun. -/
lemma call_state {before after : List (Event O E)} {id : StepId}
    (h : (execute max request).run (before ++ .call id::after) = some s) :
    ∃ m f, (execute max request).run before = some m ∧ m.pc = .polling f ∧ f.id = id ∧
      f.phase = .checked := by
  obtain ⟨m,m',hm,he,-⟩ := Machine.run_step_of_split h
  have he : executeStep max request m (.call id) = some m' := he
  simp only [executeStep] at he
  split at he
  · next f hpc =>
    simp only [flightStep] at he
    split at he
    · next hid => exact ⟨m,f,hm,hpc,hid.1.symm,hid.2⟩
    · cases he
  · cases he

/-- The runner keeps its promises about calls after every trace, whatever the dispatcher, the
caller and the clock do. -/
theorem execute_callSafety {id version : String} {specs : List (StepSpec J)}
    (hc : compile id version specs = .ok (.ok request.definition)) (hmax : 0 < max)
    (h : (execute max request).run t = some s) : CallSafety max request t s := by
  have hd := (compile_wellFormed hc).1
  have hs := sound_of_run hmax hd h
  refine ⟨hs.calls_nodup,?_,hs.unsettled_le,?_,?_⟩
  · rintro before id after rfl
    obtain ⟨m,f,hm,hpc,hid,hp⟩ := call_state h
    have hsm := sound_of_run hmax hd hm
    obtain ⟨step,hstep⟩ := hsm.flights f (by rw [crew_polling hpc]; exact Multiset.mem_cons_self _ _)
    refine ⟨m,f,step,hm,hpc,hid,hid ▸ hstep.step_eq,fun k => ?_,fun k hk => ?_⟩
    · rw [ExtTreeMap.mem_iff_isSome_getElem?,hstep.dependencies_eq k]
      constructor
      · intro hsome
        by_contra hk
        simp [hk] at hsome
      · intro hk
        rw [if_pos hk]
        exact ExtTreeMap.mem_iff_isSome_getElem?.mp (hstep.needs_done k hk)
    · obtain ⟨o,ho⟩ := Option.isSome_iff_exists.mp
        (ExtTreeMap.mem_iff_isSome_getElem?.mp (hstep.needs_done k hk))
      refine ⟨o,mem_results_ok.mp (hsm.result_of_output ho),?_⟩
      rw [hstep.dependencies_eq k,if_pos hk,ho]
  · rintro hh u s' hu
    refine Halting.no_call hmax hd (hh.imp_right ?_) hs hu
    rintro ⟨id,hid⟩ hl
    have : id ∈ losses t := List.mem_filterMap.mpr ⟨_,hid,rfl⟩
    simp [hl] at this
  · rintro before id after rfl
    obtain ⟨m,f,hm,hpc,rfl,hp⟩ := call_state h
    exact primed_of_run hmax hd hm f hpc (.inr hp)

end Proofs

section Sample

/-- A workflow in which `review` needs `draft`. -/
def sampleSpecs : List (StepSpec ℕ) := [⟨"draft",[],1⟩,⟨"review",["draft"],2⟩]

def sampleRequest (d : WorkflowDefinition ℕ) : WorkflowRequest Unit ℕ :=
  ⟨⟨⟨"run",by decide⟩,none⟩,d,()⟩

def draft : StepId := ⟨"draft",by decide⟩
def review : StepId := ⟨"review",by decide⟩

/-- One step admitted, called and settled, from the admission check to the record. -/
def sampleTurn (id : StepId) (output : ℕ) : List (Event ℕ String) :=
  [.advance,.advance,.admitStep id,.advance,.advance,.advance,.advance,.advance,.poll 0,
    .readToken id false,.pollReady id .ok,.readToken id false,.call id,
    .pollCall id (.settled (.ok output)),.advance]

/-- A whole run of the sample workflow, one step after the other. -/
def sampleTrace : List (Event ℕ String) :=
  [.advance,.advance] ++ sampleTurn draft 1 ++ sampleTurn review 3 ++
    [.advance,.advance,.advance,.advance]

lemma sample_run : ∃ d s r, compile "article" "1" sampleSpecs = .ok (.ok d) ∧
    (execute 2 (sampleRequest d)).run sampleTrace = some s ∧ s.pc = .finished r := by
  have h : ((accepted "article" "1" sampleSpecs).bind (fun d =>
      ((execute 2 (sampleRequest d)).run sampleTrace).bind (fun s =>
        match s.pc with
        | .finished _ => some ()
        | _ => none))).isSome = true := by decide +kernel
  obtain ⟨u,hu⟩ := Option.isSome_iff_exists.mp h
  obtain ⟨d,hd,hu⟩ := Option.bind_eq_some_iff.mp hu
  obtain ⟨s,hs,hu⟩ := Option.bind_eq_some_iff.mp hu
  split at hu
  · next r hr => exact ⟨d,s,r,accepted_eq_some.mp hd,hs,hr⟩
  · cases hu

theorem execute_callSafety_sample : ∃ d s, compile "article" "1" sampleSpecs = .ok (.ok d) ∧
    (execute 2 (sampleRequest d)).run sampleTrace = some s ∧
    CallSafety 2 (sampleRequest d) sampleTrace s := by
  obtain ⟨d,s,r,hd,hs,-⟩ := sample_run
  exact ⟨d,s,hd,hs,execute_callSafety hd (by decide) hs⟩

end Sample
end TowerAgent.Workflow
