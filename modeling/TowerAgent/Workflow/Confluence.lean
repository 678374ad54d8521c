import TowerAgent.Workflow.Outcome
import Mathlib.Algebra.BigOperators.Group.Multiset.Basic

/-! Confluence: with a dispatcher that is a function and nothing that stops the run, every schedule
ends in the outputs of evaluating the steps one after another in topological order. -/
namespace TowerAgent.Workflow
open Lib Lib.Digraph
open Std (ExtTreeMap ExtTreeSet)

variable {I J O E : Type}

section Sequential
variable (f : StepId → J → I → ExtTreeMap StepId O → O) (request : WorkflowRequest I J)

/-- Evaluate the listed steps in turn, from the outputs so far. -/
def evaluateFrom : ExtTreeMap StepId O → List StepId → Panics (ExtTreeMap StepId O)
  | outputs,[] => .ok outputs
  | outputs,id::ids =>
    match request.definition.step id with
    | none => .error (.expect "listed step must exist")
    | some step => do
      let dependencies ← gather "listed step must come after its needs" outputs step.needs
      evaluateFrom (outputs.insert id (f id step.job request.input dependencies)) ids

/-- Evaluate the workflow sequentially in its topological order. -/
def evaluate : Panics (ExtTreeMap StepId O) :=
  evaluateFrom f request ∅ request.definition.topologicalOrder

/-- An output that is the function's value on the outputs of the step's needs. -/
structure Produced (outputs : ExtTreeMap StepId O) (k : StepId) (o : O)
    (step : StepDefinition J) (dependencies : ExtTreeMap StepId O) : Prop where
  step_eq : request.definition.step k = some step
  needs_done : ∀ n ∈ step.needs, n ∈ outputs
  dependencies_eq : ∀ n : StepId, dependencies[n]? = if n ∈ step.needs then outputs[n]? else none
  value : o = f k step.job request.input dependencies

/-- Every output is produced from the others. -/
def Consistent (outputs : ExtTreeMap StepId O) : Prop :=
  ∀ (k : StepId) (o : O), outputs[k]? = some o →
    ∃ step dependencies, Produced f request outputs k o step dependencies

variable {f request}

lemma Produced.insert {outputs : ExtTreeMap StepId O} {k : StepId} {o : O}
    {step : StepDefinition J} {dependencies : ExtTreeMap StepId O}
    (h : Produced f request outputs k o step dependencies) {id : StepId} (hid : id ∉ outputs)
    (v : O) : Produced f request (outputs.insert id v) k o step dependencies := by
  refine { h with needs_done := fun n hn => ?_, dependencies_eq := fun n => ?_ }
  · exact ExtTreeMap.mem_insert.mpr (.inr (h.needs_done n hn))
  · rw [h.dependencies_eq n]
    split
    · next hn =>
      have hne : id ≠ n := fun he => hid (he ▸ h.needs_done n hn)
      rw [getElem?_insert_eq,if_neg hne]
    · rfl

lemma Consistent.insert {outputs : ExtTreeMap StepId O} (h : Consistent f request outputs)
    {id : StepId} (hid : id ∉ outputs) {v : O} {step : StepDefinition J}
    {dependencies : ExtTreeMap StepId O}
    (hv : Produced f request outputs id v step dependencies) :
    Consistent f request (outputs.insert id v) := by
  intro k o hk
  rw [getElem?_insert_eq] at hk
  split at hk
  · next he =>
    subst he
    obtain rfl := Option.some.inj hk
    exact ⟨step,dependencies,hv.insert hid v⟩
  · obtain ⟨s,d,hp⟩ := h k o hk
    exact ⟨s,d,hp.insert hid v⟩

/-- Two consistent sets of outputs of all steps are the same. -/
theorem Consistent.unique (hd : request.definition.WellFormed) {m₁ m₂ : ExtTreeMap StepId O}
    (h₁ : Consistent f request m₁) (h₂ : Consistent f request m₂)
    (hk₁ : ∀ k, k ∈ m₁ ↔ k ∈ request.definition.steps)
    (hk₂ : ∀ k, k ∈ m₂ ↔ k ∈ request.definition.steps) : m₁ = m₂ := by
  have agree : ∀ x ∈ request.definition.topologicalOrder, m₁[x]? = m₂[x]? := by
    refine hd.ordered.induction fun x ih => ?_
    by_cases hx : x ∈ request.definition.steps
    · obtain ⟨o₁,ho₁⟩ := Option.isSome_iff_exists.mp
        (ExtTreeMap.mem_iff_isSome_getElem?.mp ((hk₁ x).mpr hx))
      obtain ⟨o₂,ho₂⟩ := Option.isSome_iff_exists.mp
        (ExtTreeMap.mem_iff_isSome_getElem?.mp ((hk₂ x).mpr hx))
      obtain ⟨s₁,d₁,hp₁⟩ := h₁ x o₁ ho₁
      obtain ⟨s₂,d₂,hp₂⟩ := h₂ x o₂ ho₂
      obtain rfl := Option.some.inj (hp₁.step_eq.symm.trans hp₂.step_eq)
      -- Both read the same outputs of the needs, on which the maps agree.
      have hdeps : d₁ = d₂ := by
        refine ExtTreeMap.ext_getElem? fun n => ?_
        rw [hp₁.dependencies_eq,hp₂.dependencies_eq]
        split
        · next hn => exact ih n (by rwa [Needs,needsOf_eq hp₁.step_eq])
        · rfl
      rw [ho₁,ho₂,hp₁.value,hp₂.value,hdeps]
    · rw [ExtTreeMap.getElem?_eq_none (mt (hk₁ x).mp hx),
        ExtTreeMap.getElem?_eq_none (mt (hk₂ x).mp hx)]
  refine ExtTreeMap.ext_getElem? fun x => ?_
  by_cases hx : x ∈ request.definition.steps
  · exact agree x ((hd.mem_iff x).mpr hx)
  · rw [ExtTreeMap.getElem?_eq_none (mt (hk₁ x).mp hx),
      ExtTreeMap.getElem?_eq_none (mt (hk₂ x).mp hx)]

lemma evaluateFrom_spec (hd : request.definition.WellFormed) {l before : List StepId}
    (hl : request.definition.topologicalOrder = before ++ l) {outputs : ExtTreeMap StepId O}
    (hk : ∀ k, k ∈ outputs ↔ k ∈ before) (hc : Consistent f request outputs) :
    ∃ m, evaluateFrom f request outputs l = .ok m ∧ Consistent f request m ∧
      ∀ k, k ∈ m ↔ k ∈ before ++ l := by
  induction l generalizing before outputs with
  | nil => exact ⟨outputs,rfl,hc,by simpa using hk⟩
  | cons id ids ih =>
    have hnodup : (before ++ id::ids).Nodup := hl ▸ hd.nodup
    have hnew : id ∉ outputs := by
      rw [hk]
      exact fun hb => (List.nodup_append.mp hnodup).2.2 id hb id List.mem_cons_self rfl
    have hid : id ∈ request.definition.steps := (hd.mem_iff id).mp (by rw [hl]; simp)
    obtain ⟨step,hstep⟩ := Option.isSome_iff_exists.mp
      (ExtTreeMap.mem_iff_isSome_getElem?.mp hid)
    have hneeds : ∀ n ∈ step.needs, n ∈ outputs := by
      intro n hn
      rw [hk]
      exact hd.ordered before id ids hl n (by rwa [Needs,needsOf_eq hstep])
    obtain ⟨deps,hdeps,hlook⟩ := gather_eq_ok "listed step must come after its needs" hneeds
    have hstep' : request.definition.step id = some step := hstep
    have hl' : request.definition.topologicalOrder = before ++ [id] ++ ids := by rw [hl]; simp
    have hk' : ∀ k, k ∈ outputs.insert id (f id step.job request.input deps) ↔
        k ∈ before ++ [id] := by
      intro k
      rw [ExtTreeMap.mem_insert,compare_eq_iff_eq,hk,List.mem_append,List.mem_singleton,or_comm,
        eq_comm]
    obtain ⟨m,hm,hcm,hkm⟩ := ih hl' hk' (hc.insert hnew ⟨hstep',hneeds,hlook,rfl⟩)
    refine ⟨m,?_,hcm,fun k => by rw [hkm]; simp⟩
    simp only [evaluateFrom, hstep', hdeps, bind, Except.bind]
    exact hm

/-- Sequential evaluation succeeds, and is the consistent set of outputs of all steps. -/
theorem evaluate_spec (hd : request.definition.WellFormed) :
    ∃ m, evaluate f request = .ok m ∧ Consistent f request m ∧
      ∀ k, k ∈ m ↔ k ∈ request.definition.steps := by
  have hk : ∀ k : StepId, k ∈ (∅ : ExtTreeMap StepId O) ↔ k ∈ [] := by simp
  have hc : Consistent f request ∅ := fun k o h => by simp at h
  obtain ⟨m,hm,hc,hk⟩ := evaluateFrom_spec hd (List.nil_append _).symm hk hc
  exact ⟨m,hm,hc,fun k => by rw [hk,List.nil_append,hd.mem_iff]⟩

end Sequential

/-- The events in which the run only waits: time, a `Pending` answer, a sleeping task. -/
def Event.idle : Event O E → Bool
  | .cancelCaller | .cancelReturned | .tick _ | .park => true
  | .pollReady _ .pending | .pollCall _ .pending => true
  | _ => false

/-- A trace in which nobody cancels, readiness is never refused, and every call settles with the
function's value on what it was called with. -/
structure Obedient (f : StepId → J → I → ExtTreeMap StepId O → O) (max : ℕ)
    (request : WorkflowRequest I J) (t : List (Event O E)) : Prop where
  not_cancelled : .cancelCaller ∉ t
  ready : ∀ id error, .pollReady id (.err error) ∉ t
  answers : ∀ before id result after, t = before ++ .pollCall id (.settled result)::after →
    ∀ m flight, (execute max request).run before = some m → m.pc = .polling flight →
      result = .ok (f id flight.call.job flight.call.input flight.call.dependencies)

section Runs
variable {f : StepId → J → I → ExtTreeMap StepId O → O} {max : ℕ} {request : WorkflowRequest I J}
  {t : List (Event O E)} {e : Event O E} {s s' : State I J O E}

lemma Obedient.prefix (h : Obedient f max request (t ++ [e])) : Obedient f max request t := by
  refine ⟨fun hm => h.not_cancelled (List.mem_append_left _ hm),
    fun id error hm => h.ready id error (List.mem_append_left _ hm),
    fun before id result after ht => h.answers before id result (after ++ [e]) ?_⟩
  rw [ht,List.append_assoc,List.cons_append]

/-- The dataflow invariant of an undisturbed run. -/
structure Flowing (f : StepId → J → I → ExtTreeMap StepId O → O) (request : WorkflowRequest I J)
    (s : State I J O E) : Prop where
  running : s.stopReason = none
  uncancelled : s.callerCancelled = false ∧ s.cancelReturned = false
  consistent : Consistent f request s.outputs
  arriving : ∀ id settlement, s.pc = .settle id settlement → ∃ o step dependencies,
    settlement = .settled (.ok o) ∧ Produced f request s.outputs id o step dependencies

lemma Flowing.step (hdl : request.context.deadline = none) (hs : Sound max request t s)
    (hr : (execute max request).run t = some s) (ho : Obedient f max request (t ++ [e]))
    (hab : ∀ p, ¬ Aborts request s p) (h : Flowing f request s)
    (ht : Transition max request s e s') : Flowing f request s' := by
  have hexp : expired request s = false := by simp [expired, hdl]
  have hrun : s.runCancelled = false := by rw [hs.shape.cancelled,h.running]; rfl
  cases ht with
  | outside he hc hk hret =>
    have hne : e ≠ .cancelCaller := by
      rintro rfl
      exact ho.not_cancelled (by simp)
    refine ⟨h.running,⟨(hk hne).trans h.uncancelled.1,?_⟩,h.consistent,h.arriving⟩
    rw [Bool.eq_false_iff]
    intro hr'
    rcases hret hr' with hr' | hr'
    · simp [h.uncancelled.2] at hr'
    · simp [h.uncancelled.1] at hr'
  | control hc =>
    refine ⟨h.running,h.uncancelled,h.consistent,fun id settlement hpc => ?_⟩
    cases hc <;> simp [State.goto] at hpc
  | latch hl =>
    exfalso
    have hcc := h.uncancelled.1
    cases hl <;> simp_all
  | abort ha => exact absurd ha (hab _)
  | finish => exact ⟨h.running,h.uncancelled,h.consistent,by simp [State.goto]⟩
  | record hpc hrec =>
    obtain ⟨o,step,deps,rfl,hp⟩ := h.arriving _ _ hpc
    have hfresh := (hs.fresh hpc).1
    cases hrec with
    | succeeded =>
      exact ⟨h.running,h.uncancelled,h.consistent.insert hfresh hp,by simp [State.goto]⟩
    | drained hst => simp [h.running] at hst
  | admitStep => exact ⟨h.running,h.uncancelled,h.consistent,by simp⟩
  | poll => exact ⟨h.running,h.uncancelled,h.consistent,by simp⟩
  | tokenSeen _ _ hc => simp [h.uncancelled.1, hrun] at hc
  | readyErr => exact absurd (List.mem_append_right _ List.mem_cons_self) (ho.ready _ _)
  | @callSettled g result hpc =>
    refine ⟨h.running,h.uncancelled,h.consistent,fun id settlement hst => ?_⟩
    obtain ⟨rfl,rfl⟩ := Pc.settle.inj hst
    obtain ⟨step,hcall⟩ := hs.flights g (by rw [crew_polling hpc]; exact Multiset.mem_cons_self _ _)
    have hv := ho.answers t g.id result [] rfl s g hr hpc
    refine ⟨_,step,g.call.dependencies,by rw [hv],hcall.step_eq,hcall.needs_done,
      hcall.dependencies_eq,?_⟩
    rw [hcall.job_eq,hcall.input_eq]
  | _ => exact ⟨h.running,h.uncancelled,h.consistent,by simp [State.goto, State.suspend]⟩

/-- The dataflow invariant holds along every undisturbed run. -/
theorem flowing_of_run (hmax : 0 < max) (hd : request.definition.WellFormed)
    (hdl : request.context.deadline = none) (hr : (execute max request).run t = some s)
    (ho : Obedient f max request t) : Flowing f request s := by
  refine Machine.invariant (P := fun t s => Obedient f max request t → Flowing f request s)
    ?_ ?_ hr ho
  · intro _
    obtain ⟨o,hso,-⟩ := successorTable_spec hd.well
    have hi : ((execute max request).start : State I J O E) = ⟨false,false,0,false,
        needCounts request.definition.steps,o,zeroCounts (needCounts request.definition.steps),[],
        ∅,[],none,.start⟩ := by
      simp only [execute, initial, hso]
    rw [hi]
    exact ⟨rfl,⟨rfl,rfl⟩,fun k o h => by simp at h,by simp⟩
  · intro t s e s' ht hp he ho
    have hs := sound_of_run hmax hd ht
    exact (hp ho.prefix).step hdl hs ht ho (hs.no_abort hmax hd) (executeStep_transition he)

lemma Obedient.concat (h : Obedient f max request t) (hc : e ≠ .cancelCaller)
    (hr : ∀ id error, e ≠ .pollReady id (.err error))
    (hv : ∀ id result m flight, e = .pollCall id (.settled result) →
      (execute max request).run t = some m → m.pc = .polling flight →
      result = .ok (f id flight.call.job flight.call.input flight.call.dependencies)) :
    Obedient f max request (t ++ [e]) := by
  refine ⟨?_,?_,?_⟩
  · intro hm
    rcases List.mem_append.mp hm with hm | hm
    · exact h.not_cancelled hm
    · exact hc (List.mem_singleton.mp hm).symm
  · intro id error hm
    rcases List.mem_append.mp hm with hm | hm
    · exact h.ready id error hm
    · exact hr id error (List.mem_singleton.mp hm).symm
  · intro before id result after he m flight hm hpc
    rcases List.eq_nil_or_concat after with rfl | ⟨after',w,rfl⟩
    · obtain ⟨rfl,hlast⟩ := List.append_inj' he rfl
      exact hv id result m flight (List.cons.inj hlast).1 hm hpc
    · rw [List.concat_eq_append,←List.cons_append,←List.append_assoc] at he
      exact h.answers before id result after' (List.append_inj_left' he rfl) m flight hm hpc

/-- An undisturbed run is never stuck: until it returns, some step other than waiting is open, for
any answer the dispatcher's function may give. -/
theorem Obedient.progress (hmax : 0 < max) (hd : request.definition.WellFormed)
    (hdl : request.context.deadline = none) (hr : (execute max request).run t = some s)
    (ho : Obedient f max request t) (hfin : ∀ r, s.pc ≠ .finished r) :
    ∃ e s', e.idle = false ∧ (execute max request).step s e = some s' ∧
      Obedient f max request (t ++ [e]) := by
  have hs := sound_of_run hmax hd hr
  have hfl := flowing_of_run hmax hd hdl hr ho
  have hrun : s.runCancelled = false := by rw [hs.shape.cancelled,hfl.running]; rfl
  have loop : (advance max request s).isSome → ∃ e s', e.idle = false ∧
      (execute max request).step s e = some s' ∧ Obedient f max request (t ++ [e]) := by
    intro h
    obtain ⟨s',h⟩ := Option.isSome_iff_exists.mp h
    exact ⟨.advance,s',rfl,h,ho.concat (by simp) (by simp) (by simp)⟩
  cases hpc : s.pc with
  | finished r => exact absurd hpc (hfin r)
  | panicked p => exact absurd hpc (not_panicked hmax hd hr p)
  | admitPop =>
    cases hp : popFirst s.ready with
    | none => exact loop (by simp only [advance, hpc, hp]; rfl)
    | some q =>
      obtain ⟨id,ready⟩ := q
      have hadmit : (admitStep request s id).isSome := by
        simp only [admitStep, hpc, hp, if_true]
        rfl
      obtain ⟨s',h⟩ := Option.isSome_iff_exists.mp hadmit
      exact ⟨.admitStep id,s',rfl,h,ho.concat (by simp) (by simp) (by simp)⟩
  | awaitDeadline =>
    refine ⟨.timer false,s.goto .drive,rfl,?_,ho.concat (by simp) (by simp) (by simp)⟩
    simp [execute, executeStep, timer, hpc]
  | drive =>
    have hne := hs.shape.working (by rw [hpc]; rfl)
    obtain ⟨g,l,hl⟩ := List.exists_cons_of_ne_nil hne
    refine ⟨.poll 0,{ s with inFlight := s.inFlight.eraseIdx 0, pc := .polling g },rfl,?_,
      ho.concat (by simp) (by simp) (by simp)⟩
    simp [execute, executeStep, poll, hpc, hl]
  | polling g =>
    cases hph : g.phase with
    | select =>
      refine ⟨.readToken g.id false,s.goto (.polling { g with phase := .selectReady }),rfl,?_,
        ho.concat (by simp) (by simp) (by simp)⟩
      simp [execute, executeStep, hpc, flightStep, tokenMayRead, hph, hrun, hfl.uncancelled.2]
    | selectReady =>
      refine ⟨.pollReady g.id .ok,s.goto (.polling { g with phase := .readied }),rfl,?_,
        ho.concat (by simp) (by simp) (by simp)⟩
      simp [execute, executeStep, hpc, flightStep, hph]
    | readied =>
      refine ⟨.readToken g.id false,s.goto (.polling { g with phase := .checked }),rfl,?_,
        ho.concat (by simp) (by simp) (by simp)⟩
      simp [execute, executeStep, hpc, flightStep, tokenMayRead, hph, hrun, hfl.uncancelled.2]
    | checked =>
      refine ⟨.call g.id,s.goto (.polling { g with phase := .calling }),rfl,?_,
        ho.concat (by simp) (by simp) (by simp)⟩
      simp [execute, executeStep, hpc, flightStep, hph]
    | calling =>
      let v := f g.id g.call.job g.call.input g.call.dependencies
      refine ⟨.pollCall g.id (.settled (.ok v)),s.goto (.settle g.id (.settled (.ok v))),rfl,?_,
        ho.concat (by simp) (by simp) ?_⟩
      · simp [execute, executeStep, hpc, flightStep, hph]
      · intro id result m flight he hm hpcm
        obtain rfl : s = m := Option.some.inj (hr.symm.trans hm)
        obtain rfl := Pc.polling.inj (hpc.symm.trans hpcm)
        obtain ⟨rfl,hres⟩ := Event.pollCall.inj he
        exact (CallPoll.settled.inj hres).symm
  | start | startDeadline | admitDeadline | gate =>
    exact loop (by simp only [advance, hpc]; split <;> rfl)
  | admitStep => exact loop (by simp only [advance, hpc]; split <;> [split; skip] <;> rfl)
  | await => exact loop (by simp [advance, hpc, hfl.running, hfl.uncancelled.1, hdl])
  | settle id settlement => exact loop (by simp only [advance, hpc]; rfl)

/-- How far a point of the loop is from the next admission or poll. -/
def Pc.weight : Pc I J O E → ℕ
  | .start => 8
  | .startDeadline => 7
  | .settle _ _ => 7
  | .admitStep => 6
  | .admitDeadline => 5
  | .admitPop => 4
  | .gate => 3
  | .await => 2
  | .awaitDeadline => 2
  | .drive => 1
  | .polling _ => 0
  | .finished _ => 0
  | .panicked _ => 0

/-- How far a flight is from settling. -/
def Phase.weight : Phase → ℕ
  | .select => 12
  | .selectReady => 11
  | .readied => 10
  | .checked => 9
  | .calling => 8

/-- What an undisturbed run has left to do, `Pending` answers apart. -/
def workLeft (request : WorkflowRequest I J) (t : List (Event O E)) (s : State I J O E) : ℕ :=
  15*(request.definition.steps.size - (admissions t).length) +
    (s.crew.map (fun f => f.phase.weight)).sum + s.pc.weight

lemma workLeft_of_not_admitted {request : WorkflowRequest I J} (he : e.admission = none) :
    workLeft request (t ++ [e]) s' =
      15*(request.definition.steps.size - (admissions t).length) +
        (s'.crew.map (fun f => f.phase.weight)).sum + s'.pc.weight := by
  rw [workLeft,admissions_concat,he,Option.toList_none,List.append_nil]

lemma Sound.admissions_length_le (h : Sound max request t s) :
    (admissions t).length ≤ request.definition.steps.size := by
  rw [size_eq_card_keys,←List.toFinset_card_of_nodup h.nodup]
  refine Finset.card_le_card fun x hx => ?_
  rw [List.mem_toFinset] at hx ⊢
  exact ExtTreeMap.mem_keys.mpr (h.known x hx)

/-- Waiting adds at most two to the work left; every other step of an undisturbed run takes some
of it away. -/
lemma workLeft_step (hs : Sound max request t s) (hs' : Sound max request (t ++ [e]) s')
    (hfl : Flowing f request s) (hdl : request.context.deadline = none)
    (hab : ∀ p, ¬ Aborts request s p) (ht : Transition max request s e s') :
    (e.idle = true → workLeft request (t ++ [e]) s' ≤ workLeft request t s + 2) ∧
      (e.idle = false → workLeft request (t ++ [e]) s' < workLeft request t s) := by
  have hexp : expired request s = false := by simp [expired, hdl]
  have hcc := hfl.uncancelled.1
  have hrun : s.runCancelled = false := by rw [hs.shape.cancelled,hfl.running]; rfl
  -- The flight being polled is counted at its phase.
  have crew : ∀ g : Flight I J O, s.pc = .polling g →
      workLeft request t s = 15*(request.definition.steps.size - (admissions t).length) +
        (g.phase.weight + ((s.inFlight : Multiset (Flight I J O)).map (fun f => f.phase.weight)).sum)
        := by
    intro g hpc
    rw [workLeft,crew_polling hpc,Multiset.map_cons,Multiset.sum_cons,hpc,Pc.weight,add_zero]
  cases ht with
  | outside he =>
    have hadm : e.admission = none := by cases e <;> first | rfl | cases he
    have hidle : e.idle = true := by cases e <;> first | rfl | cases he
    rw [workLeft_of_not_admitted hadm,hidle]
    exact ⟨fun _ => Nat.le_add_right _ _,by simp⟩
  | @control _ pc hc =>
    obtain ⟨-,h1,h2,-⟩ := hc.grounded
    have hadm : e.admission = none := by cases hc <;> rfl
    rw [workLeft_of_not_admitted hadm]
    have hcrew : (s.goto pc).crew = s.crew := by simp [State.crew, State.goto, h1, h2]
    rw [hcrew,workLeft]
    cases hc <;> simp_all [Event.idle, State.goto, Pc.weight]
  | latch hl => cases hl <;> simp_all
  | abort ha => exact absurd ha (hab _)
  | finish hpc =>
    rw [workLeft_of_not_admitted rfl,workLeft]
    simp [Event.idle, State.crew, State.goto, hpc, Pc.flights, Pc.weight]
  | record hpc hr =>
    rw [workLeft_of_not_admitted rfl,workLeft]
    have hin := (hr.recorded (fun hne => by
      obtain ⟨o,step,deps,rfl,-⟩ := hfl.arriving _ _ hpc
      exact (hs.fresh hpc).1)).2
    simp [Event.idle, State.crew, State.goto, hpc, hin, Pc.flights, Pc.weight]
  | @admitStep id ready call hpc =>
    have hlen := hs'.admissions_length_le
    have hadm : admissions (t ++ [(.admitStep id : Event O E)]) = admissions t ++ [id] := by
      simp [admissions_concat, Event.admission]
    rw [hadm,List.length_append,List.length_singleton] at hlen
    rw [workLeft,workLeft,hadm,List.length_append,List.length_singleton]
    simp only [Event.idle, State.crew, hpc, Pc.flights, Pc.weight, Phase.weight, zero_add,
      ←Multiset.coe_add, Multiset.map_add, Multiset.sum_add, Multiset.coe_singleton,
      Multiset.map_singleton, Multiset.sum_singleton]
    refine ⟨by simp,fun _ => ?_⟩
    omega
  | @poll index g hpc hg =>
    obtain ⟨hlt,rfl⟩ := List.getElem?_eq_some_iff.mp hg
    rw [workLeft_of_not_admitted rfl,workLeft]
    have hcrew : State.crew { s with
        inFlight := s.inFlight.eraseIdx index, pc := .polling s.inFlight[index] } = s.crew := by
      rw [State.crew,State.crew,hpc]
      simp only [Pc.flights, Multiset.singleton_add, zero_add, Multiset.cons_coe]
      exact Multiset.coe_eq_coe.mpr (List.getElem_cons_eraseIdx_perm hlt)
    rw [hcrew,hpc]
    simp [Event.idle, Pc.weight]
  | tokenSeen _ _ hc => simp [hcc, hrun] at hc
  | @tokenClear g p hpc hp =>
    rw [workLeft_of_not_admitted rfl,crew g hpc]
    rcases hp with ⟨hp,rfl⟩ | ⟨hp,rfl⟩ <;>
      simp [Event.idle, State.crew, State.goto, Pc.flights, Pc.weight, hp, Phase.weight]
  | @readyPending g hpc hp =>
    rw [workLeft_of_not_admitted rfl,crew g hpc,crew_suspend]
    simp only [Event.idle, State.suspend, Pc.weight, hp, Phase.weight, Multiset.map_cons,
      Multiset.sum_cons]
    exact ⟨fun _ => by omega,by simp⟩
  | @readyOk g hpc hp =>
    rw [workLeft_of_not_admitted rfl,crew g hpc]
    simp [Event.idle, State.crew, State.goto, Pc.flights, Pc.weight, hp, Phase.weight]
  | @readyErr g error hpc hp =>
    rw [workLeft_of_not_admitted rfl,crew g hpc]
    simp only [Event.idle, State.crew, State.goto, Pc.flights, Pc.weight, hp, Phase.weight, zero_add]
    exact ⟨by simp,fun _ => by omega⟩
  | @call g hpc hp =>
    rw [workLeft_of_not_admitted rfl,crew g hpc]
    simp [Event.idle, State.crew, State.goto, Pc.flights, Pc.weight, hp, Phase.weight]
  | @callPending g hpc hp =>
    rw [workLeft_of_not_admitted rfl,crew g hpc,crew_suspend]
    simp only [Event.idle, State.suspend, Pc.weight, Multiset.map_cons, Multiset.sum_cons]
    exact ⟨fun _ => by omega,by simp⟩
  | @callSettled g result hpc hp =>
    rw [workLeft_of_not_admitted rfl,crew g hpc]
    simp only [Event.idle, State.crew, State.goto, Pc.flights, Pc.weight, hp, Phase.weight, zero_add]
    exact ⟨by simp,fun _ => by omega⟩

/-- With a dispatcher that is a function, and neither cancellation nor a deadline, every run ends in
the outputs of the sequential evaluation: what it returns is a success with these outputs and their
restriction to the leaves; until it returns it is never stuck; and it takes at most a fixed number
of steps besides waiting. -/
theorem execute_confluent {id version : String} {specs : List (StepSpec J)}
    (hc : compile id version specs = .ok (.ok request.definition)) (hmax : 0 < max)
    (hdl : request.context.deadline = none) (h : (execute max request).run t = some s)
    (ho : Obedient f max request t) :
    ∃ outputs, evaluate f request = .ok outputs ∧
      (∀ r, s.pc = .finished r → ∃ o, r = .ok o ∧ o.outputs = outputs ∧
        ∀ (k : StepId) (v : O), o.leafOutputs[k]? = some v ↔
          outputs[k]? = some v ∧ ∀ x, ¬ Needs request.definition.steps x k) ∧
      ((∀ r, s.pc ≠ .finished r) → ∃ e s', e.idle = false ∧
        (execute max request).step s e = some s' ∧ Obedient f max request (t ++ [e])) ∧
      t.countP (fun e => !e.idle) ≤
        15*request.definition.steps.size + 8 + 2*t.countP Event.idle := by
  have hd := (compile_wellFormed hc).1
  have hs := sound_of_run hmax hd h
  have hfl := flowing_of_run hmax hd hdl h ho
  obtain ⟨outputs,he,hcons,hkeys⟩ := evaluate_spec (f := f) hd
  refine ⟨outputs,he,?_,ho.progress hmax hd hdl h,?_⟩
  · intro r hpc
    obtain ⟨-,hcon,-⟩ := hs.at_end hpc
    obtain ⟨hmem,hsize⟩ := hs.complete hd hpc hfl.running
    obtain ⟨leafOutputs,hg,rfl⟩ := conclude_complete hfl.running hcon hsize
    have hout : s.outputs = outputs := hfl.consistent.unique hd hcons hmem hkeys
    refine ⟨_,rfl,hout,fun k v => ?_⟩
    rw [(gather_lookup hg).2 k,hout]
    constructor
    · intro hv
      split at hv
      · next hk => exact ⟨hv,((mem_leaves hd.well).mp hk).2⟩
      · cases hv
    · rintro ⟨hv,hno⟩
      have hk := (hkeys k).mp (ExtTreeMap.mem_iff_isSome_getElem?.mpr (by rw [hv]; rfl))
      rw [if_pos ((mem_leaves hd.well).mpr ⟨hk,hno⟩),hv]
  · have step : ∀ (t : List (Event O E)) s e s', Obedient f max request (t ++ [e]) →
        (execute max request).run t = some s → (execute max request).step s e = some s' →
        (e.idle = true → workLeft request (t ++ [e]) s' ≤ workLeft request t s + 2) ∧
          (e.idle = false → workLeft request (t ++ [e]) s' < workLeft request t s) := by
      intro t s e s' ho hr hstep
      have hs := sound_of_run hmax hd hr
      have ht := executeStep_transition hstep
      exact workLeft_step hs (hs.step hmax hd ht) (flowing_of_run hmax hd hdl hr ho.prefix) hdl
        (hs.no_abort hmax hd) ht
    have hbound := Machine.productive_bound (Obedient f max request) Event.idle (workLeft request) 2
      (fun t e => Obedient.prefix) (fun t s e s' ho hr he => (step t s e s' ho hr he).1)
      (fun t s e s' ho hr he => (step t s e s' ho hr he).2) h ho
    have hstart : workLeft request [] ((execute max request).start : State I J O E) =
        15*request.definition.steps.size + 8 := by
      obtain ⟨o,hso,-⟩ := successorTable_spec hd.well
      simp [execute, initial, hso, workLeft, admissions, State.crew, Pc.flights, Pc.weight]
    rw [hstart] at hbound
    omega

/-- Events that promise nothing about the dispatcher. -/
def Event.neutral : Event O E → Bool
  | .cancelCaller | .pollReady _ (.err _) | .pollCall _ (.settled _) => false
  | _ => true

lemma Obedient.neutral (h : Obedient f max request t) {u : List (Event O E)}
    (hu : u.all Event.neutral = true) : Obedient f max request (t ++ u) := by
  induction u generalizing t with
  | nil => simpa using h
  | cons e u ih =>
    simp only [List.all_cons, Bool.and_eq_true] at hu
    have he : Obedient f max request (t ++ [e]) := by
      refine h.concat ?_ ?_ ?_
      · rintro rfl; cases hu.1
      · rintro id error rfl; cases hu.1
      · rintro id result m flight rfl; cases hu.1
    simpa using ih he hu.2

lemma obedient_nil : Obedient f max request ([] : List (Event O E)) :=
  ⟨by simp,by simp,by simp⟩

end Runs

section Sample

/-- A dispatcher that adds the step's number to the number of its dependencies. -/
def sampleFunction (_ : StepId) (job : ℕ) (_ : Unit) (dependencies : ExtTreeMap StepId ℕ) : ℕ :=
  job + dependencies.size

/-- The first and the last part of a turn, around the settlement of its call. -/
def sampleTurnHead (id : StepId) : List (Event ℕ String) := (sampleTurn id 0).take 13

/-- The sample run is one of a dispatcher that computes the sample function. -/
lemma sample_obedient {d : WorkflowDefinition ℕ} (hd : accepted "article" "1" sampleSpecs = some d) :
    Obedient sampleFunction 2 (sampleRequest d) sampleTrace := by
  have answer : ∀ (t : List (Event ℕ String)) (id : StepId) (output : ℕ),
      ((accepted "article" "1" sampleSpecs).all (fun d =>
        ((execute 2 (sampleRequest d)).run t).all (fun m => ∀ g ∈ m.pc.flights,
          output = sampleFunction id g.call.job g.call.input g.call.dependencies))) = true →
      Obedient sampleFunction 2 (sampleRequest d) t →
      Obedient sampleFunction 2 (sampleRequest d) (t ++ [.pollCall id (.settled (.ok output))]) := by
    intro t id output h ho
    refine ho.concat (by simp) (by simp) ?_
    intro i r m g he hm hpc
    obtain ⟨rfl,hr⟩ := Event.pollCall.inj he
    obtain rfl := CallPoll.settled.inj hr
    simp only [hd, Option.all_some, hm, hpc, Pc.flights, Multiset.mem_singleton, forall_eq,
      decide_eq_true_eq] at h
    rw [h]
  have h₀ : Obedient sampleFunction 2 (sampleRequest d) ([] : List (Event ℕ String)) :=
    obedient_nil
  have h₁ := h₀.neutral (u := [.advance,.advance] ++ sampleTurnHead draft) (by decide)
  have h₂ := (answer _ draft 1 (by decide +kernel) h₁).neutral
    (u := [.advance] ++ sampleTurnHead review) (by decide)
  have h₃ := (answer _ review 3 (by decide +kernel) h₂).neutral
    (u := [.advance,.advance,.advance,.advance,.advance]) (by decide)
  exact h₃

theorem execute_confluent_sample : ∃ d s, compile "article" "1" sampleSpecs = .ok (.ok d) ∧
    (execute 2 (sampleRequest d)).run sampleTrace = some s ∧
    ∃ outputs o, evaluate sampleFunction (sampleRequest d) = .ok outputs ∧
      s.pc = .finished (.ok o) ∧ o.outputs = outputs := by
  obtain ⟨d,s,r,hd,hs,hpc⟩ := sample_run
  obtain ⟨outputs,he,hr,-⟩ := execute_confluent hd (by decide) rfl hs
    (sample_obedient (accepted_eq_some.mpr hd))
  obtain ⟨o,rfl,hout,-⟩ := hr r hpc
  exact ⟨d,s,hd,hs,outputs,o,he,hpc,hout⟩

end Sample
end TowerAgent.Workflow
