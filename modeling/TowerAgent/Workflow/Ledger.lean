import TowerAgent.Workflow.Transitions
import Mathlib.Algebra.Order.Group.Multiset
import Mathlib.Tactic.Abel

/-! The ledger of a run: every admission, call and settlement in the trace is accounted for in the
state, as equations between multisets. -/
namespace TowerAgent.Workflow
open Lib
open Std (ExtTreeMap ExtTreeSet)

variable {I J O E : Type}

section Trace

def Event.admission : Event O E → Option StepId
  | .admitStep id => some id
  | _ => none

/-- A step that saw its token cancelled is never called. -/
def Event.loss : Event O E → Option StepId
  | .readToken id true => some id
  | _ => none

def Event.begun : Event O E → Option StepId
  | .call id => some id
  | _ => none

/-- The settlement of a call. -/
def Event.callResult : Event O E → Option (StepId × Except E O)
  | .pollCall id (.settled result) => some (id,result)
  | _ => none

/-- The settlement of a dispatch: a call's result or a readiness error. -/
def Event.result : Event O E → Option (StepId × Except E O)
  | .pollCall id (.settled result) => some (id,result)
  | .pollReady id (.err error) => some (id,.error error)
  | _ => none

/-- Events that are neither an admission nor inside a flight. -/
def Event.silent : Event O E → Bool
  | .cancelCaller | .cancelReturned | .tick _ | .advance | .timer _ | .poll _ | .park => true
  | _ => false

lemma Event.external_silent {e : Event O E} (h : e.external = true) : e.silent = true := by
  cases e <;> first | rfl | cases h

variable (t : List (Event O E))

/-- The steps admitted, in order. -/
def admissions : List StepId := t.filterMap Event.admission

/-- The steps dropped before their call. -/
def losses : List StepId := t.filterMap Event.loss

/-- The steps whose dispatcher was called. -/
def calls : List StepId := t.filterMap Event.begun

/-- The results of those calls. -/
def callResults : List (StepId × Except E O) := t.filterMap Event.callResult

/-- The results of all dispatches. -/
def results : List (StepId × Except E O) := t.filterMap Event.result

end Trace

section State

def Pc.flights : Pc I J O E → Multiset (Flight I J O)
  | .polling f => {f}
  | _ => 0

/-- A result on its way into the outputs or the failures. -/
def Pc.settling : Pc I J O E → Multiset (StepId × Except E O)
  | .settle id (.settled result) => {(id,result)}
  | _ => 0

/-- The flights in the set and the one being polled. -/
def State.crew (s : State I J O E) : Multiset (Flight I J O) :=
  s.pc.flights + (s.inFlight : Multiset (Flight I J O))

def Flight.calling (f : Flight I J O) : Prop := f.phase = .calling

instance : DecidablePred (Flight.calling : Flight I J O → Prop) :=
  fun f => inferInstanceAs (Decidable (f.phase = .calling))

def State.crewIds (s : State I J O E) : Multiset StepId := s.crew.map Flight.id

def State.callingIds (s : State I J O E) : Multiset StepId :=
  (s.crew.filter Flight.calling).map Flight.id

/-- The results in the outputs and in the failures. -/
def State.recorded (s : State I J O E) : Multiset (StepId × Except E O) :=
  (s.outputs.toList.map (fun e => (e.1,.ok e.2)) : List (StepId × Except E O)) +
    (s.failures.map (fun f => (f.stepId,.error f.error)) : List (StepId × Except E O))

end State

/-- The three balances of a run. -/
structure Ledger (t : List (Event O E)) (s : State I J O E) : Prop where
  admitted : (admissions t : Multiset StepId) =
    s.crewIds + (losses t : Multiset StepId) + ((results t).map Prod.fst : List StepId)
  begun : (calls t : Multiset StepId) =
    s.callingIds + ((callResults t).map Prod.fst : List StepId)
  settled : (results t : Multiset (StepId × Except E O)) = s.pc.settling + s.recorded

section Concat
variable (t : List (Event O E)) (e : Event O E)

lemma admissions_concat : admissions (t ++ [e]) = admissions t ++ e.admission.toList := by
  simp only [admissions, List.filterMap_append]
  cases h : e.admission <;> simp [h]

lemma losses_concat : losses (t ++ [e]) = losses t ++ e.loss.toList := by
  simp only [losses, List.filterMap_append]
  cases h : e.loss <;> simp [h]

lemma calls_concat : calls (t ++ [e]) = calls t ++ e.begun.toList := by
  simp only [calls, List.filterMap_append]
  cases h : e.begun <;> simp [h]

lemma callResults_concat : callResults (t ++ [e]) = callResults t ++ e.callResult.toList := by
  simp only [callResults, List.filterMap_append]
  cases h : e.callResult <;> simp [h]

lemma results_concat : results (t ++ [e]) = results t ++ e.result.toList := by
  simp only [results, List.filterMap_append]
  cases h : e.result <;> simp [h]

end Concat

section Balance
variable {t : List (Event O E)} {e : Event O E} {s s' : State I J O E}

/-- The general entry: what an event adds to the trace, its step adds to the state. -/
lemma Ledger.entry (h : Ledger t s)
    (ha : (e.admission.toList : Multiset StepId) + s.crewIds =
      s'.crewIds + (e.loss.toList : Multiset StepId) + (e.result.toList.map Prod.fst : List StepId))
    (hb : (e.begun.toList : Multiset StepId) + s.callingIds =
      s'.callingIds + (e.callResult.toList.map Prod.fst : List StepId))
    (hs : (e.result.toList : Multiset (StepId × Except E O)) + (s.pc.settling + s.recorded) =
      s'.pc.settling + s'.recorded) : Ledger (t ++ [e]) s' := by
  refine ⟨?_,?_,?_⟩
  · rw [admissions_concat,losses_concat,results_concat,List.map_append]
    simp only [←Multiset.coe_add, h.admitted]
    calc s.crewIds + (losses t : Multiset StepId) + ((results t).map Prod.fst : List StepId) +
          (e.admission.toList : Multiset StepId)
        = (e.admission.toList : Multiset StepId) + s.crewIds + (losses t : Multiset StepId) +
          ((results t).map Prod.fst : List StepId) := by abel
      _ = _ := by rw [ha]; abel
  · rw [calls_concat,callResults_concat,List.map_append]
    simp only [←Multiset.coe_add, h.begun]
    calc s.callingIds + ((callResults t).map Prod.fst : List StepId) +
          (e.begun.toList : Multiset StepId)
        = (e.begun.toList : Multiset StepId) + s.callingIds +
          ((callResults t).map Prod.fst : List StepId) := by abel
      _ = _ := by rw [hb]; abel
  · rw [results_concat]
    simp only [←Multiset.coe_add, h.settled]
    rw [add_comm,hs]

/-- An event that says nothing about flights, over a step that moves none. -/
lemma Ledger.silent (h : Ledger t s) (he : e.silent = true) (hc : s'.crew = s.crew)
    (hs : s'.pc.settling + s'.recorded = s.pc.settling + s.recorded) : Ledger (t ++ [e]) s' := by
  refine h.entry ?_ ?_ ?_
  · have : s'.crewIds = s.crewIds := congrArg (Multiset.map Flight.id) hc
    cases e <;> simp_all [Event.silent, Event.admission, Event.loss, Event.result]
  · have : s'.callingIds = s.callingIds := by rw [State.callingIds,hc]; rfl
    cases e <;> simp_all [Event.silent, Event.begun, Event.callResult]
  · cases e <;> simp_all [Event.silent, Event.result]

lemma crew_polling {f : Flight I J O} (h : s.pc = .polling f) :
    s.crew = f ::ₘ (s.inFlight : Multiset (Flight I J O)) := by
  rw [State.crew,h]
  rfl

/-- A completed flight has left the crew. -/
lemma crew_settle {id : StepId} {settlement : StepSettlement O E}
    (h : s.pc = .settle id settlement) : s.crew = (s.inFlight : Multiset (Flight I J O)) := by
  simp [State.crew, h, Pc.flights]

lemma crew_suspend {f : Flight I J O} :
    (s.suspend f).crew = f ::ₘ (s.inFlight : Multiset (Flight I J O)) := by
  rw [State.crew,State.suspend]
  simp only [Pc.flights, zero_add, ←Multiset.coe_add, Multiset.coe_singleton]
  rw [add_comm,Multiset.singleton_add]

lemma calling_cons {f : Flight I J O} {m : Multiset (Flight I J O)} :
    (Multiset.filter Flight.calling (f ::ₘ m)).map Flight.id =
      (if f.phase = .calling then {f.id} else 0) +
        (Multiset.filter Flight.calling m).map Flight.id := by
  rw [Multiset.filter_cons,Multiset.map_add]
  congr 1
  by_cases hf : f.phase = .calling
  · rw [if_pos hf,if_pos (show f.calling from hf),Multiset.map_singleton]
  · rw [if_neg hf,if_neg (show ¬ f.calling from hf),Multiset.map_zero]

/-- A flight of the same step takes the place of the one being polled; `n` counts the call it
begins or has begun. -/
lemma Ledger.moved {f g : Flight I J O} (h : Ledger t s) (hpc : s.pc = .polling f)
    (hc : s'.crew = g ::ₘ (s.inFlight : Multiset (Flight I J O))) (hid : g.id = f.id)
    (hset : s'.pc.settling = 0) (hrec : s'.recorded = s.recorded) (ha : e.admission = none)
    (hl : e.loss = none) (hr : e.result = none) (hcr : e.callResult = none)
    (hb : (e.begun.toList : Multiset StepId) + (if f.phase = .calling then {f.id} else 0) =
      if g.phase = .calling then {f.id} else 0) : Ledger (t ++ [e]) s' := by
  refine h.entry ?_ ?_ ?_
  · simp [ha, hl, hr, State.crewIds, hc, crew_polling hpc, hid]
  · simp only [hcr, State.callingIds, hc, crew_polling hpc, calling_cons, hid]
    rw [←add_assoc,hb]
    simp
  · rw [hset,hrec,hpc]
    simp [hr, Pc.settling]

/-- The flight being polled settles or is dropped. -/
lemma Ledger.left {f : Flight I J O} {settlement : StepSettlement O E} (h : Ledger t s)
    (hpc : s.pc = .polling f) (ha : e.admission = none) (hb : e.begun = none)
    (hone : ({f.id} : Multiset StepId) =
      (e.loss.toList : Multiset StepId) + (e.result.toList.map Prod.fst : List StepId))
    (hcr : (if f.phase = .calling then {f.id} else 0 : Multiset StepId) =
      (e.callResult.toList.map Prod.fst : List StepId))
    (hset : (e.result.toList : Multiset (StepId × Except E O)) =
      (Pc.settle f.id settlement : Pc I J O E).settling) :
    Ledger (t ++ [e]) (s.goto (.settle f.id settlement)) := by
  have hcrew : (s.goto (.settle f.id settlement)).crew =
      (s.inFlight : Multiset (Flight I J O)) := by
    simp [State.crew, State.goto, Pc.flights]
  refine h.entry ?_ ?_ ?_
  · simp only [ha, State.crewIds, hcrew, crew_polling hpc, Multiset.map_cons, Option.toList_none,
      Multiset.coe_nil, zero_add]
    rw [add_assoc,←hone,add_comm,Multiset.singleton_add]
  · simp only [hb, State.callingIds, hcrew, crew_polling hpc, calling_cons, hcr,
      Option.toList_none, Multiset.coe_nil, zero_add]
    rw [add_comm]
  · rw [hpc,hset]
    simp [Pc.settling, State.goto, State.recorded]

end Balance

section Step
variable {max : ℕ} {request : WorkflowRequest I J} {t : List (Event O E)} {e : Event O E}
  {s s' : State I J O E}

lemma makeCall_stepId {id : StepId} {call : StepCall I J O}
    (h : makeCall request s id = .ok call) : call.stepId = id := by
  unfold makeCall at h
  split at h
  · cases h
  · next step _ =>
    cases hg : gather "ready step dependencies must have completed" s.outputs step.needs with
    | error p => simp [hg, bind, Except.bind] at h
    | ok deps =>
      simp only [hg, bind, Except.bind, Except.ok.injEq] at h
      exact h ▸ rfl

lemma Control.grounded {pc : Pc I J O E} (h : Control max request s e pc) : e.silent = true ∧
    s.pc.flights = 0 ∧ pc.flights = 0 ∧ s.pc.settling = 0 ∧ pc.settling = 0 := by
  cases h <;> simp_all [Event.silent, Pc.flights, Pc.settling]

lemma Latches.grounded {reason : StopReason} {pc : Pc I J O E}
    (h : Latches request s e reason pc) : e.silent = true ∧
    s.pc.flights = 0 ∧ pc.flights = 0 ∧ s.pc.settling = 0 ∧ pc.settling = 0 := by
  cases h <;> simp_all [Event.silent, Pc.flights, Pc.settling]

/-- Recording moves the settling result into the outputs or the failures. -/
lemma Records.recorded {id : StepId} {settlement : StepSettlement O E}
    (h : Records s id settlement s') (hfresh : settlement ≠ .notCalled → id ∉ s.outputs) :
    s'.recorded = (Pc.settle id settlement : Pc I J O E).settling + s.recorded ∧
      s'.inFlight = s.inFlight := by
  have success : ∀ output : O, id ∉ s.outputs →
      (((s.outputs.insert id output).toList.map (fun e => (e.1,.ok e.2)) :
          List (StepId × Except E O)) : Multiset (StepId × Except E O)) =
        {(id,.ok output)} +
          ((s.outputs.toList.map (fun e => (e.1,.ok e.2)) : List (StepId × Except E O)) :
            Multiset (StepId × Except E O)) := by
    intro output hid
    rw [Multiset.coe_eq_coe.mpr ((toList_insert_perm hid output).map _)]
    rfl
  cases h with
  | notCalled => exact ⟨by simp [Pc.settling],rfl⟩
  | succeeded =>
    refine ⟨?_,rfl⟩
    simp only [State.recorded, Pc.settling, success _ (hfresh (by simp))]
    abel
  | drained =>
    refine ⟨?_,rfl⟩
    simp only [State.recorded, Pc.settling, success _ (hfresh (by simp))]
    abel
  | failed =>
    refine ⟨?_,rfl⟩
    simp only [State.recorded, State.latch, Pc.settling, List.map_append, List.map_singleton,
      ←Multiset.coe_add, Multiset.coe_singleton]
    abel
  | drainedFailure =>
    refine ⟨?_,rfl⟩
    simp only [State.recorded, Pc.settling, List.map_append, List.map_singleton,
      ←Multiset.coe_add, Multiset.coe_singleton]
    abel

/-- Every step that does not abort keeps the three balances. -/
theorem Ledger.step (h : Ledger t s) (ht : Transition max request s e s')
    (hab : ∀ p, ¬ Aborts request s p)
    (hfresh : ∀ id r, s.pc = .settle id (.settled r) → id ∉ s.outputs) :
    Ledger (t ++ [e]) s' := by
  cases ht with
  | outside he => exact h.silent (Event.external_silent he) rfl rfl
  | control hc =>
    obtain ⟨he,h1,h2,h3,h4⟩ := hc.grounded
    exact h.silent he (by simp [State.crew, State.goto, h1, h2])
      (by simp [State.recorded, State.goto, h3, h4])
  | latch hl =>
    obtain ⟨he,h1,h2,h3,h4⟩ := hl.grounded
    exact h.silent he (by simp [State.crew, State.goto, State.latch, h1, h2])
      (by simp [State.recorded, State.goto, State.latch, h3, h4])
  | abort ha => exact absurd ha (hab _)
  | finish hpc =>
    exact h.silent rfl (by simp [State.crew, State.goto, hpc, Pc.flights])
      (by simp [State.recorded, State.goto, hpc, Pc.settling])
  | @record id settlement s'' hpc hr =>
    have hf : settlement ≠ .notCalled → id ∉ s.outputs := by
      cases settlement with
      | notCalled => simp
      | settled r => exact fun _ => hfresh id r hpc
    obtain ⟨hrec,hin⟩ := hr.recorded hf
    refine h.silent rfl ?_ ?_
    · simp [State.crew, State.goto, hpc, hin, Pc.flights]
    · have : (s''.goto .admitStep).recorded = s''.recorded := rfl
      rw [this,hrec,hpc]
      simp [State.goto, Pc.settling]
  | @admitStep id ready call hpc hp hm =>
    have hcrew : s.crew = (s.inFlight : Multiset (Flight I J O)) := by
      simp [State.crew, hpc, Pc.flights]
    have hcrew' : State.crew
          { s with ready, inFlight := s.inFlight ++ [Flight.mk call .select], pc := .admitStep } =
        Flight.mk call .select ::ₘ (s.inFlight : Multiset (Flight I J O)) := by
      simp only [State.crew, Pc.flights, zero_add, ←Multiset.coe_add, Multiset.coe_singleton]
      rw [add_comm,Multiset.singleton_add]
    refine h.entry ?_ ?_ ?_
    · simp [Event.admission, Event.loss, Event.result, State.crewIds, hcrew, hcrew', Flight.id,
        makeCall_stepId hm]
    · simp only [State.callingIds, hcrew, hcrew', calling_cons]
      simp [Event.begun, Event.callResult]
    · rw [hpc]
      simp [Event.result, Pc.settling, State.recorded]
  | @poll index f hpc hf =>
    obtain ⟨hlt,rfl⟩ := List.getElem?_eq_some_iff.mp hf
    refine h.silent rfl ?_ ?_
    · rw [State.crew,State.crew,hpc]
      simp only [Pc.flights, Multiset.singleton_add, zero_add, Multiset.cons_coe]
      exact Multiset.coe_eq_coe.mpr (List.getElem_cons_eraseIdx_perm hlt)
    · rw [hpc]
      simp [Pc.settling, State.recorded]
  | tokenSeen hpc hp =>
    refine h.left hpc rfl rfl rfl ?_ rfl
    rcases hp with hp | hp <;> simp [hp, Event.callResult]
  | @tokenClear f p hpc hp =>
    refine h.moved hpc (g := { f with phase := p }) (by simp [State.crew, State.goto, Pc.flights])
      rfl rfl rfl rfl rfl rfl rfl ?_
    rcases hp with ⟨hp,rfl⟩ | ⟨hp,rfl⟩ <;> simp [hp, Event.begun]
  | @readyPending f hpc hp =>
    refine h.moved hpc (g := { f with phase := .select }) crew_suspend rfl rfl rfl rfl rfl rfl rfl ?_
    simp [hp, Event.begun]
  | @readyOk f hpc hp =>
    refine h.moved hpc (g := { f with phase := .readied })
      (by simp [State.crew, State.goto, Pc.flights]) rfl rfl rfl rfl rfl rfl rfl ?_
    simp [hp, Event.begun]
  | readyErr hpc hp => exact h.left hpc rfl rfl rfl (by simp [hp, Event.callResult]) rfl
  | @call f hpc hp =>
    refine h.moved hpc (g := { f with phase := .calling })
      (by simp [State.crew, State.goto, Pc.flights]) rfl rfl rfl rfl rfl rfl rfl ?_
    simp [hp, Event.begun]
  | @callPending f hpc hp =>
    refine h.moved hpc (g := f) crew_suspend rfl rfl rfl rfl rfl rfl rfl ?_
    simp [hp, Event.begun]
  | callSettled hpc hp => exact h.left hpc rfl rfl rfl (by simp [hp, Event.callResult]) rfl

end Step
end TowerAgent.Workflow
