import TowerAgent.Workflow.Confluence
import Mathlib.Algebra.Order.BigOperators.Group.Multiset

/-! Termination: whatever cancels, expires or fails, a run whose dispatchers answer is never stuck,
takes a bounded number of steps besides waiting, and returns. -/
namespace TowerAgent.Workflow
open Lib
open Std (ExtTreeMap ExtTreeSet)

variable {I J O E : Type}

/-- What every dispatch comes to: a readiness error, if there is one, or the result of the call. -/
structure Answers (I J O E : Type) where
  ready : StepCall I J O → Option E
  result : StepCall I J O → Except E O

/-- The steps of a run in which nothing waits and the dispatchers answer as given. Neither a
deadline that expires nor a token that is seen is excluded. -/
def Prompt (answers : Answers I J O E) (s : State I J O E) (e : Event O E) : Prop :=
  e.idle = false ∧ ∀ f, s.pc = .polling f →
    (∀ id answer, e = .pollReady id answer →
      answer = (answers.ready f.call).elim .ok ReadyPoll.err) ∧
    ∀ id answer, e = .pollCall id answer → answer = .settled (answers.result f.call)

/-- How far a point of the loop is from the next admission or poll, deadlines included. -/
def Pc.distance : Pc I J O E → ℕ
  | .start => 9
  | .startDeadline => 8
  | .settle _ _ => 8
  | .admitStep => 7
  | .admitDeadline => 6
  | .admitPop => 5
  | .gate => 4
  | .await => 3
  | .awaitDeadline => 2
  | .drive => 1
  | .polling _ | .finished _ | .panicked _ => 0

/-- How far a flight is from its settlement. -/
def Phase.distance : Phase → ℕ
  | .select => 13
  | .selectReady => 12
  | .readied => 11
  | .checked => 10
  | .calling => 9

/-- What the loop may still begin: nothing, once a stop reason is latched. -/
def openWork (request : WorkflowRequest I J) (t : List (Event O E)) : Option StopReason → ℕ
  | none => 16*(request.definition.steps.size - (admissions t).length) + 6
  | some _ => 0

/-- What a run has left to do, waiting apart. -/
def remainingWork (request : WorkflowRequest I J) (t : List (Event O E)) (s : State I J O E) : ℕ :=
  openWork request t s.stopReason + (s.crew.map (fun f => f.phase.distance)).sum + s.pc.distance

section Work
variable {max : ℕ} {request : WorkflowRequest I J} {t : List (Event O E)} {e : Event O E}
  {s s' : State I J O E}

lemma openWork_of_not_admitted (he : e.admission = none) (reason : Option StopReason) :
    openWork request (t ++ [e]) reason = openWork request t reason := by
  have ht : admissions (t ++ [e]) = admissions t := by simp [admissions_concat, he]
  cases reason with
  | none => rw [openWork,openWork,ht]
  | some _ => rfl

lemma remainingWork_polling {g : Flight I J O} (hpc : s.pc = .polling g) :
    remainingWork request t s = openWork request t s.stopReason + (g.phase.distance +
      ((s.inFlight : Multiset (Flight I J O)).map (fun f => f.phase.distance)).sum) := by
  rw [remainingWork,crew_polling hpc,Multiset.map_cons,Multiset.sum_cons,hpc,Pc.distance,add_zero]

/-- The flight being polled moves to a nearer phase. -/
lemma remainingWork_moved {g : Flight I J O} {p : Phase} (hpc : s.pc = .polling g)
    (he : e.admission = none) (hp : p.distance < g.phase.distance) :
    remainingWork request (t ++ [e]) (s.goto (.polling { g with phase := p })) <
      remainingWork request t s := by
  have hpc' : (s.goto (.polling { g with phase := p })).pc = .polling { g with phase := p } := rfl
  rw [remainingWork_polling hpc,remainingWork_polling hpc',openWork_of_not_admitted he]
  simp only [State.goto]
  omega

/-- The flight being polled leaves the crew. -/
lemma remainingWork_left {g : Flight I J O} {id : StepId} {settlement : StepSettlement O E}
    (hpc : s.pc = .polling g) (he : e.admission = none) :
    remainingWork request (t ++ [e]) (s.goto (.settle id settlement)) <
      remainingWork request t s := by
  have hg : 9 ≤ g.phase.distance := by cases g.phase <;> decide
  have hcrew : (s.goto (.settle id settlement)).crew = (s.inFlight : Multiset (Flight I J O)) := by
    simp [State.crew, State.goto, Pc.flights]
  rw [remainingWork_polling hpc,remainingWork,hcrew,openWork_of_not_admitted he]
  simp only [State.goto, Pc.distance]
  omega

/-- The flight being polled goes back into the set. -/
lemma remainingWork_suspended {g : Flight I J O} {p : Phase} (hpc : s.pc = .polling g)
    (he : e.admission = none) (hp : p.distance ≤ g.phase.distance + 1) :
    remainingWork request (t ++ [e]) (s.suspend { g with phase := p }) ≤
      remainingWork request t s + 2 := by
  rw [remainingWork_polling hpc,remainingWork,crew_suspend,openWork_of_not_admitted he]
  simp only [State.suspend, Pc.distance, Multiset.map_cons, Multiset.sum_cons]
  omega

/-- A latch ends all admission, and that outweighs the way back to the admission loop. -/
lemma remainingWork_latch {reason : StopReason} {pc : Pc I J O E}
    (hl : Latches request s e reason pc) (hn : s.stopReason = none) :
    remainingWork request (t ++ [e]) ((s.latch reason).goto pc) < remainingWork request t s := by
  obtain ⟨-,h1,h2,-⟩ := hl.grounded
  have hcrew : ((s.latch reason).goto pc).crew = s.crew := by
    simp [State.crew, State.goto, State.latch, h1, h2]
  rw [remainingWork,remainingWork,hcrew,hn]
  cases hl <;> simp_all only [State.goto, State.latch, openWork, Pc.distance] <;> omega

/-- Every step that does not wait takes work away, and a step that waits adds at most two. -/
lemma remainingWork_step (hs : Sound max request t s) (hs' : Sound max request (t ++ [e]) s')
    (hab : ∀ p, ¬ Aborts request s p) (ht : Transition max request s e s') :
    (e.idle = true → remainingWork request (t ++ [e]) s' ≤ remainingWork request t s + 2) ∧
      (e.idle = false → remainingWork request (t ++ [e]) s' < remainingWork request t s) := by
  cases ht with
  | outside he =>
    have hadm : e.admission = none := by cases e <;> first | rfl | cases he
    have hidle : e.idle = true := by cases e <;> first | rfl | cases he
    rw [hidle]
    refine ⟨fun _ => ?_,by simp⟩
    rw [remainingWork,openWork_of_not_admitted hadm]
    exact Nat.le_add_right _ _
  | @control _ pc hc =>
    obtain ⟨-,h1,h2,-⟩ := hc.grounded
    have hadm : e.admission = none := by cases hc <;> rfl
    have hcrew : (s.goto pc).crew = s.crew := by simp [State.crew, State.goto, h1, h2]
    rw [remainingWork,remainingWork,hcrew,openWork_of_not_admitted hadm]
    cases hc <;> simp_all [Event.idle, State.goto, Pc.distance]
  | latch hl =>
    have hn : s.stopReason = none := by
      cases hl with
      | startCancelled hpc => exact hs.shape.undecided (by rw [hpc]; rfl)
      | startExpired hpc => exact hs.shape.undecided (by rw [hpc]; rfl)
      | admitCancelled _ hn => exact hn
      | admitExpired hpc => exact hs.shape.undecided (by rw [hpc]; rfl)
      | awaitCancelled _ hn => exact hn
      | fired hpc => exact hs.shape.undecided (by rw [hpc]; rfl)
    have hlt := remainingWork_latch (t := t) hl hn
    exact ⟨fun _ => by omega,fun _ => hlt⟩
  | abort ha => exact absurd ha (hab _)
  | finish hpc =>
    rw [remainingWork,remainingWork,openWork_of_not_admitted rfl]
    simp [Event.idle, State.crew, State.goto, hpc, Pc.flights, Pc.distance]
  | @record id settlement s'' hpc hr =>
    have hin : s''.inFlight = s.inFlight := by cases hr <;> rfl
    have hopen : openWork request t s''.stopReason ≤ openWork request t s.stopReason := by
      cases hr with
      | failed => exact Nat.zero_le _
      | _ => exact le_rfl
    rw [remainingWork,remainingWork,openWork_of_not_admitted rfl]
    simp only [Event.idle, State.crew, State.goto, hpc, hin, Pc.flights, Pc.distance]
    exact ⟨by simp,fun _ => by omega⟩
  | @admitStep id ready call hpc =>
    have hn := hs.shape.undecided (by rw [hpc]; rfl)
    have hlen := hs'.admissions_length_le
    have hadm : admissions (t ++ [(.admitStep id : Event O E)]) = admissions t ++ [id] := by
      simp [admissions_concat, Event.admission]
    rw [hadm,List.length_append,List.length_singleton] at hlen
    rw [remainingWork,remainingWork,hn]
    simp only [openWork, hadm, List.length_append, List.length_singleton, Event.idle, State.crew,
      hpc, Pc.flights, Pc.distance, Phase.distance, zero_add, ←Multiset.coe_add, Multiset.map_add,
      Multiset.sum_add, Multiset.coe_singleton, Multiset.map_singleton, Multiset.sum_singleton]
    exact ⟨by simp,fun _ => by omega⟩
  | @poll index g hpc hg =>
    obtain ⟨hlt,rfl⟩ := List.getElem?_eq_some_iff.mp hg
    have hcrew : State.crew { s with
        inFlight := s.inFlight.eraseIdx index, pc := .polling s.inFlight[index] } = s.crew := by
      rw [State.crew,State.crew,hpc]
      simp only [Pc.flights, Multiset.singleton_add, zero_add, Multiset.cons_coe]
      exact Multiset.coe_eq_coe.mpr (List.getElem_cons_eraseIdx_perm hlt)
    rw [remainingWork,remainingWork,hcrew,hpc,openWork_of_not_admitted rfl]
    simp [Event.idle, Pc.distance]
  | tokenSeen hpc => exact ⟨by simp [Event.idle],fun _ => remainingWork_left hpc rfl⟩
  | tokenClear hpc hp =>
    refine ⟨by simp [Event.idle],fun _ => remainingWork_moved hpc rfl ?_⟩
    rcases hp with ⟨hp,rfl⟩ | ⟨hp,rfl⟩ <;> rw [hp] <;> decide
  | readyPending hpc hp =>
    exact ⟨fun _ => remainingWork_suspended hpc rfl (by rw [hp]; decide),by simp [Event.idle]⟩
  | readyOk hpc hp =>
    exact ⟨by simp [Event.idle],fun _ => remainingWork_moved hpc rfl (by rw [hp]; decide)⟩
  | readyErr hpc => exact ⟨by simp [Event.idle],fun _ => remainingWork_left hpc rfl⟩
  | call hpc hp =>
    exact ⟨by simp [Event.idle],fun _ => remainingWork_moved hpc rfl (by rw [hp]; decide)⟩
  | callPending hpc =>
    exact ⟨fun _ => remainingWork_suspended hpc rfl (Nat.le_succ _),by simp [Event.idle]⟩
  | callSettled hpc => exact ⟨by simp [Event.idle],fun _ => remainingWork_left hpc rfl⟩

/-- A full crew and the furthest point bound the work apart from further admissions. -/
lemma Sound.remainingWork_le (hs : Sound max request t s) :
    remainingWork request t s ≤ openWork request t s.stopReason + 13*max + 9 := by
  have hcard : s.crew.card ≤ max := by
    have hroom := hs.shape.room
    have hflights : s.pc.flights.card ≤ s.pc.places := by
      cases s.pc <;> simp [Pc.flights, Pc.places]
    rw [State.crew,Multiset.card_add,Multiset.coe_card]
    omega
  have hsum : (s.crew.map (fun f => f.phase.distance)).sum ≤ 13*max := by
    have hle := Multiset.sum_le_card_nsmul (s.crew.map (fun f => f.phase.distance)) 13 (by
      intro n hn
      obtain ⟨f,-,rfl⟩ := Multiset.mem_map.mp hn
      cases f.phase <;> decide)
    rw [Multiset.card_map,Nat.nsmul_eq_mul] at hle
    omega
  have hpc : s.pc.distance ≤ 9 := by cases s.pc <;> simp [Pc.distance]
  rw [remainingWork]
  omega

end Work

section Runs
variable {max : ℕ} {request : WorkflowRequest I J} {t : List (Event O E)} {s : State I J O E}

/-- A cancellation that has returned was made. -/
lemma cancelled_of_returned (h : (execute max request).run t = some s)
    (hr : s.cancelReturned = true) : s.callerCancelled = true := by
  refine Machine.invariant (P := fun _ (s : State I J O E) =>
    s.cancelReturned = true → s.callerCancelled = true) ?_ ?_ h hr
  · intro hr
    simp only [execute, initial] at hr
    split at hr <;> cases hr
  · intro t s e s' _ hp he hr
    cases executeStep_transition he with
    | outside _ hc _ hk =>
      rcases hk hr with hk | hk
      · exact hc (hp hk)
      · exact hc hk
    | record _ hrec => cases hrec <;> exact hp hr
    | _ => exact hp hr

/-- A flight can always look at its token. -/
lemma readToken_open (h : (execute max request).run t = some s) {g : Flight I J O}
    (hpc : s.pc = .polling g) (hp : g.phase = .select ∨ g.phase = .readied) :
    ∃ cancelled s', (execute max request).step s (.readToken g.id cancelled) = some s' := by
  have hread : ∃ cancelled, tokenMayRead s cancelled = true := by
    by_cases hstop : s.callerCancelled = true ∨ s.runCancelled = true
    · exact ⟨true,by simpa [tokenMayRead] using hstop⟩
    · simp only [not_or, Bool.not_eq_true] at hstop
      refine ⟨false,?_⟩
      have hret : s.cancelReturned = false := by
        by_contra hne
        have := cancelled_of_returned h (by simpa using hne)
        simp [hstop.1] at this
      simp [tokenMayRead, hret, hstop.2]
  obtain ⟨cancelled,hread⟩ := hread
  refine ⟨cancelled,?_⟩
  rcases hp with hp | hp <;> simp [execute, executeStep, hpc, flightStep, hread, hp]

/-- Until it returns, a run whose dispatchers answer is never stuck. -/
lemma prompt_progress {answers : Answers I J O E} (hmax : 0 < max)
    (hd : request.definition.WellFormed) (hr : (execute max request).run t = some s)
    (hfin : ∀ r, s.pc ≠ .finished r) :
    ∃ e s', Prompt answers s e ∧ (execute max request).step s e = some s' := by
  have hs := sound_of_run hmax hd hr
  -- Steps of the loop, of a token and of a call promise nothing about the dispatcher.
  have unasked : ∀ e : Event O E, e.idle = false → (∀ id answer, e ≠ .pollReady id answer) →
      (∀ id answer, e ≠ .pollCall id answer) → Prompt answers s e := fun e hi h1 h2 =>
    ⟨hi,fun _ _ => ⟨fun id answer he => absurd he (h1 id answer),
      fun id answer he => absurd he (h2 id answer)⟩⟩
  have loop : (advance max request s).isSome → ∃ e s', Prompt answers s e ∧
      (execute max request).step s e = some s' := by
    intro h
    obtain ⟨s',h⟩ := Option.isSome_iff_exists.mp h
    exact ⟨.advance,s',unasked _ rfl (by simp) (by simp),h⟩
  cases hpc : s.pc with
  | finished r => exact absurd hpc (hfin r)
  | panicked p => exact absurd hpc (not_panicked hmax hd hr p)
  | admitPop =>
    cases hp : popFirst s.ready with
    | none => exact loop (by simp only [advance, hpc, hp]; rfl)
    | some q =>
      obtain ⟨id,ready⟩ := q
      have hadmit : (admitStep request s id).isSome := by
        simp only [admitStep, hpc, hp, if_true]
        rfl
      obtain ⟨s',h⟩ := Option.isSome_iff_exists.mp hadmit
      exact ⟨.admitStep id,s',unasked _ rfl (by simp) (by simp),h⟩
  | awaitDeadline =>
    refine ⟨.timer false,s.goto .drive,unasked _ rfl (by simp) (by simp),?_⟩
    simp [execute, executeStep, timer, hpc]
  | drive =>
    obtain ⟨g,l,hl⟩ := List.exists_cons_of_ne_nil (hs.shape.working (by rw [hpc]; rfl))
    refine ⟨.poll 0,{ s with inFlight := s.inFlight.eraseIdx 0, pc := .polling g },
      unasked _ rfl (by simp) (by simp),?_⟩
    simp [execute, executeStep, poll, hpc, hl]
  | polling g =>
    cases hph : g.phase with
    | select =>
      obtain ⟨cancelled,s',h⟩ := readToken_open hr hpc (.inl hph)
      exact ⟨_,s',unasked _ rfl (by simp) (by simp),h⟩
    | selectReady =>
      have hanswer : Prompt answers s
          (.pollReady g.id ((answers.ready g.call).elim .ok ReadyPoll.err)) := by
        refine ⟨by cases answers.ready g.call <;> rfl,fun f hf => ?_⟩
        obtain rfl := Pc.polling.inj (hpc.symm.trans hf)
        exact ⟨fun _ _ he => (Event.pollReady.inj he).2.symm,fun _ _ he => (by cases he)⟩
      have hopen : ((execute max request).step s
          (.pollReady g.id ((answers.ready g.call).elim .ok ReadyPoll.err))).isSome := by
        simp only [execute, executeStep, hpc, flightStep, hph, and_self, if_true]
        cases answers.ready g.call <;> rfl
      obtain ⟨s',h⟩ := Option.isSome_iff_exists.mp hopen
      exact ⟨_,s',hanswer,h⟩
    | readied =>
      obtain ⟨cancelled,s',h⟩ := readToken_open hr hpc (.inr hph)
      exact ⟨_,s',unasked _ rfl (by simp) (by simp),h⟩
    | checked =>
      refine ⟨.call g.id,s.goto (.polling { g with phase := .calling }),
        unasked _ rfl (by simp) (by simp),?_⟩
      simp [execute, executeStep, hpc, flightStep, hph]
    | calling =>
      refine ⟨.pollCall g.id (.settled (answers.result g.call)),
        s.goto (.settle g.id (.settled (answers.result g.call))),⟨rfl,fun f hf => ?_⟩,?_⟩
      · obtain rfl := Pc.polling.inj (hpc.symm.trans hf)
        exact ⟨fun _ _ he => (by cases he),fun _ _ he => (Event.pollCall.inj he).2.symm⟩
      · simp [execute, executeStep, hpc, flightStep, hph]
  | start | startDeadline | admitDeadline | gate =>
    exact loop (by simp only [advance, hpc]; split <;> rfl)
  | admitStep => exact loop (by simp only [advance, hpc]; split <;> [split; skip] <;> rfl)
  | await =>
    refine loop ?_
    simp only [advance, hpc]
    split
    · rfl
    · split
      · rfl
      · split <;> rfl
  | settle id settlement => exact loop (by simp only [advance, hpc]; rfl)

/-- What any continuation of a run takes of the work left. -/
lemma remainingWork_spent (hmax : 0 < max) (hd : request.definition.WellFormed)
    (h : (execute max request).run t = some s) {u : List (Event O E)} {s' : State I J O E}
    (hu : (execute max request).runFrom s u = some s') :
    u.countP (fun e => !e.idle) + remainingWork request (t ++ u) s' ≤
      remainingWork request t s + 2*u.countP Event.idle := by
  have step : ∀ (t : List (Event O E)) s e s', (execute max request).run t = some s →
      (execute max request).step s e = some s' →
      (e.idle = true → remainingWork request (t ++ [e]) s' ≤ remainingWork request t s + 2) ∧
        (e.idle = false → remainingWork request (t ++ [e]) s' < remainingWork request t s) := by
    intro t s e s' hr hstep
    have hs := sound_of_run hmax hd hr
    have ht := executeStep_transition hstep
    exact remainingWork_step hs (hs.step hmax hd ht) (hs.no_abort hmax hd) ht
  exact Machine.productive_bound_from Event.idle (remainingWork request) 2
    (fun t s e s' hr he => (step t s e s' hr he).1) (fun t s e s' hr he => (step t s e s' hr he).2)
    h hu

/-- A run whose dispatchers answer returns, by induction on the work it has left. -/
lemma prompt_return {answers : Answers I J O E} (hmax : 0 < max)
    (hd : request.definition.WellFormed) (h : (execute max request).run t = some s) :
    ∃ u s' r, (execute max request).GuardedFrom (Prompt answers) s u ∧
      (execute max request).runFrom s u = some s' ∧ s'.pc = .finished r := by
  induction hn : remainingWork request t s using Nat.strong_induction_on generalizing t s with
  | _ n ih =>
    by_cases hfin : ∃ r, s.pc = .finished r
    · obtain ⟨r,hpc⟩ := hfin
      exact ⟨[],s,r,trivial,rfl,hpc⟩
    · simp only [not_exists] at hfin
      have hopen : ∃ e m, Prompt answers s e ∧ (execute max request).step s e = some m :=
        prompt_progress hmax hd h hfin
      obtain ⟨e,m,hprompt,hstep⟩ := hopen
      have hrun : (execute max request).run (t ++ [e]) = some m := by
        rw [Machine.run_concat,h]
        exact hstep
      have hone : (execute max request).runFrom s [e] = some m := by simp [Machine.runFrom, hstep]
      have hless := remainingWork_spent hmax hd h hone
      simp only [List.countP_singleton, hprompt.1, Bool.not_false, if_true, Bool.false_eq_true,
        if_false] at hless
      obtain ⟨u,s',r,hg,hu,hpc⟩ := ih _ (by omega) hrun rfl
      refine ⟨e::u,s',r,⟨hprompt,fun m' hm' => ?_⟩,?_,hpc⟩
      · obtain rfl := Option.some.inj (hstep.symm.trans hm')
        exact hg
      · simp only [Machine.runFrom, hstep, Option.bind_some]
        exact hu

/-- Whatever cancels, expires or fails in a run, and from wherever it has come to: the steps of any
continuation besides waiting are bounded by what it may still admit (nothing, once it is stopped)
and the places it has, plus two for each step that waits; if it has not returned, a step is open
in which nothing waits and the dispatchers answer as they please; and by such steps it returns. -/
theorem execute_returns {id version : String} {specs : List (StepSpec J)}
    (hc : compile id version specs = .ok (.ok request.definition)) (hmax : 0 < max)
    (answers : Answers I J O E) (h : (execute max request).run t = some s) :
    (∀ u s', (execute max request).runFrom s u = some s' →
      u.countP (fun e => !e.idle) ≤
        openWork request t s.stopReason + 13*max + 9 + 2*u.countP Event.idle) ∧
    ((∀ r, s.pc ≠ .finished r) →
      ∃ e s', Prompt answers s e ∧ (execute max request).step s e = some s') ∧
    ∃ u s' r, (execute max request).GuardedFrom (Prompt answers) s u ∧
      (execute max request).runFrom s u = some s' ∧ s'.pc = .finished r := by
  have hd := (compile_wellFormed hc).1
  refine ⟨fun u s' hu => ?_,prompt_progress hmax hd h,prompt_return hmax hd h⟩
  have hspent := remainingWork_spent hmax hd h hu
  have hle := (sound_of_run hmax hd h).remainingWork_le
  omega

end Runs

section Sample

/-- The second step's dispatcher is never ready. -/
def sampleAnswers : Answers Unit ℕ ℕ String :=
  ⟨fun call => if call.stepId = review then some "closed" else none,fun _ => .ok 1⟩

/-- The first step has settled and the caller cancels. -/
def sampleCancelled : List (Event ℕ String) :=
  [.advance,.advance] ++ sampleTurn draft 1 ++ [.cancelCaller]

theorem execute_returns_sample : ∃ d s, compile "article" "1" sampleSpecs = .ok (.ok d) ∧
    (execute 2 (sampleRequest d)).run sampleCancelled = some s ∧
    ∃ u s' r, (execute 2 (sampleRequest d)).GuardedFrom (Prompt sampleAnswers) s u ∧
      (execute 2 (sampleRequest d)).runFrom s u = some s' ∧ s'.pc = .finished r := by
  have h : ((accepted "article" "1" sampleSpecs).bind (fun d =>
      (execute 2 (sampleRequest d)).run sampleCancelled)).isSome = true := by decide +kernel
  obtain ⟨s,hs⟩ := Option.isSome_iff_exists.mp h
  obtain ⟨d,hd,hs⟩ := Option.bind_eq_some_iff.mp hs
  have hd := accepted_eq_some.mp hd
  exact ⟨d,s,hd,hs,(execute_returns hd (by decide) sampleAnswers hs).2.2⟩

end Sample
end TowerAgent.Workflow
