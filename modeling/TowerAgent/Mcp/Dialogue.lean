import TowerAgent.Mcp.PlanTool

/-! The dialogue of a planning tool with its client: what is launched after which replies, and what
happens to the answers of the last permitted round. -/
namespace TowerAgent.Mcp
open Lib Kernel Plan

/-- The string-valued answers that a reply gives. -/
def given : Except String ElicitResult → List Answer
  | .ok ⟨.accept,content⟩ => stringAnswers (content.getD [])
  | _ => []

/-- A reply that withholds what is missing. -/
inductive Withheld : Except String ElicitResult → Prop
  | failed (error : String) : Withheld (.error error)
  | declined (content : Option (List (String × ElicitFieldValue))) :
      Withheld (.ok ⟨.decline,content⟩)
  | cancelled (content : Option (List (String × ElicitFieldValue))) :
      Withheld (.ok ⟨.cancel,content⟩)
  | unrecognized (content : Option (List (String × ElicitFieldValue))) :
      Withheld (.ok ⟨.other,content⟩)
  | empty {content : Option (List (String × ElicitFieldValue))}
      (h : stringAnswers (content.getD []) = []) : Withheld (.ok ⟨.accept,content⟩)

theorem withheld_iff {reply : Except String ElicitResult} : Withheld reply ↔ given reply = [] := by
  constructor
  · rintro (- | - | - | - | h)
    · rfl
    · rfl
    · rfl
    · rfl
    · exact h
  · intro h
    rcases reply with error | ⟨action,content⟩
    · exact .failed error
    · cases action with
      | accept => exact .empty h
      | decline => exact .declined content
      | cancel => exact .cancelled content
      | other => exact .unrecognized content

/-- The answers given to a sequence of forms, the first one asked in the given round. -/
def granted (client : Client) : ℕ → List ElicitFormParams → List Answer
  | _,[] => []
  | round,form::forms => given (client round form) ++ granted client (round+1) forms

/-- A reply is refused, or its answers are taken. -/
lemma replyAnswers_cases (reply : Except String ElicitResult) :
    (∃ e, Refusal e ∧ replyAnswers reply = .error e ∧ Withheld reply) ∨
      replyAnswers reply = .ok (given reply) := by
  rcases reply with error | ⟨action,content⟩
  · exact .inl ⟨_,⟨.inr rfl,rfl⟩,rfl,.failed error⟩
  · cases action with
    | accept => exact .inr rfl
    | decline => exact .inl ⟨_,⟨.inr rfl,rfl⟩,rfl,.declined content⟩
    | cancel => exact .inl ⟨_,⟨.inr rfl,rfl⟩,rfl,.cancelled content⟩
    | other => exact .inl ⟨_,⟨.inr rfl,rfl⟩,rfl,.unrecognized content⟩

namespace PlanTool
variable {tool : PlanTool} {client : Client} {explicit : PartialTurn}

/-- The question of a round that may be asked. -/
def question (tool : PlanTool) (explicit : PartialTurn) (answers : List Answer) :
    Option ElicitFormParams :=
  match prepare (tool.layers explicit answers) with
  | .missing _ requirements =>
    if requirements.any Requirement.sensitive then none else some (tool.form requirements)
  | _ => none

/-- The answers after a round in which the client gives some. -/
def nextAnswers (tool : PlanTool) (client : Client) (explicit : PartialTurn) (round : ℕ)
    (answers : List Answer) : Option (List Answer) :=
  (question tool explicit answers).bind fun form =>
    let added := given (client round form)
    if added.isEmpty then none else some (answers ++ added)

/-- The answers after a number of rounds, if the client gives some in each of them. -/
def answersAfter (tool : PlanTool) (client : Client) (explicit : PartialTurn) :
    ℕ → ℕ → List Answer → Option (List Answer)
  | 0,_,answers => some answers
  | k+1,round,answers =>
    (nextAnswers tool client explicit round answers).bind
      (answersAfter tool client explicit k (round+1))

/-- What one turn of the loop does. -/
inductive Turned (tool : PlanTool) (client : Client) (explicit : PartialTurn) (remaining round : ℕ)
    (answers : List Answer) : Traced PlanStep AgentError ReadyTurn → Prop
  | ready {ready : ReadyTurn} (h : prepare (tool.layers explicit answers) = .ready ready) :
      Turned tool client explicit remaining round answers ⟨[],.ok ready⟩
  | refused {e : AgentError} (hr : Refusal e)
      (h : ∀ ready, prepare (tool.layers explicit answers) ≠ .ready ready)
      (hq : question tool explicit answers = none) :
      Turned tool client explicit remaining round answers ⟨[],.error e⟩
  | withheld {e : AgentError} {form : ElicitFormParams} (hr : Refusal e)
      (hq : question tool explicit answers = some form) (hw : Withheld (client round form)) :
      Turned tool client explicit remaining round answers ⟨[.asked form],.error e⟩
  | given {form : ElicitFormParams} {rest : Traced PlanStep AgentError ReadyTurn}
      (hq : question tool explicit answers = some form) (hw : ¬Withheld (client round form))
      (hrest : rest = tool.dialogue client explicit remaining (round+1)
        (answers ++ given (client round form))) :
      Turned tool client explicit remaining round answers ⟨.asked form::rest.steps,rest.result⟩

theorem dialogue_turned (remaining round : ℕ) (answers : List Answer) :
    Turned tool client explicit remaining round answers
      (tool.dialogue client explicit (remaining+1) round answers) := by
  unfold dialogue
  cases hp : prepare (tool.layers explicit answers) with
  | ready ready => exact .ready hp
  | invalid diagnostics =>
    refine .refused (refusal_invalidRequest _) ?_ ?_
    · simp [hp]
    · simp [question, hp]
  | missing merged requirements =>
    dsimp only
    cases hs : requirements.find? Requirement.sensitive with
    | some sensitive =>
      have hany : requirements.any Requirement.sensitive = true :=
        List.any_eq_true.mpr ⟨sensitive,List.mem_of_find?_eq_some hs,List.find?_some hs⟩
      simp only [elicit, hs]
      refine .refused ⟨.inr rfl,rfl⟩ ?_ ?_
      · simp [hp]
      · simp [question, hp, hany]
    | none =>
      have hany : requirements.any Requirement.sensitive = false := by
        simpa using List.find?_eq_none.mp hs
      have hq : question tool explicit answers = some (tool.form requirements) := by
        simp [question, hp, hany]
      simp only [elicit, hs, Traced.step_bind]
      rcases replyAnswers_cases (client round (tool.form requirements)) with
        ⟨e,hr,he,hw⟩ | hok
      · rw [he]
        exact .withheld hr hq hw
      · rw [hok]
        cases hg : given (client round (tool.form requirements)) with
        | nil => exact .withheld (refusal_invalidRequest _) hq (withheld_iff.mpr hg)
        | cons a added =>
          have hw : ¬Withheld (client round (tool.form requirements)) := by
            rw [withheld_iff,hg]
            exact List.cons_ne_nil _ _
          exact .given hq hw (by rw [hg]; rfl)

/-- The forms of a dialogue, how it may fail, and what it is ready with. -/
structure Conversed (tool : PlanTool) (client : Client) (explicit : PartialTurn)
    (remaining round : ℕ) (answers : List Answer) (forms : List ElicitFormParams)
    (d : Traced PlanStep AgentError ReadyTurn) : Prop where
  steps : d.steps = forms.map .asked
  bounded : forms.length ≤ remaining
  refusal : Fails Refusal d.result
  prepared : ∀ ready, d.result = .ok ready →
    prepare (tool.layers explicit (answers ++ granted client round forms)) = .ready ready
  replied : ∀ ready, d.result = .ok ready → ∀ i form, forms[i]? = some form →
    ¬Withheld (client (round+i) form)

/-- By induction on the rounds that remain: a dialogue is ready only with answers given to all of
its forms. -/
theorem dialogue_conversed (remaining round : ℕ) (answers : List Answer) :
    ∃ forms, Conversed tool client explicit remaining round answers forms
      (tool.dialogue client explicit remaining round answers) := by
  induction remaining generalizing round answers with
  | zero =>
    refine ⟨[],rfl,Nat.le_refl _,Fails.error (refusal_invalidRequest _),?_,?_⟩ <;>
      · intro ready h
        cases h
  | succ remaining ih =>
    generalize hd : tool.dialogue client explicit (remaining+1) round answers = d
    have ht : Turned tool client explicit remaining round answers d :=
      hd ▸ dialogue_turned remaining round answers
    cases ht with
    | ready h =>
      refine ⟨[],rfl,Nat.zero_le _,Fails.ok _,?_,?_⟩
      · rintro _ ⟨⟩
        rw [granted,List.append_nil]
        exact h
      · intro ready _ i form hi
        cases hi
    | refused hr _ _ =>
      refine ⟨[],rfl,Nat.zero_le _,Fails.error hr,?_,?_⟩ <;>
        · intro ready h
          cases h
    | withheld hr _ _ =>
      refine ⟨[_],rfl,Nat.succ_le_succ (Nat.zero_le _),Fails.error hr,?_,?_⟩ <;>
        · intro ready h
          cases h
    | @given form rest hq hw hrest =>
      obtain ⟨forms,hforms⟩ := ih (round+1) (answers ++ Mcp.given (client round form))
      rw [←hrest] at hforms
      refine ⟨form::forms,?_,Nat.succ_le_succ hforms.bounded,hforms.refusal,?_,?_⟩
      · rw [hforms.steps,List.map_cons]
      · intro ready h
        rw [granted,←List.append_assoc]
        exact hforms.prepared ready h
      · intro ready h i f hi
        cases i with
        | zero =>
          obtain rfl := Option.some.inj hi
          exact hw
        | succ i =>
          have := hforms.replied ready h i f hi
          rwa [Nat.add_right_comm] at this

section After
variable {round k n : ℕ} {answers : List Answer}

lemma question_ready {ready : ReadyTurn}
    (h : prepare (tool.layers explicit answers) = .ready ready) :
    question tool explicit answers = none := by
  simp [question, h]

lemma nextAnswers_given {form : ElicitFormParams} (hq : question tool explicit answers = some form)
    (hw : ¬Withheld (client round form)) : nextAnswers tool client explicit round answers =
      some (answers ++ given (client round form)) := by
  rw [withheld_iff] at hw
  simp [nextAnswers, hq, hw]

lemma nextAnswers_withheld {form : ElicitFormParams}
    (hq : question tool explicit answers = some form) (hw : Withheld (client round form)) :
    nextAnswers tool client explicit round answers = none := by
  rw [withheld_iff] at hw
  simp [nextAnswers, hq, hw]

lemma nextAnswers_none (hq : question tool explicit answers = none) :
    nextAnswers tool client explicit round answers = none := by
  simp [nextAnswers, hq]

/-- What holds of the answers after fewer than `n+1` rounds holds of the present ones, or after
fewer than `n` rounds from the next ones. -/
lemma exists_after_succ {P : List Answer → Prop} :
    (∃ k < n+1, ∃ after, answersAfter tool client explicit k round answers = some after ∧ P after) ↔
      P answers ∨ ∃ next, nextAnswers tool client explicit round answers = some next ∧
        ∃ k < n, ∃ after, answersAfter tool client explicit k (round+1) next = some after ∧
          P after := by
  constructor
  · rintro ⟨k,hk,after,ha,hp⟩
    cases k with
    | zero =>
      obtain rfl := Option.some.inj ha
      exact .inl hp
    | succ k =>
      obtain ⟨next,hn,ha⟩ := Option.bind_eq_some_iff.mp ha
      exact .inr ⟨next,hn,k,Nat.lt_of_succ_lt_succ hk,after,ha,hp⟩
  · rintro (hp | ⟨next,hn,k,hk,after,ha,hp⟩)
    · exact ⟨0,Nat.succ_pos n,answers,rfl,hp⟩
    · refine ⟨k+1,Nat.succ_lt_succ hk,after,?_,hp⟩
      rw [answersAfter,hn]
      exact ha

/-- A dialogue is ready exactly when fewer rounds than remain complete the plan. -/
theorem dialogue_ready_iff {ready : ReadyTurn} :
    (tool.dialogue client explicit n round answers).result = .ok ready ↔
      ∃ k < n, ∃ after, answersAfter tool client explicit k round answers = some after ∧
        prepare (tool.layers explicit after) = .ready ready := by
  induction n generalizing round answers with
  | zero => simp [dialogue, Traced.check]
  | succ n ih =>
    rw [exists_after_succ]
    generalize hd : tool.dialogue client explicit (n+1) round answers = d
    have ht : Turned tool client explicit n round answers d := hd ▸ dialogue_turned n round answers
    cases ht with
    | ready h => simp [h, nextAnswers_none (question_ready h)]
    | refused _ h hq => simp [h ready, nextAnswers_none hq]
    | @withheld e form _ hq hw =>
      have hne : prepare (tool.layers explicit answers) ≠ .ready ready := by
        intro h
        simp [question_ready h] at hq
      simp [hne, nextAnswers_withheld hq hw]
    | @given form rest hq hw hrest =>
      have hne : prepare (tool.layers explicit answers) ≠ .ready ready := by
        intro h
        simp [question_ready h] at hq
      simp [hne, nextAnswers_given hq hw, hrest, ih]

/-- While rounds are still taken, the plan is not complete. -/
theorem not_ready_before {after : List Answer}
    (h : answersAfter tool client explicit n round answers = some after) :
    ¬∃ k < n, ∃ mid, answersAfter tool client explicit k round answers = some mid ∧
      ∃ ready, prepare (tool.layers explicit mid) = .ready ready := by
  induction n generalizing round answers with
  | zero => simp
  | succ n ih =>
    obtain ⟨next,hn,h⟩ := Option.bind_eq_some_iff.mp h
    rw [exists_after_succ]
    rintro (⟨ready,hr⟩ | ⟨next',hn',hlater⟩)
    · rw [nextAnswers_none (question_ready hr)] at hn
      cases hn
    · obtain rfl := Option.some.inj (hn.symm.trans hn')
      exact ih h hlater

end After

section Admit
variable {resolve : Resolver} {scope : Scope} {answer : ScopeAnswer} {input : PlanInput}
  {explicit : PartialTurn}

theorem explicitLayer_fails : Fails Refusal (explicitLayer resolve scope input) := by
  unfold explicitLayer
  split
  · refine Fails.bind resolveContinuation_fails (fun session => ?_)
    split
    · exact Fails.ok _
    · exact Fails.error ⟨.inr rfl,rfl⟩
  · exact Fails.ok _

theorem admission_fails : Fails Refusal (admission resolve answer input) :=
  Fails.bind (scopeOf_fails _) (fun _ => Fails.bind explicitLayer_fails (fun _ => Fails.ok _))

theorem admission_ok : admission resolve answer input = .ok (scope,explicit) ↔
    answer = .ok scope ∧ explicitLayer resolve scope input = .ok explicit := by
  unfold admission scopeOf
  cases answer with
  | error u => simp [Except.mapError, bind, Except.bind]
  | ok sc =>
    simp only [Except.mapError, bind, Except.bind, Except.ok.injEq]
    cases h : explicitLayer resolve sc input with
    | error e =>
      simp only [reduceCtorEq, false_iff, not_and]
      rintro rfl
      simp [h]
    | ok ex =>
      simp only [pure, Except.pure, Except.ok.injEq, Prod.mk.injEq]
      constructor
      · rintro ⟨rfl,rfl⟩
        exact ⟨rfl,h⟩
      · rintro ⟨rfl,hx⟩
        exact ⟨rfl,Except.ok.inj (h.symm.trans hx)⟩

/-- A continuation that does not resolve, or no scope, admits no call. -/
theorem explicitLayer_unresolved {raw : String} (hc : input.continuation = some raw)
    (h : Unresolved resolve raw scope) : explicitLayer resolve scope input ≠ .ok explicit := by
  obtain ⟨e,he⟩ := resolveContinuation_unresolved h
  simp [explicitLayer, hc, he, bind, Except.bind]

end Admit

end PlanTool
end TowerAgent.Mcp
