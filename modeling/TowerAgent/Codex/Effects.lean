import TowerAgent.Codex.Settle

/-! What a Codex failure without effects says about the event stream before its terminal event. -/
namespace TowerAgent.Codex
open Lib Kernel Adapter

/-- An event that shows the model at work: an agent message, or another completed item. -/
def JsonLineEvent.showsWork (event : JsonLineEvent) : Bool :=
  event.agentMessageText.isSome || event.isItemCompleted

/-- The events before the first terminal one. -/
def beforeTerminal (events : List JsonLineEvent) : List JsonLineEvent :=
  events.takeWhile (fun event => !event.isTerminal)

/-- Nothing before the terminal event shows the model at work. -/
def Quiet (events : List JsonLineEvent) : Prop :=
  ∀ event ∈ beforeTerminal events, event.showsWork = false

/-- The state a terminal event reports. -/
def terminalState (terminal : JsonLineEvent) : TerminalState :=
  if terminal.isTurnCompleted then .completed
  else .failed (terminal.turnFailureKind.getD .other)

/-- A stream that ends in its only terminal event. -/
structure EndsIn (events : List JsonLineEvent) (terminal : JsonLineEvent) : Prop where
  isTerminal : terminal.isTerminal = true
  last : events = beforeTerminal events ++ [terminal]

/-- A stream that ends in a refusal of the request, although the model had been at work. -/
def RejectedAfterWork (events : List JsonLineEvent) : Prop :=
  (∃ terminal, EndsIn events terminal ∧ terminal.isTurnCompleted = false ∧
    terminal.turnFailureKind = some .apiRequestRejected) ∧
  ∃ event ∈ beforeTerminal events, event.showsWork = true

/-- Handles that settlement takes: one value, neither blank nor an option of the CLI. -/
def Consistent (values : List String) : Prop :=
  ∀ first ∈ values.head?, Text.isBlank first = false ∧ first.startsWith "-" = false ∧
    ∀ value ∈ values, value = first

section Terminal
variable {events : List JsonLineEvent} {terminal : JsonLineEvent}

lemma beforeTerminal_append {before after : List JsonLineEvent}
    (hb : ∀ event ∈ before, event.isTerminal = false) (ht : terminal.isTerminal = true) :
    beforeTerminal (before ++ terminal::after) = before := by
  rw [beforeTerminal,List.takeWhile_append_of_pos (by simpa using hb),List.takeWhile_cons]
  simp [ht]

lemma filter_zipIdx {before : List JsonLineEvent} (k : ℕ)
    (hb : ∀ event ∈ before, event.isTerminal = false) :
    (before.zipIdx k).filter (fun entry => entry.1.isTerminal) = [] := by
  rw [List.filter_eq_nil_iff]
  rintro ⟨event,i⟩ hmem
  simp [hb event (List.fst_mem_of_mem_zipIdx hmem)]

lemma filter_terminal (k : ℕ) (rest : List (JsonLineEvent × ℕ))
    (ht : terminal.isTerminal = true) :
    ((terminal,k)::rest).filter (fun entry => entry.1.isTerminal) =
      (terminal,k)::rest.filter (fun entry => entry.1.isTerminal) := by
  rw [List.filter_cons,if_pos ht]

/-- Validation reads the first terminal event, and refuses whatever comes after it. -/
lemma validateTerminalEvents_append {before after : List JsonLineEvent}
    (hb : ∀ event ∈ before, event.isTerminal = false) (ht : terminal.isTerminal = true) :
    validateTerminalEvents (before ++ terminal::after) =
      if after.isEmpty then .ok (terminalState terminal)
      else .error (settlementError "Codex event stream contained conflicting terminal state") := by
  unfold validateTerminalEvents
  rw [List.zipIdx_append,List.filter_append,filter_zipIdx 0 hb,List.nil_append,List.zipIdx_cons,
    filter_terminal _ _ ht]
  cases after with
  | nil =>
    have hlength : (0 + before.length + 1 != (before ++ [terminal]).length) = false := by simp
    simp only [List.zipIdx_nil, List.filter_nil, List.isEmpty_nil, Bool.not_true, Bool.false_or,
      hlength, Bool.false_eq_true, if_false, if_true, terminalState]
    split <;> rfl
  | cons event after =>
    have hlength : (0 + before.length + 1 != (before ++ terminal::event::after).length) = true := by
      simp
    simp only [hlength, Bool.or_true, if_true, List.isEmpty_cons, Bool.false_eq_true, if_false]

/-- What is validated is a stream that ends in its only terminal event. -/
theorem validateTerminalEvents_eq_ok {state : TerminalState} :
    validateTerminalEvents events = .ok state ↔
      ∃ terminal, EndsIn events terminal ∧ state = terminalState terminal := by
  constructor
  · intro h
    cases hf : events.find? JsonLineEvent.isTerminal with
    | none =>
      have hno : ∀ event ∈ events, event.isTerminal = false := by simpa using hf
      rw [validateTerminalEvents,filter_zipIdx 0 hno] at h
      cases h
    | some terminal =>
      obtain ⟨ht,before,after,rfl,hb⟩ := List.find?_eq_some_iff_append.mp hf
      have hb : ∀ event ∈ before, event.isTerminal = false := by simpa using hb
      rw [validateTerminalEvents_append hb ht] at h
      split at h
      · next hempty =>
        obtain rfl := List.isEmpty_iff.mp hempty
        refine ⟨terminal,⟨ht,?_⟩,(Except.ok.inj h).symm⟩
        rw [beforeTerminal_append hb ht]
      · cases h
  · rintro ⟨terminal,hends,rfl⟩
    have hb : ∀ event ∈ beforeTerminal events, event.isTerminal = false := by
      intro event hmem
      simpa using List.mem_takeWhile_imp hmem
    rw [hends.last,validateTerminalEvents_append hb hends.isTerminal]
    rfl

end Terminal

section Effects
variable {events : List JsonLineEvent}

/-- Only a refused request is classified as without effects. -/
lemma classifyTerminalFailure_effects {failure : TurnFailureKind} {session : Option SessionHandle}
    {usage : Option TokenUsage} {duration : Option Duration} :
    (classifyTerminalFailure failure session usage duration).effects = .none ↔
      failure = .apiRequestRejected := by
  cases failure <;> simp [classifyTerminalFailure, AgentError.withEvidence, AgentError.new]

/-- A stream is refused after work exactly if it fails without effects and is not quiet. -/
lemma rejectedAfterWork_iff : RejectedAfterWork events ↔
    validateTerminalEvents events = .ok (.failed .apiRequestRejected) ∧ ¬Quiet events := by
  have hquiet : (∃ event ∈ beforeTerminal events, event.showsWork = true) ↔ ¬Quiet events := by
    simp [Quiet]
  rw [RejectedAfterWork,hquiet,validateTerminalEvents_eq_ok]
  refine and_congr_left fun _ => exists_congr fun terminal => and_congr_right fun hends => ?_
  have hterminal := hends.isTerminal
  unfold terminalState
  cases hc : terminal.isTurnCompleted with
  | true => simp
  | false => cases hk : terminal.turnFailureKind with
    | none => simp
    | some kind => cases kind <;> simp

/-- Handles that are taken, and the value they agree on. -/
lemma consistentProviderHandle_eq_ok {values : List String} {value : Option String} :
    consistentProviderHandle values = .ok value ↔ Consistent values ∧ value = values.head? := by
  cases values with
  | nil =>
    have hnil : Consistent [] := fun first h => by cases h
    exact ⟨fun h => ⟨hnil,(Except.ok.inj h).symm⟩,fun h => congrArg _ h.2.symm⟩
  | cons first values =>
    simp only [consistentProviderHandle, Consistent, List.head?_cons, Option.mem_some_iff,
      forall_eq', List.mem_cons, forall_eq_or_imp, true_and]
    generalize Text.isBlank first = blank
    generalize first.startsWith "-" = hyphen
    cases blank
    · cases hyphen
      · by_cases hv : ∀ value ∈ values, value = first
        · have hany : values.any (· != first) = false := by simpa using hv
          simp only [hany, Bool.or_self, Bool.false_eq_true, if_false, Except.ok.injEq, true_and]
          exact ⟨fun h => ⟨hv,h.symm⟩,fun h => h.2.symm⟩
        · have hany : values.any (· != first) = true := by simpa using hv
          simp only [hany, Bool.or_true, if_true]
          exact iff_of_false (fun h => by cases h) (fun h => hv h.1.2.2)
      · simp
    · simp

lemma consistentProviderHandle_isOk (values : List String) :
    (∃ value, consistentProviderHandle values = .ok value) ↔ Consistent values := by
  simp only [consistentProviderHandle_eq_ok, exists_and_left, exists_eq, and_true]

/-- The handles of a result that settlement takes. -/
structure ConsistentHandles (result : QueryResult) : Prop where
  thread : Consistent (result.events.filterMap JsonLineEvent.threadId ++ result.threadId.toList)
  session : Consistent (result.events.filterMap JsonLineEvent.sessionId ++ result.sessionId.toList)

lemma validatedResultSession_isOk (result : QueryResult) (prior : Option String)
    (ephemeral : Bool) : (∃ session, validatedResultSession result prior ephemeral = .ok session) ↔
      ConsistentHandles result := by
  have hthread := consistentProviderHandle_isOk
    (result.events.filterMap JsonLineEvent.threadId ++ result.threadId.toList)
  have hsession := consistentProviderHandle_isOk
    (result.events.filterMap JsonLineEvent.sessionId ++ result.sessionId.toList)
  constructor
  · rintro ⟨session,h⟩
    obtain ⟨t,ht,h⟩ := bind_eq_ok.mp h
    obtain ⟨s,hs,-⟩ := bind_eq_ok.mp h
    exact ⟨hthread.mp ⟨t,ht⟩,hsession.mp ⟨s,hs⟩⟩
  · rintro ⟨ht,hs⟩
    obtain ⟨t,ht⟩ := hthread.mpr ht
    obtain ⟨s,hs⟩ := hsession.mpr hs
    exact ⟨_,bind_eq_ok.mpr ⟨t,ht,bind_eq_ok.mpr ⟨s,hs,rfl⟩⟩⟩

/-- A parsed result fails without effects exactly if it is a refused request whose handles agree. -/
lemma settleOutcome_effects (result : QueryResult) (prior : Option String) (duration : Duration)
    (ephemeral structuredOutput : Bool) :
    (∃ e, settleOutcome result prior duration ephemeral structuredOutput = .error e ∧
      e.effects = .none) ↔
    validateTerminalEvents result.events = .ok (.failed .apiRequestRejected) ∧
      ConsistentHandles result := by
  constructor
  · rintro ⟨e,h,he⟩
    rcases bind_eq_error.mp h with h | ⟨terminal,ht,h⟩
    · obtain ⟨message,rfl⟩ := validateTerminalEvents_fails e h
      cases he
    · rcases bind_eq_error.mp h with h | ⟨session,hs,h⟩
      · obtain ⟨message,rfl⟩ := validatedResultSession_fails e h
        cases he
      · cases terminal with
        | completed => cases h
        | failed failure =>
          obtain rfl := Except.error.inj h
          rw [classifyTerminalFailure_effects] at he
          exact ⟨he ▸ ht,(validatedResultSession_isOk _ _ _).mp ⟨session,hs⟩⟩
  · rintro ⟨ht,hc⟩
    obtain ⟨session,hs⟩ := (validatedResultSession_isOk result prior ephemeral).mpr hc
    refine ⟨_,bind_eq_error.mpr (.inr ⟨_,ht,bind_eq_error.mpr (.inr ⟨session,hs,rfl⟩)⟩),?_⟩
    exact classifyTerminalFailure_effects.mpr rfl

/-- A captured stream is classified as without effects exactly if it is a refused request. -/
lemma terminalFailureFromStream_effects (parseLine : String → Option JsonLineEvent)
    (stdout : String) :
    (∃ e, terminalFailureFromStream parseLine stdout = some e ∧ e.effects = .none) ↔
      validateTerminalEvents ((Text.lines stdout).filterMap parseLine) =
        .ok (.failed .apiRequestRejected) := by
  unfold terminalFailureFromStream
  cases h : validateTerminalEvents ((Text.lines stdout).filterMap parseLine) with
  | error e => simp
  | ok state => cases state with
    | completed => simp
    | failed failure =>
      simp only [Option.some.injEq, exists_eq_left', Except.ok.injEq, TerminalState.failed.injEq]
      exact classifyTerminalFailure_effects

/-- A Codex failure without effects follows a quiet stream, on both settlement paths, exactly if the
stream does not refuse the request after the model had been at work (with handles that agree, on the
path that checks them). -/
theorem effects_none_quiet (parseLine : String → Option JsonLineEvent) :
    (∀ (result : QueryResult) (prior : Option String) (duration : Duration)
      (ephemeral structuredOutput : Bool),
      (∀ e, settleOutcome result prior duration ephemeral structuredOutput = .error e →
        e.effects = .none → Quiet result.events) ↔
      ¬(RejectedAfterWork result.events ∧ ConsistentHandles result)) ∧
    ∀ stdout : String,
      (∀ e, terminalFailureFromStream parseLine stdout = some e → e.effects = .none →
        Quiet ((Text.lines stdout).filterMap parseLine)) ↔
      ¬RejectedAfterWork ((Text.lines stdout).filterMap parseLine) := by
  refine ⟨fun result prior duration ephemeral structuredOutput => ?_,fun stdout => ?_⟩
  · have heffects := settleOutcome_effects result prior duration ephemeral structuredOutput
    rw [rejectedAfterWork_iff]
    constructor
    · rintro hclaim ⟨⟨hrejected,hnot⟩,hc⟩
      obtain ⟨e,he,hnone⟩ := heffects.mpr ⟨hrejected,hc⟩
      exact hnot (hclaim e he hnone)
    · intro hno e he hnone
      obtain ⟨hrejected,hc⟩ := heffects.mp ⟨e,he,hnone⟩
      by_contra hnot
      exact hno ⟨⟨hrejected,hnot⟩,hc⟩
  · have heffects := terminalFailureFromStream_effects parseLine stdout
    rw [rejectedAfterWork_iff]
    constructor
    · rintro hclaim ⟨hrejected,hnot⟩
      obtain ⟨e,he,hnone⟩ := heffects.mpr hrejected
      exact hnot (hclaim e he hnone)
    · intro hno e he hnone
      by_contra hnot
      exact hno ⟨heffects.mp ⟨e,he,hnone⟩,hnot⟩

end Effects

/-- A stream that ends in a refused request after an agent message. -/
def refusedAfterMessage : QueryResult where
  events := [{ agentMessageText := some "done", isItemCompleted := true },
    { isTurnFailed := true, turnFailureKind := some .apiRequestRejected }]

/-- Settlement says that a request refused after an agent message had no effects. -/
theorem refusedAfterMessage_effects :
    ¬∀ (result : QueryResult) (prior : Option String) (duration : Duration)
      (ephemeral structuredOutput : Bool) (e : AgentError),
      settleOutcome result prior duration ephemeral structuredOutput = .error e →
      e.effects = .none → Quiet result.events := by
  intro hclaim
  have hquiet := hclaim refusedAfterMessage none 0 false false _ rfl rfl
  exact absurd (hquiet _ List.mem_cons_self) (by decide)

end TowerAgent.Codex
