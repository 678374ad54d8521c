import TowerAgent.Codex.Effects

/-! What the event stream decides: which streams settle to success, what the failures of the others
tell, and that a failed turn reads the same on both settlement paths. -/
namespace TowerAgent.Codex
open Lib Kernel Adapter

/-- The texts of a failed settlement. -/
def settlementTexts : List String :=
  ["Codex event stream did not contain a terminal turn event",
    "Codex event stream contained conflicting terminal state",
    "Codex event stream contained invalid session evidence",
    "Codex rejected the request before generating output",
    "Codex turn exhausted its rollout token budget",
    "Codex reported a failed turn"]

/-- The same event without the text of the assistant. -/
def JsonLineEvent.withoutText (event : JsonLineEvent) : JsonLineEvent :=
  { event with agentMessageText := none }

/-- The same result without any text of the assistant. -/
def QueryResult.withoutText (result : QueryResult) : QueryResult :=
  { result with result := "", events := result.events.map JsonLineEvent.withoutText }

/-- A stream that ends in a failed turn, its only terminal event. -/
def EndsFailed (events : List JsonLineEvent) : Prop :=
  ∃ terminal, EndsIn events terminal ∧ terminal.isTurnFailed = true ∧
    terminal.isTurnCompleted = false

section Stream
variable {events : List JsonLineEvent} {terminal : JsonLineEvent}

/-- A stream ends in its only terminal event if that is the one there is, and the last of all. -/
lemma endsIn_iff : EndsIn events terminal ↔
    events.filter JsonLineEvent.isTerminal = [terminal] ∧ events.getLast? = some terminal := by
  constructor
  · rintro ⟨ht,hlast⟩
    have hbefore : (beforeTerminal events).filter JsonLineEvent.isTerminal = [] := by
      rw [List.filter_eq_nil_iff]
      intro event hmem
      simpa using List.mem_takeWhile_imp hmem
    rw [hlast]
    refine ⟨?_,List.getLast?_concat⟩
    rw [List.filter_append,hbefore,List.nil_append,List.filter_cons_of_pos ht,List.filter_nil]
  · rintro ⟨honly,hlast⟩
    obtain ⟨before,rfl⟩ := List.getLast?_eq_some_iff.mp hlast
    have hmem : terminal ∈ (before ++ [terminal]).filter JsonLineEvent.isTerminal := by simp [honly]
    have ht : terminal.isTerminal = true := (List.mem_filter.mp hmem).2
    rw [List.filter_append,List.filter_cons_of_pos ht,List.filter_nil] at honly
    have hnil : before.filter JsonLineEvent.isTerminal = [] := by simpa using honly
    refine ⟨ht,?_⟩
    rw [beforeTerminal_append (fun event hevent => ?_) ht]
    simpa using List.filter_eq_nil_iff.mp hnil event hevent

lemma validateTerminalEvents_completed : validateTerminalEvents events = .ok .completed ↔
    ∃ terminal, EndsIn events terminal ∧ terminal.isTurnCompleted = true := by
  rw [validateTerminalEvents_eq_ok]
  refine exists_congr fun terminal => and_congr_right fun _ => ?_
  unfold terminalState
  cases terminal.isTurnCompleted <;> simp

lemma validateTerminalEvents_failed :
    (∃ failure, validateTerminalEvents events = .ok (.failed failure)) ↔ EndsFailed events := by
  constructor
  · rintro ⟨failure,h⟩
    obtain ⟨terminal,hends,hstate⟩ := validateTerminalEvents_eq_ok.mp h
    have hterminal := hends.isTerminal
    cases hc : terminal.isTurnCompleted with
    | true => simp [terminalState, hc] at hstate
    | false => exact ⟨terminal,hends,by simpa [JsonLineEvent.isTerminal, hc] using hterminal,hc⟩
  · rintro ⟨terminal,hends,-,hc⟩
    exact ⟨_,validateTerminalEvents_eq_ok.mpr ⟨terminal,hends,by rw [terminalState,hc]; rfl⟩⟩

/-- The texts of the assistant play no part in the check of the terminal events. -/
lemma validateTerminalEvents_withoutText (events : List JsonLineEvent) :
    validateTerminalEvents (events.map JsonLineEvent.withoutText) =
      validateTerminalEvents events := by
  have hkept : (fun entry : JsonLineEvent × ℕ => entry.1.isTerminal) ∘
      Prod.map JsonLineEvent.withoutText id = fun entry => entry.1.isTerminal := rfl
  unfold validateTerminalEvents
  rw [List.zipIdx_map,List.filter_map,hkept,List.length_map]
  cases events.zipIdx.filter (fun entry => entry.1.isTerminal) with
  | nil => rfl
  | cons entry entries => simp only [List.map_cons, List.isEmpty_map, Prod.map]; rfl

end Stream

section Settlement
variable {result : QueryResult} {prior : Option String} {duration : Duration}
  {ephemeral structuredOutput : Bool}

/-- Settlement succeeds on a completed turn whose handles agree, and on nothing else. -/
lemma settleOutcome_isOk :
    (∃ outcome, settleOutcome result prior duration ephemeral structuredOutput = .ok outcome) ↔
      validateTerminalEvents result.events = .ok .completed ∧ ConsistentHandles result := by
  constructor
  · rintro ⟨outcome,h⟩
    obtain ⟨terminal,ht,h⟩ := bind_eq_ok.mp h
    obtain ⟨session,hs,h⟩ := bind_eq_ok.mp h
    cases terminal with
    | failed failure => cases h
    | completed => exact ⟨ht,(validatedResultSession_isOk _ _ _).mp ⟨session,hs⟩⟩
  · rintro ⟨ht,hc⟩
    obtain ⟨session,hs⟩ := (validatedResultSession_isOk result prior ephemeral).mpr hc
    exact ⟨_,bind_eq_ok.mpr ⟨_,ht,bind_eq_ok.mpr ⟨session,hs,rfl⟩⟩⟩

lemma validateTerminalEvents_texts (events : List JsonLineEvent) :
    Fails (fun e => e.message ∈ settlementTexts ∧ e.evidence = none)
      (validateTerminalEvents events) := by
  unfold validateTerminalEvents
  split
  · exact Fails.error ⟨by simp [settlementTexts, settlementError, AgentError.new],rfl⟩
  · split
    · exact Fails.error ⟨by simp [settlementTexts, settlementError, AgentError.new],rfl⟩
    · split <;> exact Fails.ok _

lemma consistentProviderHandle_texts (values : List String) :
    Fails (fun e => e.message ∈ settlementTexts ∧ e.evidence = none)
      (consistentProviderHandle values) := by
  unfold consistentProviderHandle
  split
  · exact Fails.ok _
  · split
    · exact Fails.error ⟨by simp [settlementTexts, settlementError, AgentError.new],rfl⟩
    · exact Fails.ok _

lemma classifyTerminalFailure_text (failure : TurnFailureKind) (session : Option SessionHandle)
    (usage : Option TokenUsage) (duration : Option Duration) :
    (classifyTerminalFailure failure session usage duration).message ∈ settlementTexts := by
  cases failure <;>
    simp [settlementTexts, classifyTerminalFailure, AgentError.withEvidence, AgentError.new]

/-- How settlement fails: without evidence, on a stream that it refuses, or else on a failed turn. -/
lemma settleOutcome_eq_error {e : AgentError}
    (h : settleOutcome result prior duration ephemeral structuredOutput = .error e) :
    (e.message ∈ settlementTexts ∧ e.evidence = none) ∨
    ∃ failure session, validateTerminalEvents result.events = .ok (.failed failure) ∧
      validatedResultSession result prior ephemeral = .ok session ∧
      e = classifyTerminalFailure failure session (result.usage.map mapUsage) (some duration) := by
  rcases bind_eq_error.mp h with h | ⟨terminal,ht,h⟩
  · exact .inl (validateTerminalEvents_texts _ e h)
  · rcases bind_eq_error.mp h with h | ⟨session,hs,h⟩
    · refine .inl ((consistentProviderHandle_texts _).bind (fun _ => ?_) e h)
      exact (consistentProviderHandle_texts _).bind fun _ => Fails.ok _
    · cases terminal with
      | completed => cases h
      | failed failure => exact .inr ⟨failure,session,ht,hs,(Except.error.inj h).symm⟩

/-- A failed settlement reads no text of the assistant, nor whether a structured one was asked for. -/
lemma settleOutcome_withoutText (result : QueryResult) (prior : Option String)
    (duration : Duration) (ephemeral structuredOutput structuredOutput' : Bool) (e : AgentError) :
    settleOutcome result.withoutText prior duration ephemeral structuredOutput' = .error e ↔
      settleOutcome result prior duration ephemeral structuredOutput = .error e := by
  have hterminal : validateTerminalEvents result.withoutText.events =
      validateTerminalEvents result.events := validateTerminalEvents_withoutText _
  have hsession : validatedResultSession result.withoutText prior ephemeral =
      validatedResultSession result prior ephemeral := by
    simp only [validatedResultSession, QueryResult.withoutText, List.filterMap_map]
    rfl
  unfold settleOutcome
  rw [hterminal,hsession]
  cases validateTerminalEvents result.events with
  | error e' => exact Iff.rfl
  | ok terminal =>
    cases validatedResultSession result prior ephemeral with
    | error e' => exact Iff.rfl
    | ok session =>
      cases terminal with
      | completed => exact iff_of_false (fun h => by cases h) (fun h => by cases h)
      | failed failure => exact Iff.rfl

/-- Settlement succeeds exactly on a stream whose only terminal event is its last and a completed
turn, with handles that agree. Whatever else it is given fails with one of the fixed texts, in the
same way whatever the assistant said, and names a session only after a failed turn with handles that
agree. -/
theorem settleOutcome_coherent (result : QueryResult) (prior : Option String) (duration : Duration)
    (ephemeral structuredOutput : Bool) :
    ((∃ outcome, settleOutcome result prior duration ephemeral structuredOutput = .ok outcome) ↔
      (∃ terminal, result.events.filter JsonLineEvent.isTerminal = [terminal] ∧
        result.events.getLast? = some terminal ∧ terminal.isTurnCompleted = true) ∧
      ConsistentHandles result) ∧
    ∀ e, settleOutcome result prior duration ephemeral structuredOutput = .error e →
      e.message ∈ settlementTexts ∧
      (∀ (other : QueryResult) (structuredOutput' : Bool), other.withoutText = result.withoutText →
        settleOutcome other prior duration ephemeral structuredOutput' = .error e) ∧
      ((e.evidence.bind FailureEvidence.session).isSome →
        (∃ terminal, result.events.filter JsonLineEvent.isTerminal = [terminal] ∧
          result.events.getLast? = some terminal ∧ terminal.isTurnFailed = true ∧
          terminal.isTurnCompleted = false) ∧
        ConsistentHandles result) := by
  refine ⟨?_,fun e he => ⟨?_,fun other structuredOutput' hother => ?_,fun hsession => ?_⟩⟩
  · rw [settleOutcome_isOk,validateTerminalEvents_completed]
    simp only [endsIn_iff, and_assoc]
  · rcases settleOutcome_eq_error he with ⟨htext,-⟩ | ⟨failure,session,-,-,rfl⟩
    · exact htext
    · exact classifyTerminalFailure_text _ _ _ _
  · have hsilent := (settleOutcome_withoutText result prior duration ephemeral structuredOutput
      structuredOutput' e).mpr he
    rw [←hother] at hsilent
    exact (settleOutcome_withoutText other _ _ _ _ _ _).mp hsilent
  · rcases settleOutcome_eq_error he with ⟨-,hnone⟩ | ⟨failure,session,ht,hs,rfl⟩
    · simp [hnone] at hsession
    · obtain ⟨terminal,hends,hfailed⟩ := validateTerminalEvents_failed.mp ⟨failure,ht⟩
      obtain ⟨honly,hlast⟩ := endsIn_iff.mp hends
      exact ⟨⟨terminal,honly,hlast,hfailed⟩,(validatedResultSession_isOk _ _ _).mp ⟨session,hs⟩⟩

end Settlement

section ExitCode
variable {parseLine : String → Option JsonLineEvent} {stdout : String} {exitCode : Int}

/-- What a terminal failure means does not depend on the accounting and the session. -/
lemma classifyTerminalFailure_reading (failure : TurnFailureKind)
    (session session' : Option SessionHandle) (usage usage' : Option TokenUsage)
    (duration duration' : Option Duration) :
    let e := classifyTerminalFailure failure session usage duration
    let e' := classifyTerminalFailure failure session' usage' duration'
    e.kind = e'.kind ∧ e.phase = e'.phase ∧ e.effects = e'.effects ∧ e.message = e'.message := by
  cases failure <;> exact ⟨rfl,rfl,rfl,rfl⟩

lemma mapRunError_failed {failure : TurnFailureKind}
    (h : validateTerminalEvents ((Text.lines stdout).filterMap parseLine) = .ok (.failed failure)) :
    mapRunError parseLine (.commandFailed exitCode stdout) =
      classifyTerminalFailure failure none none none := by
  simp only [mapRunError, terminalFailureFromStream, h, Option.getD_some]

lemma mapRunError_generic
    (h : ¬EndsFailed ((Text.lines stdout).filterMap parseLine)) :
    mapRunError parseLine (.commandFailed exitCode stdout) =
      .commandFailed names.display exitCode := by
  rw [←validateTerminalEvents_failed] at h
  have hnone : terminalFailureFromStream parseLine stdout = none := by
    unfold terminalFailureFromStream
    cases ht : validateTerminalEvents ((Text.lines stdout).filterMap parseLine) with
    | error e => rfl
    | ok terminal =>
      cases terminal with
      | completed => rfl
      | failed failure => exact absurd ⟨failure,ht⟩ h
  simp only [mapRunError, hnone, Option.getD_none]

/-- A failed turn reads the same whether the CLI exits with zero and its events settle, or exits
with another code and they are found among the lines of its output; then no session is named. Any
other stream leaves a nonzero exit a failed command. -/
theorem classification_exit_code {result : QueryResult}
    (hstream : (Text.lines stdout).filterMap parseLine = result.events) (prior : Option String)
    (duration : Duration) (ephemeral structuredOutput : Bool) (exitCode : Int) :
    (EndsFailed result.events → ConsistentHandles result → ∃ e recovered,
      settleOutcome result prior duration ephemeral structuredOutput = .error e ∧
      mapRunError parseLine (.commandFailed exitCode stdout) = recovered ∧
      recovered.kind = e.kind ∧ recovered.phase = e.phase ∧ recovered.effects = e.effects ∧
      recovered.message = e.message ∧ recovered.evidence.bind FailureEvidence.session = none) ∧
    ((∃ terminal, EndsIn result.events terminal ∧ terminal.isTurnCompleted = true) ∨
      (¬∃ terminal, EndsIn result.events terminal) →
      mapRunError parseLine (.commandFailed exitCode stdout) =
        .commandFailed names.display exitCode) := by
  refine ⟨fun hfailed hc => ?_,fun hother => ?_⟩
  · obtain ⟨failure,ht⟩ := validateTerminalEvents_failed.mpr hfailed
    obtain ⟨session,hs⟩ := (validatedResultSession_isOk result prior ephemeral).mpr hc
    obtain ⟨hkind,hphase,heffects,hmessage⟩ := classifyTerminalFailure_reading failure none session
      none (result.usage.map mapUsage) none (some duration)
    refine ⟨_,_,bind_eq_error.mpr (.inr ⟨_,ht,bind_eq_error.mpr (.inr ⟨session,hs,rfl⟩)⟩),
      mapRunError_failed (hstream ▸ ht),hkind,hphase,heffects,hmessage,?_⟩
    cases failure <;> rfl
  · refine mapRunError_generic (hstream ▸ ?_)
    rintro ⟨terminal,hends,-,hfailed⟩
    rcases hother with ⟨terminal',hends',hcompleted⟩ | hnone
    · obtain ⟨honly,-⟩ := endsIn_iff.mp hends
      obtain ⟨honly',-⟩ := endsIn_iff.mp hends'
      obtain rfl : terminal = terminal' := by simpa using honly.symm.trans honly'
      rw [hfailed] at hcompleted
      cases hcompleted
    · exact hnone ⟨terminal,hends⟩

end ExitCode

/-- A turn that ran out of its budget, after its thread was named. -/
def exhaustedTurn : QueryResult where
  events := [{ threadId := some "thread-1" },
    { isTurnFailed := true, turnFailureKind := some .rolloutBudgetExhausted }]

/-- A parser of two event lines. -/
def sampleParseLine (line : String) : Option JsonLineEvent :=
  if line = "started" then some { threadId := some "thread-1" }
  else if line = "failed" then
    some { isTurnFailed := true, turnFailureKind := some .rolloutBudgetExhausted }
  else none

lemma exhaustedTurn_failed : EndsFailed exhaustedTurn.events :=
  ⟨_,⟨rfl,rfl⟩,rfl,rfl⟩

lemma exhaustedTurn_consistent : ConsistentHandles exhaustedTurn := by
  refine ⟨?_,fun first h => by cases h⟩
  rintro first ⟨⟩
  refine ⟨by decide +kernel,by decide +kernel,?_⟩
  intro value hvalue
  exact List.mem_singleton.mp hvalue

theorem classification_exit_code_sample : ∃ e recovered,
    settleOutcome exhaustedTurn none 0 false false = .error e ∧
    mapRunError sampleParseLine (.commandFailed 1 "warning\nstarted\n\nfailed\n") = recovered ∧
    recovered.kind = e.kind ∧ recovered.phase = e.phase ∧ recovered.effects = e.effects ∧
    recovered.message = e.message ∧ recovered.evidence.bind FailureEvidence.session = none :=
  (classification_exit_code (by decide +kernel) none 0 false false 1).1 exhaustedTurn_failed
    exhaustedTurn_consistent

end TowerAgent.Codex
