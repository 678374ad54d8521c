import TowerAgent.Codex.Stream
import TowerAgent.Adapter.Parity

/-! The session that a Codex call advertises: where it comes from, and that Codex resumes it. -/
namespace TowerAgent.Codex
open Lib Kernel Adapter

namespace QueryResult
variable (result : QueryResult)

/-- The thread ids of a stream and its result. -/
def threadIds : List String :=
  result.events.filterMap JsonLineEvent.threadId ++ result.threadId.toList

/-- The session ids of a stream and its result. -/
def sessionIds : List String :=
  result.events.filterMap JsonLineEvent.sessionId ++ result.sessionId.toList

end QueryResult

section Checked
variable {session : SessionHandle} {value : String} {values : List String}

/-- A handle that the checks pass is one of Codex, neither blank nor an option of the CLI. -/
lemma checkSession_eq_ok : checkSession session = .ok value ↔ session.provider = names.provider ∧
    Text.isBlank session.value = false ∧ session.value.startsWith "-" = false ∧
    value = session.value := by
  unfold checkSession
  split
  · next hprovider => exact iff_of_false (fun h => by cases h) (fun h => hprovider h.1)
  · next hprovider =>
    have hprovider : session.provider = names.provider := not_not.mp hprovider
    simp only [hprovider, true_and]
    unfold refuse
    cases Text.isBlank session.value with
    | true => exact iff_of_false (fun h => by cases h) (fun h => by cases h.1)
    | false =>
      cases session.value.startsWith "-" with
      | true => exact iff_of_false (fun h => by cases h) (fun h => by cases h.2.1)
      | false => exact ⟨fun h => ⟨rfl,rfl,(Except.ok.inj h).symm⟩,fun h => congrArg _ h.2.2.symm⟩

/-- What handles agree on passes the checks on a session to resume. -/
lemma Consistent.checkSession (h : Consistent values) (hv : values.head? = some value) :
    checkSession (handle value) = .ok value := by
  obtain ⟨hblank,hhyphen,-⟩ := h value hv
  exact checkSession_eq_ok.mpr ⟨rfl,hblank,hhyphen,rfl⟩

/-- The session of an accepted turn is the one it resumes, which passes the checks. -/
lemma preflightTurn_session {host : Host} {policy : AuthorityPolicy} {turn : CodexTurn}
    {validated : ValidatedCodexTurn} (h : preflightTurn host policy turn = .ok validated) :
    validated.session = turn.session.map SessionHandle.value ∧
      ∀ prior ∈ validated.session, checkSession (handle prior) = .ok prior := by
  obtain ⟨sessions,schemas,hsession,-,-,-,hvalidated,-⟩ := preflightTurn_parts h
  rw [hvalidated]
  rcases mapM_toList_eq_ok hsession with ⟨hnone,rfl⟩ | ⟨resumed,prior,hsome,hchecked,rfl⟩
  · rw [hnone]
    exact ⟨rfl,fun prior hprior => by cases hprior⟩
  · obtain ⟨-,hblank,hhyphen,rfl⟩ := checkSession_eq_ok.mp hchecked
    rw [hsome]
    refine ⟨rfl,?_⟩
    rintro _ ⟨⟩
    exact checkSession_eq_ok.mpr ⟨rfl,hblank,hhyphen,rfl⟩

end Checked

section Advertised
variable {result : QueryResult} {prior : Option String} {ephemeral : Bool}
  {session : SessionHandle}

/-- The session that settlement takes: the thread, or else the session, or else the one resumed. -/
lemma validatedResultSession_eq_some
    (h : validatedResultSession result prior ephemeral = .ok (some session)) :
    ConsistentHandles result ∧ ephemeral = false ∧ ∃ value, session = handle value ∧
      (result.threadIds.head?.or result.sessionIds.head?).or prior = some value := by
  have hc := (validatedResultSession_isOk _ _ _).mp ⟨_,h⟩
  obtain ⟨thread,ht,h⟩ := bind_eq_ok.mp h
  obtain ⟨sessionId,hs,h⟩ := bind_eq_ok.mp h
  obtain ⟨-,rfl⟩ := consistentProviderHandle_eq_ok.mp ht
  obtain ⟨-,rfl⟩ := consistentProviderHandle_eq_ok.mp hs
  have h := Except.ok.inj h
  cases ephemeral with
  | true => cases h
  | false =>
    obtain ⟨value,hvalue,rfl⟩ := Option.map_eq_some_iff.mp h
    exact ⟨hc,rfl,value,rfl,hvalue⟩

/-- It passes the checks on a session to resume, if the one resumed does. -/
lemma validatedResultSession_checked
    (hprior : ∀ value ∈ prior, checkSession (handle value) = .ok value)
    (h : validatedResultSession result prior ephemeral = .ok (some session)) :
    checkSession session = .ok session.value := by
  obtain ⟨hc,-,value,rfl,hvalue⟩ := validatedResultSession_eq_some h
  rcases Option.or_eq_some_iff.mp hvalue with hvalue | ⟨-,hvalue⟩
  · rcases Option.or_eq_some_iff.mp hvalue with hvalue | ⟨-,hvalue⟩
    · exact hc.thread.checkSession hvalue
    · exact hc.session.checkSession hvalue
  · exact hprior value hvalue

/-- No error of the wrapper leads to a failure that names a session. -/
lemma mapRunError_session (parseLine : String → Option JsonLineEvent) (error : WrapperError) :
    ((mapRunError parseLine error).evidence.getD {}).session = none := by
  cases error with
  | io message =>
    unfold mapRunError
    dsimp only
    split <;> rfl
  | commandFailed exitCode stdout =>
    by_cases h : EndsFailed ((Text.lines stdout).filterMap parseLine)
    · obtain ⟨failure,hfailure⟩ := validateTerminalEvents_failed.mpr h
      rw [mapRunError_failed hfailure]
      cases failure <;> rfl
    · rw [mapRunError_generic h]
      rfl
  | _ => rfl

/-- The session that a settled call names is the one that settlement takes from its result. -/
lemma settleReport_session {parseLine : String → Option JsonLineEvent} {report : Report}
    {duration : Duration} {structuredOutput : Bool} (h : (settledEvidence (settleReport parseLine
      report prior duration ephemeral structuredOutput)).session = some session) :
    ∃ result, report = .ok result ∧
      validatedResultSession result prior ephemeral = .ok (some session) := by
  cases report with
  | error error =>
    rw [settleReport,settledEvidence,mapRunError_session] at h
    cases h
  | ok result =>
    refine ⟨result,rfl,?_⟩
    rw [settleReport] at h
    cases hsettled : settleOutcome result prior duration ephemeral structuredOutput with
    | ok outcome =>
      rw [hsettled] at h
      obtain ⟨terminal,-,hs⟩ := bind_eq_ok.mp hsettled
      obtain ⟨taken,htaken,hs⟩ := bind_eq_ok.mp hs
      cases terminal with
      | failed failure => cases hs
      | completed =>
        obtain rfl := Except.ok.inj hs
        exact htaken.trans (congrArg _ h)
    | error e =>
      rw [hsettled] at h
      rcases settleOutcome_eq_error hsettled with ⟨-,hnone⟩ | ⟨failure,taken,-,htaken,rfl⟩
      · simp [settledEvidence, hnone] at h
      · refine htaken.trans (congrArg _ ?_)
        cases failure with
        | apiRequestRejected => cases h
        | rolloutBudgetExhausted => exact h
        | other => exact h

end Advertised

section Call
variable {service : CodexService} {host : Host} {wrapper : Wrapper} {token : ℕ → Bool}
  {elapsed : Duration} {request : TurnRequest CodexOptions}

lemma schemaPath_bare {schema : Option String} : Fails Bare (schemaPath wrapper schema).result := by
  intro e h
  rcases schemaPath_error h with rfl | rfl <;> rfl

lemma buildCodex_bare {directory : Option PathBuf} {operationId : UInt64} :
    Fails Bare (buildClient (R := Report) names service.settings host.environment
      (fun options => (wrapper.build options).mapError mapLaunchError) directory
      operationId).result :=
  buildClient_fails (clientOptions_fails.mono fun _ he => he.1) fun _ =>
    Fails.mapError fun error _ => by cases error <;> rfl

lemma cancelledCheck_bare {cancelled : Bool} :
    Fails Bare (CodexService.cancelledCheck cancelled) := by
  unfold CodexService.cancelledCheck
  split
  · exact Fails.error rfl
  · exact Fails.ok _

/-- A call that stops before the wrapper reports on it fails without evidence. -/
theorem call_bare : (service.call host wrapper token elapsed request).StopsBefore
    (fun step => ∃ report, step = .executed report) Bare := by
  have hpreassigned : Fails Bare (if request.context.preassignedSession.isSome then
      .error (.unsupported "Codex does not support host-preassigned fresh session IDs")
      else .ok ()) := by
    split
    · exact Fails.error rfl
    · exact Fails.ok _
  have hprepare : Fails Bare (prepare host service.authorityPolicy (token 0) request.body) := by
    unfold prepare
    split
    · exact Fails.error rfl
    · exact (preflightTurn_reads.mono fun e he => he.1).bind fun _ => Fails.ok _
  have hskill : Fails Bare (renderSkillConfig host service.skillPolicy) :=
    renderSkillConfig_reads.mono fun e he => he.1
  refine .bind hpreassigned fun _ _ => .bind hprepare fun turn _ => ?_
  refine .bind cancelledCheck_bare fun _ _ => .bind hskill fun skillConfig _ => ?_
  refine .bind buildCodex_bare fun codex _ => .bind cancelledCheck_bare fun _ _ => ?_
  exact .bind schemaPath_bare fun path _ => execute_stops

/-- A session that a call ends with passes the checks on a session to resume. None is named after an
ephemeral turn; else it is the first thread id of the reported stream, or its first session id, or
the session that the turn resumed. -/
theorem call_session {session : SessionHandle} (h : (settledEvidence
      (service.call host wrapper token elapsed request).result).session = some session) :
    session.provider = names.provider ∧ checkSession session = .ok session.value ∧
    request.body.options.ephemeral = false ∧
    ∃ result, .executed (.ok result) ∈ (service.call host wrapper token elapsed request).steps ∧
      some session.value = (result.threadIds.head?.or result.sessionIds.head?).or
        (request.body.session.map SessionHandle.value) := by
  obtain ⟨report,hreport⟩ : ∃ report,
      .executed report ∈ (service.call host wrapper token elapsed request).steps := by
    have hstops : (service.call host wrapper token elapsed request).StopsBefore
      (fun step => ∃ report, step = .executed report) Bare := call_bare
    rcases hstops with ⟨e,he,hbare⟩ | ⟨_,hmem,report,rfl⟩
    · rw [he,settledEvidence,hbare] at h
      cases h
    · exact ⟨report,hmem⟩
  obtain ⟨-,-,turn,-,hprepare,hresult⟩ := call_executed hreport
  obtain ⟨validated,hvalidated,hsession,-,hephemeral⟩ := prepare_parts hprepare
  obtain ⟨hresumed,hprior⟩ := preflightTurn_session hvalidated
  rw [hresult,hsession,hephemeral] at h
  obtain ⟨result,rfl,htaken⟩ := settleReport_session h
  have hchecked := validatedResultSession_checked hprior htaken
  obtain ⟨-,hdurable,value,rfl,hvalue⟩ := validatedResultSession_eq_some htaken
  exact ⟨rfl,hchecked,hdurable,result,hreport,hvalue.symm.trans (by rw [hresumed])⟩

end Call

def resumingRequest : TurnRequest CodexOptions where
  context := { operationId := 1, deadline := none }
  body := { prompt := "go", session := some ⟨"codex","thread-1"⟩, options := {} }

/-- A wrapper whose turns complete under a session id alone. -/
def sessionWrapper : Wrapper where
  build _ := .ok ()
  executeJson _ _ := .ok {
    sessionId := some "session-1"
    events := [{ isTurnCompleted := true }] }
  parseLine _ := none
  materialize _ := none

theorem call_session_sample :
    checkSession ⟨"codex","session-1"⟩ = .ok "session-1" :=
  have h : (settledEvidence (({} : CodexService).call sampleHost sessionWrapper (fun _ => false) 0
      resumingRequest).result).session = some ⟨"codex","session-1"⟩ := by decide +kernel
  (call_session h).2.1

end TowerAgent.Codex
