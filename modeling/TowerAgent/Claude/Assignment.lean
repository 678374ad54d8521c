import TowerAgent.Claude.Session

/-! The session that the host assigned to a Claude call: it survives every way out of the call on
which the provider does not contradict it, one excepted. -/
namespace TowerAgent.Claude
open Lib Kernel Adapter

/-- The assigned handle passed its validation: the call came that far, neither cancelled nor refused
before, and accepted it. -/
structure Passes (host : Host) (token : ℕ → Bool) (request : TurnRequest ClaudeOptions)
    (p : SessionHandle) : Prop where
  started : token 0 = false
  checked : preflightSession request.body = .ok ()
  accepted : validatePreassignedSession host request = .ok (some p)

/-- What a report establishes besides the session. -/
def established : Report → FailureEvidence
  | .ok result => {
      usage := result.tokenUsage
      cost := result.cost
      duration := result.duration
      providerTurns := result.numTurns }
  | .error (.maxTurnsExceeded _ costUsd numTurns _) =>
    { cost := costUsd.map Cost.usd, providerTurns := numTurns }
  | .error (.maxBudgetExceeded _ costUsd numTurns _) =>
    { cost := costUsd.map Cost.usd, providerTurns := numTurns }
  | .error _ => {}

/-- A report that names no session, or else the assigned one. -/
def Undisputed (p : SessionHandle) (report : Report) : Prop :=
  ∀ id ∈ (reported report).session, id = "" ∨ id = p.value

/-- A successful report without the structured output that was asked for. -/
def MissesOutput (requested : Bool) : Report → Prop
  | .ok result => requested = true ∧ result.isError = false ∧ result.payload = none
  | .error _ => False

/-- The failure of a report without the structured output that was asked for. -/
def missingOutput (report : Report) : AgentError :=
  (settlementError "Claude reported success without the requested structured output").withEvidence
    (established report)

section Settlement
variable {report : Report} {result : QueryResult} {p : SessionHandle} {prior : Option String}
  {requested : Bool}

/-- An error of the wrapper establishes what its ceiling counted. -/
lemma mapWrapperError_established (error : WrapperError) (session : Option SessionHandle) :
    { (mapWrapperError error).evidence.getD {} with session := session } =
      { established (.error error) with session := session } := by
  cases error with
  | auth kind => cases kind <;> rfl
  | io message =>
    unfold mapWrapperError
    dsimp only
    split <;> rfl
  | _ => rfl

lemma mapQueryError_evidence : (mapQueryError result (some p)).evidence =
    some { established (.ok result) with session := some p } := by
  unfold mapQueryError
  split <;> rfl

lemma undisputed_ok (h : Undisputed p (.ok result)) : disputes (some p) result.sessionId = false := by
  rcases h result.sessionId rfl with hid | hid <;> simp [disputes, hid]

/-- An undisputed report settles under the assigned session, with all it established, unless it
misses the structured output that was asked for. -/
lemma settleReport_assigned (hundisputed : Undisputed p report)
    (houtput : ¬MissesOutput requested report) :
    settledEvidence (settleReport report prior (some p) requested) =
      { established report with session := some p } := by
  cases report with
  | error error => exact mapWrapperError_established error (some p)
  | ok result =>
    rw [settleReport,settleResult,if_neg (Bool.not_eq_true _ ▸ undisputed_ok hundisputed)]
    cases herror : result.isError with
    | true => rw [if_pos rfl,settledEvidence,mapQueryError_evidence,Option.getD_some]
    | false =>
      rw [if_neg Bool.false_ne_true]
      cases hs : structuredOutput result requested with
      | ok structured => rfl
      | error error =>
        unfold structuredOutput at hs
        split at hs
        · next hpayload => exact absurd ⟨rfl,herror,hpayload⟩ houtput
        · cases hs
        · cases hs

/-- The exception: its failure keeps what was established, and names no session. -/
lemma settleReport_missing (hundisputed : Undisputed p report)
    (houtput : MissesOutput requested report) :
    settleReport report prior (some p) requested = .error (missingOutput report) := by
  cases report with
  | error error => exact houtput.elim
  | ok result =>
    obtain ⟨rfl,herror,hpayload⟩ := houtput
    have hmissing : structuredOutput result true = .error (settlementError
        "Claude reported success without the requested structured output") := by
      simp only [structuredOutput, hpayload]
    rw [settleReport,settleResult,if_neg (Bool.not_eq_true _ ▸ undisputed_ok hundisputed),
      if_neg (Bool.not_eq_true _ ▸ herror),hmissing]
    rfl

end Settlement

section Unreported
variable {service : ClaudeService} {host : Host} {wrapper : Wrapper} {token : ℕ → Bool}
  {request : TurnRequest ClaudeOptions} {p : SessionHandle} {e : AgentError}

/-- A failure whose evidence is the session alone. -/
def NamesOnly (p : SessionHandle) (e : AgentError) : Prop := e.evidence = some { session := some p }

lemma carry {α : Type} {x : Except AgentError α} (h : Fails Bare x) :
    Fails (NamesOnly p) (x.mapError (attachPreassignedSession (some p))) := by
  refine Fails.mapError (h.mono fun e he => ?_)
  rw [NamesOnly,attachPreassignedSession,he]
  rfl

lemma buildClaude_bare : Fails Bare (service.buildClaude host wrapper request).result :=
  buildClient_fails (clientOptions_fails.mono fun _ he => he.1) fun _ =>
    Fails.mapError fun _ _ => rfl

/-- Past the validation, a call that stops before the wrapper reports on it names the assigned session
and nothing else. -/
theorem call_names (h : Passes host token request p) :
    (service.call host wrapper token request).StopsBefore
      (fun step => ∃ report, step = .executed report) (NamesOnly p) := by
  have hambient : Fails (NamesOnly p) ((effectiveAmbientContext service.ambientContext
      request.body.options.ambientContext).mapError (attachPreassignedSession (some p))) :=
    carry (effectiveAmbientContext_refused.mono fun _ => Refused.bare)
  have hquery (ambient : ClaudeAmbientContext) : Fails (NamesOnly p) ((buildQuery host request.body
      ambient (some p)).mapError (attachPreassignedSession (some p))) :=
    carry (buildQuery_refused.mono fun _ => Refused.bare)
  have hcancelled : Fails (NamesOnly p) (if token 1 then .error (attachPreassignedSession (some p)
      (.cancelledBeforeLaunch names.display)) else .ok ()) := by
    split
    · exact Fails.error rfl
    · exact Fails.ok _
  simp only [ClaudeService.call, h.started, h.checked, h.accepted, Bool.false_eq_true, if_false,
    Traced.check_ok_bind]
  refine .bind hambient fun ambient _ => .bind (hquery ambient) fun query _ => ?_
  exact .bind (carry buildClaude_bare) fun claude _ => .bind hcancelled fun _ _ => execute_stops

/-- An assigned handle that passed its validation is the session of every way out of the call: of its
success and of every failure, launched or not, unless the provider reported another session. What
the report counted is kept with it. One way out names no session: a success without the structured
output that was asked for. -/
theorem assigned_survives (h : Passes host token request p) :
    (∀ report, .executed report ∈ (service.call host wrapper token request).steps →
      Undisputed p report →
      (¬MissesOutput request.body.options.jsonSchema.isSome report →
        settledEvidence (service.call host wrapper token request).result =
          { established report with session := some p }) ∧
      (MissesOutput request.body.options.jsonSchema.isSome report →
        (service.call host wrapper token request).result = .error (missingOutput report))) ∧
    ((∀ report, .executed report ∉ (service.call host wrapper token request).steps) →
      ∃ e, (service.call host wrapper token request).result = .error e ∧
        e.evidence = some { session := some p }) := by
  refine ⟨fun report hreport hundisputed => ?_,fun hno => ?_⟩
  · obtain ⟨-,-,preassigned,-,hpre,hresult⟩ := call_executed hreport
    obtain rfl : preassigned = some p := Except.ok.inj (hpre.symm.trans h.accepted)
    rw [hresult]
    exact ⟨settleReport_assigned hundisputed,settleReport_missing hundisputed⟩
  · have hstops : (service.call host wrapper token request).StopsBefore
      (fun step => ∃ report, step = .executed report) (NamesOnly p) := call_names h
    rcases hstops with hfails | ⟨_,hmem,report,rfl⟩
    · exact hfails
    · exact absurd hmem (hno report)

end Unreported

/-- A run stopped at its turn limit that names no session. -/
def namelessStop : Report := .error (.maxTurnsExceeded (some 3) none (some 3) none)

lemma assignedRequest_passes : Passes sampleHost (fun _ => false) assignedRequest assigned :=
  ⟨rfl,rfl,assignedRequest_accepted⟩

theorem assigned_survives_sample : settledEvidence (({} : ClaudeService).call sampleHost
    (reporting namelessStop) (fun _ => false) assignedRequest).result =
      { session := some assigned, providerTurns := some 3 } := by
  have hundisputed : Undisputed assigned namelessStop := fun id hid => by cases hid
  have hsurvives := (assigned_survives assignedRequest_passes).1 namelessStop
    (assignedRequest_executed namelessStop) hundisputed
  exact hsurvives.1 id

end TowerAgent.Claude
