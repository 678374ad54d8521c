import TowerAgent.Claude.Settle

/-! The session that a failed Claude call advertises when the provider contradicts the handle that the
host assigned. -/
namespace TowerAgent.Claude
open Lib Kernel Adapter

/-- What a report counted and the session it names. -/
structure Reported where
  session : Option String
  cost : Option Cost
  usage : Option TokenUsage
  turns : Option UInt32
  deriving DecidableEq, Repr

/-- What the adapter can read of a report. -/
def reported : Report → Reported
  | .ok result => ⟨some result.sessionId,result.cost,result.tokenUsage,result.numTurns⟩
  | .error (.maxTurnsExceeded _ costUsd numTurns sessionId) =>
    ⟨sessionId,costUsd.map Cost.usd,none,numTurns⟩
  | .error (.maxBudgetExceeded _ costUsd numTurns sessionId) =>
    ⟨sessionId,costUsd.map Cost.usd,none,numTurns⟩
  | .error _ => ⟨none,none,none,none⟩

/-- A failed call whose evidence names no session and keeps what the report counted. -/
structure Withholds (report : Report) (e : AgentError) : Prop where
  session : e.evidence.bind FailureEvidence.session = none
  cost : e.evidence.bind FailureEvidence.cost = (reported report).cost
  usage : e.evidence.bind FailureEvidence.usage = (reported report).usage
  turns : e.evidence.bind FailureEvidence.providerTurns = (reported report).turns

section Disputed
variable {report : Report} {p : SessionHandle} {id : String} {prior : Option String}
  {requested : Bool}

lemma disputes_eq_true (hne : id ≠ "") (hd : id ≠ p.value) : disputes (some p) id = true := by
  simp [disputes, hne, hd]

/-- A parsed result that names another session settles to a failure that names none. -/
lemma settleResult_disputed {result : QueryResult} (h : disputes (some p) result.sessionId = true) :
    ∃ e, settleResult result prior (some p) requested = .error e ∧ Withholds (.ok result) e := by
  refine ⟨_,if_pos h,?_⟩
  constructor <;> rfl

/-- An error of the wrapper settles to a failure that names the assigned session. -/
lemma settleReport_error (error : WrapperError) (prior : Option String) (p : SessionHandle)
    (requested : Bool) : ∃ e,
    settleReport (.error error) prior (some p) requested = .error e ∧
      e.evidence.bind FailureEvidence.session = some p :=
  ⟨_,rfl,rfl⟩

/-- With an accepted preassigned handle, a report that names another session leads to a failure that
names neither exactly if the report is a parsed result. -/
theorem disputed_session_withheld {service : ClaudeService} {host : Host} {wrapper : Wrapper}
    {token : ℕ → Bool} {request : TurnRequest ClaudeOptions}
    (hp : validatePreassignedSession host request = .ok (some p))
    (h : .executed report ∈ (service.call host wrapper token request).steps)
    (hs : (reported report).session = some id) (hne : id ≠ "") (hd : id ≠ p.value) :
    (∃ e, (service.call host wrapper token request).result = .error e ∧ Withholds report e) ↔
      ∃ result, report = .ok result := by
  obtain ⟨-,-,preassigned,-,hpre,hresult⟩ := call_executed h
  obtain rfl : preassigned = some p := Except.ok.inj (hpre.symm.trans hp)
  rw [hresult]
  cases report with
  | ok result =>
    obtain rfl : result.sessionId = id := Option.some.inj hs
    exact iff_of_true (settleResult_disputed (disputes_eq_true hne hd)) ⟨result,rfl⟩
  | error error =>
    obtain ⟨e,he,hsession⟩ := settleReport_error error (request.body.session.map _) p
      request.body.options.jsonSchema.isSome
    refine iff_of_false ?_ (fun ⟨result,hr⟩ => by cases hr)
    rintro ⟨e',he',hw⟩
    obtain rfl := Except.error.inj (he.symm.trans he')
    rw [hw.session] at hsession
    cases hsession

end Disputed

def assigned : SessionHandle := ⟨"claude","550e8400-e29b-41d4-a716-446655440000"⟩

/-- A fresh request under a preassigned handle. -/
def assignedRequest : TurnRequest ClaudeOptions where
  context := { operationId := 1, deadline := none, preassignedSession := some assigned }
  body := { prompt := "go", options := {} }

/-- A wrapper that finds its executable and always reports the same. -/
def reporting (report : Report) : Wrapper where
  build _ := .ok ()
  executeJson _ _ := report

/-- A run stopped at its turn limit under another session. -/
def railStop : Report := .error (.maxTurnsExceeded (some 3) none (some 3) (some "other"))

def otherResult : QueryResult := { result := "", sessionId := "other", numTurns := some 3 }

/-- The one report of a wrapper that always reports the same. -/
lemma reporting_executed {service : ClaudeService} {host : Host} {report : Report} {token : ℕ → Bool}
    {request : TurnRequest ClaudeOptions}
    (h : (service.call host (reporting report) token request).steps.any LaunchStep.isExecuted = true) :
    .executed report ∈ (service.call host (reporting report) token request).steps := by
  obtain ⟨report',h'⟩ := exists_executed h
  obtain ⟨_,_,_,rfl,-,-⟩ := call_executed h'
  exact h'

lemma assignedRequest_accepted :
    validatePreassignedSession sampleHost assignedRequest = .ok (some assigned) := rfl

lemma assignedRequest_executed (report : Report) :
    .executed report ∈ (({} : ClaudeService).call sampleHost (reporting report) (fun _ => false)
      assignedRequest).steps :=
  reporting_executed rfl

theorem disputed_session_sample : (∃ e, (({} : ClaudeService).call sampleHost
    (reporting (.ok otherResult)) (fun _ => false) assignedRequest).result = .error e ∧
      Withholds (.ok otherResult) e) ↔ ∃ result, (.ok otherResult : Report) = .ok result :=
  disputed_session_withheld assignedRequest_accepted (assignedRequest_executed _) rfl (by decide)
    (by decide)

/-- A run stopped at its turn limit under another session advertises the assigned one. -/
theorem railStop_advertised : ¬∀ (service : ClaudeService) (host : Host) (wrapper : Wrapper)
    (token : ℕ → Bool) (request : TurnRequest ClaudeOptions) (p : SessionHandle) (report : Report)
    (id : String), validatePreassignedSession host request = .ok (some p) →
    .executed report ∈ (service.call host wrapper token request).steps →
    (reported report).session = some id → id ≠ "" → id ≠ p.value →
    ∃ e, (service.call host wrapper token request).result = .error e ∧ Withholds report e := by
  intro hclaim
  obtain ⟨e,he,hw⟩ := hclaim {} sampleHost (reporting railStop) (fun _ => false) assignedRequest
    assigned railStop "other" assignedRequest_accepted (assignedRequest_executed _) rfl (by decide)
    (by decide)
  obtain ⟨-,-,preassigned,-,hpre,hresult⟩ := call_executed (assignedRequest_executed railStop)
  obtain rfl : preassigned = some assigned :=
    Except.ok.inj (hpre.symm.trans assignedRequest_accepted)
  obtain rfl := Except.error.inj (hresult.symm.trans he)
  exact absurd hw.session (by decide)

end TowerAgent.Claude
