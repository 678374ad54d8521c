import TowerAgent.Claude.Settle
import TowerAgent.Codex.Stream

/-! The structured payload of a settled call, as both adapters implement it. -/
namespace TowerAgent.Adapter
open Lib Kernel

/-- The portable contract on a structured payload: it is present where one was requested, absent where
none was, and a request whose payload did not arrive fails. -/
structure StructuredContract (requested arrived : Bool) (result : CallResult) : Prop where
  present : ∀ outcome, result = .ok outcome → requested = true → outcome.structured.isSome = true
  absent : ∀ outcome, result = .ok outcome → requested = false → outcome.structured = none
  fails : requested = true → arrived = false → ∃ e, result = .error e

section Contract
variable {requested arrived : Bool} {result : CallResult}

/-- A failed call meets the contract. -/
lemma StructuredContract.of_error {e : AgentError} :
    StructuredContract requested arrived (.error e) where
  present _ h := by cases h
  absent _ h := by cases h
  fails _ _ := ⟨e,rfl⟩

/-- A call that requested no payload meets the contract by returning none. -/
lemma StructuredContract.of_unrequested
    (h : ∀ outcome, result = .ok outcome → outcome.structured = none) :
    StructuredContract false arrived result where
  present _ _ hr := by cases hr
  absent outcome ho _ := h outcome ho
  fails hr := by cases hr

end Contract

section Claude
open Claude

/-- A payload came with the report. -/
def claudeArrived : Claude.Report → Bool
  | .ok result => result.payload.isSome
  | .error _ => false

/-- What Claude settles meets the contract. -/
lemma claude_structured (report : Claude.Report) (prior : Option String)
    (preassigned : Option SessionHandle) (requested : Bool) :
    StructuredContract requested (claudeArrived report)
      (Claude.settleReport report prior preassigned requested) := by
  cases report with
  | error error => exact .of_error
  | ok result =>
    unfold Claude.settleReport settleResult
    dsimp only
    split
    · exact .of_error
    · split
      · exact .of_error
      · cases requested with
        | false => exact .of_unrequested (fun outcome h => by rw [←Except.ok.inj h])
        | true =>
          cases hp : result.payload with
          | none =>
            simp only [structuredOutput, hp]
            exact .of_error
          | some payload =>
            simp only [structuredOutput, hp]
            refine ⟨fun outcome h _ => ?_,fun _ _ h => (by cases h),fun _ ha => ?_⟩
            · rw [←Except.ok.inj h]
              rfl
            · rw [claudeArrived,hp] at ha
              cases ha

end Claude

section Codex
open Codex

/-- An agent message, the payload of a schema-constrained turn, came with the report. -/
def codexArrived : Codex.Report → Bool
  | .ok result => result.events.any (fun event => event.agentMessageText.isSome)
  | .error _ => false

/-- The report is a stream that ends in a completed turn, with handles that agree. -/
def Completes (report : Codex.Report) : Prop :=
  ∃ result, report = .ok result ∧ ConsistentHandles result ∧
    ∃ terminal, EndsIn result.events terminal ∧ terminal.isTurnCompleted = true

/-- Codex settles a call Ok exactly for a completed turn, and then without a structured payload. -/
lemma settleReport_eq_ok (parseLine : String → Option JsonLineEvent) (report : Codex.Report)
    (prior : Option String) (duration : Duration) (ephemeral requested : Bool) :
    (∀ outcome, Codex.settleReport parseLine report prior duration ephemeral requested =
      .ok outcome → outcome.structured = none) ∧
    ((∃ outcome, Codex.settleReport parseLine report prior duration ephemeral requested =
      .ok outcome) ↔ Completes report) := by
  cases report with
  | error error =>
    refine ⟨fun outcome h => (by cases h),iff_of_false ?_ ?_⟩
    · rintro ⟨outcome,h⟩
      cases h
    · rintro ⟨result,h,-⟩
      cases h
  | ok result =>
    refine ⟨fun outcome h => ?_,settleOutcome_isOk.trans ?_⟩
    · obtain ⟨terminal,-,h⟩ := bind_eq_ok.mp h
      obtain ⟨session,-,h⟩ := bind_eq_ok.mp h
      cases terminal with
      | failed failure => cases h
      | completed => rw [←Except.ok.inj h]
    · rw [validateTerminalEvents_completed]
      constructor
      · rintro ⟨hterminal,hconsistent⟩
        exact ⟨result,rfl,hconsistent,hterminal⟩
      · rintro ⟨result',hresult,hconsistent,hterminal⟩
        obtain rfl := Except.ok.inj hresult
        exact ⟨hterminal,hconsistent⟩

/-- What Codex settles meets the contract unless a payload was requested of a turn that completed. -/
lemma codex_structured (parseLine : String → Option JsonLineEvent) (report : Codex.Report)
    (prior : Option String) (duration : Duration) (ephemeral requested : Bool) :
    StructuredContract requested (codexArrived report)
      (Codex.settleReport parseLine report prior duration ephemeral requested) ↔
    ¬(requested = true ∧ Completes report) := by
  obtain ⟨hnone,hok⟩ := settleReport_eq_ok parseLine report prior duration ephemeral requested
  constructor
  · rintro hcontract ⟨hr,hc⟩
    obtain ⟨outcome,h⟩ := hok.mpr hc
    have hpresent := hcontract.present outcome h hr
    rw [hnone outcome h] at hpresent
    cases hpresent
  · intro hno
    cases requested with
    | false => exact .of_unrequested hnone
    | true =>
      cases hs : Codex.settleReport parseLine report prior duration ephemeral true with
      | error e => exact .of_error
      | ok outcome => exact absurd ⟨rfl,hok.mp ⟨outcome,hs⟩⟩ hno

end Codex

/-- Every Claude call meets the contract on structured payloads. A Codex call meets it, whatever its
wrapper reports, exactly unless it requested a payload and the report is a completed turn. A call
without a report fails. -/
theorem structured_contract (host : Host) (token : ℕ → Bool) (elapsed : Duration)
    (claude : Claude.ClaudeService) (claudeWrapper : Claude.Wrapper)
    (claudeRequest : TurnRequest Claude.ClaudeOptions)
    (codex : Codex.CodexService) (codexWrapper : Codex.Wrapper)
    (codexRequest : TurnRequest Codex.CodexOptions) :
    ((∀ report, .executed report ∈ (claude.call host claudeWrapper token claudeRequest).steps →
        StructuredContract claudeRequest.body.options.jsonSchema.isSome (claudeArrived report)
          (claude.call host claudeWrapper token claudeRequest).result) ∧
      ((∀ report, .executed report ∉ (claude.call host claudeWrapper token claudeRequest).steps) →
        ∃ e, (claude.call host claudeWrapper token claudeRequest).result = .error e)) ∧
    (∀ report, .executed report ∈ (codex.call host codexWrapper token elapsed codexRequest).steps →
        (StructuredContract codexRequest.body.options.outputSchema.isSome (codexArrived report)
          (codex.call host codexWrapper token elapsed codexRequest).result ↔
        ¬(codexRequest.body.options.outputSchema.isSome = true ∧ Completes report))) ∧
      ((∀ report, .executed report ∉
          (codex.call host codexWrapper token elapsed codexRequest).steps) →
        ∃ e, (codex.call host codexWrapper token elapsed codexRequest).result = .error e) := by
  refine ⟨⟨fun report h => ?_,fun hno => ?_⟩,fun report h => ?_,fun hno => ?_⟩
  · obtain ⟨-,-,preassigned,-,-,hresult⟩ := Claude.call_executed h
    rw [hresult]
    exact claude_structured _ _ _ _
  · cases hr : (claude.call host claudeWrapper token claudeRequest).result with
    | error e => exact ⟨e,rfl⟩
    | ok outcome =>
      obtain ⟨report,h⟩ := Claude.call_ok hr
      exact absurd h (hno report)
  · obtain ⟨-,-,turn,-,hturn,hresult⟩ := Codex.call_executed h
    rw [hresult,←Codex.prepare_outputSchema hturn]
    exact codex_structured _ _ _ _ _ _
  · cases hr : (codex.call host codexWrapper token elapsed codexRequest).result with
    | error e => exact ⟨e,rfl⟩
    | ok outcome =>
      obtain ⟨report,h⟩ := Codex.call_ok hr
      exact absurd h (hno report)

/-- A Claude request for a schema-constrained output. -/
def claudeSchemaRequest : TurnRequest Claude.ClaudeOptions where
  context := { operationId := 1, deadline := none }
  body := { prompt := "go", options := { jsonSchema := some (.object []) } }

/-- A result that carries the payload that was asked for. -/
def claudeReport : Claude.Report :=
  .ok { result := "done", extra := [("structured_output",.object [])] }

def claudeWrapper : Claude.Wrapper where
  build _ := .ok ()
  executeJson _ _ := claudeReport

/-- A Codex request for a schema-constrained output. -/
def codexSchemaRequest : TurnRequest Codex.CodexOptions where
  context := { operationId := 1, deadline := none }
  body := { prompt := "go", options := { outputSchema := some (.object []) } }

/-- A completed turn whose last agent message is the payload. -/
def codexReport : Codex.Report :=
  .ok { events := [{ agentMessageText := some "{}", isItemCompleted := true },
    { isTurnCompleted := true }] }

def codexWrapper : Codex.Wrapper where
  build _ := .ok ()
  executeJson _ _ := codexReport
  parseLine _ := none
  materialize _ := some "/tmp/schema.json"

lemma claudeSchemaRequest_executed : .executed claudeReport ∈ (({} : Claude.ClaudeService).call
    sampleHost claudeWrapper (fun _ => false) claudeSchemaRequest).steps := by
  have hany : (({} : Claude.ClaudeService).call sampleHost claudeWrapper (fun _ => false)
    claudeSchemaRequest).steps.any LaunchStep.isExecuted = true := rfl
  obtain ⟨report,h⟩ := exists_executed hany
  obtain ⟨_,_,_,rfl,-,-⟩ := Claude.call_executed h
  exact h

lemma codexSchemaRequest_executed : .executed codexReport ∈ (({} : Codex.CodexService).call
    sampleHost codexWrapper (fun _ => false) 0 codexSchemaRequest).steps := by
  have hany : (({} : Codex.CodexService).call sampleHost codexWrapper (fun _ => false) 0
    codexSchemaRequest).steps.any LaunchStep.isExecuted = true := rfl
  obtain ⟨report,h⟩ := exists_executed hany
  obtain ⟨_,_,_,rfl,-,-⟩ := Codex.call_executed h
  exact h

theorem structured_contract_sample :
    StructuredContract true (claudeArrived claudeReport) (({} : Claude.ClaudeService).call sampleHost
      claudeWrapper (fun _ => false) claudeSchemaRequest).result ∧
    (StructuredContract true (codexArrived codexReport) (({} : Codex.CodexService).call sampleHost
      codexWrapper (fun _ => false) 0 codexSchemaRequest).result ↔
        ¬(true = true ∧ Completes codexReport)) :=
  have h := structured_contract sampleHost (fun _ => false) 0 {} claudeWrapper claudeSchemaRequest {}
    codexWrapper codexSchemaRequest
  ⟨h.1.1 _ claudeSchemaRequest_executed,h.2.1 _ codexSchemaRequest_executed⟩

/-- Codex settles a schema-constrained turn Ok without its structured payload. -/
theorem codexSchemaRequest_absent :
    ¬∀ (service : Codex.CodexService) (host : Host) (wrapper : Codex.Wrapper) (token : ℕ → Bool)
      (elapsed : Duration) (request : TurnRequest Codex.CodexOptions) (report : Codex.Report),
      .executed report ∈ (service.call host wrapper token elapsed request).steps →
      StructuredContract request.body.options.outputSchema.isSome (codexArrived report)
        (service.call host wrapper token elapsed request).result := by
  intro hclaim
  have hcontract := hclaim _ _ _ _ _ _ _ codexSchemaRequest_executed
  obtain ⟨-,-,turn,-,hturn,hresult⟩ := Codex.call_executed codexSchemaRequest_executed
  rw [hresult,←Codex.prepare_outputSchema hturn,codex_structured] at hcontract
  have hconsistent : Codex.Consistent [] := fun _ h => by cases h
  exact hcontract ⟨Codex.prepare_outputSchema hturn,_,rfl,⟨hconsistent,hconsistent⟩,
    { isTurnCompleted := true },⟨rfl,rfl⟩,rfl⟩

end TowerAgent.Adapter
