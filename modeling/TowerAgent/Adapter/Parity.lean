import TowerAgent.Claude.Session
import TowerAgent.Codex.Settle

/-! Preflight and call: the same checks in the same order, and no refusal of a check after them. -/
namespace TowerAgent.Adapter
open Lib Kernel

/-- A call that does what its preflight says: it refuses with the same error before any step of a
launch, and once the checks have passed it never fails with a refusal of a check. -/
structure Parity {R : Type} (checked : Except AgentError Unit) (carry : AgentError → AgentError)
    (refusal : AgentError → Prop) (call : Traced (LaunchStep R) AgentError TurnOutcome) : Prop where
  refused : ∀ e, checked = .error e → call = ⟨[],.error (carry e)⟩
  passed : checked = .ok () → ∀ e, call.result = .error e → ¬refusal e

section Parity
variable {R : Type} {checked : Except AgentError Unit} {carry : AgentError → AgentError}
  {refusal : AgentError → Prop} {call : Traced (LaunchStep R) AgentError TurnOutcome}

/-- A preflight that is refused, and a call that ends in its refusal. -/
lemma Parity.of_refused {e : AgentError} (h : checked = .error e)
    (hcall : call = ⟨[],.error (carry e)⟩) : Parity checked carry refusal call := by
  subst h
  refine ⟨fun e' he => ?_,fun he => ?_⟩
  · rw [hcall,Except.error.inj he]
  · cases he

/-- A preflight that passes, and a call that fails with no refusal. -/
lemma Parity.of_passed (h : checked = .ok ())
    (hcall : ∀ e, call.result = .error e → ¬refusal e) : Parity checked carry refusal call := by
  refine ⟨fun e he => ?_,fun _ => hcall⟩
  rw [h] at he
  cases he

end Parity

section Claude
open Claude
variable {service : ClaudeService} {host : Host} {wrapper : Claude.Wrapper} {token : ℕ → Bool}
  {turn : ClaudeTurn} {request : TurnRequest ClaudeOptions}

/-- An error of the validation phase. -/
def InValidation (e : AgentError) : Prop := e.phase = .validation

/-- Every refusal of Claude's preflight is one of the validation phase. -/
theorem claude_preflight_fails : Fails InValidation (service.preflight host turn) := by
  refine preflight_refused.mono ?_
  rintro e ⟨kind,message,rfl⟩
  rfl

lemma attach_phase (preassigned : Option SessionHandle) (e : AgentError) :
    (attachPreassignedSession preassigned e).phase = e.phase := by
  cases preassigned <;> rfl

lemma mapWrapperError_phase (error : Claude.WrapperError) :
    (mapWrapperError error).phase ≠ .validation := by
  cases error with
  | auth kind => cases kind <;> exact fun h => by cases h
  | io message =>
    by_cases hm : message.startsWith "failed to spawn claude" = true
    · rw [mapWrapperError,if_pos hm]
      exact fun h => by cases h
    · rw [mapWrapperError,if_neg hm]
      exact fun h => by cases h
  | _ => exact fun h => by cases h

lemma mapQueryError_phase (result : Claude.QueryResult) (preassigned : Option SessionHandle) :
    (mapQueryError result preassigned).phase ≠ .validation := by
  unfold mapQueryError
  split <;> exact fun h => by cases h

lemma structuredOutput_fails {result : Claude.QueryResult} {requested : Bool} :
    Fails (fun e => e.phase ≠ .validation) (structuredOutput result requested) := by
  unfold structuredOutput
  split
  · exact Fails.error fun h => by cases h
  · exact Fails.ok _
  · exact Fails.ok _

lemma claude_settleReport_fails {report : Claude.Report} {prior : Option String}
    {preassigned : Option SessionHandle} {requested : Bool} :
    Fails (fun e => e.phase ≠ .validation)
      (Claude.settleReport report prior preassigned requested) := by
  cases report with
  | error error =>
    refine Fails.error ?_
    rw [attach_phase]
    exact mapWrapperError_phase error
  | ok result =>
    unfold Claude.settleReport settleResult
    dsimp only
    split
    · exact Fails.error fun h => by cases h
    · split
      · exact Fails.error (mapQueryError_phase result preassigned)
      · cases hs : structuredOutput result requested with
        | error error => exact Fails.error (structuredOutput_fails error hs)
        | ok structured => exact Fails.ok _

/-- Nothing that Claude's launch fails with is an error of the validation phase. -/
theorem claude_launch_fails {query : Claude.QueryCommand} {preassigned : Option SessionHandle} :
    Fails (fun e => e.phase ≠ .validation)
      (service.launch host wrapper token request query preassigned).result := by
  have hbuild : Fails (fun e => e.phase ≠ .validation)
      (service.buildClaude host wrapper request).result := by
    refine buildClient_fails (clientOptions_fails.mono fun e he => ?_) fun _ =>
      Fails.mapError fun _ _ hphase => by cases hphase
    rw [he.2]
    exact fun hphase => by cases hphase
  have hattach : Fails (fun e => e.phase ≠ .validation)
      ((service.buildClaude host wrapper request).result.mapError
        (attachPreassignedSession preassigned)) :=
    Fails.mapError (hbuild.mono fun e he => by rwa [attach_phase])
  refine Traced.fails_bind hattach fun claude => Traced.fails_bind ?_ fun _ => ?_
  · change Fails _ (if token 1 then _ else _)
    split
    · refine Fails.error ?_
      rw [attach_phase]
      exact fun h => by cases h
    · exact Fails.ok _
  · rw [execute_eq]
    exact claude_settleReport_fails

/-- What some turn is refused with, under some service and host; with a handle or without. -/
def ClaudeRefusal (e : AgentError) : Prop :=
  ∃ (service : ClaudeService) (host : Host) (turn : ClaudeTurn) (refusal : AgentError)
    (preassigned : Option SessionHandle), service.preflight host turn = .error refusal ∧
      e = attachPreassignedSession preassigned refusal

/-- The refusal of a call under a preassigned handle: what is found after the prompt and the session
carries the handle. -/
def carried (turn : ClaudeTurn) (preassigned : Option SessionHandle) (e : AgentError) : AgentError :=
  match preflightSession turn with
  | .error _ => e
  | .ok _ => attachPreassignedSession preassigned e

/-- A query is refused for its options alone. -/
lemma buildQuery_error {ambient ambient' : ClaudeAmbientContext}
    {preassigned preassigned' : Option SessionHandle} {e : AgentError}
    (h : buildQuery host turn ambient preassigned = .error e) :
    buildQuery host turn ambient' preassigned' = .error e := by
  rcases bind_eq_error.mp h with h | ⟨schema,hs,h⟩
  · exact bind_eq_error.mpr (.inl h)
  · rcases bind_eq_error.mp h with h | ⟨_,-,h⟩
    · exact bind_eq_error.mpr (.inr ⟨schema,hs,bind_eq_error.mpr (.inl h)⟩)
    · cases h

/-- The checks of a preflight, in order. -/
lemma claude_preflight_checks {turn : ClaudeTurn} : service.preflight host turn =
    (preflightSession turn).bind fun _ =>
      (effectiveAmbientContext service.ambientContext turn.options.ambientContext).bind fun ambient =>
        (buildQuery host turn ambient none).bind fun _ => .ok () := rfl

/-- Claude's preflight and call agree, with a preassigned handle or without. -/
theorem claude_parity {preassigned : Option SessionHandle} (htoken : token 0 = false)
    (hp : validatePreassignedSession host request = .ok preassigned) :
    Parity (service.preflight host request.body) (carried request.body preassigned) ClaudeRefusal
      (service.call host wrapper token request) := by
  have hcall : service.call host wrapper token request = (do
      Traced.check (preflightSession request.body)
      let preassignedSession ← Traced.check (validatePreassignedSession host request)
      let ambientContext ← Traced.check ((effectiveAmbientContext service.ambientContext
        request.body.options.ambientContext).mapError
          (attachPreassignedSession preassignedSession))
      let query ← Traced.check ((buildQuery host request.body ambientContext
        preassignedSession).mapError (attachPreassignedSession preassignedSession))
      service.launch host wrapper token request query preassignedSession) := by
    simp only [ClaudeService.call, htoken, Bool.false_eq_true, if_false, Traced.check_ok_bind]
  cases hs : preflightSession request.body with
  | error e =>
    have hpreflight : service.preflight host request.body = .error e := by
      rw [claude_preflight_checks]
      exact bind_eq_error.mpr (.inl hs)
    refine .of_refused hpreflight ?_
    rw [hcall,hs,carried,hs]
    rfl
  | ok u =>
    have hcarry : carried request.body preassigned = attachPreassignedSession preassigned := by
      funext e
      rw [carried,hs]
    rw [hcarry]
    rw [hs,hp,Traced.check_ok_bind,Traced.check_ok_bind] at hcall
    cases ha : effectiveAmbientContext service.ambientContext
        request.body.options.ambientContext with
    | error e =>
      have hpreflight : service.preflight host request.body = .error e := by
        rw [claude_preflight_checks]
        exact bind_eq_error.mpr (.inr ⟨u,hs,bind_eq_error.mpr (.inl ha)⟩)
      refine .of_refused hpreflight ?_
      rw [hcall,ha]
      rfl
    | ok ambient =>
      rw [ha] at hcall
      -- The two build the query with and without the handle, and are refused alike.
      cases hq : buildQuery host request.body ambient preassigned with
      | error e =>
        have hpreflight : service.preflight host request.body = .error e := by
          rw [claude_preflight_checks]
          exact bind_eq_error.mpr (.inr ⟨u,hs,bind_eq_error.mpr (.inr ⟨ambient,ha,
            bind_eq_error.mpr (.inl (buildQuery_error hq))⟩)⟩)
        refine .of_refused hpreflight ?_
        rw [hcall]
        change (Traced.check ((buildQuery host request.body ambient preassigned).mapError _) >>=
          _) = _
        rw [hq]
        rfl
      | ok query =>
        have hlaunch : service.call host wrapper token request =
            service.launch host wrapper token request query preassigned := by
          rw [hcall]
          change (Traced.check ((buildQuery host request.body ambient preassigned).mapError _) >>=
            _) = _
          rw [hq]
          rfl
        obtain ⟨bare,hbare⟩ : ∃ bare, buildQuery host request.body ambient none = .ok bare := by
          cases hn : buildQuery host request.body ambient none with
          | error e =>
            rw [buildQuery_error hn] at hq
            cases hq
          | ok bare => exact ⟨bare,rfl⟩
        have hpreflight : service.preflight host request.body = .ok () := by
          rw [claude_preflight_checks]
          exact bind_eq_ok.mpr ⟨u,hs,bind_eq_ok.mpr ⟨ambient,ha,bind_eq_ok.mpr ⟨bare,hbare,rfl⟩⟩⟩
        refine .of_passed hpreflight ?_
        rintro e he ⟨service',host',turn,refusal,handle,hr,rfl⟩
        rw [hlaunch] at he
        refine claude_launch_fails _ he ?_
        rw [attach_phase]
        exact claude_preflight_fails _ hr

end Claude
section Codex
open Codex
variable {service : CodexService} {host : Host} {wrapper : Codex.Wrapper} {token : ℕ → Bool}
  {elapsed : Duration} {turn : CodexTurn} {request : TurnRequest CodexOptions}

/-- The fixed texts of the checks of a turn. -/
def turnTexts : List String :=
  ["prompt must not be empty","Codex model must not be empty",
    "Codex session handle must not be empty","Codex session handle must not begin with a hyphen",
    "Codex output schema exceeds the " ++ toString maxOutputSchemaBytes ++ "-byte limit",
    "Codex output schema is not valid JSON Schema Draft 2020-12"]

/-- The texts of the checks of the skill policy. -/
def skillTexts : List String :=
  ["Codex skill policy exceeds the configured path limit",
    "configured Codex skill path could not be resolved",
    "configured Codex skill path does not identify a skill folder",
    "configured Codex skill path is not valid UTF-8",
    "configured Codex skill path could not be encoded",
    "Codex skill policy exceeds the encoded size limit"]

/-- How the refusals of the checks read: the texts about authority begin with the word requested. -/
def Reads (e : AgentError) : Prop :=
  e.evidence = none ∧
    (e.phase = .validation ∧ (e.kind = .unsupported ∨ e.kind = .internal) ∨
    e.phase = .validation ∧ (e.message.toList.head? = some 'r' ∨ e.message ∈ turnTexts) ∨
    e.phase = .launch ∧ e.kind = .internal ∧ e.message ∈ skillTexts)

lemma reads_turn {message : String} (h : message ∈ turnTexts) : Reads (.invalidRequest message) :=
  ⟨rfl,.inr (.inl ⟨rfl,.inr h⟩)⟩

lemma reads_unsupported (message : String) : Reads (.unsupported message) :=
  ⟨rfl,.inl ⟨rfl,.inl rfl⟩⟩

lemma reads_skill {message : String} (h : message ∈ skillTexts) :
    Reads (skillPolicyError message) := ⟨rfl,.inr (.inr ⟨rfl,rfl,h⟩)⟩

lemma head_append {c : Char} (a b : String) (h : a.toList.head? = some c) :
    (a ++ b).toList.head? = some c := by
  rw [String.toList_append,List.head?_append,h]
  rfl

lemma authorizeWritableRoot_reads {policy : AuthorityPolicy} {canonicalize : Canonicalize}
    (requested : PathBuf) : Fails Reads (policy.authorizeWritableRoot canonicalize requested) := by
  unfold AuthorityPolicy.authorizeWritableRoot
  split
  · refine Fails.error ⟨rfl,.inr (.inl ⟨rfl,.inl ?_⟩)⟩
    exact head_append _ _ (head_append _ _ (head_append _ _ rfl))
  · split
    · exact Fails.ok _
    · refine Fails.error ⟨rfl,.inr (.inl ⟨rfl,.inl ?_⟩)⟩
      exact head_append _ _ (head_append _ _ rfl)

lemma authorize_reads {policy : AuthorityPolicy} {canonicalize : Canonicalize} :
    Fails Reads (policy.authorize canonicalize turn) := by
  unfold AuthorityPolicy.authorize
  dsimp only
  split
  · refine Fails.error ⟨rfl,.inr (.inl ⟨rfl,.inl ?_⟩)⟩
    exact head_append _ _ (head_append _ _ (head_append _ _ rfl))
  · split
    · exact Fails.ok _
    · refine Fails.bind ?_ fun _ => Fails.forM_list fun root _ => authorizeWritableRoot_reads root
      cases turn.workingDirectory with
      | none => exact Fails.ok _
      | some directory => exact authorizeWritableRoot_reads directory

lemma codex_checkSession_reads (session : SessionHandle) :
    Fails Reads (Codex.checkSession session) := by
  unfold Codex.checkSession
  split
  · exact Fails.error (reads_unsupported _)
  · exact (refuse_fails (reads_turn (by simp [turnTexts]))).bind fun _ =>
      (refuse_fails (reads_turn (by simp [turnTexts]))).bind fun _ => Fails.ok _

lemma directoryText_reads (directory : PathBuf) : Fails Reads (directoryText directory) := by
  unfold directoryText
  split
  · exact Fails.ok _
  · exact Fails.error (reads_unsupported _)

lemma checkResumedDirectories_reads {session : Option String} {directories : List PathBuf} :
    Fails Reads (checkResumedDirectories session directories) := by
  unfold checkResumedDirectories
  split
  · exact Fails.error (reads_unsupported _)
  · exact Fails.ok _

lemma validateOutputSchema_reads (schema : Json) :
    Fails Reads (validateOutputSchema host schema) := by
  unfold validateOutputSchema
  split
  · exact Fails.error ⟨rfl,.inl ⟨rfl,.inr rfl⟩⟩
  · exact (refuse_fails (reads_turn (by simp [turnTexts]))).bind fun _ =>
      (refuse_fails (reads_turn (by simp [turnTexts]))).bind fun _ => Fails.ok _

lemma preflightTurn_reads {policy : AuthorityPolicy} :
    Fails Reads (preflightTurn host policy turn) :=
  authorize_reads.bind fun _ =>
    (refuse_fails (reads_turn (by simp [turnTexts]))).bind fun _ =>
    (refuse_fails (reads_turn (by simp [turnTexts]))).bind fun _ =>
    (Fails.mapM_list fun session _ => codex_checkSession_reads session).bind fun _ =>
    checkResumedDirectories_reads.bind fun _ =>
    (Fails.mapM_list fun directory _ => directoryText_reads directory).bind fun _ =>
    (Fails.mapM_list fun schema _ => validateOutputSchema_reads schema).bind fun _ => Fails.ok _

lemma skillFolder_reads (path : PathBuf) : Fails Reads (skillFolder host path) := by
  unfold skillFolder
  split
  · exact Fails.error (reads_skill (by simp [skillTexts]))
  · split
    · exact Fails.error (reads_skill (by simp [skillTexts]))
    · exact Fails.ok _

lemma skillEntry_reads (path : PathBuf) : Fails Reads (skillEntry host path) := by
  unfold skillEntry
  split
  · exact Fails.error (reads_skill (by simp [skillTexts]))
  · split
    · exact Fails.error (reads_skill (by simp [skillTexts]))
    · exact Fails.ok _

lemma renderSkills_reads {paths : List PathBuf} : Fails Reads (renderSkills host paths) := by
  unfold renderSkills
  split
  · exact Fails.error (reads_skill (by simp [skillTexts]))
  · refine (Fails.mapM_list fun path _ => skillFolder_reads path).bind fun _ =>
      (Fails.mapM_list fun path _ => skillEntry_reads path).bind fun _ => ?_
    dsimp only
    split
    · exact Fails.error (reads_skill (by simp [skillTexts]))
    · exact Fails.ok _

lemma renderSkillConfig_reads {policy : CodexSkillPolicy} :
    Fails Reads (renderSkillConfig host policy) := by
  intro e h
  unfold renderSkillConfig at h
  split at h
  · cases h
  · cases h
  · next paths _ =>
    cases hr : renderSkills host paths with
    | ok config =>
      rw [hr] at h
      cases h
    | error e' =>
      rw [hr] at h
      obtain rfl : e' = e := Except.error.inj h
      exact renderSkills_reads e' hr

/-- Every refusal of Codex's preflight reads as one. -/
theorem codex_preflight_reads : Fails Reads (service.preflight host turn) :=
  preflightTurn_reads.bind fun _ => renderSkillConfig_reads.bind fun _ => Fails.ok _

/-- What reads as a refusal ends in the validation phase, or before a launch. -/
lemma not_reads_phase {e : AgentError} (hv : e.phase ≠ .validation) (hl : e.phase ≠ .launch) :
    ¬Reads e := by
  rintro ⟨-,⟨h,-⟩ | ⟨h,-⟩ | ⟨h,-⟩⟩
  · exact hv h
  · exact hv h
  · exact hl h

/-- An error of the launch phase that is not about the skill policy. -/
lemma not_reads_launch {kind : ErrorKind} {message : String}
    (h : kind ≠ .internal ∨ message ∉ skillTexts) :
    ¬Reads (.new kind message .launch .none) := by
  rintro ⟨-,⟨hp,-⟩ | ⟨hp,-⟩ | ⟨-,hk,hm⟩⟩
  · cases hp
  · cases hp
  · exact h.elim (· hk) (· hm)

/-- An error of the validation phase with another text than the checks of a turn. -/
lemma not_reads_validation {kind : ErrorKind} {message : String}
    (hk : kind ≠ .unsupported ∧ kind ≠ .internal) (hr : message.toList.head? ≠ some 'r')
    (hm : message ∉ turnTexts) : ¬Reads (validationError kind message) := by
  rintro ⟨-,⟨-,h⟩ | ⟨-,h⟩ | ⟨h,-⟩⟩
  · exact h.elim hk.1 hk.2
  · exact h.elim hr hm
  · cases h

lemma skillTexts_head {message : String} (h : message ∈ skillTexts) :
    message.toList.head? ≠ some 'i' := by
  have hall : ∀ text ∈ skillTexts, text.toList.head? ≠ some 'i' := by decide +kernel
  exact hall message h

lemma codex_clientOptions_reads {settings : ChildSettings} {environment : String → AmbientValue}
    {workingDirectory : Option PathBuf} {operationId : UInt64} :
    Fails (fun e => ¬Reads e)
      (clientOptions Codex.names settings environment workingDirectory operationId) := by
  intro e h
  rcases clientOptions_error h with rfl | ⟨error,rfl⟩
  · exact not_reads_launch (.inr (by decide +kernel))
  · refine not_reads_launch (.inr fun hm => skillTexts_head hm ?_)
    exact head_append _ _ (head_append _ _ (head_append _ _ rfl))

lemma mapLaunchError_reads (error : Codex.WrapperError) : ¬Reads (mapLaunchError error) := by
  cases error <;> exact not_reads_launch (.inl (by decide))

/-- A classified failure carries evidence, as no refusal of a check does. -/
lemma classifyTerminalFailure_reads (failure : TurnFailureKind) (session : Option SessionHandle)
    (usage : Option TokenUsage) (duration : Option Duration) :
    ¬Reads (classifyTerminalFailure failure session usage duration) := by
  cases failure <;> exact fun h => by cases h.1

lemma terminalFailureFromStream_reads {parseLine : String → Option JsonLineEvent} {stdout : String}
    {e : AgentError} (h : terminalFailureFromStream parseLine stdout = some e) : ¬Reads e := by
  unfold terminalFailureFromStream at h
  split at h
  · rw [←Option.some.inj h]
    exact classifyTerminalFailure_reads _ _ _ _
  · cases h
  · cases h

lemma mapRunError_reads (parseLine : String → Option JsonLineEvent) (error : Codex.WrapperError) :
    ¬Reads (mapRunError parseLine error) := by
  cases error with
  | io message =>
    by_cases hm : message.startsWith "failed to spawn codex" = true
    · rw [mapRunError,if_pos hm]
      exact not_reads_launch (.inl (by decide))
    · rw [mapRunError,if_neg hm]
      exact not_reads_phase (fun h => by cases h) (fun h => by cases h)
  | commandFailed exitCode stdout =>
    rw [mapRunError]
    cases ht : terminalFailureFromStream parseLine stdout with
    | some e => exact terminalFailureFromStream_reads ht
    | none => exact not_reads_phase (fun h => by cases h) (fun h => by cases h)
  | notFound | versionMismatch | untestedCliVersion => exact not_reads_launch (.inl (by decide))
  | config | notTrustedDirectory | sessionNotFound | invalidRolloutBudget | dangerousNotAllowed =>
    exact not_reads_validation (by decide) (by decide +kernel) (by decide +kernel)
  | _ => exact not_reads_phase (fun h => by cases h) (fun h => by cases h)

lemma not_reads_settlement {e : AgentError} (h : ∃ message, e = Codex.settlementError message) :
    ¬Reads e := by
  obtain ⟨message,rfl⟩ := h
  exact not_reads_phase (fun h => by cases h) (fun h => by cases h)

lemma codex_settleReport_reads {parseLine : String → Option JsonLineEvent} {report : Codex.Report}
    {prior : Option String} {duration : Duration} {ephemeral structuredOutput : Bool} :
    Fails (fun e => ¬Reads e)
      (Codex.settleReport parseLine report prior duration ephemeral structuredOutput) := by
  cases report with
  | error error => exact Fails.error (mapRunError_reads parseLine error)
  | ok result =>
    refine (validateTerminalEvents_fails.mono fun e => not_reads_settlement).bind fun terminal =>
      (validatedResultSession_fails.mono fun e => not_reads_settlement).bind fun session => ?_
    cases terminal with
    | completed => exact Fails.ok _
    | failed failure => exact Fails.error (classifyTerminalFailure_reads _ _ _ _)

lemma cancelledCheck_reads {cancelled : Bool} :
    Fails (fun e => ¬Reads e) (CodexService.cancelledCheck cancelled) := by
  unfold CodexService.cancelledCheck
  split
  · exact Fails.error (not_reads_phase (fun h => by cases h) (fun h => by cases h))
  · exact Fails.ok _

lemma schemaPath_reads {schema : Option String} :
    Fails (fun e => ¬Reads e) (schemaPath wrapper schema).result := by
  intro e h
  rcases schemaPath_error h with rfl | rfl
  all_goals exact not_reads_launch (.inr (by decide +kernel))

/-- Nothing that Codex's launch fails with reads as a refusal of a check. -/
theorem codex_launch_reads {prepared : PreparedTurn} {skillConfig : Option String} :
    Fails (fun e => ¬Reads e)
      (service.launch host wrapper token elapsed request prepared skillConfig).result := by
  refine Traced.fails_bind (buildClient_fails codex_clientOptions_reads fun _ =>
    Fails.mapError fun error _ => mapLaunchError_reads error) fun codex => ?_
  refine Traced.fails_bind cancelledCheck_reads fun _ => ?_
  refine Traced.fails_bind schemaPath_reads fun path => ?_
  rw [execute_eq]
  exact codex_settleReport_reads

/-- What some turn is refused with, under some service and host. -/
def CodexRefusal (e : AgentError) : Prop :=
  ∃ (service : CodexService) (host : Host) (turn : CodexTurn), service.preflight host turn = .error e

/-- Codex's preflight and call agree. -/
theorem codex_parity (htoken : ∀ k, token k = false)
    (hp : request.context.preassignedSession = none) :
    Parity (service.preflight host request.body) id CodexRefusal
      (service.call host wrapper token elapsed request) := by
  have hcall : service.call host wrapper token elapsed request = (do
      let turn ← Traced.check (prepare host service.authorityPolicy false request.body)
      let skillConfig ← Traced.check (renderSkillConfig host service.skillPolicy)
      service.launch host wrapper token elapsed request turn skillConfig) := by
    simp only [CodexService.call, CodexService.cancelledCheck, hp, htoken, Option.isSome_none,
      Bool.false_eq_true, if_false, Traced.check_ok_bind]
  cases ht : preflightTurn host service.authorityPolicy request.body with
  | error e' =>
    have hprepare : prepare host service.authorityPolicy false request.body = .error e' :=
      bind_eq_error.mpr (.inl ht)
    have hpreflight : service.preflight host request.body = .error e' :=
      bind_eq_error.mpr (.inl ht)
    refine .of_refused hpreflight ?_
    rw [hcall,hprepare]
    rfl
  | ok validated =>
    obtain ⟨prepared,hprepare⟩ : ∃ prepared,
        prepare host service.authorityPolicy false request.body = .ok prepared :=
      ⟨_,bind_eq_ok.mpr ⟨validated,ht,rfl⟩⟩
    rw [hprepare,Traced.check_ok_bind] at hcall
    cases hs : renderSkillConfig host service.skillPolicy with
    | error e' =>
      have hpreflight : service.preflight host request.body = .error e' :=
        bind_eq_error.mpr (.inr ⟨validated,ht,bind_eq_error.mpr (.inl hs)⟩)
      refine .of_refused hpreflight ?_
      rw [hcall,hs]
      rfl
    | ok skillConfig =>
      rw [hs,Traced.check_ok_bind] at hcall
      have hpreflight : service.preflight host request.body = .ok () :=
        bind_eq_ok.mpr ⟨validated,ht,bind_eq_ok.mpr ⟨skillConfig,hs,rfl⟩⟩
      refine .of_passed hpreflight ?_
      rintro e he ⟨service',host',turn,hr⟩
      rw [hcall] at he
      exact codex_launch_reads e he (codex_preflight_reads e hr)

end Codex

/-- Preflight and call perform the same checks, first error included, and after them no launch fails
with a refusal of any check; a preassigned Claude handle only adds itself to what is found after the
prompt and the session. -/
theorem preflight_parity :
    (∀ (service : Claude.ClaudeService) (host : Host) (wrapper : Claude.Wrapper) (token : ℕ → Bool)
      (request : TurnRequest Claude.ClaudeOptions), (∀ k, token k = false) →
      (request.context.preassignedSession = none →
        Parity (service.preflight host request.body) id ClaudeRefusal
          (service.call host wrapper token request)) ∧
      ∀ p, Claude.validatePreassignedSession host request = .ok (some p) →
        Parity (service.preflight host request.body) (carried request.body (some p)) ClaudeRefusal
          (service.call host wrapper token request)) ∧
    ∀ (service : Codex.CodexService) (host : Host) (wrapper : Codex.Wrapper) (token : ℕ → Bool)
      (elapsed : Duration) (request : TurnRequest Codex.CodexOptions), (∀ k, token k = false) →
      request.context.preassignedSession = none →
      Parity (service.preflight host request.body) id CodexRefusal
        (service.call host wrapper token elapsed request) := by
  refine ⟨fun service host wrapper token request htoken => ⟨fun hp => ?_,fun p hp => ?_⟩,
    fun service host wrapper token elapsed request htoken hp => codex_parity htoken hp⟩
  · have hnone : Claude.validatePreassignedSession host request = .ok none := by
      rw [Claude.validatePreassignedSession,hp]
    have hcarry : carried request.body none = id := by
      funext e
      unfold carried
      split <;> rfl
    rw [←hcarry]
    exact claude_parity (htoken 0) hnone
  · exact claude_parity (htoken 0) hp

/-- A request whose prompt is blank. -/
def blankRequest (O : Type) (options : O) : TurnRequest O where
  context := { operationId := 1, deadline := none }
  body := { prompt := " ", options := options }

/-- A Codex wrapper that finds no executable. -/
def missingCodex : Codex.Wrapper where
  build _ := .error .notFound
  executeJson _ _ := .error .notFound
  parseLine _ := none
  materialize _ := none

theorem preflight_parity_sample :
    Parity (({} : Claude.ClaudeService).preflight sampleHost
        (blankRequest Claude.ClaudeOptions {}).body) id ClaudeRefusal
      (({} : Claude.ClaudeService).call sampleHost (Claude.reporting Claude.railStop)
        (fun _ => false) (blankRequest Claude.ClaudeOptions {})) ∧
    Parity (({} : Claude.ClaudeService).preflight sampleHost Claude.assignedRequest.body)
        (carried Claude.assignedRequest.body (some Claude.assigned)) ClaudeRefusal
      (({} : Claude.ClaudeService).call sampleHost (Claude.reporting Claude.railStop)
        (fun _ => false) Claude.assignedRequest) ∧
    Parity (({} : Codex.CodexService).preflight sampleHost
        (blankRequest Codex.CodexOptions {}).body) id CodexRefusal
      (({} : Codex.CodexService).call sampleHost missingCodex (fun _ => false) 0
        (blankRequest Codex.CodexOptions {})) :=
  ⟨(preflight_parity.1 _ _ _ _ _ (fun _ => rfl)).1 rfl,
    (preflight_parity.1 _ _ _ _ _ (fun _ => rfl)).2 _ Claude.assignedRequest_accepted,
    preflight_parity.2 _ _ _ _ _ _ (fun _ => rfl) rfl⟩

end TowerAgent.Adapter
