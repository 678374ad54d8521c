import TowerAgent.Plan.Planner

/-! What becomes of a planned turn: the router that dispatches it, the checks the adapters share with
the planner, and that none of them refuses it, whichever provider features the build enables. -/
namespace TowerAgent.Plan
open Lib Kernel Adapter

/-- The provider features of a build. -/
structure Features where
  claude : Bool
  codex : Bool
  deriving DecidableEq, Repr

def Features.enables (features : Features) : ProviderId → Bool
  | .claude => features.claude
  | .codex => features.codex

/-- `compile` in a build: a provider without an enabled planner is refused. -/
def compileIn (features : Features) (resolved : ResolvedTurn) :
    Except (List Diagnostic) ReadyTurn :=
  if features.enables resolved.provider then compile resolved
  else .error [.error Codes.unsupportedProvider (some "provider")
    ("no planner is enabled for provider " ++ resolved.provider.asStr)]

/-- `prepare` in a build. -/
def prepareIn (features : Features) (layers : Layers) : Prepared :=
  match resolve layers with
  | .complete resolved =>
    match compileIn features resolved with
    | .ok turn => .ready turn
    | .error diagnostics => .invalid diagnostics
  | .missing resolved requirements => .missing resolved requirements
  | .invalid diagnostics => .invalid diagnostics

/-- A service over provider-committed turns: the configured service of each provider, if any. -/
structure RoutedTurnService (S T : Type) where
  claude : Option S := none
  codex : Option T := none

/-- The future of a routed call: an error, or a oneshot of one service on one request. -/
inductive RoutedFuture (S T : Type) where
  | failed (error : AgentError)
  | claude (service : S) (request : TurnRequest Claude.ClaudeOptions)
  | codex (service : T) (request : TurnRequest Codex.CodexOptions)

/-- Refuse a resumed turn whose handle disagrees with its committed provider. -/
def pinnedSessionMatches (ready : ReadyTurn) : Except AgentError Unit :=
  match ready.session with
  | some session =>
    if session.provider ≠ ready.provider.asStr then
      .error (.unsupported ("cannot route a " ++ session.provider ++ " session to the " ++
        ready.provider.asStr ++ " provider"))
    else .ok ()
  | none => .ok ()

def unregistered (provider : ProviderId) : AgentError :=
  .unsupported ("no service is registered for provider " ++ provider.asStr)

namespace RoutedTurnService
variable {S T : Type}

/-- Register the service that handles Claude turns. -/
def withClaude (router : RoutedTurnService S T) (service : S) : RoutedTurnService S T :=
  { router with claude := some service }

/-- Register the service that handles Codex turns. -/
def withCodex (router : RoutedTurnService S T) (service : T) : RoutedTurnService S T :=
  { router with codex := some service }

/-- Whether a provider has a registered service. -/
def handles (router : RoutedTurnService S T) : ProviderId → Bool
  | .claude => router.claude.isSome
  | .codex => router.codex.isSome

def call (router : RoutedTurnService S T) (request : AgentRequest ReadyTurn) : RoutedFuture S T :=
  match pinnedSessionMatches request.body with
  | .error error => .failed error
  | .ok () =>
    match request.body with
    | .claude turn =>
      match router.claude with
      | some service => .claude service ⟨request.context,turn⟩
      | none => .failed (unregistered .claude)
    | .codex turn =>
      match router.codex with
      | some service => .codex service ⟨request.context,turn⟩
      | none => .failed (unregistered .codex)

end RoutedTurnService

/-- The checks an adapter makes that planning makes too, in the adapter's order. -/
def sharedChecks : ReadyTurn → Except AgentError Unit
  | .claude turn => do
    Claude.preflightSession turn
    refuse (turn.options.model.any Text.isBlank) "Claude model must not be empty"
  | .codex turn => do
    refuse (Text.isBlank turn.prompt) "prompt must not be empty"
    refuse (turn.options.model.any Text.isBlank) "Codex model must not be empty"
    let session ← turn.session.toList.mapM Codex.checkSession
    Codex.checkResumedDirectories session.head? turn.options.additionalDirectories

section Router
variable {S T : Type} (router : RoutedTurnService S T) (context : CallContext)

/-- The future runs the service registered for the provider of the turn, on that turn. -/
inductive Dispatched : ReadyTurn → RoutedFuture S T → Prop where
  | claude {service : S} {turn : Claude.ClaudeTurn} (h : router.claude = some service) :
      Dispatched (.claude turn) (.claude service ⟨context,turn⟩)
  | codex {service : T} {turn : Codex.CodexTurn} (h : router.codex = some service) :
      Dispatched (.codex turn) (.codex service ⟨context,turn⟩)

variable {router context}

/-- A turn whose session matches goes to its provider's service or nowhere. -/
theorem RoutedTurnService.call_of_matches {ready : ReadyTurn}
    (h : pinnedSessionMatches ready = .ok ()) :
    (router.handles ready.provider = true →
      Dispatched router context ready (router.call ⟨context,ready⟩)) ∧
    (router.handles ready.provider = false →
      router.call ⟨context,ready⟩ = .failed (unregistered ready.provider)) := by
  cases ready with
  | claude turn =>
    simp only [RoutedTurnService.call, h, RoutedTurnService.handles, ReadyTurn.provider]
    cases hs : router.claude with
    | none => exact ⟨fun hn => absurd hn Bool.false_ne_true,fun _ => rfl⟩
    | some service => exact ⟨fun _ => .claude hs,fun hn => absurd hn.symm Bool.false_ne_true⟩
  | codex turn =>
    simp only [RoutedTurnService.call, h, RoutedTurnService.handles, ReadyTurn.provider]
    cases hs : router.codex with
    | none => exact ⟨fun hn => absurd hn Bool.false_ne_true,fun _ => rfl⟩
    | some service => exact ⟨fun _ => .codex hs,fun hn => absurd hn.symm Bool.false_ne_true⟩

end Router

/-- What the structural checks of the resolver establish. -/
structure Sound (merged : PartialTurn) (provider : ProviderId) : Prop where
  prompt : ∀ prompt, merged.prompt = some prompt → Text.isBlank prompt = false
  model : merged.model.name.any Text.isBlank = false
  resume : ∀ resume, merged.context.resume = some resume →
    resume.provider = provider ∧ Text.isBlank resume.value = false ∧
      resume.value.startsWith "-" = false

section Resolved
variable {layers : Layers} {resolved : ResolvedTurn}

lemma blank_eq_nil {code path message : String} {text : Option String}
    (h : blank code path message text = []) : text.any Text.isBlank = false := by
  cases text with
  | none => rfl
  | some text =>
    simp only [blank] at h
    split at h
    · cases h
    · next hb => simpa using hb

lemma resolve_complete (h : resolve layers = .complete resolved) :
    structuralDiagnostics resolved.merged = [] := by
  unfold resolve at h
  cases ha : answered layers with
  | mk merged diagnostics =>
    simp only [ha] at h
    split at h
    · cases h
    · next hd =>
      split at h
      · obtain rfl := Resolution.complete.inj h
        exact (List.append_eq_nil_iff.mp (not_not.mp hd)).2
      · cases h

theorem resolve_sound (h : resolve layers = .complete resolved) :
    Sound resolved.merged resolved.provider := by
  obtain ⟨hbound,hresume⟩ := List.append_eq_nil_iff.mp (resolve_complete h)
  obtain ⟨hprompt,hmodel⟩ := List.append_eq_nil_iff.mp hbound
  have hprovider : resolved.merged.provider = some resolved.provider := (Option.some_get _).symm
  refine ⟨fun prompt hp => ?_,blank_eq_nil hmodel,fun resume hr => ?_⟩
  · simpa [hp] using blank_eq_nil hprompt
  · simp only [resumeDiagnostics, hr, hprovider] at hresume
    obtain ⟨hvalue,htag⟩ := List.append_eq_nil_iff.mp hresume
    refine ⟨?_,?_⟩
    · by_contra hne
      simp [hne] at htag
    · split at hvalue
      · cases hvalue
      · next hblank =>
        split at hvalue
        · cases hvalue
        · next hhyphen => exact ⟨by simpa using hblank,by simpa using hhyphen⟩

lemma planClaude_bound {turn : Claude.ClaudeTurn} (h : planClaude resolved = .ok turn) :
    turn.prompt = resolved.prompt ∧ turn.options.model = resolved.merged.model.name := by
  unfold planClaude at h
  dsimp only at h
  split at h
  · cases h
  · split at h
    · cases h
    · obtain rfl := Except.ok.inj h
      exact ⟨rfl,rfl⟩

lemma planCodex_bound {turn : Codex.CodexTurn} (h : planCodex resolved = .ok turn) :
    turn.prompt = resolved.prompt ∧ turn.options.model = resolved.merged.model.name ∧
      (turn.session.isSome && !turn.options.additionalDirectories.isEmpty) = false := by
  unfold planCodex at h
  dsimp only at h
  split at h
  · cases h
  · split at h
    · cases h
    · next hdirs =>
      obtain rfl := Except.ok.inj h
      refine ⟨rfl,rfl,?_⟩
      simpa [ResolvedTurn.turn] using hdirs

/-- The prompt a resolution binds has passed the resolver's check. -/
lemma Sound.prompt_bound (h : Sound resolved.merged resolved.provider) :
    Text.isBlank resolved.prompt = false := h.prompt _ (Option.some_get _).symm

/-- The handle a resolution binds passes the checks of its provider. -/
lemma Sound.session_bound (h : Sound resolved.merged resolved.provider) {session : SessionHandle}
    (hs : resolved.merged.context.resume.map ResumeBinding.toSessionHandle = some session) :
    session.provider = resolved.provider.asStr ∧ Text.isBlank session.value = false ∧
      session.value.startsWith "-" = false := by
  obtain ⟨resume,hr,rfl⟩ := Option.map_eq_some_iff.mp hs
  obtain ⟨hp,hb,hh⟩ := h.resume resume hr
  exact ⟨congrArg ProviderId.asStr hp,hb,hh⟩

/-- A compiled turn passes the router's check. -/
lemma compile_matches {ready : ReadyTurn} (h : compile resolved = .ok ready)
    (hs : Sound resolved.merged resolved.provider) : pinnedSessionMatches ready = .ok () := by
  unfold pinnedSessionMatches
  rw [compile_session h,compile_provider h]
  split
  · next session hsession => rw [if_neg (not_not.mpr (hs.session_bound hsession).1)]
  · rfl

/-- A compiled turn passes the checks its adapter shares with planning. -/
lemma compile_checked {ready : ReadyTurn} (h : compile resolved = .ok ready)
    (hs : Sound resolved.merged resolved.provider) : sharedChecks ready = .ok () := by
  unfold compile at h
  split at h
  · next hp =>
    obtain ⟨turn,ht,rfl⟩ := map_eq_ok h
    obtain ⟨hprompt,hmodel⟩ := planClaude_bound ht
    have hsession := planClaude_session ht
    have hcheck : forM turn.session.toList Claude.checkSession = .ok () := by
      cases hc : turn.session with
      | none => rfl
      | some session =>
        obtain ⟨hpr,hb,hh⟩ := hs.session_bound (hsession.symm.trans hc)
        rw [hp] at hpr
        simp [Claude.checkSession, hpr, hb, hh, refuse, Claude.names, ProviderId.asStr]
        rfl
    simp only [sharedChecks, Claude.preflightSession, hprompt, hmodel, hs.prompt_bound, hs.model,
      hcheck, refuse]
    rfl
  · next hp =>
    obtain ⟨turn,ht,rfl⟩ := map_eq_ok h
    obtain ⟨hprompt,hmodel,hdirs⟩ := planCodex_bound ht
    have hsession := planCodex_session ht
    have hcheck : turn.session.toList.mapM Codex.checkSession =
        .ok (turn.session.toList.map SessionHandle.value) := by
      cases hc : turn.session with
      | none => rfl
      | some session =>
        obtain ⟨hpr,hb,hh⟩ := hs.session_bound (hsession.symm.trans hc)
        rw [hp] at hpr
        simp [Codex.checkSession, hpr, hb, hh, refuse, Codex.names, ProviderId.asStr]
        rfl
    have hresumed : Codex.checkResumedDirectories (turn.session.toList.map SessionHandle.value).head?
        turn.options.additionalDirectories = .ok () := by
      unfold Codex.checkResumedDirectories
      rw [if_neg]
      cases hc : turn.session with
      | none => simp
      | some session => simpa [hc] using hdirs
    simp only [sharedChecks, hprompt, hmodel, hs.prompt_bound, hs.model, hcheck, refuse]
    exact hresumed

/-- What is ready in a build was compiled from a sound resolution. -/
lemma prepareIn_ready {features : Features} {ready : ReadyTurn}
    (h : prepareIn features layers = .ready ready) :
    ∃ resolved, Sound resolved.merged resolved.provider ∧ compile resolved = .ok ready := by
  unfold prepareIn at h
  split at h
  · next resolved hr =>
    split at h
    · next turn hc =>
      obtain rfl := Prepared.ready.inj h
      unfold compileIn at hc
      split at hc
      · exact ⟨resolved,resolve_sound hr,hc⟩
      · cases hc
    · cases h
  · cases h
  · cases h

end Resolved

/-- What is particular to Claude in its adapter's preflight. -/
def claudeChecks (service : Claude.ClaudeService) (host : Host) (turn : Claude.ClaudeTurn) :
    Except AgentError Unit := do
  let _ ← Claude.effectiveAmbientContext service.ambientContext turn.options.ambientContext
  let _ ← Claude.checkOptions host { turn.options with model := none }
  let _ ← turn.options.additionalDirectories.mapM Claude.directoryOption
  return

/-- What is particular to Codex in its adapter's preflight. -/
def codexChecks (service : Codex.CodexService) (host : Host) (turn : Codex.CodexTurn) :
    Except AgentError Unit := do
  service.authorityPolicy.authorize host.canonicalize turn
  let _ ← turn.options.additionalDirectories.mapM Codex.directoryText
  let _ ← turn.options.outputSchema.toList.mapM (Codex.validateOutputSchema host)
  let _ ← Codex.renderSkillConfig host service.skillPolicy
  return

/-- Past the shared checks, only what is particular to Claude can refuse a turn. -/
theorem claude_preflight_eq {service : Claude.ClaudeService} {host : Host} {turn : Claude.ClaudeTurn}
    (h : sharedChecks (.claude turn) = .ok ()) :
    service.preflight host turn = claudeChecks service host turn := by
  obtain ⟨_,hsession,hmodel⟩ := bind_eq_ok.mp h
  have hoptions : Claude.checkOptions host turn.options =
      Claude.checkOptions host { turn.options with model := none } := by
    simp only [Claude.checkOptions, hmodel]
    rfl
  unfold Claude.ClaudeService.preflight claudeChecks
  simp only [hsession, Claude.buildQuery, hoptions]
  cases Claude.effectiveAmbientContext service.ambientContext turn.options.ambientContext with
  | error e => rfl
  | ok ambient =>
    cases Claude.checkOptions host { turn.options with model := none } with
    | error e => rfl
    | ok encoded =>
      cases turn.options.additionalDirectories.mapM Claude.directoryOption with
      | error e => rfl
      | ok directories => rfl

/-- Past the shared checks, only what is particular to Codex can refuse a turn. -/
theorem codex_preflight_eq {service : Codex.CodexService} {host : Host} {turn : Codex.CodexTurn}
    (h : sharedChecks (.codex turn) = .ok ()) :
    service.preflight host turn = codexChecks service host turn := by
  obtain ⟨_,hprompt,h⟩ := bind_eq_ok.mp h
  obtain ⟨_,hmodel,h⟩ := bind_eq_ok.mp h
  obtain ⟨session,hsession,hresumed⟩ := bind_eq_ok.mp h
  unfold Codex.CodexService.preflight Codex.preflightTurn codexChecks
  simp only [hprompt, hmodel, hsession, bind, Except.bind, hresumed]
  cases service.authorityPolicy.authorize host.canonicalize turn with
  | error e => rfl
  | ok _ =>
    cases turn.options.additionalDirectories.mapM Codex.directoryText with
    | error e => rfl
    | ok directories =>
      cases turn.options.outputSchema.toList.mapM (Codex.validateOutputSchema host) with
      | error e => rfl
      | ok encoded =>
        cases Codex.renderSkillConfig host service.skillPolicy with
        | error e => rfl
        | ok config => rfl

/-- In every build a planned turn is accepted downstream: the router takes it to the service of its
provider and to no other, and no check the adapter shares with planning refuses it, so that only what
is particular to the provider is left of the adapter's preflight. -/
theorem planned_turn_accepted {features : Features} {layers : Layers} {ready : ReadyTurn}
    (h : prepareIn features layers = .ready ready) :
    pinnedSessionMatches ready = .ok () ∧
      (∀ (S T : Type) (router : RoutedTurnService S T) (context : CallContext),
        (router.handles ready.provider = true →
          Dispatched router context ready (router.call ⟨context,ready⟩)) ∧
        (router.handles ready.provider = false →
          router.call ⟨context,ready⟩ = .failed (unregistered ready.provider))) ∧
      sharedChecks ready = .ok () ∧
      (∀ turn, ready = .claude turn → ∀ (service : Claude.ClaudeService) (host : Host),
        service.preflight host turn = claudeChecks service host turn) ∧
      ∀ turn, ready = .codex turn → ∀ (service : Codex.CodexService) (host : Host),
        service.preflight host turn = codexChecks service host turn := by
  obtain ⟨resolved,hs,hc⟩ := prepareIn_ready h
  have hmatches := compile_matches hc hs
  have hchecked := compile_checked hc hs
  refine ⟨hmatches,fun _ _ _ _ => RoutedTurnService.call_of_matches hmatches,hchecked,?_,?_⟩
  · rintro turn rfl service host
    exact claude_preflight_eq hchecked
  · rintro turn rfl service host
    exact codex_preflight_eq hchecked

/-- Whether a turn for Codex is ready. -/
def Prepared.codexReady : Prepared → Bool
  | .ready (.codex _) => true
  | _ => false

lemma Prepared.codexReady_iff {p : Prepared} :
    p.codexReady = true ↔ ∃ turn, p = .ready (.codex turn) := by
  constructor
  · intro h
    unfold Prepared.codexReady at h
    split at h
    · next turn => exact ⟨turn,rfl⟩
    · cases h
  · rintro ⟨turn,rfl⟩
    rfl

/-- A pass that resumes a Codex session. -/
def resumedLayers : Layers where
  explicit := { provider := some .codex, prompt := some "go", model := ⟨some "fast"⟩
                context := { resume := some ⟨.codex,"session"⟩ } }

theorem planned_turn_accepted_sample : ∃ turn,
    prepareIn ⟨false,true⟩ resumedLayers = .ready (.codex turn) ∧
    pinnedSessionMatches (.codex turn) = .ok () ∧ sharedChecks (.codex turn) = .ok () ∧
    ({} : Codex.CodexService).preflight sampleHost turn = codexChecks {} sampleHost turn := by
  obtain ⟨turn,ht⟩ : ∃ turn, prepareIn ⟨false,true⟩ resumedLayers = .ready (.codex turn) :=
    Prepared.codexReady_iff.mp (by decide +kernel)
  obtain ⟨hm,-,hs,-,hp⟩ := planned_turn_accepted ht
  exact ⟨turn,ht,hm,hs,hp turn rfl _ _⟩

end TowerAgent.Plan
