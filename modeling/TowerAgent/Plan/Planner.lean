import TowerAgent.Claude.Query
import TowerAgent.Codex.Preflight
import TowerAgent.Plan.Resolve

/-! The provider planners: a complete resolution folds into a concrete turn, or is refused. -/
namespace TowerAgent.Plan
open Lib Kernel Claude Codex

namespace Codes
def unsupportedProvider := "unsupported-provider"
def resumedAdditionalDirectories := "resumed-additional-directories"
def unsupportedFilesystemPermission := "unsupported-filesystem-permission"
end Codes

def EffortChoice.toClaude : EffortChoice → ClaudeEffort
  | .low => .low
  | .medium => .medium
  | .high => .high

def PermissionModeChoice.toClaude : PermissionModeChoice → ClaudePermissionMode
  | .default => .default
  | .acceptEdits => .acceptEdits
  | .dontAsk => .dontAsk
  | .plan => .plan
  | .auto => .auto

def AmbientContextChoice.toClaude : AmbientContextChoice → ClaudeAmbientContext
  | .inherit => .inherit
  | .hermeticProject => .hermetic .project
  | .hermeticFull => .hermetic .full
  | .safe => .safe
  | .bare => .bare

def FilesystemChoice.toAuthority : FilesystemChoice → FilesystemAuthority
  | .readOnly => .readOnly
  | .workspaceWrite => .workspaceWrite
  | .fullAccess => .fullAccess

def ResumeBinding.toSessionHandle (resume : ResumeBinding) : SessionHandle :=
  ⟨resume.provider.asStr,resume.value⟩

namespace ResolvedTurn
variable (resolved : ResolvedTurn)

def provider : ProviderId := resolved.merged.provider.get resolved.provider_bound

def prompt : String := resolved.merged.prompt.get resolved.prompt_bound

/-- The prompt, directory and handle of a resolution with a provider's options. -/
def turn {O : Type} (options : O) : Turn O where
  prompt := resolved.prompt
  workingDirectory := resolved.merged.context.cwd
  session := resolved.merged.context.resume.map ResumeBinding.toSessionHandle
  options := options

end ResolvedTurn

/-- A planner was given a resolution of another provider. -/
def unsupportedProvider (planner : ProviderId) (resolved : ResolvedTurn) : Diagnostic :=
  .error Codes.unsupportedProvider (some "provider")
    ("the " ++ planner.asStr ++ " planner cannot plan provider " ++ resolved.provider.asStr)

/-- Fold a complete resolution into a concrete Claude turn. -/
def planClaude (resolved : ResolvedTurn) : Except (List Diagnostic) ClaudeTurn :=
  let partialTurn := resolved.merged
  if resolved.provider ≠ .claude then .error [unsupportedProvider .claude resolved]
  else if partialTurn.permissions.filesystem.isSome then
    .error [.error Codes.unsupportedFilesystemPermission (some "permissions.filesystem")
      "the Claude adapter does not claim the portable filesystem-authority contract"]
  else
    let layer := partialTurn.providerOptions.claude.getD {}
    .ok (resolved.turn {
      systemPrompt := layer.systemPrompt
      appendSystemPrompt := layer.appendSystemPrompt
      model := partialTurn.model.name
      fallbackModel := layer.fallbackModel
      effort := layer.effort.map EffortChoice.toClaude
      allowedTools := layer.allowedTools.getD []
      disallowedTools := layer.disallowedTools.getD []
      additionalDirectories := partialTurn.context.additionalDirectories.getD []
      maxTurns := layer.maxTurns
      maxBudgetUsd := layer.maxBudgetUsd
      permissionMode := layer.permissionMode.map PermissionModeChoice.toClaude
      jsonSchema := layer.jsonSchema
      strictMcpConfig := layer.strictMcpConfig.getD false
      ambientContext := (layer.ambientContext.map AmbientContextChoice.toClaude).getD .inherit })

/-- Fold a complete resolution into a concrete Codex turn. -/
def planCodex (resolved : ResolvedTurn) : Except (List Diagnostic) CodexTurn :=
  let partialTurn := resolved.merged
  let additionalDirectories := partialTurn.context.additionalDirectories.getD []
  if resolved.provider ≠ .codex then .error [unsupportedProvider .codex resolved]
  else if partialTurn.context.resume.isSome && !additionalDirectories.isEmpty then
    .error [.error Codes.resumedAdditionalDirectories (some "context.additional_directories")
      "codex cannot add directories to a resumed turn"]
  else
    let layer := partialTurn.providerOptions.codex.getD {}
    .ok (resolved.turn {
      systemPrompt := layer.systemPrompt
      model := partialTurn.model.name
      additionalDirectories := additionalDirectories
      outputSchema := layer.outputSchema
      filesystemAuthority :=
        (partialTurn.permissions.filesystem.map FilesystemChoice.toAuthority).getD .readOnly
      ephemeral := layer.ephemeral.getD false })

/-- A turn committed to a provider. -/
inductive ReadyTurn where
  | claude (turn : ClaudeTurn)
  | codex (turn : CodexTurn)

namespace ReadyTurn

def provider : ReadyTurn → ProviderId
  | .claude _ => .claude
  | .codex _ => .codex

/-- The conversation a turn resumes. -/
def session : ReadyTurn → Option SessionHandle
  | .claude turn => turn.session
  | .codex turn => turn.session

end ReadyTurn

/-- Compile a complete resolution into a turn committed to its provider. -/
def compile (resolved : ResolvedTurn) : Except (List Diagnostic) ReadyTurn :=
  match resolved.provider with
  | .claude => (planClaude resolved).map .claude
  | .codex => (planCodex resolved).map .codex

/-- The outcome of resolving, then compiling. -/
inductive Prepared where
  | ready (turn : ReadyTurn)
  | missing (resolved : PartialTurn) (requirements : List Requirement)
  | invalid (diagnostics : List Diagnostic)

/-- Resolve the layers, then compile the result when it is complete. -/
def prepare (layers : Layers) : Prepared :=
  match resolve layers with
  | .complete resolved =>
    match compile resolved with
    | .ok turn => .ready turn
    | .error diagnostics => .invalid diagnostics
  | .missing resolved requirements => .missing resolved requirements
  | .invalid diagnostics => .invalid diagnostics

section Ready
variable {layers : Layers} {resolved : ResolvedTurn} {ready : ReadyTurn}

/-- What is ready was resolved, and compiled. -/
theorem prepare_ready (h : prepare layers = .ready ready) :
    ∃ resolved, resolve layers = .complete resolved ∧ compile resolved = .ok ready := by
  unfold prepare at h
  split at h
  · rename_i resolved hr
    split at h
    · rename_i turn hc
      obtain rfl := Prepared.ready.inj h
      exact ⟨resolved,hr,hc⟩
    · cases h
  · cases h
  · cases h

lemma planClaude_session {turn : ClaudeTurn} (h : planClaude resolved = .ok turn) :
    turn.session = resolved.merged.context.resume.map ResumeBinding.toSessionHandle := by
  unfold planClaude at h
  dsimp only at h
  split at h
  · cases h
  · split at h
    · cases h
    · obtain rfl := Except.ok.inj h
      rfl

lemma planCodex_session {turn : CodexTurn} (h : planCodex resolved = .ok turn) :
    turn.session = resolved.merged.context.resume.map ResumeBinding.toSessionHandle := by
  unfold planCodex at h
  dsimp only at h
  split at h
  · cases h
  · split at h
    · cases h
    · obtain rfl := Except.ok.inj h
      rfl

lemma map_eq_ok {ε α β : Type} {f : α → β} {x : Except ε α} {b : β} (h : x.map f = .ok b) :
    ∃ a, x = .ok a ∧ f a = b := by
  cases x with
  | error e => cases h
  | ok a => exact ⟨a,rfl,Except.ok.inj h⟩

/-- A compiled turn resumes what the resolution binds, and no other conversation. -/
theorem compile_session (h : compile resolved = .ok ready) :
    ready.session = resolved.merged.context.resume.map ResumeBinding.toSessionHandle := by
  unfold compile at h
  split at h
  · obtain ⟨turn,ht,rfl⟩ := map_eq_ok h
    exact planClaude_session ht
  · obtain ⟨turn,ht,rfl⟩ := map_eq_ok h
    exact planCodex_session ht

/-- A turn is compiled for the provider of its resolution. -/
theorem compile_provider (h : compile resolved = .ok ready) :
    ready.provider = resolved.provider := by
  unfold compile at h
  split at h
  all_goals
    rename_i hp
    obtain ⟨turn,-,rfl⟩ := map_eq_ok h
    exact hp.symm

end Ready

end TowerAgent.Plan
