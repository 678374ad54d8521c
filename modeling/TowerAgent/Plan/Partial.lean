import TowerAgent.Kernel.Request
import TowerAgent.Lib.Ordered

/-! Partial turns: what one planning layer binds, and how a higher layer folds into a lower one.
Both provider features are taken as enabled. -/
namespace TowerAgent.Plan
open Lib

/-- The provider a partial turn selects. -/
inductive ProviderId where
  | claude
  | codex
  deriving DecidableEq, Repr

namespace ProviderId

def rank : ProviderId → ℕ
  | .claude => 0
  | .codex => 1

instance : LinearOrder ProviderId :=
  LinearOrder.lift' rank (by intro a b; cases a <;> cases b <;> simp [rank])

def asStr : ProviderId → String
  | .claude => "claude"
  | .codex => "codex"

/-- `FromStr` of a provider name. -/
def fromStr (value : String) : Option ProviderId :=
  if value = "claude" then some .claude
  else if value = "codex" then some .codex
  else none

theorem fromStr_asStr (p : ProviderId) : fromStr p.asStr = some p := by cases p <;> rfl

theorem asStr_of_fromStr {value : String} {p : ProviderId} (h : fromStr value = some p) :
    p.asStr = value := by
  unfold fromStr at h
  split at h
  · rename_i hv
    obtain rfl := Option.some.inj h
    exact hv.symm
  · split at h
    · rename_i hv
      obtain rfl := Option.some.inj h
      exact hv.symm
    · cases h

end ProviderId

inductive FilesystemChoice where
  | readOnly
  | workspaceWrite
  | fullAccess
  deriving DecidableEq, Repr

inductive EffortChoice where
  | low
  | medium
  | high
  deriving DecidableEq, Repr

inductive PermissionModeChoice where
  | default
  | acceptEdits
  | dontAsk
  | plan
  | auto
  deriving DecidableEq, Repr

inductive AmbientContextChoice where
  | inherit
  | hermeticProject
  | hermeticFull
  | safe
  | bare
  deriving DecidableEq, Repr

abbrev PathBuf := Kernel.PathBuf

/-- A provider-tagged resume value. -/
structure ResumeBinding where
  provider : ProviderId
  value : String
  deriving DecidableEq, Repr

structure PartialModel where
  name : Option String := none

structure PartialContext where
  cwd : Option PathBuf := none
  additionalDirectories : Option (List PathBuf) := none
  resume : Option ResumeBinding := none

structure PartialPermissions where
  filesystem : Option FilesystemChoice := none

structure PartialClaudeOptions where
  systemPrompt : Option String := none
  appendSystemPrompt : Option String := none
  fallbackModel : Option String := none
  effort : Option EffortChoice := none
  allowedTools : Option (List String) := none
  disallowedTools : Option (List String) := none
  maxTurns : Option UInt32 := none
  maxBudgetUsd : Option F64 := none
  permissionMode : Option PermissionModeChoice := none
  jsonSchema : Option Json := none
  strictMcpConfig : Option Bool := none
  ambientContext : Option AmbientContextChoice := none

structure PartialCodexOptions where
  systemPrompt : Option String := none
  outputSchema : Option Json := none
  ephemeral : Option Bool := none

structure PartialProviderOptions where
  claude : Option PartialClaudeOptions := none
  codex : Option PartialCodexOptions := none

/-- A possibly incomplete set of turn bindings. -/
structure PartialTurn where
  provider : Option ProviderId := none
  prompt : Option String := none
  model : PartialModel := {}
  context : PartialContext := {}
  permissions : PartialPermissions := {}
  providerOptions : PartialProviderOptions := {}

/-- `if layer.field.is_some() { self.field = layer.field }`. -/
def replace {α : Type} (current layer : Option α) : Option α :=
  if layer.isSome then layer else current

/-- Fold an optional group of a layer into the current one. -/
def mergeGroup {α : Type} (merge : α → α → α) : Option α → Option α → Option α
  | some current,some incoming => some (merge current incoming)
  | none,some incoming => some incoming
  | current,none => current

def PartialModel.mergeFrom (self layer : PartialModel) : PartialModel :=
  ⟨replace self.name layer.name⟩

def PartialContext.mergeFrom (self layer : PartialContext) : PartialContext :=
  ⟨replace self.cwd layer.cwd,replace self.additionalDirectories layer.additionalDirectories,
    replace self.resume layer.resume⟩

def PartialPermissions.mergeFrom (self layer : PartialPermissions) : PartialPermissions :=
  ⟨replace self.filesystem layer.filesystem⟩

def PartialClaudeOptions.mergeFrom (self layer : PartialClaudeOptions) : PartialClaudeOptions where
  systemPrompt := replace self.systemPrompt layer.systemPrompt
  appendSystemPrompt := replace self.appendSystemPrompt layer.appendSystemPrompt
  fallbackModel := replace self.fallbackModel layer.fallbackModel
  effort := replace self.effort layer.effort
  allowedTools := replace self.allowedTools layer.allowedTools
  disallowedTools := replace self.disallowedTools layer.disallowedTools
  maxTurns := replace self.maxTurns layer.maxTurns
  maxBudgetUsd := replace self.maxBudgetUsd layer.maxBudgetUsd
  permissionMode := replace self.permissionMode layer.permissionMode
  jsonSchema := replace self.jsonSchema layer.jsonSchema
  strictMcpConfig := replace self.strictMcpConfig layer.strictMcpConfig
  ambientContext := replace self.ambientContext layer.ambientContext

def PartialCodexOptions.mergeFrom (self layer : PartialCodexOptions) : PartialCodexOptions where
  systemPrompt := replace self.systemPrompt layer.systemPrompt
  outputSchema := replace self.outputSchema layer.outputSchema
  ephemeral := replace self.ephemeral layer.ephemeral

def PartialProviderOptions.mergeFrom (self layer : PartialProviderOptions) :
    PartialProviderOptions where
  claude := mergeGroup PartialClaudeOptions.mergeFrom self.claude layer.claude
  codex := mergeGroup PartialCodexOptions.mergeFrom self.codex layer.codex

/-- Fold a higher-precedence layer into this one. -/
def PartialTurn.mergeFrom (self layer : PartialTurn) : PartialTurn where
  provider := replace self.provider layer.provider
  prompt := replace self.prompt layer.prompt
  model := self.model.mergeFrom layer.model
  context := self.context.mergeFrom layer.context
  permissions := self.permissions.mergeFrom layer.permissions
  providerOptions := self.providerOptions.mergeFrom layer.providerOptions

section Laws
variable {α : Type}

theorem replace_eq_or (current layer : Option α) : replace current layer = layer.or current := by
  cases layer <;> rfl

lemma replace_assoc (a b c : Option α) : replace (replace a b) c = replace a (replace b c) := by
  simp only [replace_eq_or, Option.or_assoc]

@[simp] lemma replace_none (a : Option α) : replace a none = a := by rfl
@[simp] lemma none_replace (a : Option α) : replace none a = a := by cases a <;> rfl
@[simp] lemma replace_self (a : Option α) : replace a a = a := by cases a <;> rfl

lemma mergeGroup_assoc {merge : α → α → α} (h : ∀ a b c, merge (merge a b) c = merge a (merge b c))
    (a b c : Option α) : mergeGroup merge (mergeGroup merge a b) c =
      mergeGroup merge a (mergeGroup merge b c) := by
  cases a <;> cases b <;> cases c <;> simp [mergeGroup, h]

@[simp] lemma mergeGroup_none (merge : α → α → α) (a : Option α) : mergeGroup merge a none = a := by
  cases a <;> rfl

@[simp] lemma none_mergeGroup (merge : α → α → α) (a : Option α) : mergeGroup merge none a = a := by
  cases a <;> rfl

lemma mergeGroup_self {merge : α → α → α} (h : ∀ a, merge a a = a) (a : Option α) :
    mergeGroup merge a a = a := by
  cases a <;> simp [mergeGroup, h]

lemma PartialClaudeOptions.mergeFrom_assoc (a b c : PartialClaudeOptions) :
    (a.mergeFrom b).mergeFrom c = a.mergeFrom (b.mergeFrom c) := by
  simp only [mergeFrom, replace_assoc]

lemma PartialCodexOptions.mergeFrom_assoc (a b c : PartialCodexOptions) :
    (a.mergeFrom b).mergeFrom c = a.mergeFrom (b.mergeFrom c) := by
  simp only [mergeFrom, replace_assoc]

lemma PartialClaudeOptions.mergeFrom_self (a : PartialClaudeOptions) : a.mergeFrom a = a := by
  simp only [mergeFrom, replace_self]

lemma PartialCodexOptions.mergeFrom_self (a : PartialCodexOptions) : a.mergeFrom a = a := by
  simp only [mergeFrom, replace_self]

lemma PartialProviderOptions.mergeFrom_assoc (a b c : PartialProviderOptions) :
    (a.mergeFrom b).mergeFrom c = a.mergeFrom (b.mergeFrom c) := by
  simp only [mergeFrom, mergeGroup_assoc PartialClaudeOptions.mergeFrom_assoc,
    mergeGroup_assoc PartialCodexOptions.mergeFrom_assoc]

lemma PartialProviderOptions.mergeFrom_self (a : PartialProviderOptions) : a.mergeFrom a = a := by
  simp only [mergeFrom, mergeGroup_self PartialClaudeOptions.mergeFrom_self,
    mergeGroup_self PartialCodexOptions.mergeFrom_self]

/-- Merging is associative. -/
theorem PartialTurn.mergeFrom_assoc (a b c : PartialTurn) :
    (a.mergeFrom b).mergeFrom c = a.mergeFrom (b.mergeFrom c) := by
  simp only [mergeFrom, replace_assoc, PartialModel.mergeFrom, PartialContext.mergeFrom,
    PartialPermissions.mergeFrom, PartialProviderOptions.mergeFrom_assoc]

/-- The default partial turn changes nothing. -/
theorem PartialTurn.mergeFrom_default (a : PartialTurn) : a.mergeFrom {} = a := by
  simp only [mergeFrom, replace_none, PartialModel.mergeFrom, PartialContext.mergeFrom,
    PartialPermissions.mergeFrom, PartialProviderOptions.mergeFrom, mergeGroup_none]

theorem PartialTurn.default_mergeFrom (a : PartialTurn) : ({} : PartialTurn).mergeFrom a = a := by
  simp only [mergeFrom, none_replace, PartialModel.mergeFrom, PartialContext.mergeFrom,
    PartialPermissions.mergeFrom, PartialProviderOptions.mergeFrom, none_mergeGroup]

/-- Merging a layer into itself changes nothing. -/
theorem PartialTurn.mergeFrom_self (a : PartialTurn) : a.mergeFrom a = a := by
  simp only [mergeFrom, replace_self, PartialModel.mergeFrom, PartialContext.mergeFrom,
    PartialPermissions.mergeFrom, PartialProviderOptions.mergeFrom_self]

end Laws
end TowerAgent.Plan
