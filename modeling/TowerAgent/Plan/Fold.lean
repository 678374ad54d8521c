import TowerAgent.Plan.Planner
import TowerAgent.Plan.Precedence

/-! The planners' folds: at every leaf that applies to the selected provider, the turn carries what
the resolution binds, or the planner refuses. -/
namespace TowerAgent.Plan
open Lib Kernel Claude Codex

section Conversions

lemma EffortChoice.toClaude_injective : Function.Injective EffortChoice.toClaude := by
  intro a b h
  cases a <;> cases b <;> first | rfl | cases h

lemma PermissionModeChoice.toClaude_injective :
    Function.Injective PermissionModeChoice.toClaude := by
  intro a b h
  cases a <;> cases b <;> first | rfl | cases h

lemma AmbientContextChoice.toClaude_injective :
    Function.Injective AmbientContextChoice.toClaude := by
  intro a b h
  cases a <;> cases b <;> first | rfl | cases h

lemma FilesystemChoice.toAuthority_injective :
    Function.Injective FilesystemChoice.toAuthority := by
  intro a b h
  cases a <;> cases b <;> first | rfl | cases h

lemma ProviderId.asStr_injective : Function.Injective ProviderId.asStr := by
  intro a b h
  have hs := congrArg ProviderId.fromStr h
  rw [ProviderId.fromStr_asStr,ProviderId.fromStr_asStr] at hs
  exact Option.some.inj hs

lemma ResumeBinding.toSessionHandle_injective :
    Function.Injective ResumeBinding.toSessionHandle := by
  intro a b h
  have hs := SessionHandle.mk.inj h
  cases a
  cases b
  rw [ResumeBinding.mk.injEq]
  exact ⟨ProviderId.asStr_injective hs.1,hs.2⟩

end Conversions

section Groups

/-- An absent group binds at its leaves what the default group binds: nothing. -/
lemma PartialClaudeOptions.binding_getD (group : Option PartialClaudeOptions) (field : ClaudeField) :
    (group.getD {}).binding field = group.bind (fun o => o.binding field) := by
  cases group with
  | none => cases field <;> rfl
  | some o => rfl

lemma PartialCodexOptions.binding_getD (group : Option PartialCodexOptions) (field : CodexField) :
    (group.getD {}).binding field = group.bind (fun o => o.binding field) := by
  cases group with
  | none => cases field <;> rfl
  | some o => rfl

/-- A group is what it binds at its leaves. -/
lemma PartialClaudeOptions.ext_binding {a b : PartialClaudeOptions}
    (h : ∀ field, a.binding field = b.binding field) : a = b := by
  cases a
  cases b
  simp only [PartialClaudeOptions.mk.injEq]
  exact ⟨h .systemPrompt,h .appendSystemPrompt,h .fallbackModel,h .effort,h .allowedTools,
    h .disallowedTools,h .maxTurns,h .maxBudgetUsd,h .permissionMode,h .jsonSchema,
    h .strictMcpConfig,h .ambientContext⟩

lemma PartialCodexOptions.ext_binding {a b : PartialCodexOptions}
    (h : ∀ field, a.binding field = b.binding field) : a = b := by
  cases a
  cases b
  simp only [PartialCodexOptions.mk.injEq]
  exact ⟨h .systemPrompt,h .outputSchema,h .ephemeral⟩

end Groups

namespace ResolvedTurn
variable (resolved : ResolvedTurn)

lemma binding_provider : resolved.merged.binding .provider = some resolved.provider :=
  (Option.some_get resolved.provider_bound).symm

lemma binding_prompt : resolved.merged.binding .prompt = some resolved.prompt :=
  (Option.some_get resolved.prompt_bound).symm

end ResolvedTurn

/-- A Claude turn honors the binding at a leaf; the leaves of the other group do not apply. -/
def ClaudeHonors (bound : Bindings Path.Val) (turn : ClaudeTurn) : Path → Prop
  | .provider => bound .provider = some .claude
  | .prompt => bound .prompt = some turn.prompt
  | .modelName => Honors some ({} : ClaudeOptions).model (bound .modelName) turn.options.model
  | .cwd => Honors some none (bound .cwd) turn.workingDirectory
  | .additionalDirectories => Honors id ({} : ClaudeOptions).additionalDirectories
      (bound .additionalDirectories) turn.options.additionalDirectories
  | .resume => Honors (fun r => some (ResumeBinding.toSessionHandle r)) none (bound .resume)
      turn.session
  | .filesystem => bound .filesystem = none
  | .claude .systemPrompt => Honors some ({} : ClaudeOptions).systemPrompt
      (bound (.claude .systemPrompt)) turn.options.systemPrompt
  | .claude .appendSystemPrompt => Honors some ({} : ClaudeOptions).appendSystemPrompt
      (bound (.claude .appendSystemPrompt)) turn.options.appendSystemPrompt
  | .claude .fallbackModel => Honors some ({} : ClaudeOptions).fallbackModel
      (bound (.claude .fallbackModel)) turn.options.fallbackModel
  | .claude .effort => Honors (fun e => some (EffortChoice.toClaude e)) ({} : ClaudeOptions).effort
      (bound (.claude .effort)) turn.options.effort
  | .claude .allowedTools => Honors id ({} : ClaudeOptions).allowedTools
      (bound (.claude .allowedTools)) turn.options.allowedTools
  | .claude .disallowedTools => Honors id ({} : ClaudeOptions).disallowedTools
      (bound (.claude .disallowedTools)) turn.options.disallowedTools
  | .claude .maxTurns => Honors some ({} : ClaudeOptions).maxTurns
      (bound (.claude .maxTurns)) turn.options.maxTurns
  | .claude .maxBudgetUsd => Honors some ({} : ClaudeOptions).maxBudgetUsd
      (bound (.claude .maxBudgetUsd)) turn.options.maxBudgetUsd
  | .claude .permissionMode => Honors (fun m => some (PermissionModeChoice.toClaude m))
      ({} : ClaudeOptions).permissionMode (bound (.claude .permissionMode))
      turn.options.permissionMode
  | .claude .jsonSchema => Honors some ({} : ClaudeOptions).jsonSchema
      (bound (.claude .jsonSchema)) turn.options.jsonSchema
  | .claude .strictMcpConfig => Honors id ({} : ClaudeOptions).strictMcpConfig
      (bound (.claude .strictMcpConfig)) turn.options.strictMcpConfig
  | .claude .ambientContext => Honors AmbientContextChoice.toClaude
      ({} : ClaudeOptions).ambientContext (bound (.claude .ambientContext))
      turn.options.ambientContext
  | .codex _ => True

/-- A Codex turn honors the binding at a leaf; the leaves of the other group do not apply. -/
def CodexHonors (bound : Bindings Path.Val) (turn : CodexTurn) : Path → Prop
  | .provider => bound .provider = some .codex
  | .prompt => bound .prompt = some turn.prompt
  | .modelName => Honors some ({} : CodexOptions).model (bound .modelName) turn.options.model
  | .cwd => Honors some none (bound .cwd) turn.workingDirectory
  | .additionalDirectories => Honors id ({} : CodexOptions).additionalDirectories
      (bound .additionalDirectories) turn.options.additionalDirectories
  | .resume => Honors (fun r => some (ResumeBinding.toSessionHandle r)) none (bound .resume)
      turn.session
  | .filesystem => Honors FilesystemChoice.toAuthority ({} : CodexOptions).filesystemAuthority
      (bound .filesystem) turn.options.filesystemAuthority
  | .codex .systemPrompt => Honors some ({} : CodexOptions).systemPrompt
      (bound (.codex .systemPrompt)) turn.options.systemPrompt
  | .codex .outputSchema => Honors some ({} : CodexOptions).outputSchema
      (bound (.codex .outputSchema)) turn.options.outputSchema
  | .codex .ephemeral => Honors id ({} : CodexOptions).ephemeral
      (bound (.codex .ephemeral)) turn.options.ephemeral
  | .claude _ => True

section Determined
variable {bound : Bindings Path.Val}

/-- No field of a Claude turn is left open by the leaves that it honors. -/
theorem ClaudeHonors.unique {x y : ClaudeTurn} (hx : ∀ p, ClaudeHonors bound x p)
    (hy : ∀ p, ClaudeHonors bound y p) : x = y := by
  have hprompt : x.prompt = y.prompt := Option.some.inj ((hx .prompt).symm.trans (hy .prompt))
  have hcwd : x.workingDirectory = y.workingDirectory := Honors.unique (hx .cwd) (hy .cwd)
  have hsession : x.session = y.session := Honors.unique (hx .resume) (hy .resume)
  have hoptions : x.options = y.options := by
    have h := fun field => And.intro (hx (.claude field)) (hy (.claude field))
    cases hxo : x.options
    cases hyo : y.options
    simp only [ClaudeHonors, hxo, hyo] at h
    have hmodel := Honors.unique (hx .modelName) (hy .modelName)
    have hdirectories := Honors.unique (hx .additionalDirectories) (hy .additionalDirectories)
    simp only [hxo, hyo] at hmodel hdirectories
    rw [ClaudeOptions.mk.injEq]
    exact ⟨(h .systemPrompt).1.unique (h .systemPrompt).2,
      (h .appendSystemPrompt).1.unique (h .appendSystemPrompt).2,hmodel,
      (h .fallbackModel).1.unique (h .fallbackModel).2,(h .effort).1.unique (h .effort).2,
      (h .allowedTools).1.unique (h .allowedTools).2,
      (h .disallowedTools).1.unique (h .disallowedTools).2,hdirectories,
      (h .maxTurns).1.unique (h .maxTurns).2,(h .maxBudgetUsd).1.unique (h .maxBudgetUsd).2,
      (h .permissionMode).1.unique (h .permissionMode).2,
      (h .jsonSchema).1.unique (h .jsonSchema).2,
      (h .strictMcpConfig).1.unique (h .strictMcpConfig).2,
      (h .ambientContext).1.unique (h .ambientContext).2⟩
  cases x
  cases y
  rw [Turn.mk.injEq]
  exact ⟨hprompt,hcwd,hsession,hoptions⟩

/-- No field of a Codex turn is left open by the leaves that it honors. -/
theorem CodexHonors.unique {x y : CodexTurn} (hx : ∀ p, CodexHonors bound x p)
    (hy : ∀ p, CodexHonors bound y p) : x = y := by
  have hprompt : x.prompt = y.prompt := Option.some.inj ((hx .prompt).symm.trans (hy .prompt))
  have hcwd : x.workingDirectory = y.workingDirectory := Honors.unique (hx .cwd) (hy .cwd)
  have hsession : x.session = y.session := Honors.unique (hx .resume) (hy .resume)
  have hoptions : x.options = y.options := by
    have hsystem := Honors.unique (hx (.codex .systemPrompt)) (hy (.codex .systemPrompt))
    have hmodel := Honors.unique (hx .modelName) (hy .modelName)
    have hdirectories := Honors.unique (hx .additionalDirectories) (hy .additionalDirectories)
    have hschema := Honors.unique (hx (.codex .outputSchema)) (hy (.codex .outputSchema))
    have hauthority := Honors.unique (hx .filesystem) (hy .filesystem)
    have hephemeral := Honors.unique (hx (.codex .ephemeral)) (hy (.codex .ephemeral))
    cases hxo : x.options
    cases hyo : y.options
    simp only [hxo, hyo] at hsystem hmodel hdirectories hschema hauthority hephemeral
    rw [CodexOptions.mk.injEq]
    exact ⟨hsystem,hmodel,hdirectories,hschema,hauthority,hephemeral⟩
  cases x
  cases y
  rw [Turn.mk.injEq]
  exact ⟨hprompt,hcwd,hsession,hoptions⟩

end Determined

section Claude
variable {resolved : ResolvedTurn} {turn : ClaudeTurn}

/-- The Claude planner accepts exactly what it can represent. -/
theorem planClaude_isOk : (∃ turn, planClaude resolved = .ok turn) ↔
    resolved.provider = .claude ∧ resolved.merged.permissions.filesystem = none := by
  simp only [planClaude]
  split
  · next h => simp [h]
  · next h =>
    rw [ne_eq,not_not] at h
    cases hf : resolved.merged.permissions.filesystem <;> simp [h]

/-- What the Claude planner accepts is honored at every leaf. -/
lemma planClaude_honors (h : planClaude resolved = .ok turn) (p : Path) :
    ClaudeHonors resolved.merged.binding turn p := by
  obtain ⟨hp,hf⟩ := planClaude_isOk.mp ⟨turn,h⟩
  simp only [planClaude, hp, ne_eq, not_true_eq_false, if_false, hf, Option.isSome_none,
    Bool.false_eq_true] at h
  obtain rfl := Except.ok.inj h
  cases p with
  | provider => exact resolved.binding_provider.trans (congrArg some hp)
  | prompt => exact resolved.binding_prompt
  | modelName => exact Honors.self _
  | cwd => exact Honors.self _
  | additionalDirectories => exact Honors.getD _ _
  | resume => exact Honors.map ResumeBinding.toSessionHandle_injective _
  | filesystem => exact hf
  | codex field => trivial
  | claude field =>
    -- Each leaf of the group reads as the field that the fold takes from the defaulted group.
    have hb := PartialClaudeOptions.binding_getD resolved.merged.providerOptions.claude
    cases field <;> simp only [ClaudeHonors, PartialTurn.binding, ←hb]
    case effort => exact Honors.map EffortChoice.toClaude_injective _
    case permissionMode => exact Honors.map PermissionModeChoice.toClaude_injective _
    case ambientContext => exact Honors.mapGetD AmbientContextChoice.toClaude_injective _ _
    case allowedTools | disallowedTools | strictMcpConfig => exact Honors.getD _ _
    all_goals exact Honors.self _

end Claude

section Codex
variable {resolved : ResolvedTurn} {turn : CodexTurn}

/-- The Codex planner accepts exactly what it can represent. -/
theorem planCodex_isOk : (∃ turn, planCodex resolved = .ok turn) ↔ resolved.provider = .codex ∧
    (resolved.merged.context.resume = none ∨
      resolved.merged.context.additionalDirectories.getD [] = []) := by
  simp only [planCodex]
  split
  · next h => simp [h]
  · next h =>
    rw [ne_eq,not_not] at h
    split
    · next hr =>
      rw [Bool.and_eq_true,Option.isSome_iff_ne_none,Bool.not_eq_true',List.isEmpty_eq_false_iff] at hr
      simp [h, hr]
    · next hr =>
      rw [Bool.and_eq_true,Option.isSome_iff_ne_none,Bool.not_eq_true',List.isEmpty_eq_false_iff,
        not_and_or,not_not,not_not] at hr
      simp [h, hr]

/-- What the Codex planner accepts is honored at every leaf. -/
lemma planCodex_honors (h : planCodex resolved = .ok turn) (p : Path) :
    CodexHonors resolved.merged.binding turn p := by
  obtain ⟨hp,-⟩ := planCodex_isOk.mp ⟨turn,h⟩
  simp only [planCodex, hp, ne_eq, not_true_eq_false, if_false] at h
  split at h
  · cases h
  obtain rfl := Except.ok.inj h
  cases p with
  | provider => exact resolved.binding_provider.trans (congrArg some hp)
  | prompt => exact resolved.binding_prompt
  | modelName => exact Honors.self _
  | cwd => exact Honors.self _
  | additionalDirectories => exact Honors.getD _ _
  | resume => exact Honors.map ResumeBinding.toSessionHandle_injective _
  | filesystem => exact Honors.mapGetD FilesystemChoice.toAuthority_injective _ _
  | claude field => trivial
  | codex field =>
    have hb := PartialCodexOptions.binding_getD resolved.merged.providerOptions.codex
    cases field <;> simp only [CodexHonors, PartialTurn.binding, ←hb]
    case ephemeral => exact Honors.getD _ _
    all_goals exact Honors.self _

end Codex

section Independence
variable {r r' : ResolvedTurn}

lemma ResolvedTurn.provider_congr (h : r.merged.binding .provider = r'.merged.binding .provider) :
    r.provider = r'.provider := by
  rw [binding_provider,binding_provider] at h
  exact Option.some.inj h

lemma ResolvedTurn.prompt_congr (h : r.merged.binding .prompt = r'.merged.binding .prompt) :
    r.prompt = r'.prompt := by
  rw [binding_prompt,binding_prompt] at h
  exact Option.some.inj h

/-- The Claude planner reads no leaf of the Codex group. -/
lemma planClaude_congr
    (h : ∀ p, (∀ field, p ≠ .codex field) → r.merged.binding p = r'.merged.binding p) :
    planClaude r = planClaude r' := by
  have hp := ResolvedTurn.provider_congr (h .provider (by simp))
  have hq := ResolvedTurn.prompt_congr (h .prompt (by simp))
  have hm : r.merged.model.name = r'.merged.model.name := h .modelName (by simp)
  have hc : r.merged.context.cwd = r'.merged.context.cwd := h .cwd (by simp)
  have hd : r.merged.context.additionalDirectories = r'.merged.context.additionalDirectories :=
    h .additionalDirectories (by simp)
  have hs : r.merged.context.resume = r'.merged.context.resume := h .resume (by simp)
  have hf : r.merged.permissions.filesystem = r'.merged.permissions.filesystem :=
    h .filesystem (by simp)
  have hg : r.merged.providerOptions.claude.getD {} = r'.merged.providerOptions.claude.getD {} := by
    apply PartialClaudeOptions.ext_binding
    intro field
    rw [PartialClaudeOptions.binding_getD,PartialClaudeOptions.binding_getD]
    exact h (.claude field) (by simp)
  simp only [planClaude, unsupportedProvider, ResolvedTurn.turn, hp, hq, hm, hc, hd, hs, hf, hg]

/-- The Codex planner reads no leaf of the Claude group. -/
lemma planCodex_congr
    (h : ∀ p, (∀ field, p ≠ .claude field) → r.merged.binding p = r'.merged.binding p) :
    planCodex r = planCodex r' := by
  have hp := ResolvedTurn.provider_congr (h .provider (by simp))
  have hq := ResolvedTurn.prompt_congr (h .prompt (by simp))
  have hm : r.merged.model.name = r'.merged.model.name := h .modelName (by simp)
  have hc : r.merged.context.cwd = r'.merged.context.cwd := h .cwd (by simp)
  have hd : r.merged.context.additionalDirectories = r'.merged.context.additionalDirectories :=
    h .additionalDirectories (by simp)
  have hs : r.merged.context.resume = r'.merged.context.resume := h .resume (by simp)
  have hf : r.merged.permissions.filesystem = r'.merged.permissions.filesystem :=
    h .filesystem (by simp)
  have hg : r.merged.providerOptions.codex.getD {} = r'.merged.providerOptions.codex.getD {} := by
    apply PartialCodexOptions.ext_binding
    intro field
    rw [PartialCodexOptions.binding_getD,PartialCodexOptions.binding_getD]
    exact h (.codex field) (by simp)
  simp only [planCodex, unsupportedProvider, ResolvedTurn.turn, hp, hq, hm, hc, hd, hs, hf, hg]

end Independence

/-- The planners honor every leaf that applies to their provider, or refuse; neither reads the other
provider's group. -/
theorem planners_honor_or_refuse :
    (∀ resolved, (∃ diagnostics, planClaude resolved = .error diagnostics) ∨
      ∃ turn, planClaude resolved = .ok turn ∧
        ∀ p, ClaudeHonors resolved.merged.binding turn p) ∧
      (∀ resolved, (∃ diagnostics, planCodex resolved = .error diagnostics) ∨
        ∃ turn, planCodex resolved = .ok turn ∧
          ∀ p, CodexHonors resolved.merged.binding turn p) ∧
      (∀ r r' : ResolvedTurn,
        (∀ p, (∀ field, p ≠ .codex field) → r.merged.binding p = r'.merged.binding p) →
          planClaude r = planClaude r') ∧
      ∀ r r' : ResolvedTurn,
        (∀ p, (∀ field, p ≠ .claude field) → r.merged.binding p = r'.merged.binding p) →
          planCodex r = planCodex r' := by
  refine ⟨fun resolved => ?_,fun resolved => ?_,fun _ _ => planClaude_congr,
    fun _ _ => planCodex_congr⟩
  · cases h : planClaude resolved with
    | error diagnostics => exact .inl ⟨diagnostics,rfl⟩
    | ok turn => exact .inr ⟨turn,rfl,planClaude_honors h⟩
  · cases h : planCodex resolved with
    | error diagnostics => exact .inl ⟨diagnostics,rfl⟩
    | ok turn => exact .inr ⟨turn,rfl,planCodex_honors h⟩

/-- A bound Codex group leaves a Claude plan as it was, and the plan carries what it binds. -/
theorem planners_honor_or_refuse_sample :
    planClaude ⟨{ provider := some .claude, prompt := some "inspect", providerOptions := {
        claude := some { effort := some .high }
        codex := some { ephemeral := some true } } },rfl,rfl⟩ =
      planClaude ⟨{ provider := some .claude, prompt := some "inspect", providerOptions := {
        claude := some { effort := some .high } } },rfl,rfl⟩ ∧
      ∃ turn, planClaude ⟨{ provider := some .claude, prompt := some "inspect", providerOptions := {
        claude := some { effort := some .high } } },rfl,rfl⟩ = .ok turn ∧
        turn.options.effort = some .high := by
  refine ⟨planners_honor_or_refuse.2.2.1 _ _ (fun p hp => ?_),_,rfl,rfl⟩
  cases p with
  | codex field => exact absurd rfl (hp field)
  | _ => rfl

end TowerAgent.Plan
