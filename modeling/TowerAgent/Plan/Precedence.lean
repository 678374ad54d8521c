import TowerAgent.Lib.Overlay
import TowerAgent.Plan.Resolve

/-! Precedence: at every leaf path, a resolution that is not refused binds what the highest layer
binds there, and an answer only where no layer does. -/
namespace TowerAgent.Plan
open Lib Lib.Bindings

/-- The leaves of the Claude option group. -/
inductive ClaudeField where
  | systemPrompt | appendSystemPrompt | fallbackModel | effort | allowedTools | disallowedTools
  | maxTurns | maxBudgetUsd | permissionMode | jsonSchema | strictMcpConfig | ambientContext
  deriving DecidableEq, Repr

/-- The leaves of the Codex option group. -/
inductive CodexField where
  | systemPrompt | outputSchema | ephemeral
  deriving DecidableEq, Repr

/-- The leaf paths of a partial turn. -/
inductive Path where
  | provider | prompt | modelName | cwd | additionalDirectories | resume | filesystem
  | claude (field : ClaudeField)
  | codex (field : CodexField)
  deriving DecidableEq, Repr

/-- The type of the values bound at a leaf. -/
@[reducible] def ClaudeField.Val : ClaudeField → Type
  | .systemPrompt | .appendSystemPrompt | .fallbackModel => String
  | .effort => EffortChoice
  | .allowedTools | .disallowedTools => List String
  | .maxTurns => UInt32
  | .maxBudgetUsd => F64
  | .permissionMode => PermissionModeChoice
  | .jsonSchema => Json
  | .strictMcpConfig => Bool
  | .ambientContext => AmbientContextChoice

@[reducible] def CodexField.Val : CodexField → Type
  | .systemPrompt => String
  | .outputSchema => Json
  | .ephemeral => Bool

@[reducible] def Path.Val : Path → Type
  | .provider => ProviderId
  | .prompt | .modelName => String
  | .cwd => PathBuf
  | .additionalDirectories => List PathBuf
  | .resume => ResumeBinding
  | .filesystem => FilesystemChoice
  | .claude field => field.Val
  | .codex field => field.Val

def PartialClaudeOptions.binding (o : PartialClaudeOptions) : Bindings ClaudeField.Val
  | .systemPrompt => o.systemPrompt
  | .appendSystemPrompt => o.appendSystemPrompt
  | .fallbackModel => o.fallbackModel
  | .effort => o.effort
  | .allowedTools => o.allowedTools
  | .disallowedTools => o.disallowedTools
  | .maxTurns => o.maxTurns
  | .maxBudgetUsd => o.maxBudgetUsd
  | .permissionMode => o.permissionMode
  | .jsonSchema => o.jsonSchema
  | .strictMcpConfig => o.strictMcpConfig
  | .ambientContext => o.ambientContext

def PartialCodexOptions.binding (o : PartialCodexOptions) : Bindings CodexField.Val
  | .systemPrompt => o.systemPrompt
  | .outputSchema => o.outputSchema
  | .ephemeral => o.ephemeral

/-- What a partial turn binds at each leaf; only `none` is no binding. -/
def PartialTurn.binding (t : PartialTurn) : Bindings Path.Val
  | .provider => t.provider
  | .prompt => t.prompt
  | .modelName => t.model.name
  | .cwd => t.context.cwd
  | .additionalDirectories => t.context.additionalDirectories
  | .resume => t.context.resume
  | .filesystem => t.permissions.filesystem
  | .claude field => t.providerOptions.claude.bind (fun o => o.binding field)
  | .codex field => t.providerOptions.codex.bind (fun o => o.binding field)

section Merge

lemma PartialClaudeOptions.binding_mergeFrom (a b : PartialClaudeOptions) :
    (a.mergeFrom b).binding = overlay a.binding b.binding := by
  funext field
  cases field <;> exact replace_eq_or _ _

lemma PartialCodexOptions.binding_mergeFrom (a b : PartialCodexOptions) :
    (a.mergeFrom b).binding = overlay a.binding b.binding := by
  funext field
  cases field <;> exact replace_eq_or _ _

/-- A group merged leaf by leaf reads as the overlay of its two sides. -/
lemma mergeGroup_bind {α β : Type} {merge : α → α → α} {read : α → Option β}
    (h : ∀ a b, read (merge a b) = (read b).or (read a)) (current incoming : Option α) :
    (mergeGroup merge current incoming).bind read = (incoming.bind read).or (current.bind read) := by
  cases current <;> cases incoming <;> simp [mergeGroup, h]

/-- Merging a layer in is laying its bindings over the current ones. -/
theorem PartialTurn.binding_mergeFrom (a b : PartialTurn) :
    (a.mergeFrom b).binding = overlay a.binding b.binding := by
  funext p
  cases p with
  | claude field =>
    refine mergeGroup_bind (fun x y => ?_) _ _
    rw [PartialClaudeOptions.binding_mergeFrom,overlay]
  | codex field =>
    refine mergeGroup_bind (fun x y => ?_) _ _
    rw [PartialCodexOptions.binding_mergeFrom,overlay]
  | _ => exact replace_eq_or _ _

lemma PartialTurn.binding_default : ({} : PartialTurn).binding = unbound := by
  funext p
  cases p <;> rfl

end Merge

/-- The baseline of a provider as a layer: everything but its own `provider` field. -/
def baselineLayer (layers : Layers) (provider : Option ProviderId) : Bindings Path.Val
  | .provider => none
  | p => provider.bind (fun id => layers.providerDefaults.bind (fun d => (d.get id).bind
      (fun t => t.binding p)))

/-- The layers of a pass for a selected provider, the lowest first. -/
def Layers.stacked (layers : Layers) (provider : Option ProviderId) : List (Bindings Path.Val) :=
  [baselineLayer layers provider,(layers.applicationDefaults.getD {}).binding,
    ((layers.profile.map Profile.turn).getD {}).binding,layers.explicit.binding]

/-- What the answers offer at a leaf: the first provider or prompt answer. -/
def answerAt (answers : List Answer) : Bindings Path.Val
  | .provider => (answers.find? (fun a => decide (a.id = Ids.provider))).bind
      (fun a => ProviderId.fromStr a.value)
  | .prompt => (answers.find? (fun a => decide (a.id = Ids.prompt))).map Answer.value
  | _ => none

section Answers
variable {answers : List Answer} {m m' : PartialTurn} {ds : List Diagnostic}

lemma answerAt_provider_cons {a : Answer} : answerAt (a::answers) .provider =
    if a.id = Ids.provider then ProviderId.fromStr a.value else answerAt answers .provider := by
  by_cases h : a.id = Ids.provider <;> simp [answerAt, h]

lemma answerAt_prompt_cons {a : Answer} : answerAt (a::answers) .prompt =
    if a.id = Ids.prompt then some a.value else answerAt answers .prompt := by
  by_cases h : a.id = Ids.prompt <;> simp [answerAt, h]

/-- A pass over the answers without complaint fills the two leaves they may fill. -/
theorem applyAnswers_spec (h : answers.foldl applyAnswer (m,ds) = (m',[])) :
    ds = [] ∧ m' = { m with
      provider := m.provider.or (answerAt answers .provider)
      prompt := m.prompt.or (answerAt answers .prompt) } ∧
      ∀ a ∈ answers, a.id = Ids.provider ∧ m.provider = none ∧
          (ProviderId.fromStr a.value).isSome = true ∨
        a.id = Ids.prompt ∧ m.prompt = none := by
  induction answers generalizing m ds with
  | nil =>
    obtain ⟨rfl,rfl⟩ := Prod.mk.inj h
    refine ⟨rfl,?_,by simp⟩
    simp [answerAt]
  | cons a answers ih =>
    rw [List.foldl_cons] at h
    by_cases hp : a.id = Ids.provider
    · have hq : a.id ≠ Ids.prompt := by rw [hp]; decide
      cases hm : m.provider with
      | some provider =>
        simp only [applyAnswer, hp, if_true, hm, Option.isSome_some] at h
        exact absurd (ih h).1 (by simp)
      | none =>
        cases hv : ProviderId.fromStr a.value with
        | none =>
          simp only [applyAnswer, hp, if_true, hm, Option.isSome_none, hv] at h
          exact absurd (ih h).1 (by simp)
        | some provider =>
          simp only [applyAnswer, hp, if_true, hm, Option.isSome_none, hv] at h
          obtain ⟨hds,hm',hall⟩ := ih h
          refine ⟨hds,?_,?_⟩
          · rw [hm',answerAt_provider_cons,if_pos hp,answerAt_prompt_cons,if_neg hq,hv]
            simp
          · intro b hb
            rcases List.mem_cons.mp hb with rfl | hb
            · exact .inl ⟨hp,rfl,by rw [hv]; rfl⟩
            · rcases hall b hb with ⟨-,hn,-⟩ | hprompt
              · cases hn
              · exact .inr hprompt
    · by_cases hq : a.id = Ids.prompt
      · cases hm : m.prompt with
        | some prompt =>
          simp only [applyAnswer, hq, if_true, hm, Option.isSome_some] at h
          exact absurd (ih h).1 (by simp)
        | none =>
          simp only [applyAnswer, hq, if_true, hm, Option.isSome_none] at h
          obtain ⟨hds,hm',hall⟩ := ih h
          refine ⟨hds,?_,?_⟩
          · rw [hm',answerAt_provider_cons,if_neg hp,answerAt_prompt_cons,if_pos hq]
            simp
          · intro b hb
            rcases List.mem_cons.mp hb with rfl | hb
            · exact .inr ⟨hq,rfl⟩
            · rcases hall b hb with hprovider | ⟨-,hn⟩
              · exact .inl hprovider
              · cases hn
      · simp only [applyAnswer, hp, hq, if_false] at h
        exact absurd (ih h).1 (by simp)

/-- When every provider answer parses, the baseline lookup reads the first one. -/
lemma answeredProvider_eq
    (h : ∀ a ∈ answers, a.id = Ids.provider → (ProviderId.fromStr a.value).isSome = true) :
    answeredProvider answers = answerAt answers .provider := by
  induction answers with
  | nil => rfl
  | cons a answers ih =>
    have ih := ih (fun b hb => h b (List.mem_cons_of_mem _ hb))
    rw [answerAt_provider_cons]
    by_cases hp : a.id = Ids.provider
    · obtain ⟨provider,hv⟩ := Option.isSome_iff_exists.mp (h a List.mem_cons_self hp)
      simp [answeredProvider, hp, hv]
    · rw [if_neg hp,←ih]
      simp [answeredProvider, hp]

end Answers

section Named
variable (layers : Layers)

lemma baseline_binding : (baseline layers).binding = baselineLayer layers (selected layers) := by
  unfold baseline
  cases hs : selected layers with
  | none => funext p; cases p <;> rfl
  | some provider =>
    cases hd : layers.providerDefaults with
    | none => funext p; cases p <;> simp [baselineLayer, hd] <;> rfl
    | some defaults =>
      funext p
      cases hg : defaults.get provider <;> cases p <;>
        simp [baselineLayer, hd, hg, PartialTurn.binding]

lemma upper_binding : (upper layers).binding =
    overlay (overlay (layers.applicationDefaults.getD {}).binding
      ((layers.profile.map Profile.turn).getD {}).binding) layers.explicit.binding := by
  unfold upper
  cases ha : layers.applicationDefaults <;> cases hp : layers.profile <;>
    simp [PartialTurn.binding_mergeFrom, PartialTurn.binding_default, PartialTurn.default_mergeFrom]

/-- Before the answers, the merged view is the stack of the layers. -/
theorem named_binding : (named layers).binding = stack (layers.stacked (selected layers)) := by
  rw [named,PartialTurn.binding_mergeFrom,baseline_binding,upper_binding]
  simp only [Layers.stacked, stack, List.foldl_cons, List.foldl_nil, unbound_overlay, overlay_assoc]

variable {layers}

/-- What a resolution that is not refused returns. -/
lemma view_spec {merged : PartialTurn} (h : (resolve layers).view = some merged) :
    merged = { named layers with
      provider := (named layers).provider.or (answerAt layers.answers .provider)
      prompt := (named layers).prompt.or (answerAt layers.answers .prompt) } ∧
      ∀ a ∈ layers.answers, a.id = Ids.provider ∧ (named layers).provider = none ∧
          (ProviderId.fromStr a.value).isSome = true ∨
        a.id = Ids.prompt ∧ (named layers).prompt = none := by
  have hr : answered layers = (merged,[]) := by
    unfold resolve at h
    cases ha : answered layers with
    | mk m ds =>
      simp only [ha] at h
      split at h
      · cases h
      · next hds =>
        rw [not_not,List.append_eq_nil_iff] at hds
        rw [hds.1]
        split at h <;> exact congrArg (·,[]) (Option.some.inj h)
  exact (applyAnswers_spec hr).2

lemma named_provider : (named layers).provider = (upper layers).provider := by
  have hb : (baseline layers).provider = none := by
    unfold baseline
    split <;> rfl
  rw [named,PartialTurn.mergeFrom,hb,none_replace]

/-- The provider whose baseline was applied is the one the result names. -/
lemma selected_eq {merged : PartialTurn} (h : (resolve layers).view = some merged) :
    selected layers = merged.provider := by
  obtain ⟨rfl,hall⟩ := view_spec h
  rw [selected,answeredProvider_eq,named_provider]
  rintro a ha hid
  rcases hall a ha with ⟨-,-,hv⟩ | ⟨hp,-⟩
  · exact hv
  · rw [hid] at hp
    exact absurd hp (by decide)

end Named

/-- A leaf of the result: bound as the highest layer that binds it, or by an answer to a provider or
prompt that no layer binds. -/
def Precedence (layers : Layers) (merged : PartialTurn) : Prop :=
  (∀ p v, merged.binding p = some v ↔
    (∃ lower layer upper, layers.stacked merged.provider = lower ++ layer::upper ∧
      layer p = some v ∧ ∀ u ∈ upper, u p = none) ∨
    (∀ l ∈ layers.stacked merged.provider, l p = none) ∧ answerAt layers.answers p = some v) ∧
  ∀ a ∈ layers.answers, ∃ p, (p = .provider ∧ a.id = Ids.provider ∨ p = .prompt ∧ a.id = Ids.prompt) ∧
    ∀ l ∈ layers.stacked merged.provider, l p = none

/-- At every leaf the result is what the layers bind, or else what an answer offers. -/
lemma view_binding {layers : Layers} {merged : PartialTurn}
    (h : (resolve layers).view = some merged) (p : Path) :
    merged.binding p = (stack (layers.stacked merged.provider) p).or (answerAt layers.answers p) := by
  have hnamed : stack (layers.stacked merged.provider) = (named layers).binding := by
    rw [named_binding,selected_eq h]
  rw [hnamed,(view_spec h).1]
  cases p with
  | provider => rfl
  | prompt => rfl
  | _ => exact (Option.or_none).symm

/-- Resolution implements the documented precedence at every leaf, and the merge it is built from is
an idempotent monoid. -/
theorem resolve_precedence :
    (∀ layers merged, (resolve layers).view = some merged → Precedence layers merged) ∧
      (∀ a b c : PartialTurn, (a.mergeFrom b).mergeFrom c = a.mergeFrom (b.mergeFrom c)) ∧
      (∀ a : PartialTurn, a.mergeFrom {} = a ∧ ({} : PartialTurn).mergeFrom a = a) ∧
      ∀ a : PartialTurn, a.mergeFrom a = a := by
  refine ⟨fun layers merged h => ?_,PartialTurn.mergeFrom_assoc,
    fun a => ⟨a.mergeFrom_default,a.default_mergeFrom⟩,PartialTurn.mergeFrom_self⟩
  refine ⟨fun p v => ?_,fun a ha => ?_⟩
  · rw [view_binding h,Option.or_eq_some_iff,stack_eq_some,stack_eq_none]
  · have hnamed : stack (layers.stacked merged.provider) = (named layers).binding := by
      rw [named_binding,selected_eq h]
    rcases (view_spec h).2 a ha with ⟨hid,hn,-⟩ | ⟨hid,hn⟩
    · refine ⟨.provider,.inl ⟨rfl,hid⟩,stack_eq_none.mp ?_⟩
      rw [hnamed]
      exact hn
    · refine ⟨.prompt,.inr ⟨rfl,hid⟩,stack_eq_none.mp ?_⟩
      rw [hnamed]
      exact hn

/-- A pass with a baseline below a profile, and the prompt answered. -/
def sampleLayers : Layers where
  providerDefaults := some (({} : ProviderDefaults).insert .codex
    { provider := some .claude, model := ⟨some "baseline"⟩, context := { cwd := some "/base" } }).2
  profile := some ⟨"review",{ provider := some .codex, model := ⟨some "profile"⟩ }⟩
  explicit := { providerOptions := { codex := some { ephemeral := some false } } }
  answers := [⟨"prompt","go"⟩]

theorem resolve_precedence_sample : ∃ merged, (resolve sampleLayers).view = some merged ∧
    Precedence sampleLayers merged ∧ merged.model.name = some "profile" ∧
    merged.context.cwd = some "/base" := by
  have hv : ((resolve sampleLayers).view.map (fun m => (m.model.name,m.context.cwd))) =
      some (some "profile",some (.text "/base")) := by decide +kernel
  obtain ⟨merged,hm,hfields⟩ := Option.map_eq_some_iff.mp hv
  obtain ⟨hname,hcwd⟩ := Prod.mk.inj hfields
  exact ⟨merged,hm,resolve_precedence.1 sampleLayers merged hm,hname,hcwd⟩

end TowerAgent.Plan
