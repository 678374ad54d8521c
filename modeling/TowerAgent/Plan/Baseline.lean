import TowerAgent.Plan.Precedence

/-! Baselines: resolution reads the baseline of the selected provider only, without its `provider`
field, so no baseline has a say in which provider is selected. -/
namespace TowerAgent.Plan
open Lib
open Std (ExtTreeMap)

/-- The provider bound by the layers above the baselines, the explicit request first, else the first
provider answer that parses. -/
def chosenProvider (layers : Layers) : Option ProviderId :=
  (layers.explicit.provider.or ((layers.profile.bind (fun p => p.turn.provider)).or
    (layers.applicationDefaults.bind (fun t => t.provider)))).or
      (answeredProvider layers.answers)

/-- A provider's baseline apart from its `provider` field, empty where there is none. -/
def readBaseline (layers : Layers) (provider : ProviderId) : PartialTurn :=
  { (layers.providerDefaults.bind (fun d => d.get provider)).getD {} with provider := none }

/-- The layers differ in their baselines only, and not in the chosen provider's. -/
structure SameChoice (l l' : Layers) : Prop where
  applicationDefaults_eq : l'.applicationDefaults = l.applicationDefaults
  profile_eq : l'.profile = l.profile
  explicit_eq : l'.explicit = l.explicit
  answers_eq : l'.answers = l.answers
  baseline_eq : ∀ p, chosenProvider l = some p → readBaseline l' p = readBaseline l p

lemma selected_eq_chosen (layers : Layers) : selected layers = chosenProvider layers := by
  have hu : (upper layers).provider = layers.explicit.provider.or
      ((layers.profile.bind (fun p => p.turn.provider)).or
        (layers.applicationDefaults.bind (fun t => t.provider))) := by
    unfold upper
    cases ha : layers.applicationDefaults <;> cases hp : layers.profile <;>
      simp [PartialTurn.mergeFrom, replace_eq_or]
  rw [selected,hu,chosenProvider]

lemma baseline_eq_read (layers : Layers) :
    baseline layers = ((chosenProvider layers).map (readBaseline layers)).getD {} := by
  unfold baseline
  rw [selected_eq_chosen]
  cases hc : chosenProvider layers with
  | none => rfl
  | some p =>
    cases hd : layers.providerDefaults with
    | none => simp [readBaseline, hd]
    | some d => simp [readBaseline, hd]

section TwoRuns
variable {l l' : Layers}

lemma SameChoice.chosen (h : SameChoice l l') : chosenProvider l' = chosenProvider l := by
  simp only [chosenProvider, h.applicationDefaults_eq, h.profile_eq, h.explicit_eq, h.answers_eq]

lemma SameChoice.named (h : SameChoice l l') : named l' = named l := by
  have hb : baseline l' = baseline l := by
    rw [baseline_eq_read,baseline_eq_read,h.chosen]
    cases hc : chosenProvider l with
    | none => rfl
    | some p => simp [h.baseline_eq p hc]
  have hu : upper l' = upper l := by
    simp only [upper, h.applicationDefaults_eq, h.profile_eq, h.explicit_eq]
  rw [Plan.named,Plan.named,hb,hu]

/-- Only the chosen baseline reaches the outcome, diagnostics and requirements included. -/
lemma SameChoice.resolve_eq (h : SameChoice l l') : resolve l' = resolve l := by
  have hm : providerMismatch l' = providerMismatch l := by
    simp only [providerMismatch, h.profile_eq, h.explicit_eq]
  have ha : answered l' = answered l := by
    simp only [answered, h.answers_eq, h.named, hm]
  simp only [resolve, ha]

end TwoRuns

/-- The same layers with another set of baselines. -/
def Layers.withDefaults (layers : Layers) (defaults : Option ProviderDefaults) : Layers :=
  { layers with providerDefaults := defaults }

/-- Every baseline with another `provider` field. -/
def ProviderDefaults.retag (d : ProviderDefaults) (tag : ProviderId → Option ProviderId) :
    ProviderDefaults := ⟨d.map.map (fun id turn => { turn with provider := tag id })⟩

lemma sameChoice_withDefaults {layers : Layers} {defaults : Option ProviderDefaults}
    (h : ∀ p, chosenProvider layers = some p →
      readBaseline (layers.withDefaults defaults) p = readBaseline layers p) :
    SameChoice layers (layers.withDefaults defaults) := ⟨rfl,rfl,rfl,rfl,h⟩

/-- Baselines cannot influence selection, and only the selected one is read. -/
theorem baseline_noninterference :
    (∀ l l' : Layers, SameChoice l l' → resolve l' = resolve l) ∧
      (∀ (l : Layers) (d : ProviderDefaults) (other : ProviderId) (turn : PartialTurn),
        l.providerDefaults = some d → chosenProvider l ≠ some other →
        resolve (l.withDefaults (some (d.insert other turn).2)) = resolve l) ∧
      ∀ (l : Layers) (d : ProviderDefaults) (tag : ProviderId → Option ProviderId),
        l.providerDefaults = some d →
        resolve (l.withDefaults (some (d.retag tag))) = resolve l := by
  refine ⟨fun l l' h => h.resolve_eq,fun l d other turn hd hne => ?_,fun l d tag hd => ?_⟩
  · refine (sameChoice_withDefaults fun p hp => ?_).resolve_eq
    have hop : other ≠ p := by
      rintro rfl
      exact hne hp
    simp [readBaseline, Layers.withDefaults, hd, ProviderDefaults.get, ProviderDefaults.insert,
      getElem?_insert_eq, hop]
  · refine (sameChoice_withDefaults fun p _ => ?_).resolve_eq
    simp only [readBaseline, Layers.withDefaults, hd, ProviderDefaults.get, ProviderDefaults.retag,
      Option.bind_some, ExtTreeMap.getElem?_map]
    cases d.map[p]? <;> rfl

theorem baseline_noninterference_sample :
    resolve (sampleLayers.withDefaults (some (((({} : ProviderDefaults).insert .codex
      { provider := some .claude, model := ⟨some "baseline"⟩, context := { cwd := some "/base" } }
      ).2.insert .claude { prompt := some "ignored" }).2))) = resolve sampleLayers :=
  baseline_noninterference.2.1 sampleLayers _ .claude { prompt := some "ignored" } rfl (by decide)

end TowerAgent.Plan
