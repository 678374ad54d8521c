import TowerAgent.Plan.Precedence

/-! Requirements as the callable signature of a pass: what answering exactly the emitted requirements
leads to. -/
namespace TowerAgent.Plan
open Lib Lib.Bindings

/-- The same layers with more answers. -/
def Layers.answer (layers : Layers) (extra : List Answer) : Layers :=
  { layers with answers := layers.answers ++ extra }

/-- One well-formed answer to each requirement, in any order. -/
structure Answers (requirements : List Requirement) (extra : List Answer) : Prop where
  ids : (extra.map Answer.id).Perm (requirements.map Requirement.id)
  provider : ∀ a ∈ extra, a.id = Ids.provider → (ProviderId.fromStr a.value).isSome = true
  prompt : ∀ a ∈ extra, a.id = Ids.prompt → Text.isBlank a.value = false

/-- A resolution that asks for nothing more and rejects no answer as one it did not ask for. -/
def Resolution.Accepts : Resolution → Prop
  | .complete _ => True
  | .missing _ _ => False
  | .invalid diagnostics => ∀ d ∈ diagnostics,
      d.code ≠ Codes.answerOverridesBoundPath ∧ d.code ≠ Codes.unknownRequirement

/-- Answers that a merged view takes: each fills a leaf of its own that is still free. -/
structure Fits (m : PartialTurn) (answers : List Answer) : Prop where
  nodup : (answers.map Answer.id).Nodup
  free : ∀ a ∈ answers, a.id = Ids.provider ∧ m.provider = none ∧
      (ProviderId.fromStr a.value).isSome = true ∨
    a.id = Ids.prompt ∧ m.prompt = none

section Fold
variable {answers : List Answer} {m : PartialTurn} {ds : List Diagnostic} {a : Answer}

lemma prompt_ne_provider : Ids.prompt ≠ Ids.provider := by decide

lemma applyAnswer_provider {provider : ProviderId} (hid : a.id = Ids.provider)
    (hm : m.provider = none) (hv : ProviderId.fromStr a.value = some provider) :
    applyAnswer (m,ds) a = ({ m with provider := some provider },ds) := by
  simp [applyAnswer, hid, hm, hv]

lemma applyAnswer_prompt (hid : a.id = Ids.prompt) (hm : m.prompt = none) :
    applyAnswer (m,ds) a = ({ m with prompt := some a.value },ds) := by
  simp [applyAnswer, hid, hm, prompt_ne_provider]

lemma applyAnswer_override (hid : a.id = Ids.prompt) (hm : m.prompt.isSome = true) :
    applyAnswer (m,ds) a = (m,ds ++ [answerOverridesBoundPath "prompt"]) := by
  simp [applyAnswer, hid, hm, prompt_ne_provider]

/-- The next answer that fits is taken without complaint, and leaves room for the others. -/
lemma applyAnswer_fits (ds : List Diagnostic) (h : Fits m (a::answers)) : ∃ m',
    applyAnswer (m,ds) a = (m',ds) ∧ Fits m' answers := by
  obtain ⟨hnot,hnodup⟩ := List.nodup_cons.mp h.nodup
  rcases h.free a List.mem_cons_self with ⟨hid,hm,hv⟩ | ⟨hid,hm⟩
  · obtain ⟨provider,hv⟩ := Option.isSome_iff_exists.mp hv
    refine ⟨_,applyAnswer_provider hid hm hv,hnodup,fun b hb => ?_⟩
    rcases h.free b (List.mem_cons_of_mem _ hb) with ⟨hb',-,-⟩ | hprompt
    · exact absurd (List.mem_map.mpr ⟨b,hb,hb'.trans hid.symm⟩) hnot
    · exact .inr hprompt
  · refine ⟨_,applyAnswer_prompt hid hm,hnodup,fun b hb => ?_⟩
    rcases h.free b (List.mem_cons_of_mem _ hb) with hprovider | ⟨hb',-⟩
    · exact .inl hprovider
    · exact absurd (List.mem_map.mpr ⟨b,hb,hb'.trans hid.symm⟩) hnot

/-- Answers that fit are all taken without complaint. -/
theorem applyAnswers_fits (h : Fits m answers) : (answers.foldl applyAnswer (m,ds)).2 = ds := by
  induction answers generalizing m with
  | nil => rfl
  | cons a answers ih =>
    obtain ⟨m',hm,hfits⟩ := applyAnswer_fits ds h
    rw [List.foldl_cons,hm]
    exact ih hfits

/-- Only answers that fit are taken without complaint. -/
theorem applyAnswers_accepted {m' : PartialTurn}
    (h : answers.foldl applyAnswer (m,ds) = (m',[])) : Fits m answers := by
  have hfree := (applyAnswers_spec h).2.2
  refine ⟨?_,hfree⟩
  induction answers generalizing m ds with
  | nil => exact List.nodup_nil
  | cons a answers ih =>
    rw [List.foldl_cons] at h
    -- a leaf that the first answer filled is not free for a later one
    rcases hfree a List.mem_cons_self with ⟨ha,hm,hv⟩ | ⟨ha,hm⟩
    · obtain ⟨provider,hv⟩ := Option.isSome_iff_exists.mp hv
      rw [applyAnswer_provider ha hm hv] at h
      have htail := (applyAnswers_spec h).2.2
      refine List.nodup_cons.mpr ⟨fun hmem => ?_,ih h htail⟩
      obtain ⟨b,hb,hid⟩ := List.mem_map.mp hmem
      rcases htail b hb with ⟨-,hn,-⟩ | ⟨hb',-⟩
      · cases hn
      · exact prompt_ne_provider (hb'.symm.trans (hid.trans ha))
    · rw [applyAnswer_prompt ha hm] at h
      have htail := (applyAnswers_spec h).2.2
      refine List.nodup_cons.mpr ⟨fun hmem => ?_,ih h htail⟩
      obtain ⟨b,hb,hid⟩ := List.mem_map.mp hmem
      rcases htail b hb with ⟨hb',-,-⟩ | ⟨-,hn⟩
      · exact prompt_ne_provider (ha.symm.trans (hid.symm.trans hb'))
      · cases hn

/-- A diagnostic stays. -/
lemma mem_applyAnswers {d : Diagnostic} (h : d ∈ ds) : d ∈ (answers.foldl applyAnswer (m,ds)).2 := by
  induction answers generalizing m ds with
  | nil => exact h
  | cons a answers ih =>
    rw [List.foldl_cons]
    have hstep : d ∈ (applyAnswer (m,ds) a).2 := by
      unfold applyAnswer
      dsimp only
      repeat' split
      all_goals first | exact h | exact List.mem_append_left _ h
    exact ih hstep

/-- A bound prompt stays bound. -/
lemma applyAnswer_keeps (h : m.prompt.isSome = true) :
    (applyAnswer (m,ds) a).1.prompt.isSome = true := by
  unfold applyAnswer
  dsimp only
  repeat' split
  all_goals exact h

/-- A prompt answer over a bound prompt is rejected as an override. -/
theorem applyAnswers_overrides (h : m.prompt.isSome = true)
    (ha : a ∈ answers) (hid : a.id = Ids.prompt) :
    answerOverridesBoundPath "prompt" ∈ (answers.foldl applyAnswer (m,ds)).2 := by
  induction answers generalizing m ds with
  | nil => cases ha
  | cons b answers ih =>
    rw [List.foldl_cons]
    rcases List.mem_cons.mp ha with rfl | ha
    · rw [applyAnswer_override hid h]
      exact mem_applyAnswers (List.mem_append_right _ List.mem_cons_self)
    · exact ih (applyAnswer_keeps h) ha

/-- A leaf is still free after answers that are taken exactly if it was and none of them names it. -/
theorem applyAnswers_filled {m' : PartialTurn} (h : answers.foldl applyAnswer (m,ds) = (m',[])) :
    (m'.provider = none ↔ m.provider = none ∧ Ids.provider ∉ answers.map Answer.id) ∧
      (m'.prompt = none ↔ m.prompt = none ∧ Ids.prompt ∉ answers.map Answer.id) := by
  obtain ⟨-,hm',hfree⟩ := applyAnswers_spec h
  have hprovider : answerAt answers .provider = none ↔ Ids.provider ∉ answers.map Answer.id := by
    rw [answerAt,Option.bind_eq_none_iff]
    constructor
    · intro hnone hmem
      obtain ⟨a,ha,hid⟩ := List.mem_map.mp hmem
      have hfound : (answers.find? (fun a => decide (a.id = Ids.provider))).isSome = true :=
        List.find?_isSome.mpr ⟨a,ha,decide_eq_true hid⟩
      obtain ⟨b,hb⟩ := Option.isSome_iff_exists.mp hfound
      rcases hfree b (List.mem_of_find?_eq_some hb) with ⟨-,-,hv⟩ | ⟨hid',-⟩
      · rw [hnone b hb] at hv
        cases hv
      · have hidb : b.id = Ids.provider := by simpa using List.find?_some hb
        exact prompt_ne_provider (hid'.symm.trans hidb)
    · intro hno b hb
      have hidb : b.id = Ids.provider := by simpa using List.find?_some hb
      exact absurd (List.mem_map.mpr ⟨b,List.mem_of_find?_eq_some hb,hidb⟩) hno
  have hprompt : answerAt answers .prompt = none ↔ Ids.prompt ∉ answers.map Answer.id := by
    simp [answerAt]
  rw [hm',Option.or_eq_none_iff,Option.or_eq_none_iff,hprovider,hprompt]
  exact ⟨Iff.rfl,Iff.rfl⟩

end Fold

section Missing
variable {layers : Layers} {merged : PartialTurn} {rs : List Requirement} {extra : List Answer}

/-- What is known of a pass that asks for something. -/
lemma resolve_missing (h : resolve layers = .missing merged rs) :
    answered layers = (merged,[]) ∧ providerMismatch layers = [] ∧ rs = requirements merged := by
  unfold resolve at h
  cases ha : answered layers with
  | mk m ds =>
    simp only [ha] at h
    split at h
    · cases h
    · next hds =>
      rw [not_not,List.append_eq_nil_iff] at hds
      split at h
      · cases h
      · obtain ⟨rfl,rfl⟩ := Resolution.missing.inj h
        obtain ⟨rfl,-⟩ := hds
        exact ⟨rfl,(applyAnswers_spec ha).1,rfl⟩

lemma mem_requirements_provider :
    Ids.provider ∈ (requirements merged).map Requirement.id ↔ merged.provider = none := by
  cases hp : merged.provider <;> cases hq : merged.prompt <;>
    simp [requirements, hp, hq, Ids.provider, Ids.prompt]

lemma mem_requirements_prompt :
    Ids.prompt ∈ (requirements merged).map Requirement.id ↔ merged.prompt = none := by
  cases hp : merged.provider <;> cases hq : merged.prompt <;>
    simp [requirements, hp, hq, Ids.provider, Ids.prompt]

lemma requirements_nodup : ((requirements merged).map Requirement.id).Nodup := by
  cases hp : merged.provider <;> cases hq : merged.prompt <;>
    simp [requirements, hp, hq, Ids.provider, Ids.prompt]

lemma requirements_ids {id : String} (h : id ∈ (requirements merged).map Requirement.id) :
    id = Ids.provider ∨ id = Ids.prompt := by
  cases hp : merged.provider <;> cases hq : merged.prompt <;>
    simp [requirements, hp, hq] at h <;> simp [h]

/-- The provider that the answers select is one of the provider answers. -/
lemma answeredProvider_mem {answers : List Answer} {provider : ProviderId}
    (h : answeredProvider answers = some provider) : ∃ a ∈ answers, a.id = Ids.provider ∧
      ProviderId.fromStr a.value = some provider := by
  obtain ⟨a,ha,hv⟩ := List.exists_of_findSome?_eq_some h
  obtain ⟨hmem,hid⟩ := List.mem_filter.mp ha
  exact ⟨a,hmem,by simpa using hid,hv⟩

/-- The only provider answer selects the provider. -/
lemma answeredProvider_eq_some {answers : List Answer} {a : Answer} {provider : ProviderId}
    (hnodup : (answers.map Answer.id).Nodup) (ha : a ∈ answers) (hid : a.id = Ids.provider)
    (hv : ProviderId.fromStr a.value = some provider) : answeredProvider answers = some provider := by
  have hsome : (answeredProvider answers).isSome = true := by
    rw [answeredProvider,List.findSome?_isSome_iff]
    exact ⟨a,List.mem_filter.mpr ⟨ha,by simpa using hid⟩,by rw [hv]; rfl⟩
  obtain ⟨q,hq⟩ := Option.isSome_iff_exists.mp hsome
  obtain ⟨b,hb,hidb,hvb⟩ := answeredProvider_mem hq
  obtain rfl := List.inj_on_of_nodup_map hnodup hb ha (hidb.trans hid.symm)
  rw [hq,←hvb,hv]

lemma answeredProvider_append (answers extra : List Answer) :
    answeredProvider (answers ++ extra) =
      (answeredProvider answers).or (answeredProvider extra) := by
  simp [answeredProvider, List.findSome?_append]

lemma selected_answer : selected (layers.answer extra) =
    (selected layers).or (answeredProvider extra) := by
  rw [selected,Layers.answer,answeredProvider_append,←Option.or_assoc]
  rfl

lemma named_prompt (layers : Layers) :
    (named layers).prompt = (upper layers).prompt.or (baseline layers).prompt := replace_eq_or _ _

/-- A pass whose provider is selected already keeps its baseline. -/
lemma named_answer {provider : ProviderId} (h : selected layers = some provider) :
    named (layers.answer extra) = named layers := by
  have hs : selected (layers.answer extra) = selected layers := by rw [selected_answer,h]; rfl
  have hb : baseline (layers.answer extra) = baseline layers := by
    unfold baseline
    rw [hs]
    rfl
  rw [named,hb]
  rfl

/-- No layer above the provider baselines binds the prompt. -/
structure PromptUnbound (layers : Layers) : Prop where
  application : ∀ defaults ∈ layers.applicationDefaults, defaults.prompt = none
  profile : ∀ profile ∈ layers.profile, profile.turn.prompt = none
  explicit : layers.explicit.prompt = none

/-- The provider answered brings in a baseline that binds a prompt where no layer above does. -/
def BaselinePrompt (layers : Layers) (extra : List Answer) : Prop :=
  PromptUnbound layers ∧ ∃ a ∈ extra, a.id = Ids.provider ∧
    ∃ provider defaults baseline, ProviderId.fromStr a.value = some provider ∧
      layers.providerDefaults = some defaults ∧ defaults.get provider = some baseline ∧
      baseline.prompt.isSome = true

lemma upper_prompt_eq (layers : Layers) : (upper layers).prompt = layers.explicit.prompt.or
    ((layers.profile.bind (·.turn.prompt)).or (layers.applicationDefaults.bind (·.prompt))) := by
  have h := congrFun (upper_binding layers) .prompt
  cases ha : layers.applicationDefaults <;> cases hp : layers.profile <;>
    simpa [overlay, ha, hp, PartialTurn.binding] using h

lemma upper_prompt (layers : Layers) : (upper layers).prompt = none ↔ PromptUnbound layers := by
  rw [upper_prompt_eq,Option.or_eq_none_iff,Option.or_eq_none_iff,Option.bind_eq_none_iff,
    Option.bind_eq_none_iff]
  exact ⟨fun ⟨he,hp,ha⟩ => ⟨ha,hp,he⟩,fun ⟨ha,hp,he⟩ => ⟨he,hp,ha⟩⟩

/-- The baseline prompt a selected provider brings in. -/
lemma baseline_prompt {provider : ProviderId} (h : selected layers = some provider) :
    (baseline layers).prompt =
      layers.providerDefaults.bind (fun d => (d.get provider).bind PartialTurn.prompt) := by
  unfold baseline
  rw [h]
  cases hd : layers.providerDefaults with
  | none => rfl
  | some defaults => cases hg : defaults.get provider <;> simp [hg]

/-- A pass binds the prompt still, whatever more is answered. -/
lemma named_answer_prompt (h : (named (layers.answer extra)).prompt = none) :
    (named layers).prompt = none := by
  rw [named_prompt,Option.or_eq_none_iff] at h ⊢
  refine ⟨h.1,?_⟩
  cases hs : selected layers with
  | none =>
    unfold baseline
    rw [hs]
  | some provider =>
    rw [baseline_prompt hs]
    have hs' : selected (layers.answer extra) = some provider := by rw [selected_answer,hs]; rfl
    rw [baseline_prompt hs'] at h
    exact h.2

lemma named_answer_provider : (named (layers.answer extra)).provider = (named layers).provider := by
  rw [named_provider,named_provider]
  rfl

/-- What is answered was asked, and is still free. -/
lemma asked_free (h : resolve layers = .missing merged rs) (hx : Answers rs extra) {a : Answer}
    (ha : a ∈ extra) : a.id = Ids.provider ∧ merged.provider = none ∨
      a.id = Ids.prompt ∧ merged.prompt = none := by
  obtain ⟨-,-,rfl⟩ := resolve_missing h
  have hid := hx.ids.subset (List.mem_map_of_mem ha)
  rcases requirements_ids hid with hp | hp
  · exact .inl ⟨hp,mem_requirements_provider.mp (hp ▸ hid)⟩
  · exact .inr ⟨hp,mem_requirements_prompt.mp (hp ▸ hid)⟩

/-- The answers to what was asked fit the pass they are given to, unless its baseline now binds the
prompt. -/
lemma answers_fit (h : resolve layers = .missing merged rs) (hx : Answers rs extra)
    (hn : (named layers).prompt = none → (named (layers.answer extra)).prompt = none) :
    Fits (named (layers.answer extra)) (layers.answer extra).answers := by
  have hasked := fun a => asked_free (a := a) h hx
  obtain ⟨hfold,-,rfl⟩ := resolve_missing h
  have hold := applyAnswers_accepted hfold
  obtain ⟨hprovider,hprompt⟩ := applyAnswers_filled hfold
  refine ⟨?_,fun a ha => ?_⟩
  · rw [Layers.answer,List.map_append]
    refine List.Nodup.append hold.nodup (hx.ids.nodup_iff.mpr requirements_nodup) ?_
    intro id hid hid'
    obtain ⟨a,ha,rfl⟩ := List.mem_map.mp hid'
    rcases hasked a ha with ⟨hida,hm⟩ | ⟨hida,hm⟩
    · exact (hprovider.mp hm).2 (hida ▸ hid)
    · exact (hprompt.mp hm).2 (hida ▸ hid)
  · rcases List.mem_append.mp ha with ha | ha
    · rcases hold.free a ha with ⟨hid,hm,hv⟩ | ⟨hid,hm⟩
      · exact .inl ⟨hid,named_answer_provider.trans hm,hv⟩
      · exact .inr ⟨hid,hn hm⟩
    · rcases hasked a ha with ⟨hid,hm⟩ | ⟨hid,hm⟩
      · exact .inl ⟨hid,named_answer_provider.trans (hprovider.mp hm).1,hx.provider a ha hid⟩
      · exact .inr ⟨hid,hn (hprompt.mp hm).1⟩

/-- Answers that are taken settle everything that was asked. -/
lemma requirements_answered (h : resolve layers = .missing merged rs) (hx : Answers rs extra)
    {m' : PartialTurn} (ha : answered (layers.answer extra) = (m',[])) : requirements m' = [] := by
  obtain ⟨hfold,-,rfl⟩ := resolve_missing h
  obtain ⟨hprovider,hprompt⟩ := applyAnswers_filled hfold
  obtain ⟨hprovider',hprompt'⟩ := applyAnswers_filled ha
  rw [Layers.answer,List.map_append] at hprovider' hprompt'
  rw [requirements_eq_nil,←Option.ne_none_iff_isSome,←Option.ne_none_iff_isSome]
  constructor
  · intro hn
    obtain ⟨hm,hno⟩ := hprovider'.mp hn
    have hfree := hprovider.mpr ⟨named_answer_provider.symm.trans hm,
      fun hmem => hno (List.mem_append_left _ hmem)⟩
    exact hno (List.mem_append_right _ (hx.ids.symm.subset (mem_requirements_provider.mpr hfree)))
  · intro hn
    obtain ⟨hm,hno⟩ := hprompt'.mp hn
    have hfree := hprompt.mpr ⟨named_answer_prompt hm,
      fun hmem => hno (List.mem_append_left _ hmem)⟩
    exact hno (List.mem_append_right _ (hx.ids.symm.subset (mem_requirements_prompt.mpr hfree)))

/-- The codes of the structural checks; none of them is about an answer. -/
def structuralCodes : List String :=
  [Codes.blankPrompt,Codes.blankModel,Codes.emptyResumeValue,Codes.hyphenResumeValue,
    Codes.resumeProviderMismatch]

lemma code_of_mem_blank {code path message : String} {text : Option String} {d : Diagnostic}
    (h : d ∈ blank code path message text) : d.code = code := by
  unfold blank at h
  split at h
  · split at h
    · rw [List.mem_singleton.mp h]
      rfl
    · cases h
  · cases h

lemma code_of_mem_resumeDiagnostics {m : PartialTurn} {d : Diagnostic}
    (h : d ∈ resumeDiagnostics m) : d.code = Codes.emptyResumeValue ∨
      d.code = Codes.hyphenResumeValue ∨ d.code = Codes.resumeProviderMismatch := by
  unfold resumeDiagnostics at h
  split at h
  · cases h
  · rcases List.mem_append.mp h with h | h
    · split at h
      · exact .inl (List.mem_singleton.mp h ▸ rfl)
      · split at h
        · exact .inr (.inl (List.mem_singleton.mp h ▸ rfl))
        · cases h
    · split at h
      · split at h
        · exact .inr (.inr (List.mem_singleton.mp h ▸ rfl))
        · cases h
      · cases h

lemma code_of_mem_structuralDiagnostics {m : PartialTurn} {d : Diagnostic}
    (h : d ∈ structuralDiagnostics m) : d.code ∈ structuralCodes := by
  rcases List.mem_append.mp h with h | h
  · rcases List.mem_append.mp h with h | h
    · rw [code_of_mem_blank h]
      decide
    · rw [code_of_mem_blank h]
      decide
  · rcases code_of_mem_resumeDiagnostics h with h | h | h
    all_goals
      rw [h]
      decide

/-- When the answers fit, the pass accepts them. -/
lemma accepts_of_fits (h : resolve layers = .missing merged rs) (hx : Answers rs extra)
    (hfits : Fits (named (layers.answer extra)) (layers.answer extra).answers) :
    (resolve (layers.answer extra)).Accepts := by
  obtain ⟨-,hmismatch,-⟩ := resolve_missing h
  have hmismatch' : providerMismatch (layers.answer extra) = [] := hmismatch
  have ha : answered (layers.answer extra) = ((answered (layers.answer extra)).1,[]) := by
    refine Prod.ext rfl ?_
    rw [answered,hmismatch']
    exact applyAnswers_fits hfits
  have hr := requirements_answered h hx ha
  unfold resolve
  rw [ha]
  dsimp only
  split
  · intro d hd
    have hcode := code_of_mem_structuralDiagnostics hd
    exact ⟨fun heq => absurd (heq ▸ hcode) (by decide),fun heq => absurd (heq ▸ hcode) (by decide)⟩
  · trivial

/-- A prompt answer to a pass that now binds the prompt is rejected. -/
lemma not_accepts_of_bound {a : Answer} (h : (named (layers.answer extra)).prompt.isSome = true)
    (ha : a ∈ (layers.answer extra).answers) (hid : a.id = Ids.prompt) :
    ¬(resolve (layers.answer extra)).Accepts := by
  have hmem : answerOverridesBoundPath "prompt" ∈ (answered (layers.answer extra)).2 :=
    applyAnswers_overrides h ha hid
  unfold resolve
  dsimp only
  rw [if_pos (List.append_ne_nil_of_left_ne_nil (List.ne_nil_of_mem hmem) _)]
  intro haccepts
  exact (haccepts _ (List.mem_append_left _ hmem)).1 rfl

/-- A prompt that no layer above the baselines binds, in a pass whose provider is selected by the
answers alone: what the answered provider's baseline binds there. -/
lemma named_answer_none (h : selected layers = none) (hunbound : PromptUnbound layers) :
    (named (layers.answer extra)).prompt = (answeredProvider extra).bind (fun provider =>
      layers.providerDefaults.bind (fun d => (d.get provider).bind PartialTurn.prompt)) := by
  have hupper : (upper (layers.answer extra)).prompt = none := (upper_prompt layers).mpr hunbound
  rw [named_prompt,hupper,Option.none_or]
  have hs : selected (layers.answer extra) = answeredProvider extra := by
    rw [selected_answer,h,Option.none_or]
  cases ha : answeredProvider extra with
  | none =>
    unfold baseline
    rw [hs,ha]
    rfl
  | some provider => exact baseline_prompt (hs.trans ha)

/-- Answering exactly what a pass asked for is accepted, unless the provider answered brings in a
baseline that binds the prompt where no layer above does. -/
theorem answers_accepted (h : resolve layers = .missing merged rs) (hx : Answers rs extra) :
    (resolve (layers.answer extra)).Accepts ↔ ¬BaselinePrompt layers extra := by
  have hasked := fun a => asked_free (a := a) h hx
  obtain ⟨hfold,-,rfl⟩ := resolve_missing h
  obtain ⟨hprovider,hprompt⟩ := applyAnswers_filled hfold
  have hview : (resolve layers).view = some merged := by rw [h]; rfl
  constructor
  · rintro haccepts ⟨hunbound,a,ha,hid,provider,defaults,base,hv,hd,hg,hbase⟩
    -- the provider was asked for, so no baseline was in the pass
    have hmerged : merged.provider = none := by
      rcases hasked a ha with ⟨-,hm⟩ | ⟨hid',-⟩
      · exact hm
      · exact absurd (hid'.symm.trans hid) prompt_ne_provider
    have hselected : selected layers = none := (selected_eq hview).trans hmerged
    have hunasked : (named layers).prompt = none := by
      rw [named_prompt,(upper_prompt layers).mpr hunbound,baseline,hselected]
      rfl
    have hbound : (named (layers.answer extra)).prompt.isSome = true := by
      have hnodup : (extra.map Answer.id).Nodup := hx.ids.nodup_iff.mpr requirements_nodup
      rw [named_answer_none hselected hunbound,answeredProvider_eq_some hnodup ha hid hv]
      simpa [hd, hg] using hbase
    -- a prompt was answered before, or it was asked for too
    have hanswered : Ids.prompt ∈ (layers.answer extra).answers.map Answer.id := by
      rw [Layers.answer,List.map_append,List.mem_append]
      by_cases hmem : Ids.prompt ∈ layers.answers.map Answer.id
      · exact .inl hmem
      · refine .inr (hx.ids.symm.subset (mem_requirements_prompt.mpr ?_))
        exact hprompt.mpr ⟨hunasked,hmem⟩
    obtain ⟨b,hb,hidb⟩ := List.mem_map.mp hanswered
    exact not_accepts_of_bound hbound hb hidb haccepts
  · intro hno
    refine accepts_of_fits h hx (answers_fit h hx fun hn => ?_)
    rw [named_prompt,Option.or_eq_none_iff] at hn
    cases hs : selected layers with
    | some provider =>
      rw [named_answer hs,named_prompt,Option.or_eq_none_iff]
      exact hn
    | none =>
      have hunbound := (upper_prompt layers).mp hn.1
      rw [named_answer_none hs hunbound]
      simp only [Option.bind_eq_none_iff]
      intro provider hp defaults hd baseline hg
      obtain ⟨a,ha,hid,hv⟩ := answeredProvider_mem hp
      by_contra hbase
      exact hno ⟨hunbound,a,ha,hid,provider,defaults,baseline,hv,hd,hg,
        Option.ne_none_iff_isSome.mp hbase⟩

end Missing

/-- What a pass asks for. -/
def Resolution.asked : Resolution → Option (List Requirement)
  | .missing _ requirements => some requirements
  | _ => none

lemma missing_of_asked {r : Resolution} {rs : List Requirement} (h : r.asked = some rs) :
    ∃ merged, r = .missing merged rs := by
  cases r with
  | missing merged rs' => exact ⟨merged,by rw [Option.some.inj h]⟩
  | complete turn => cases h
  | invalid ds => cases h

/-- What a pass that binds neither leaf asks for. -/
def bothRequirements : List Requirement :=
  [⟨Ids.provider,"provider",.provider,"Provider",.providerSelection,false⟩,
    ⟨Ids.prompt,"prompt",.text,"Prompt",.providerInput,false⟩]

def bothAnswers : List Answer := [⟨"prompt","go"⟩,⟨"provider","codex"⟩]

lemma bothAnswers_answers : Answers bothRequirements bothAnswers where
  ids := List.Perm.swap _ _ _
  provider := by decide
  prompt := by decide

/-- Nothing is bound but the named fields of the Codex baseline. -/
def baselineLayers (codex : PartialTurn) : Layers where
  providerDefaults := some (({} : ProviderDefaults).insert .codex codex).2
  explicit := {}

theorem answers_accepted_sample : ∃ merged,
    resolve (baselineLayers { model := ⟨some "baseline"⟩ }) = .missing merged bothRequirements ∧
      ((resolve ((baselineLayers { model := ⟨some "baseline"⟩ }).answer bothAnswers)).Accepts ↔
        ¬BaselinePrompt (baselineLayers { model := ⟨some "baseline"⟩ }) bothAnswers) := by
  have hasked : (resolve (baselineLayers { model := ⟨some "baseline"⟩ })).asked =
      some bothRequirements := by decide +kernel
  obtain ⟨merged,h⟩ := missing_of_asked hasked
  exact ⟨merged,h,answers_accepted h bothAnswers_answers⟩

/-- Answering both requirements is rejected when the Codex baseline binds a prompt. -/
theorem baselinePrompt_rejected : ¬∀ layers merged rs extra, resolve layers = .missing merged rs →
    Answers rs extra → (resolve (layers.answer extra)).Accepts := by
  intro hclaim
  have hasked : (resolve (baselineLayers { prompt := some "review" })).asked =
      some bothRequirements := by decide +kernel
  obtain ⟨merged,h⟩ := missing_of_asked hasked
  have hbound : (named ((baselineLayers { prompt := some "review" }).answer
      bothAnswers)).prompt.isSome = true := by decide +kernel
  exact not_accepts_of_bound hbound List.mem_cons_self rfl
    (hclaim _ merged _ bothAnswers h bothAnswers_answers)

end TowerAgent.Plan
