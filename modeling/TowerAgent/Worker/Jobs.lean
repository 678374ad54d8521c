import TowerAgent.Worker.Compile

/-! The job of one step: what resolving its profile with its prompt comes to, what can be wrong with
it and where that is reported. -/
namespace TowerAgent.Worker
open Lib
open Std (ExtTreeMap)

/-- The view a step resolves: its profile, with the step's own prompt. -/
def prompted (saved : Plan.Profile) (prompt : String) : Plan.PartialTurn :=
  { saved.turn with prompt := some prompt }

section Resolve
variable (saved : Plan.Profile) (prompt : String)

lemma answered_profileLayers :
    Plan.answered (profileLayers saved prompt) = (prompted saved prompt,[]) := by
  have hupper : Plan.upper (profileLayers saved prompt) = prompted saved prompt := by
    have : Plan.upper (profileLayers saved prompt) =
      (({} : Plan.PartialTurn).mergeFrom saved.turn).mergeFrom { prompt := some prompt } := rfl
    rw [this,Plan.PartialTurn.default_mergeFrom]
    simp only [prompted, Plan.PartialTurn.mergeFrom, Plan.replace_none, Plan.PartialModel.mergeFrom,
      Plan.PartialContext.mergeFrom, Plan.PartialPermissions.mergeFrom,
      Plan.PartialProviderOptions.mergeFrom, Plan.mergeGroup_none]
    rfl
  have hbase : Plan.baseline (profileLayers saved prompt) = {} := by
    unfold Plan.baseline
    split
    · next h => cases h
    · rfl
  have hmismatch : Plan.providerMismatch (profileLayers saved prompt) = [] := by
    simp only [Plan.providerMismatch, profileLayers]
    cases saved.turn.provider <;> rfl
  unfold Plan.answered Plan.named
  rw [hupper,hbase,hmismatch,Plan.PartialTurn.default_mergeFrom]
  rfl

/-- The only requirement a step can leave open. -/
def providerRequirement : Plan.Requirement :=
  ⟨Plan.Ids.provider,"provider",.provider,"Provider",.providerSelection,false⟩

lemma requirements_prompted : Plan.requirements (prompted saved prompt) =
    if saved.turn.provider.isNone then [providerRequirement] else [] := by
  simp [Plan.requirements, prompted, providerRequirement]

variable {saved prompt}

lemma resolve_invalid (h : Plan.structuralDiagnostics (prompted saved prompt) ≠ []) :
    Plan.resolve (profileLayers saved prompt) =
      .invalid (Plan.structuralDiagnostics (prompted saved prompt)) := by
  unfold Plan.resolve
  rw [answered_profileLayers]
  dsimp only
  rw [List.nil_append,if_pos h]

variable (h : Plan.structuralDiagnostics (prompted saved prompt) = [])
include h

lemma resolve_missing (hp : saved.turn.provider = none) :
    Plan.resolve (profileLayers saved prompt) =
      .missing (prompted saved prompt) [providerRequirement] := by
  have hr : Plan.requirements (prompted saved prompt) = [providerRequirement] := by
    rw [requirements_prompted,hp]
    rfl
  unfold Plan.resolve
  rw [answered_profileLayers]
  dsimp only
  rw [List.nil_append,if_neg (not_not.mpr h),dif_neg (by simp [hr]),hr]

lemma resolve_complete {provider : Plan.ProviderId} (hp : saved.turn.provider = some provider) :
    ∃ resolved, Plan.resolve (profileLayers saved prompt) = .complete resolved ∧
      resolved.merged = prompted saved prompt ∧ resolved.provider = provider := by
  have hr : Plan.requirements (prompted saved prompt) = [] := by
    rw [requirements_prompted,hp]
    rfl
  unfold Plan.resolve
  rw [answered_profileLayers]
  dsimp only
  rw [List.nil_append,if_neg (not_not.mpr h),dif_pos hr]
  refine ⟨_,rfl,rfl,?_⟩
  exact Option.some.inj ((Option.some_get _).trans hp)

end Resolve

/-- The fields of a step a fault can be reported at. -/
inductive Field where
  | profile
  | provider
  | prompt
  | model
  | resume
  | op
  deriving DecidableEq, Repr

def Field.text : Field → String
  | .profile => "profile"
  | .provider => "provider"
  | .prompt => "prompt"
  | .model => "model.name"
  | .resume => "context.resume"
  | .op => "op"

/-- What can be wrong with the values a step resolves. -/
inductive TurnFault (saved : Plan.Profile) (prompt : String) : Field → Prop where
  | prompt (h : Text.isBlank prompt = true) : TurnFault saved prompt .prompt
  | model {name : String} (hm : saved.turn.model.name = some name)
      (h : Text.isBlank name = true) : TurnFault saved prompt .model
  | resume {resume : Plan.ResumeBinding} (hr : saved.turn.context.resume = some resume)
      (h : Text.isBlank resume.value = true ∨ resume.value.startsWith "-" = true ∨
        ∃ provider, saved.turn.provider = some provider ∧ resume.provider ≠ provider) :
      TurnFault saved prompt .resume

/-- What can be wrong with a job. A missing provider is reported when nothing else is wrong. -/
inductive JobFault (catalog : ProfileCatalog) : JobEntry → Field → Prop where
  | profile {profile prompt : String} (h : catalog.get profile = none) :
      JobFault catalog (.agent profile prompt) .profile
  | turn {profile prompt : String} {saved : Plan.Profile} {field : Field}
      (hs : catalog.get profile = some saved) (h : TurnFault saved prompt field) :
      JobFault catalog (.agent profile prompt) field
  | provider {profile prompt : String} {saved : Plan.Profile}
      (hs : catalog.get profile = some saved) (hp : saved.turn.provider = none)
      (h : ∀ field, ¬ TurnFault saved prompt field) :
      JobFault catalog (.agent profile prompt) .provider
  | op {name : String} {args : ExtTreeMap String String} (h : MechanicalOp.parse name = none) :
      JobFault catalog (.mechanical name args) .op

/-- The job that an entry without faults compiles to. -/
inductive Runs (catalog : ProfileCatalog) : JobEntry → Job → Prop where
  | agent {profile prompt : String} {saved : Plan.Profile} {provider : Plan.ProviderId}
      (hs : catalog.get profile = some saved) (hp : saved.turn.provider = some provider)
      (h : ∀ field, ¬ TurnFault saved prompt field) :
      Runs catalog (.agent profile prompt) (.agent profile prompt provider)
  | mechanical {name : String} {op : MechanicalOp} {args : ExtTreeMap String String}
      (h : MechanicalOp.parse name = some op) :
      Runs catalog (.mechanical name args) (.mechanical op args)

section Job
variable {saved : Plan.Profile} {prompt : String}

lemma mem_blank {code path message : String} {text : Option String} {d : Plan.Diagnostic} :
    d ∈ Plan.blank code path message text ↔
      (∃ t, text = some t ∧ Text.isBlank t = true) ∧ d = .error code (some path) message := by
  cases text with
  | none => simp [Plan.blank]
  | some t => by_cases h : Text.isBlank t = true <;> simp [Plan.blank, h]

/-- A structural fault of the resolved values is reported at its field. -/
lemma structural_sound {d : Plan.Diagnostic}
    (h : d ∈ Plan.structuralDiagnostics (prompted saved prompt)) :
    ∃ field, TurnFault saved prompt field ∧ d.path.getD "profile" = field.text := by
  simp only [Plan.structuralDiagnostics, List.mem_append, mem_blank] at h
  rcases h with (⟨⟨t,ht,hb⟩,rfl⟩ | ⟨⟨t,ht,hb⟩,rfl⟩) | h
  · obtain rfl := Option.some.inj ht
    exact ⟨_,.prompt hb,rfl⟩
  · exact ⟨_,.model ht hb,rfl⟩
  · unfold Plan.resumeDiagnostics at h
    split at h
    · cases h
    · next resume hr =>
      rcases List.mem_append.mp h with h | h
      · split at h
        · next hb =>
          obtain rfl := List.mem_singleton.mp h
          exact ⟨_,.resume hr (.inl hb),rfl⟩
        · split at h
          · next hh =>
            obtain rfl := List.mem_singleton.mp h
            exact ⟨_,.resume hr (.inr (.inl hh)),rfl⟩
          · cases h
      · split at h
        · next provider hp =>
          split at h
          · next hne =>
            obtain rfl := List.mem_singleton.mp h
            exact ⟨_,.resume hr (.inr (.inr ⟨provider,hp,hne⟩)),rfl⟩
          · cases h
        · cases h

lemma structural_complete {field : Field} (h : TurnFault saved prompt field) :
    ∃ d ∈ Plan.structuralDiagnostics (prompted saved prompt),
      d.path.getD "profile" = field.text := by
  simp only [Plan.structuralDiagnostics, List.mem_append, mem_blank]
  cases h with
  | prompt hb => exact ⟨_,.inl (.inl ⟨⟨prompt,rfl,hb⟩,rfl⟩),rfl⟩
  | model hm hb => exact ⟨_,.inl (.inr ⟨⟨_,hm,hb⟩,rfl⟩),rfl⟩
  | @resume resume hr h =>
    have hr' : (prompted saved prompt).context.resume = some resume := hr
    simp only [Plan.resumeDiagnostics, hr', List.mem_append]
    by_cases hb : Text.isBlank resume.value = true
    · rw [if_pos hb]
      exact ⟨_,.inr (.inl (List.mem_singleton_self _)),rfl⟩
    · rw [if_neg hb]
      by_cases hh : resume.value.startsWith "-" = true
      · rw [if_pos hh]
        exact ⟨_,.inr (.inl (List.mem_singleton_self _)),rfl⟩
      · obtain ⟨provider,hp,hne⟩ := (h.resolve_left hb).resolve_left hh
        have hp' : (prompted saved prompt).provider = some provider := hp
        simp only [hp']
        rw [if_pos hne]
        exact ⟨_,.inr (.inr (List.mem_singleton_self _)),rfl⟩

lemma structural_eq_nil : Plan.structuralDiagnostics (prompted saved prompt) = [] ↔
    ∀ field, ¬ TurnFault saved prompt field := by
  rw [List.eq_nil_iff_forall_not_mem]
  constructor
  · intro h field hf
    obtain ⟨d,hd,-⟩ := structural_complete hf
    exact h d hd
  · intro h d hd
    obtain ⟨field,hf,-⟩ := structural_sound hd
    exact h field hf

/-- The diagnostics `compile_job` adds. -/
def jobDiagnostics (fileName : String) (step : StepEntry) (path : String)
    (catalog : ProfileCatalog) : List Diagnostic :=
  match compileJob fileName step path catalog with
  | .ok _ => []
  | .error found => found

variable {fileName path : String} {step : StepEntry} {catalog : ProfileCatalog}

/-- A job is accepted when the host can run it, and is then what the file says. -/
theorem compileJob_eq_ok {job : Job} :
    compileJob fileName step path catalog = .ok job ↔ Runs catalog step.job job := by
  unfold compileJob
  constructor
  · intro h
    split at h
    · next profile prompt hj =>
      rw [hj]
      split at h
      · cases h
      · next saved hs =>
        by_cases hd : Plan.structuralDiagnostics (prompted saved prompt) = []
        · cases hp : saved.turn.provider with
          | none => simp [resolve_missing hd hp] at h
          | some provider =>
            obtain ⟨resolved,hr,-,rfl⟩ := resolve_complete hd hp
            simp only [hr, Except.ok.injEq] at h
            exact h ▸ .agent hs hp (structural_eq_nil.mp hd)
        · simp [resolve_invalid hd] at h
    · next name args hj =>
      rw [hj]
      split at h
      · next op hop => exact Except.ok.inj h ▸ .mechanical hop
      · cases h
  · intro h
    generalize hj : step.job = j at h
    cases h with
    | agent hs hp hf =>
      obtain ⟨resolved,hr,-,rfl⟩ := resolve_complete (structural_eq_nil.mpr hf) hp
      simp only [hs, hr]
    | mechanical hop => simp only [hop]

/-- Every diagnostic of a job is at the field that is wrong. -/
lemma jobDiagnostics_sound {d : Diagnostic} (h : d ∈ jobDiagnostics fileName step path catalog) :
    ∃ field, JobFault catalog step.job field ∧
      d.location = ⟨fileName,path ++ "." ++ field.text⟩ := by
  unfold jobDiagnostics compileJob at h
  split at h
  · cases h
  · next found hc =>
    split at hc
    · next profile prompt hj =>
      rw [hj]
      split at hc
      · next hs =>
        obtain rfl := Except.error.inj hc
        obtain rfl := List.mem_singleton.mp h
        exact ⟨_,.profile hs,by simp only [located, Field.text, String.append_assoc]; rfl⟩
      · next saved hs =>
        by_cases hd : Plan.structuralDiagnostics (prompted saved prompt) = []
        · cases hp : saved.turn.provider with
          | none =>
            simp only [resolve_missing hd hp] at hc
            obtain rfl := Except.error.inj hc
            obtain rfl := List.mem_singleton.mp h
            exact ⟨_,.provider hs hp (structural_eq_nil.mp hd),rfl⟩
          | some provider =>
            obtain ⟨resolved,hr,-,rfl⟩ := resolve_complete hd hp
            simp [hr] at hc
        · simp only [resolve_invalid hd] at hc
          obtain rfl := Except.error.inj hc
          obtain ⟨e,he,rfl⟩ := List.mem_map.mp h
          obtain ⟨field,hf,hpath⟩ := structural_sound he
          exact ⟨field,.turn hs hf,by rw [located,hpath]⟩
    · next name args hj =>
      rw [hj]
      split at hc
      · cases hc
      · next hop =>
        obtain rfl := Except.error.inj hc
        obtain rfl := List.mem_singleton.mp h
        exact ⟨_,.op hop,by simp only [located, Field.text, String.append_assoc]; rfl⟩

variable (fileName path) in
/-- Every field that is wrong has a diagnostic. -/
lemma jobDiagnostics_complete {field : Field} (h : JobFault catalog step.job field) :
    ∃ d ∈ jobDiagnostics fileName step path catalog,
      d.location = ⟨fileName,path ++ "." ++ field.text⟩ := by
  unfold jobDiagnostics compileJob
  generalize step.job = j at h
  cases h with
  | profile hs =>
    simp only [hs, List.mem_singleton, exists_eq_left]
    simp only [located, Field.text, String.append_assoc]
    rfl
  | @turn profile prompt saved field hs hf =>
    obtain ⟨d,hd,hpath⟩ := structural_complete hf
    simp only [hs, resolve_invalid (List.ne_nil_of_mem hd)]
    exact ⟨_,List.mem_map_of_mem hd,by rw [located,hpath]⟩
  | provider hs hp hf =>
    simp only [hs, resolve_missing (structural_eq_nil.mpr hf) hp]
    exact ⟨_,List.mem_singleton_self _,rfl⟩
  | op hop =>
    simp only [hop, List.mem_singleton, exists_eq_left]
    simp only [located, Field.text, String.append_assoc]
    rfl

/-- A job is accepted exactly when nothing is wrong with it. -/
lemma runs_iff : (∃ job, Runs catalog step.job job) ↔ ∀ field, ¬ JobFault catalog step.job field := by
  constructor
  · rintro ⟨job,h⟩ field hf
    have hempty : jobDiagnostics "" step "" catalog = [] := by
      rw [jobDiagnostics,compileJob_eq_ok.mpr h]
    obtain ⟨d,hd,-⟩ := jobDiagnostics_complete "" "" hf
    rw [hempty] at hd
    cases hd
  · intro h
    cases hj : step.job with
    | agent profile prompt =>
      rw [hj] at h
      cases hs : catalog.get profile with
      | none => exact absurd (.profile hs) (h _)
      | some saved =>
        have hf : ∀ field, ¬ TurnFault saved prompt field := fun field hf => h field (.turn hs hf)
        cases hp : saved.turn.provider with
        | none => exact absurd (.provider hs hp hf) (h _)
        | some provider => exact ⟨_,.agent hs hp hf⟩
    | mechanical name args =>
      rw [hj] at h
      cases hop : MechanicalOp.parse name with
      | none => exact absurd (.op hop) (h _)
      | some op => exact ⟨_,.mechanical hop⟩

end Job

end TowerAgent.Worker
