import TowerAgent.Worker.Jobs
import TowerAgent.Workflow.Canonical

/-! The report of a workflow file: everything that is wrong with it, each at its own place, and
what the file compiles to when nothing is. -/
namespace TowerAgent.Worker
open Lib
open Workflow (DagBuilder StepId StepSpec WorkflowDefinition Describes)
open Std (ExtTreeSet)

/-- A place of a file at which something can be wrong. -/
inductive Place where
  | version
  | document
  | need (entry : Entry) (index : ℕ)
  | field (entry : Entry) (key : Field)

namespace Place

def text : Place → String
  | .version => "schema_version"
  | .document => "<document>"
  | .need entry index => needPath entry.path index
  | .field entry key => entry.path ++ "." ++ key.text

/-- The entry of a place, and what follows the entry's path. -/
def within : Place → Option (Entry × String)
  | .version | .document => none
  | .need entry index => some (entry,"needs[" ++ toString index ++ "]")
  | .field entry key => some (entry,key.text)

/-- The place of an entry of the file, or of the file as a whole. -/
def In (file : WorkflowFile) (place : Place) : Prop :=
  ∀ entry rest, place.within = some (entry,rest) → entry ∈ entries file

end Place

/-- What is wrong with a file, and where. -/
inductive Wrong (catalog : ProfileCatalog) (file : WorkflowFile) : Place → Prop where
  | version (h : file.schemaVersion ≠ schemaVersion) : Wrong catalog file .version
  | bothForms (hs : file.step ≠ []) (hp : file.phase ≠ []) : Wrong catalog file .document
  | noSteps (h : entries file = []) (hv : file.schemaVersion = schemaVersion) :
      Wrong catalog file .document
  | need {entry : Entry} {index : ℕ} {need : String} (he : entry ∈ entries file)
      (hn : entry.needs[index]? = some need) (h : ∀ other ∈ entries file, other.step.id ≠ need) :
      Wrong catalog file (.need entry index)
  | field {entry : Entry} {key : Field} (he : entry ∈ entries file)
      (h : JobFault catalog entry.step.job key) : Wrong catalog file (.field entry key)

/-- The specification an entry without faults becomes. -/
structure SpecOf (catalog : ProfileCatalog) (entry : Entry) (spec : StepSpec Job) : Prop where
  id_eq : spec.id = entry.step.id
  needs_eq : spec.needs = entry.needs
  runs : Runs catalog entry.step.job spec.job

/-- A file that has to compile: nothing is wrong at any of its places, and the workflow crate
accepts the steps it says. -/
structure Compilable (catalog : ProfileCatalog) (file : WorkflowFile) : Prop where
  clean : ∀ place, ¬ Wrong catalog file place
  valid : ∃ specs, List.Forall₂ (SpecOf catalog) (entries file) specs ∧
    (DagBuilder.mk file.workflow.id file.workflow.version specs).Valid

/-- One pass reports every place that is wrong and no other, each on a line that names it. -/
structure Reports (fileName : String) (catalog : ProfileCatalog) (file : WorkflowFile)
    (ds : List Diagnostic) : Prop where
  placed : ∀ d ∈ ds, ∃ place, Wrong catalog file place ∧ d.location = ⟨fileName,place.text⟩
  printed : ∀ d ∈ ds, ∃ place, Wrong catalog file place ∧
    d.display = fileName ++ ":" ++ place.text ++ ": " ++ d.message
  exact_iff : ∀ place, place.In file →
    ((∃ d ∈ ds, d.location = ⟨fileName,place.text⟩) ↔ Wrong catalog file place)

section Places
variable {catalog : ProfileCatalog} {file : WorkflowFile} {p q : Place}

lemma Wrong.in_file (h : Wrong catalog file p) : p.In file := by
  intro entry rest hw
  cases h with
  | need he => exact (Prod.mk.inj (Option.some.inj hw)).1 ▸ he
  | field he => exact (Prod.mk.inj (Option.some.inj hw)).1 ▸ he
  | _ => cases hw

lemma Place.text_within {entry : Entry} {rest : String} (h : p.within = some (entry,rest)) :
    p.text = entry.path ++ "." ++ rest := by
  cases p with
  | need e i =>
    obtain ⟨rfl,rfl⟩ := Prod.mk.inj (Option.some.inj h)
    simp only [text, needPath, String.append_assoc]
    rfl
  | field e f =>
    obtain ⟨rfl,rfl⟩ := Prod.mk.inj (Option.some.inj h)
    rfl
  | _ => cases h

lemma Place.within_injective {entry : Entry} {rest : String} (hp : p.within = some (entry,rest))
    (hq : q.within = some (entry,rest)) : p = q := by
  have hfield : ∀ (i : ℕ) (f : Field), "needs[" ++ toString i ++ "]" ≠ f.text := by
    intro i f h
    have h := congrArg String.toList h
    rw [String.toList_append,String.toList_append] at h
    cases f <;> exact absurd (List.cons.inj h).1 (by decide)
  cases p with
  | need e i =>
    obtain ⟨rfl,rfl⟩ := Prod.mk.inj (Option.some.inj hp)
    cases q with
    | need e' j =>
      obtain ⟨rfl,h⟩ := Prod.mk.inj (Option.some.inj hq)
      have h := congrArg String.toList h
      simp only [String.toList_append, List.append_assoc] at h
      have h : (toString j).toList ++ [']'] = (toString i).toList ++ [']'] :=
        List.append_cancel_left h
      obtain ⟨rfl,-⟩ := index_delimited h
      rfl
    | field e' f => exact absurd (Prod.mk.inj (Option.some.inj hq)).2.symm (hfield i f)
    | _ => cases hq
  | field e f =>
    obtain ⟨rfl,rfl⟩ := Prod.mk.inj (Option.some.inj hp)
    cases q with
    | need e' i => exact absurd (Prod.mk.inj (Option.some.inj hq)).2 (hfield i f)
    | field e' f' =>
      obtain ⟨rfl,h⟩ := Prod.mk.inj (Option.some.inj hq)
      have : f' = f := by cases f <;> cases f' <;> first | rfl | exact absurd h (by decide)
      rw [this]
    | _ => cases hq
  | _ => cases hp

/-- No entry's place is one of the whole file's. -/
lemma Authored.path_ne {e : Entry} (he : Authored file e) (r : String) :
    e.path ++ "." ++ r ≠ "schema_version" ∧ e.path ++ "." ++ r ≠ "<document>" := by
  constructor
  · intro h
    have h := congrArg String.toList h
    simp only [String.toList_append, List.append_assoc] at h
    cases he with
    | step hs =>
      rw [stepPath_toList] at h
      exact absurd (List.cons.inj (List.cons.inj h).2).1 (by decide)
    | phase hp hs =>
      rw [phasePath_toList] at h
      exact absurd (List.cons.inj h).1 (by decide)
  · intro h
    have h := congrArg String.toList h
    simp only [String.toList_append, List.append_assoc] at h
    cases he with
    | step hs =>
      rw [stepPath_toList] at h
      exact absurd (List.cons.inj h).1 (by decide)
    | phase hp hs =>
      rw [phasePath_toList] at h
      exact absurd (List.cons.inj h).1 (by decide)

/-- A location names one place of the file. -/
theorem Place.text_injective (hp : p.In file) (hq : q.In file) (h : p.text = q.text) : p = q := by
  have outer : ∀ {p : Place}, p.within = none → p = .version ∨ p = .document := by
    intro p h
    cases p with
    | version => exact .inl rfl
    | document => exact .inr rfl
    | _ => cases h
  have apart : ∀ {p q : Place} {e : Entry} {r : String}, p.In file → p.within = some (e,r) →
      q.within = none → p.text ≠ q.text := by
    intro p q e r hp hw hn
    obtain ⟨hv,hd⟩ := (mem_entries.mp (hp e r hw)).path_ne r
    rw [text_within hw]
    rcases outer hn with rfl | rfl
    · exact hv
    · exact hd
  cases hpw : p.within with
  | none =>
    cases hqw : q.within with
    | none =>
      rcases outer hpw with rfl | rfl <;> rcases outer hqw with rfl | rfl
      · rfl
      · exact absurd h (by decide)
      · exact absurd h (by decide)
      · rfl
    | some w => exact absurd h.symm (apart (e := w.1) (r := w.2) hq hqw hpw)
  | some w =>
    obtain ⟨e,r⟩ := w
    cases hqw : q.within with
    | none => exact absurd h (apart hp hpw hqw)
    | some w' =>
      obtain ⟨e',r'⟩ := w'
      rw [text_within hpw,text_within hqw] at h
      obtain ⟨rfl,rfl⟩ := (mem_entries.mp (hp e r hpw)).path_injective
        (mem_entries.mp (hq e' r' hqw)) h
      exact within_injective hpw hqw

end Places

section Loop
variable (fileName : String) (catalog : ProfileCatalog) (declared : ExtTreeSet String)

/-- What the loop adds to the diagnostics for one entry. -/
def entryDiagnostics (entry : Entry) : List Diagnostic :=
  unknownNeeds fileName declared entry ++
    jobDiagnostics fileName entry.step entry.path catalog

/-- What the loop adds to the builder for one entry. -/
def entrySpec (entry : Entry) : Option (StepSpec Job) :=
  match compileJob fileName entry.step entry.path catalog with
  | .ok job => some ⟨entry.step.id,entry.needs,job⟩
  | .error _ => none

/-- The loop over the entries. -/
lemma foldl_compileEntry (l : List Entry) (ds : List Diagnostic) (b : DagBuilder Job) :
    l.foldl (compileEntry fileName catalog declared) (ds,b) =
      (ds ++ l.flatMap (entryDiagnostics fileName catalog declared),
        { b with steps := b.steps ++ l.filterMap (entrySpec fileName catalog) }) := by
  induction l generalizing ds b with
  | nil => simp
  | cons entry l ih =>
    rw [List.foldl_cons,compileEntry]
    cases hc : compileJob fileName entry.step entry.path catalog with
    | ok job =>
      simp only [hc, ih, List.flatMap_cons, entryDiagnostics, jobDiagnostics, List.filterMap_cons,
        entrySpec, DagBuilder.step, List.append_assoc, List.append_nil, List.cons_append,
        List.nil_append]
    | error found =>
      simp only [hc, ih, List.flatMap_cons, entryDiagnostics, jobDiagnostics, List.filterMap_cons,
        entrySpec, List.append_assoc]

variable {catalog}

section Specs
variable {fileName}

lemma entrySpec_eq_some {entry : Entry} {spec : StepSpec Job} :
    entrySpec fileName catalog entry = some spec ↔ SpecOf catalog entry spec := by
  unfold entrySpec
  constructor
  · intro h
    split at h
    · next job hc =>
      obtain rfl := Option.some.inj h
      exact ⟨rfl,rfl,compileJob_eq_ok.mp hc⟩
    · cases h
  · rintro ⟨hid,hneeds,hruns⟩
    rw [compileJob_eq_ok.mpr hruns]
    cases spec
    simp only at hid hneeds
    rw [hid,hneeds]

end Specs

/-- The builder holds the specification of each entry once no entry is faulty. -/
lemma filterMap_entrySpec {l : List Entry} {specs : List (StepSpec Job)}
    (h : List.Forall₂ (SpecOf catalog) l specs) :
    l.filterMap (entrySpec fileName catalog) = specs := by
  induction h with
  | nil => rfl
  | cons hs _ ih => rw [List.filterMap_cons,entrySpec_eq_some.mpr hs,ih]

lemma exists_specs {l : List Entry}
    (h : ∀ entry ∈ l, ∀ field, ¬ JobFault catalog entry.step.job field) :
    ∃ specs, List.Forall₂ (SpecOf catalog) l specs := by
  induction l with
  | nil => exact ⟨[],.nil⟩
  | cons entry l ih =>
    obtain ⟨specs,hspecs⟩ := ih fun e he => h e (List.mem_cons_of_mem _ he)
    obtain ⟨job,hjob⟩ := runs_iff.mpr (h entry List.mem_cons_self)
    exact ⟨⟨entry.step.id,entry.needs,job⟩::specs,.cons ⟨rfl,rfl,hjob⟩ hspecs⟩

end Loop

section Report
variable {fileName : String} {catalog : ProfileCatalog} {file : WorkflowFile}

lemma mem_unknownNeeds {declared : ExtTreeSet String} {entry : Entry} {d : Diagnostic} :
    d ∈ unknownNeeds fileName declared entry ↔ ∃ index need, entry.needs[index]? = some need ∧
      need ∉ declared ∧ d = located fileName (needPath entry.path index)
        ("step `" ++ entry.step.id ++ "` depends on unknown step `" ++ need ++ "`") := by
  simp only [unknownNeeds, List.mem_filterMap, Prod.exists, List.mem_zipIdx_iff_getElem?]
  constructor
  · rintro ⟨need,index,hn,h⟩
    split at h
    · cases h
    · next hd => exact ⟨index,need,hn,hd,(Option.some.inj h).symm⟩
  · rintro ⟨index,need,hn,hd,rfl⟩
    exact ⟨need,index,hn,if_neg hd⟩

lemma step_of_entries_nil (h : entries file = []) : file.step = [] := by
  have := (List.append_eq_nil_iff.mp h).1
  simpa [stepEntries] using this

lemma mem_fileDiagnostics {d : Diagnostic} : d ∈ fileDiagnostics fileName file ↔
    (file.schemaVersion ≠ schemaVersion ∧ d = located fileName "schema_version"
      ("unsupported schema version " ++ toString file.schemaVersion ++ ", this build reads " ++
        toString schemaVersion)) ∨
    ((file.step ≠ [] ∧ file.phase ≠ []) ∧ d = located fileName "<document>"
      "a workflow uses either `step` or `phase`, not both") ∨
    ((entries file = [] ∧ file.schemaVersion = schemaVersion) ∧
      d = located fileName "<document>" "a workflow needs at least one step") := by
  by_cases hs : file.step = []
  · by_cases hv : file.schemaVersion = schemaVersion
    · by_cases he : entries file = [] <;> simp [fileDiagnostics, hs, hv, he]
    · simp [fileDiagnostics, hs, hv]
  · have he : entries file ≠ [] := fun h => hs (step_of_entries_nil h)
    by_cases hp : file.phase = [] <;> by_cases hv : file.schemaVersion = schemaVersion <;>
      simp [fileDiagnostics, hs, hv, he, hp]

lemma fileDiagnostics_sound {d : Diagnostic} (h : d ∈ fileDiagnostics fileName file) :
    ∃ place, Wrong catalog file place ∧ d.location = ⟨fileName,place.text⟩ := by
  rcases mem_fileDiagnostics.mp h with ⟨hv,rfl⟩ | ⟨⟨hs,hp⟩,rfl⟩ | ⟨⟨he,hv⟩,rfl⟩
  · exact ⟨_,.version hv,rfl⟩
  · exact ⟨_,.bothForms hs hp,rfl⟩
  · exact ⟨_,.noSteps he hv,rfl⟩

variable (fileName) in
lemma fileDiagnostics_complete {place : Place} (h : Wrong catalog file place)
    (hw : place.within = none) :
    ∃ d ∈ fileDiagnostics fileName file, d.location = ⟨fileName,place.text⟩ := by
  cases h with
  | version hv => exact ⟨_,mem_fileDiagnostics.mpr (.inl ⟨hv,rfl⟩),rfl⟩
  | bothForms hs hp => exact ⟨_,mem_fileDiagnostics.mpr (.inr (.inl ⟨⟨hs,hp⟩,rfl⟩)),rfl⟩
  | noSteps he hv => exact ⟨_,mem_fileDiagnostics.mpr (.inr (.inr ⟨⟨he,hv⟩,rfl⟩)),rfl⟩
  | _ => cases hw

/-- The ids the file declares. -/
def declaredIds (file : WorkflowFile) : ExtTreeSet String :=
  collectSet ((entries file).map fun entry => entry.step.id)

lemma notMem_declaredIds {need : String} :
    need ∉ declaredIds file ↔ ∀ other ∈ entries file, other.step.id ≠ need := by
  simp [declaredIds]

/-- The diagnostics of a file before the workflow crate is asked. -/
def localDiagnostics (fileName : String) (catalog : ProfileCatalog) (file : WorkflowFile) :
    List Diagnostic :=
  fileDiagnostics fileName file ++
    (entries file).flatMap (entryDiagnostics fileName catalog (declaredIds file))

lemma localDiagnostics_sound {d : Diagnostic} (h : d ∈ localDiagnostics fileName catalog file) :
    ∃ place, Wrong catalog file place ∧ d.location = ⟨fileName,place.text⟩ := by
  rcases List.mem_append.mp h with h | h
  · exact fileDiagnostics_sound h
  · obtain ⟨entry,he,h⟩ := List.mem_flatMap.mp h
    rcases List.mem_append.mp h with h | h
    · obtain ⟨index,need,hn,hd,rfl⟩ := mem_unknownNeeds.mp h
      exact ⟨_,.need he hn (notMem_declaredIds.mp hd),rfl⟩
    · obtain ⟨field,hf,hl⟩ := jobDiagnostics_sound h
      exact ⟨_,.field he hf,hl⟩

variable (fileName) in
lemma localDiagnostics_complete {place : Place} (h : Wrong catalog file place) :
    ∃ d ∈ localDiagnostics fileName catalog file, d.location = ⟨fileName,place.text⟩ := by
  cases hw : place.within with
  | none =>
    obtain ⟨d,hd,hl⟩ := fileDiagnostics_complete fileName h hw
    exact ⟨d,List.mem_append_left _ hd,hl⟩
  | some w =>
    have hin : ∀ {entry : Entry} {d : Diagnostic}, entry ∈ entries file →
        d ∈ entryDiagnostics fileName catalog (declaredIds file) entry →
        d ∈ localDiagnostics fileName catalog file := fun he hd =>
      List.mem_append_right _ (List.mem_flatMap.mpr ⟨_,he,hd⟩)
    cases h with
    | need he hn hu =>
      refine ⟨_,hin he (List.mem_append_left _ (mem_unknownNeeds.mpr
        ⟨_,_,hn,notMem_declaredIds.mpr hu,rfl⟩)),rfl⟩
    | field he hf =>
      obtain ⟨d,hd,hl⟩ := jobDiagnostics_complete fileName _ hf
      exact ⟨d,hin he (List.mem_append_right _ hd),hl⟩
    | _ => cases hw

theorem localDiagnostics_reports :
    Reports fileName catalog file (localDiagnostics fileName catalog file) := by
  refine ⟨fun d hd => localDiagnostics_sound hd,fun d hd => ?_,
    fun place hp => ⟨?_,localDiagnostics_complete fileName⟩⟩
  · obtain ⟨place,hw,hl⟩ := localDiagnostics_sound hd
    exact ⟨place,hw,by rw [Diagnostic.display,hl,Location.display]⟩
  · rintro ⟨d,hd,hl⟩
    obtain ⟨q,hq,hl'⟩ := localDiagnostics_sound hd
    obtain rfl := Place.text_injective hp hq.in_file (Location.mk.inj (hl.symm.trans hl')).2
    exact hq

lemma localDiagnostics_eq_nil : localDiagnostics fileName catalog file = [] ↔
    ∀ place, ¬ Wrong catalog file place := by
  rw [List.eq_nil_iff_forall_not_mem]
  constructor
  · intro h place hp
    obtain ⟨d,hd,-⟩ := localDiagnostics_complete fileName hp
    exact h d hd
  · intro h d hd
    obtain ⟨place,hp,-⟩ := localDiagnostics_sound hd
    exact h place hp

end Report

section Correct
variable {parse : String → Except String WorkflowFile} {debug : List StepId → String}
  {fileName document : String} {catalog : ProfileCatalog} {file : WorkflowFile}

lemma compileEntries_eq : compileEntries fileName file catalog =
    (localDiagnostics fileName catalog file,⟨file.workflow.id,file.workflow.version,
      (entries file).filterMap (entrySpec fileName catalog)⟩) := by
  rw [compileEntries,foldl_compileEntry]
  rfl

/-- A file with something wrong is refused with the report of all of it. -/
lemma compile_of_wrong (hparse : parse document = .ok file)
    (h : ∃ place, Wrong catalog file place) : compile parse debug fileName document catalog =
      .ok (.error (localDiagnostics fileName catalog file)) := by
  have hne : localDiagnostics fileName catalog file ≠ [] := by
    rw [ne_eq,localDiagnostics_eq_nil]
    push Not
    exact h
  unfold compile
  rw [hparse]
  dsimp only
  rw [compileEntries_eq]
  exact if_pos hne

/-- The result of the workflow crate on the steps of a file, its error reported as a whole. -/
def reported (debug : List StepId → String) (fileName : String) :
    Except Workflow.WorkflowDefinitionError (WorkflowDefinition Job) →
      Except (List Diagnostic) (WorkflowDefinition Job)
  | .ok definition => .ok definition
  | .error error => .error [located fileName "<workflow>" (error.display debug)]

variable (debug fileName) in
/-- A file with nothing wrong is what the workflow crate makes of its steps. -/
lemma compile_of_clean (hparse : parse document = .ok file)
    (h : ∀ place, ¬ Wrong catalog file place) :
    ∃ specs, List.Forall₂ (SpecOf catalog) (entries file) specs ∧
      compile parse debug fileName document catalog =
        (DagBuilder.mk file.workflow.id file.workflow.version specs).build.map
          (reported debug fileName) := by
  obtain ⟨specs,hspecs⟩ : ∃ specs, List.Forall₂ (SpecOf catalog) (entries file) specs :=
    exists_specs fun entry he field hf => h _ (.field he hf)
  refine ⟨specs,hspecs,?_⟩
  unfold compile
  rw [hparse]
  dsimp only
  rw [compileEntries_eq,filterMap_entrySpec fileName hspecs,localDiagnostics_eq_nil.mpr h]
  dsimp only
  rw [if_neg (not_not.mpr rfl)]
  cases DagBuilder.build ⟨file.workflow.id,file.workflow.version,specs⟩ with
  | error p => rfl
  | ok r => cases r <;> rfl

/-- What the workflow crate makes of a list of steps. -/
lemma build_cases (b : DagBuilder Job) :
    (∃ error, b.build = .ok (.error error) ∧ ¬ b.Valid) ∨
    ∃ d, b.build = .ok (.ok d) ∧ b.Valid ∧ d.id.value = b.id ∧ d.version.value = b.version ∧
      Describes b.steps d.steps := by
  rcases Workflow.compile_cases b.id b.version b.steps with
    ⟨error,he,-,hno⟩ | ⟨ids,he,hno,-⟩ | ⟨d,he,hacc,hac,hd,-⟩
  · exact .inl ⟨error,he,fun hv => hno hv.texts⟩
  · exact .inl ⟨_,he,fun hv => hno hv.acyclic⟩
  · obtain ⟨_,_,hv,-⟩ := Workflow.compile_eq_ok he
    exact .inr ⟨d,he,⟨hacc,hac⟩,hv.id_eq,hv.version_eq,hd⟩

lemma specs_unique {l : List Entry} {specs specs' : List (StepSpec Job)}
    (h : List.Forall₂ (SpecOf catalog) l specs) (h' : List.Forall₂ (SpecOf catalog) l specs') :
    specs = specs' := by
  rw [←filterMap_entrySpec "" h,filterMap_entrySpec "" h']

/-- Compilation never aborts. It accepts exactly the files with nothing wrong whose steps the
workflow crate accepts, and makes of each entry the step it says; otherwise it reports every place
that is wrong and no other, or, when none is, the one error of the workflow crate. -/
theorem compile_correct (hparse : parse document = .ok file) :
    ∃ result, compile parse debug fileName document catalog = .ok result ∧
      ((∃ d, result = .ok d) ↔ Compilable catalog file) ∧
      (∀ d, result = .ok d → ∃ specs, List.Forall₂ (SpecOf catalog) (entries file) specs ∧
        d.id.value = file.workflow.id ∧ d.version.value = file.workflow.version ∧
        Describes specs d.steps) ∧
      ∀ ds, result = .error ds →
        ((∃ place, Wrong catalog file place) ∧ Reports fileName catalog file ds) ∨
        ((∀ place, ¬ Wrong catalog file place) ∧ ∃ specs error,
          List.Forall₂ (SpecOf catalog) (entries file) specs ∧
          (DagBuilder.mk file.workflow.id file.workflow.version specs).build =
            .ok (.error error) ∧
          ds = [located fileName "<workflow>" (error.display debug)]) := by
  by_cases hw : ∃ place, Wrong catalog file place
  · refine ⟨_,compile_of_wrong hparse hw,⟨?_,?_⟩,?_,?_⟩
    · rintro ⟨d,hd⟩
      cases hd
    · intro hc
      obtain ⟨place,hp⟩ := hw
      exact absurd hp (hc.clean place)
    · rintro d hd
      cases hd
    · intro ds hds
      obtain rfl := Except.error.inj hds
      exact .inl ⟨hw,localDiagnostics_reports⟩
  · have hclean : ∀ place, ¬ Wrong catalog file place := not_exists.mp hw
    obtain ⟨specs,hspecs,hc⟩ := compile_of_clean debug fileName hparse hclean
    rcases build_cases ⟨file.workflow.id,file.workflow.version,specs⟩ with
      ⟨error,hb,hno⟩ | ⟨d,hb,hvalid,hid,hversion,hd⟩
    · refine ⟨.error [located fileName "<workflow>" (error.display debug)],by rw [hc,hb]; rfl,
        ⟨?_,?_⟩,?_,?_⟩
      · rintro ⟨d,hd⟩
        cases hd
      · rintro ⟨-,specs',hspecs',hvalid⟩
        rw [specs_unique hspecs' hspecs] at hvalid
        exact absurd hvalid hno
      · rintro d hd
        cases hd
      · intro ds hds
        obtain rfl := Except.error.inj hds
        exact .inr ⟨hclean,specs,error,hspecs,hb,rfl⟩
    · refine ⟨.ok d,by rw [hc,hb]; rfl,⟨fun _ => ⟨hclean,specs,hspecs,hvalid⟩,fun _ => ⟨d,rfl⟩⟩,?_,?_⟩
      · intro d' hd'
        obtain rfl := Except.ok.inj hd'
        exact ⟨specs,hspecs,hid,hversion,hd⟩
      · rintro ds hds
        cases hds

end Correct

section Sample

/-- The derived `Debug` text of step ids without special characters. -/
def debugStepIds (ids : List StepId) : String :=
  "[" ++ ", ".intercalate (ids.map fun id => "StepId(\"" ++ id.value ++ "\")") ++ "]"

/-- A file whose first step names an unknown profile, and whose second an unknown step and an
unknown operation. -/
def faultyText : String := "schema_version = 1
[workflow]
id = \"w\"
version = \"v1\"
[[step]]
id = \"a\"
kind = \"agent\"
profile = \"missing-one\"
prompt = \"hi\"
[[step]]
id = \"b\"
needs = [\"nope\"]
kind = \"mechanical\"
op = \"not_an_op\"
"

def faultyFile : WorkflowFile where
  schemaVersion := 1
  workflow := ⟨"w","v1"⟩
  step := [⟨"a",[],.agent "missing-one" "hi"⟩,⟨"b",["nope"],.mechanical "not_an_op" ∅⟩]

def readFaulty (document : String) : Except String WorkflowFile :=
  if document = faultyText then .ok faultyFile else .error "unexpected input"

theorem compile_correct_sample : ∃ ds,
    compile readFaulty debugStepIds "test.toml" faultyText ProfileCatalog.exampleCatalog = .ok (.error ds) ∧
    Reports "test.toml" ProfileCatalog.exampleCatalog faultyFile ds ∧
    ∀ path ∈ ["step[0].profile","step[1].needs[0]","step[1].op"],
      ∃ d ∈ ds, d.location = ⟨"test.toml",path⟩ := by
  have hmissing : ProfileCatalog.exampleCatalog.get "missing-one" = none := by
    simp [ProfileCatalog.exampleCatalog, ProfileCatalog.get]
  have hprofile : Wrong ProfileCatalog.exampleCatalog faultyFile
      (.field ⟨⟨"a",[],.agent "missing-one" "hi"⟩,[],stepPath 0⟩ .profile) :=
    .field List.mem_cons_self (.profile hmissing)
  have hneed : Wrong ProfileCatalog.exampleCatalog faultyFile
      (.need ⟨⟨"b",["nope"],.mechanical "not_an_op" ∅⟩,["nope"],stepPath 1⟩ 0) :=
    .need (List.mem_cons_of_mem _ List.mem_cons_self) rfl (by decide +kernel)
  have hop : Wrong ProfileCatalog.exampleCatalog faultyFile
      (.field ⟨⟨"b",["nope"],.mechanical "not_an_op" ∅⟩,["nope"],stepPath 1⟩ .op) :=
    .field (List.mem_cons_of_mem _ List.mem_cons_self) (.op (by decide))
  obtain ⟨result,hr,hiff,-,hreport⟩ : ∃ result,
      compile readFaulty debugStepIds "test.toml" faultyText ProfileCatalog.exampleCatalog = .ok result ∧ _ :=
    compile_correct (if_pos rfl)
  cases result with
  | ok d => exact absurd hprofile ((hiff.mp ⟨d,rfl⟩).clean _)
  | error ds =>
    rcases hreport ds rfl with ⟨-,h⟩ | ⟨hclean,-⟩
    · refine ⟨ds,hr,h,fun path hp => ?_⟩
      simp only [List.mem_cons, List.not_mem_nil, or_false] at hp
      rcases hp with rfl | rfl | rfl
      · exact (h.exact_iff _ hprofile.in_file).mpr hprofile
      · exact (h.exact_iff _ hneed.in_file).mpr hneed
      · exact (h.exact_iff _ hop.in_file).mpr hop
    · exact absurd hprofile (hclean _)

end Sample
end TowerAgent.Worker
