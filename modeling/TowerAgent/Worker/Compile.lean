import TowerAgent.Plan.Planner
import TowerAgent.Worker.Schema

/-! Compilation of a workflow file: the two authoring forms flattened into one list of steps, every
fault reported at its place, and the rest left to the workflow crate. -/
namespace TowerAgent.Worker
open Lib
open Workflow (DagBuilder Panics StepId StepSpec WorkflowDefinition)
open Std (ExtTreeMap ExtTreeSet)

/-- A step with everything it needs, and the place it was written at. -/
structure Entry where
  step : StepEntry
  needs : List String
  path : String

def stepPath (index : ℕ) : String := "step[" ++ toString index ++ "]"

def phasePath (phase step : ℕ) : String :=
  "phase[" ++ toString phase ++ "].step[" ++ toString step ++ "]"

def needPath (path : String) (index : ℕ) : String := path ++ ".needs[" ++ toString index ++ "]"

def stepEntries (steps : List StepEntry) : List Entry :=
  steps.mapIdx fun index step => ⟨step,step.needs,stepPath index⟩

/-- The loop over the phases: each step also needs every step of the phase before it. -/
def phaseEntries : ℕ → List String → List PhaseEntry → List Entry
  | _,_,[] => []
  | index,previousPhase,phase::phases =>
    phase.step.mapIdx (fun stepIndex step =>
      ⟨step,step.needs ++ previousPhase,phasePath index stepIndex⟩) ++
    phaseEntries (index+1) (phase.step.map StepEntry.id) phases

/-- Both authoring forms as one list. -/
def entries (file : WorkflowFile) : List Entry :=
  stepEntries file.step ++ phaseEntries 0 [] file.phase

def located (fileName path message : String) : Diagnostic := ⟨⟨fileName,path⟩,message⟩

/-- What is wrong with the file as a whole. -/
def fileDiagnostics (fileName : String) (file : WorkflowFile) : List Diagnostic :=
  let diagnostics :=
    if file.schemaVersion ≠ schemaVersion then
      [located fileName "schema_version" ("unsupported schema version " ++
        toString file.schemaVersion ++ ", this build reads " ++ toString schemaVersion)]
    else []
  let diagnostics :=
    if !file.step.isEmpty && !file.phase.isEmpty then
      diagnostics ++ [located fileName "<document>"
        "a workflow uses either `step` or `phase`, not both"]
    else diagnostics
  if (entries file).isEmpty && diagnostics.isEmpty then
    diagnostics ++ [located fileName "<document>" "a workflow needs at least one step"]
  else diagnostics

/-- The planning layers of a step: its prompt over the profile it names. -/
def profileLayers (saved : Plan.Profile) (prompt : String) : Plan.Layers :=
  { profile := some saved, explicit := { prompt := some prompt } }

def compileJob (fileName : String) (step : StepEntry) (path : String)
    (catalog : ProfileCatalog) : Except (List Diagnostic) Job :=
  match step.job with
  | .agent profile prompt =>
    match catalog.get profile with
    | none =>
      .error [located fileName (path ++ ".profile") ("unknown profile `" ++ profile ++
        "`, this host defines " ++ ", ".intercalate catalog.names)]
    | some saved =>
      match Plan.resolve (profileLayers saved prompt) with
      | .complete resolved => .ok (.agent profile prompt resolved.provider)
      | .missing _ requirements =>
        .error (requirements.map fun requirement =>
          located fileName (path ++ "." ++ requirement.path) ("profile `" ++ profile ++
            "` still needs " ++ requirement.id ++ " (" ++ requirement.label ++ ")"))
      | .invalid diagnostics =>
        .error (diagnostics.map fun diagnostic =>
          located fileName (path ++ "." ++ diagnostic.path.getD "profile") diagnostic.message)
  | .mechanical op args =>
    match MechanicalOp.parse op with
    | some op => .ok (.mechanical op args)
    | none =>
      .error [located fileName (path ++ ".op") ("unknown mechanical operation `" ++ op ++ "`")]

/-- The needs of one entry that no step of the file declares. -/
def unknownNeeds (fileName : String) (declared : ExtTreeSet String) (entry : Entry) :
    List Diagnostic :=
  entry.needs.zipIdx.filterMap fun (need,needIndex) =>
    if need ∈ declared then none
    else some (located fileName (needPath entry.path needIndex)
      ("step `" ++ entry.step.id ++ "` depends on unknown step `" ++ need ++ "`"))

/-- One turn of the loop over the entries. -/
def compileEntry (fileName : String) (catalog : ProfileCatalog) (declared : ExtTreeSet String)
    (state : List Diagnostic × DagBuilder Job) (entry : Entry) :
    List Diagnostic × DagBuilder Job :=
  let (diagnostics,builder) := state
  let diagnostics := diagnostics ++ unknownNeeds fileName declared entry
  match compileJob fileName entry.step entry.path catalog with
  | .ok job => (diagnostics,builder.step ⟨entry.step.id,entry.needs,job⟩)
  | .error found => (diagnostics ++ found,builder)

section Compile
variable (parse : String → Except String WorkflowFile) (debug : List StepId → String)

/-- The builder and the diagnostics at the end of the loop. -/
def compileEntries (fileName : String) (file : WorkflowFile) (catalog : ProfileCatalog) :
    List Diagnostic × DagBuilder Job :=
  (entries file).foldl
    (compileEntry fileName catalog (collectSet ((entries file).map fun entry => entry.step.id)))
    (fileDiagnostics fileName file,DagBuilder.new file.workflow.id file.workflow.version)

/-- Compile one file into a definition, or report everything wrong with it. The TOML reader and
the `Debug` text of step ids are parameters. -/
def compile (fileName document : String) (catalog : ProfileCatalog) :
    Panics (Except (List Diagnostic) (WorkflowDefinition Job)) :=
  match parse document with
  | .error error =>
    .ok (.error [located fileName "<document>" ("configuration is not valid: " ++ error)])
  | .ok file =>
    let (diagnostics,builder) := compileEntries fileName file catalog
    if diagnostics ≠ [] then
      .ok (.error diagnostics)
    else do
      match ← builder.build with
      | .ok definition => .ok (.ok definition)
      | .error error => .ok (.error [located fileName "<workflow>" (error.display debug)])

end Compile

section Entries
variable {file : WorkflowFile} {e e' : Entry}

/-- The ids a phase adds to the needs of the next one. -/
def phaseIds (file : WorkflowFile) : ℕ → List String
  | 0 => []
  | index+1 => (file.phase[index]?.elim [] PhaseEntry.step).map StepEntry.id

/-- Where an entry comes from. -/
inductive Authored (file : WorkflowFile) : Entry → Prop where
  | step {index : ℕ} {step : StepEntry} (h : file.step[index]? = some step) :
      Authored file ⟨step,step.needs,stepPath index⟩
  | phase {index stepIndex : ℕ} {phase : PhaseEntry} {step : StepEntry}
      (hp : file.phase[index]? = some phase) (h : phase.step[stepIndex]? = some step) :
      Authored file ⟨step,step.needs ++ phaseIds file index,phasePath index stepIndex⟩

lemma mem_stepEntries {steps : List StepEntry} : e ∈ stepEntries steps ↔
    ∃ index step, steps[index]? = some step ∧ e = ⟨step,step.needs,stepPath index⟩ := by
  rw [stepEntries,List.mem_mapIdx]
  constructor
  · rintro ⟨i,hi,rfl⟩
    exact ⟨i,steps[i],List.getElem?_eq_getElem hi,rfl⟩
  · rintro ⟨i,step,h,rfl⟩
    obtain ⟨hi,rfl⟩ := List.getElem?_eq_some_iff.mp h
    exact ⟨i,hi,rfl⟩

/-- The loop over the phases from some phase on, with the ids of the phase before it. -/
lemma mem_phaseEntries (done : List PhaseEntry) {phases : List PhaseEntry}
    (hf : file.phase = done ++ phases) :
    e ∈ phaseEntries done.length (phaseIds file done.length) phases ↔
      ∃ index stepIndex phase step, done.length ≤ index ∧ file.phase[index]? = some phase ∧
        phase.step[stepIndex]? = some step ∧
        e = ⟨step,step.needs ++ phaseIds file index,phasePath index stepIndex⟩ := by
  induction phases generalizing done with
  | nil =>
    rw [List.append_nil] at hf
    simp only [phaseEntries, List.not_mem_nil, false_iff]
    rintro ⟨index,stepIndex,phase,step,hle,hp,-⟩
    have := (List.getElem?_eq_some_iff.mp hp).1
    rw [hf] at this
    omega
  | cons first rest ih =>
    have hfirst : file.phase[done.length]? = some first := by rw [hf]; simp
    have hids : phaseIds file (done ++ [first]).length = first.step.map StepEntry.id := by
      rw [List.length_append,List.length_singleton,phaseIds,hfirst]
      rfl
    have hrest := ih (done ++ [first]) (by rw [hf]; simp)
    rw [hids,List.length_append,List.length_singleton] at hrest
    rw [phaseEntries,List.mem_append,hrest,List.mem_mapIdx]
    constructor
    · rintro (⟨i,hi,rfl⟩ | ⟨index,stepIndex,phase,step,hle,hp,hs,rfl⟩)
      · exact ⟨_,i,first,_,le_refl _,hfirst,List.getElem?_eq_getElem hi,rfl⟩
      · exact ⟨index,stepIndex,phase,step,by omega,hp,hs,rfl⟩
    · rintro ⟨index,stepIndex,phase,step,hle,hp,hs,rfl⟩
      rcases Nat.lt_or_eq_of_le hle with hlt | rfl
      · exact .inr ⟨index,stepIndex,phase,step,by omega,hp,hs,rfl⟩
      · obtain rfl := Option.some.inj (hfirst.symm.trans hp)
        obtain ⟨hi,rfl⟩ := List.getElem?_eq_some_iff.mp hs
        exact .inl ⟨stepIndex,hi,rfl⟩

theorem mem_entries : e ∈ entries file ↔ Authored file e := by
  have hphase : e ∈ phaseEntries 0 (phaseIds file 0) file.phase ↔ _ := mem_phaseEntries [] rfl
  rw [entries,List.mem_append,mem_stepEntries]
  rw [List.length_nil,phaseIds] at hphase
  rw [hphase]
  constructor
  · rintro (⟨index,step,h,rfl⟩ | ⟨index,stepIndex,phase,step,-,hp,hs,rfl⟩)
    · exact .step h
    · exact .phase hp hs
  · rintro (h | ⟨hp,hs⟩)
    · exact .inl ⟨_,_,h,rfl⟩
    · exact .inr ⟨_,_,_,_,Nat.zero_le _,hp,hs,rfl⟩

/-- A decimal index ends before a closing bracket. -/
lemma index_delimited {i j : ℕ} {r r' : List Char}
    (h : (toString i).toList ++ ']' :: r = (toString j).toList ++ ']' :: r') : i = j ∧ r = r' := by
  have hdigits : ∀ (n : ℕ) (l : List Char),
      ((toString n).toList ++ ']' :: l).takeWhile Char.isDigit = (toString n).toList := by
    intro n l
    rw [List.takeWhile_append_of_pos,List.takeWhile_cons_of_neg (by decide),List.append_nil]
    intro c hc
    rw [Nat.toString_eq_repr,Nat.toList_repr] at hc
    exact Nat.isDigit_of_mem_toDigits (by decide) (by decide) hc
  have hi := congrArg (List.takeWhile Char.isDigit) h
  rw [hdigits,hdigits] at hi
  rw [hi] at h
  exact ⟨Lib.Json.natText_injective (String.toList_inj.mp hi),
    (List.cons.inj (List.append_cancel_left h)).2⟩

lemma stepPath_toList (i : ℕ) : (stepPath i).toList =
    's' :: "tep[".toList ++ ((toString i).toList ++ [']']) := by
  simp only [stepPath, String.toList_append, List.append_assoc]
  rfl

lemma phasePath_toList (i j : ℕ) : (phasePath i j).toList =
    'p' :: "hase[".toList ++ ((toString i).toList ++ ']' ::
      (".step[".toList ++ ((toString j).toList ++ [']']))) := by
  simp only [phasePath, String.toList_append, List.append_assoc]
  rfl

/-- What is written after an entry's path tells entry and rest apart. -/
lemma Authored.path_injective (he : Authored file e) (he' : Authored file e') {r r' : String}
    (h : e.path ++ "." ++ r = e'.path ++ "." ++ r') : e = e' ∧ r = r' := by
  have h := congrArg String.toList h
  simp only [String.toList_append, List.append_assoc] at h
  cases he with
  | @step i s hs =>
    cases he' with
    | @step j s' hs' =>
      simp only [stepPath_toList, List.append_assoc, List.cons_append, List.nil_append,
        List.cons.injEq, true_and] at h
      obtain ⟨rfl,hr⟩ := index_delimited (List.append_cancel_left h)
      obtain rfl := Option.some.inj (hs.symm.trans hs')
      exact ⟨rfl,String.toList_inj.mp (List.append_cancel_left hr)⟩
    | phase hp hs' =>
      simp only [stepPath_toList, phasePath_toList, List.cons_append] at h
      exact absurd (List.cons.inj h).1 (by decide)
  | @phase i k p s hp hs =>
    cases he' with
    | step hs' =>
      simp only [stepPath_toList, phasePath_toList, List.cons_append] at h
      exact absurd (List.cons.inj h).1 (by decide)
    | @phase j l p' s' hp' hs' =>
      simp only [phasePath_toList, List.append_assoc, List.cons_append, List.nil_append,
        List.cons.injEq, true_and] at h
      obtain ⟨rfl,htail⟩ := index_delimited (List.append_cancel_left h)
      obtain ⟨rfl,hr⟩ := index_delimited (List.append_cancel_left htail)
      obtain rfl := Option.some.inj (hp.symm.trans hp')
      obtain rfl := Option.some.inj (hs.symm.trans hs')
      exact ⟨rfl,String.toList_inj.mp (List.append_cancel_left hr)⟩

end Entries

end TowerAgent.Worker
