import TowerAgent.Worker.Report
import TowerAgent.Workflow.Ancestors

/-! Phases: what the phase form desugars to, which steps a phase makes wait for which, and that no
run of the workflow breaks the barrier between two phases. -/
namespace TowerAgent.Worker
open Lib Lib.Digraph Relation
open Workflow (DagBuilder StepId StepSpec WorkflowDefinition WorkflowRequest Describes SpecNeeds
  execute Event State)

section Accepted
variable {parse : String → Except String WorkflowFile} {debug : List StepId → String}
  {fileName document : String} {catalog : ProfileCatalog} {file : WorkflowFile}
  {d : WorkflowDefinition Job}

lemma specs_ids {l : List Entry} {specs : List (StepSpec Job)}
    (h : List.Forall₂ (SpecOf catalog) l specs) :
    specs.map StepSpec.id = l.map fun entry => entry.step.id := by
  induction h with
  | nil => rfl
  | cons hs _ ih => rw [List.map_cons,List.map_cons,hs.id_eq,ih]

/-- What stands behind a definition a file compiled to. -/
structure Compiled (catalog : ProfileCatalog) (file : WorkflowFile) (d : WorkflowDefinition Job)
    (specs : List (StepSpec Job)) : Prop where
  clean : ∀ place, ¬ Wrong catalog file place
  specs_of : List.Forall₂ (SpecOf catalog) (entries file) specs
  built : (DagBuilder.mk file.workflow.id file.workflow.version specs).build = .ok (.ok d)

lemma exists_compiled (hparse : parse document = .ok file)
    (h : compile parse debug fileName document catalog = .ok (.ok d)) :
    ∃ specs, Compiled catalog file d specs := by
  have hclean : ∀ place, ¬ Wrong catalog file place := by
    by_contra hw
    rw [compile_of_wrong hparse (by push Not at hw; exact hw)] at h
    cases Except.ok.inj h
  obtain ⟨specs,hspecs,hc⟩ := compile_of_clean debug fileName hparse hclean
  rw [hc] at h
  refine ⟨specs,hclean,hspecs,?_⟩
  cases hb : DagBuilder.build ⟨file.workflow.id,file.workflow.version,specs⟩ with
  | error p => simp [hb, Except.map] at h
  | ok r =>
    cases r with
    | error e => simp [hb, Except.map, reported] at h
    | ok d' =>
      simp only [hb, Except.map, reported, Except.ok.injEq] at h
      rw [h]

namespace Compiled
variable {specs : List (StepSpec Job)} (h : Compiled catalog file d specs)
include h

lemma describes : d.WellFormed ∧ Describes specs d.steps := Workflow.compile_wellFormed h.built

/-- The needs of the definition are those of the entries. -/
lemma specNeeds_iff {x y : String} :
    SpecNeeds specs x y ↔ ∃ entry ∈ entries file, entry.step.id = x ∧ y ∈ entry.needs := by
  constructor
  · rintro ⟨spec,hspec,rfl,hy⟩
    obtain ⟨entry,he,hs⟩ := exists_left_of_forall₂ h.specs_of hspec
    exact ⟨entry,he,hs.id_eq.symm,hs.needs_eq ▸ hy⟩
  · rintro ⟨entry,he,rfl,hy⟩
    obtain ⟨spec,hspec,hs⟩ := exists_right_of_forall₂ h.specs_of he
    exact ⟨spec,hspec,hs.id_eq,hs.needs_eq ▸ hy⟩

/-- An id belongs to one entry. -/
lemma entry_unique {e e' : Entry} (he : e ∈ entries file) (he' : e' ∈ entries file)
    (hid : e.step.id = e'.step.id) : e = e' := by
  have hnodup := h.describes.2.ids_nodup
  rw [specs_ids h.specs_of] at hnodup
  exact List.inj_on_of_nodup_map hnodup he he' hid

end Compiled
end Accepted

section Normalize
variable {parse parse' : String → Except String WorkflowFile} {debug : List StepId → String}
  {fileName fileName' document document' : String} {catalog : ProfileCatalog}
  {file file' : WorkflowFile} {d : WorkflowDefinition Job}

/-- Nothing is wrong with a file, as a condition on its entries. -/
lemma clean_iff : (∀ place, ¬ Wrong catalog file place) ↔
    file.schemaVersion = schemaVersion ∧ (file.step = [] ∨ file.phase = []) ∧
      entries file ≠ [] ∧ ∀ entry ∈ entries file,
        (∀ need ∈ entry.needs, need ∈ (entries file).map fun other => other.step.id) ∧
        ∀ field, ¬ JobFault catalog entry.step.job field := by
  constructor
  · intro h
    have hv : file.schemaVersion = schemaVersion := by
      by_contra hv
      exact h _ (.version hv)
    refine ⟨hv,?_,fun he => h _ (.noSteps he hv),fun entry he => ⟨fun need hn => ?_,
      fun field hf => h _ (.field he hf)⟩⟩
    · by_contra hboth
      push Not at hboth
      exact h _ (.bothForms hboth.1 hboth.2)
    · by_contra hno
      obtain ⟨index,hi⟩ := List.mem_iff_getElem?.mp hn
      exact h _ (.need he hi fun other ho hid => hno (List.mem_map.mpr ⟨other,ho,hid⟩))
  · rintro ⟨hv,hform,hne,hall⟩ place hw
    cases hw with
    | version h => exact h hv
    | bothForms hs hp => exact hform.elim hs hp
    | noSteps h => exact hne h
    | need he hn hu =>
      obtain ⟨other,ho,hid⟩ := List.mem_map.mp ((hall _ he).1 _ (List.mem_of_getElem? hn))
      exact hu other ho hid
    | field he hf => exact (hall _ he).2 _ hf

/-- The same step with the same needs, wherever it was written. -/
structure SameEntry (a b : Entry) : Prop where
  id_eq : a.step.id = b.step.id
  job_eq : a.step.job = b.step.job
  needs_eq : a.needs = b.needs

lemma SpecOf.same {a b : Entry} {spec : StepSpec Job} (h : SameEntry a b)
    (hs : SpecOf catalog a spec) : SpecOf catalog b spec :=
  ⟨hs.id_eq.trans h.id_eq,hs.needs_eq.trans h.needs_eq,h.job_eq ▸ hs.runs⟩

lemma specs_same {l l' : List Entry} {specs : List (StepSpec Job)}
    (h : List.Forall₂ SameEntry l l') (hs : List.Forall₂ (SpecOf catalog) l specs) :
    List.Forall₂ (SpecOf catalog) l' specs := by
  induction h generalizing specs with
  | nil => exact hs
  | cons hab _ ih =>
    cases hs with
    | cons ha hrest => exact .cons (ha.same hab) (ih hrest)

/-- Files of one header whose entries are the same, each in one authoring form. -/
structure SameFile (file file' : WorkflowFile) : Prop where
  version_eq : file.schemaVersion = file'.schemaVersion
  header_eq : file.workflow = file'.workflow
  form : file.step = [] ∨ file.phase = []
  form' : file'.step = [] ∨ file'.phase = []
  entries_eq : List.Forall₂ SameEntry (entries file) (entries file')

lemma SameFile.symm (h : SameFile file file') : SameFile file' file :=
  ⟨h.version_eq.symm,h.header_eq.symm,h.form',h.form,
    h.entries_eq.flip.imp fun _ _ hs => ⟨hs.id_eq.symm,hs.job_eq.symm,hs.needs_eq.symm⟩⟩

lemma SameFile.clean (h : SameFile file file') (hc : ∀ place, ¬ Wrong catalog file place) :
    ∀ place, ¬ Wrong catalog file' place := by
  obtain ⟨hv,-,hne,hall⟩ := clean_iff.mp hc
  refine clean_iff.mpr ⟨h.version_eq ▸ hv,h.form',fun he => ?_,fun entry he => ?_⟩
  · have := h.entries_eq.length_eq
    rw [he,List.length_nil,List.length_eq_zero_iff] at this
    exact hne this
  · obtain ⟨e,hm,hs⟩ := exists_left_of_forall₂ h.entries_eq he
    obtain ⟨hneeds,hjob⟩ := hall e hm
    refine ⟨fun need hn => ?_,hs.job_eq ▸ hjob⟩
    obtain ⟨other,ho,rfl⟩ := List.mem_map.mp (hneeds need (hs.needs_eq ▸ hn))
    obtain ⟨other',ho',hs'⟩ := exists_right_of_forall₂ h.entries_eq ho
    exact List.mem_map.mpr ⟨other',ho',hs'.id_eq.symm⟩

/-- Such files compile to the same definition. -/
lemma SameFile.compile (h : SameFile file file') (hparse : parse document = .ok file)
    (hparse' : parse' document' = .ok file')
    (hc : compile parse debug fileName document catalog = .ok (.ok d)) :
    compile parse' debug fileName' document' catalog = .ok (.ok d) := by
  obtain ⟨specs,hcomp⟩ := exists_compiled hparse hc
  obtain ⟨specs',hspecs',hc'⟩ := compile_of_clean debug fileName' hparse' (h.clean hcomp.clean)
  have hspecs := specs_same h.entries_eq hcomp.specs_of
  rw [hc',specs_unique hspecs' hspecs,←h.header_eq,hcomp.built]
  rfl

/-- The list form of a file: its steps in order, each with everything it needs. -/
def unphased (file : WorkflowFile) : WorkflowFile :=
  { file with
    step := (entries file).map fun entry => { entry.step with needs := entry.needs }
    phase := [] }

lemma unphased_same (h : file.step = [] ∨ file.phase = []) : SameFile file (unphased file) := by
  refine ⟨rfl,rfl,h,.inr rfl,?_⟩
  have hentries : entries (unphased file) = stepEntries (unphased file).step :=
    List.append_nil _
  rw [hentries,stepEntries,unphased]
  refine List.forall₂_iff_get.mpr ⟨by simp,fun i hi hi' => ?_⟩
  simp only [List.get_eq_getElem, List.getElem_mapIdx, List.getElem_map]
  exact ⟨rfl,rfl,rfl⟩

/-- Phases are sugar: a file that uses one of the two authoring forms and its list form compile to
the same definition, or neither compiles. -/
theorem phases_normalize (hparse : parse document = .ok file)
    (hparse' : parse' document' = .ok (unphased file)) (h : file.step = [] ∨ file.phase = []) :
    compile parse debug fileName document catalog = .ok (.ok d) ↔
      compile parse' debug fileName' document' catalog = .ok (.ok d) :=
  ⟨(unphased_same h).compile hparse hparse',(unphased_same h).symm.compile hparse' hparse⟩

/-- The shipped `phases.toml`. -/
def phasesText : String := "schema_version = 1

[workflow]
id = \"review-fanout\"
version = \"v1\"

[[phase]]
name = \"discover\"

[[phase.step]]
id = \"branch\"
kind = \"mechanical\"
op = \"read_branch\"

[[phase]]
name = \"review\"

[[phase.step]]
id = \"architecture\"
kind = \"agent\"
profile = \"reviewer\"
prompt = \"Review the architecture.\"

[[phase.step]]
id = \"tests\"
kind = \"agent\"
profile = \"implementer\"
prompt = \"Review the test coverage.\"

[[phase]]
name = \"join\"

[[phase.step]]
id = \"join\"
kind = \"mechanical\"
op = \"collect\"
"

def phasesFile : WorkflowFile where
  schemaVersion := 1
  workflow := ⟨"review-fanout","v1"⟩
  phase := [⟨[⟨"branch",[],.mechanical "read_branch" ∅⟩]⟩,
    ⟨[⟨"architecture",[],.agent "reviewer" "Review the architecture."⟩,
      ⟨"tests",[],.agent "implementer" "Review the test coverage."⟩]⟩,
    ⟨[⟨"join",[],.mechanical "collect" ∅⟩]⟩]

def readPhases (document : String) : Except String WorkflowFile :=
  if document = phasesText then .ok phasesFile else .error "unexpected input"

/-- The shipped `dag.toml`, the same workflow as a list of steps. -/
def dagText : String := "schema_version = 1

[workflow]
id = \"review-fanout\"
version = \"v1\"

[[step]]
id = \"branch\"
kind = \"mechanical\"
op = \"read_branch\"

[[step]]
id = \"architecture\"
needs = [\"branch\"]
kind = \"agent\"
profile = \"reviewer\"
prompt = \"Review the architecture.\"

[[step]]
id = \"tests\"
needs = [\"branch\"]
kind = \"agent\"
profile = \"implementer\"
prompt = \"Review the test coverage.\"

[[step]]
id = \"join\"
needs = [\"architecture\", \"tests\"]
kind = \"mechanical\"
op = \"collect\"
"

def dagFile : WorkflowFile where
  schemaVersion := 1
  workflow := ⟨"review-fanout","v1"⟩
  step := [⟨"branch",[],.mechanical "read_branch" ∅⟩,
    ⟨"architecture",["branch"],.agent "reviewer" "Review the architecture."⟩,
    ⟨"tests",["branch"],.agent "implementer" "Review the test coverage."⟩,
    ⟨"join",["architecture","tests"],.mechanical "collect" ∅⟩]

def readDag (document : String) : Except String WorkflowFile :=
  if document = dagText then .ok dagFile else .error "unexpected input"

/-- The definition a file compiles to. -/
def acceptedFile (catalog : ProfileCatalog) (file : WorkflowFile) :
    Option (WorkflowDefinition Job) :=
  match compile (fun _ => .ok file) debugStepIds "" "" catalog with
  | .ok (.ok d) => some d
  | _ => none

lemma acceptedFile_eq_some (hparse : parse document = .ok file)
    (h : acceptedFile catalog file = some d) :
    compile parse debugStepIds fileName document catalog = .ok (.ok d) := by
  have hform : file.step = [] ∨ file.phase = [] := by
    by_contra hboth
    push Not at hboth
    unfold acceptedFile at h
    rw [compile_of_wrong rfl ⟨_,.bothForms hboth.1 hboth.2⟩] at h
    cases h
  have hself : SameFile file file :=
    ⟨rfl,rfl,hform,hform,List.forall₂_same.mpr fun _ _ => ⟨rfl,rfl,rfl⟩⟩
  unfold acceptedFile at h
  split at h
  · next d' hd =>
    obtain rfl := Option.some.inj h
    exact hself.compile rfl hparse hd
  · cases h

lemma phases_accepted : ∃ d, compile readPhases debugStepIds "phases.toml" phasesText
    ProfileCatalog.exampleCatalog = .ok (.ok d) := by
  have h : (acceptedFile .exampleCatalog phasesFile).isSome = true := by decide +kernel
  obtain ⟨d,hd⟩ := Option.isSome_iff_exists.mp h
  exact ⟨d,acceptedFile_eq_some (if_pos rfl) hd⟩

theorem phases_normalize_sample : ∃ d,
    compile readPhases debugStepIds "phases.toml" phasesText ProfileCatalog.exampleCatalog =
      .ok (.ok d) ∧
    compile readDag debugStepIds "dag.toml" dagText ProfileCatalog.exampleCatalog =
      .ok (.ok d) := by
  obtain ⟨d,hd⟩ := phases_accepted
  have hdag : readDag dagText = .ok (unphased phasesFile) := if_pos rfl
  exact ⟨d,hd,(phases_normalize (if_pos rfl) hdag (.inl rfl)).mp hd⟩

end Normalize

section Barrier
variable {catalog : ProfileCatalog} {file : WorkflowFile} {d : WorkflowDefinition Job}
  {specs : List (StepSpec Job)}

/-- A step id written in the phase of some index. -/
def InPhase (file : WorkflowFile) (index : ℕ) (id : String) : Prop :=
  ∃ phase, file.phase[index]? = some phase ∧ id ∈ phase.step.map StepEntry.id

/-- No phase strictly between two is empty. -/
def Unbroken (file : WorkflowFile) (earlier later : ℕ) : Prop :=
  ∀ index, earlier < index → index < later → ∃ id, InPhase file index id

lemma mem_phaseIds {index : ℕ} {id : String} :
    id ∈ phaseIds file (index+1) ↔ InPhase file index id := by
  rw [phaseIds,InPhase]
  cases h : file.phase[index]? <;> simp

/-- An id in a phase is that of an entry, which needs the whole phase before. -/
lemma InPhase.entry {index : ℕ} {id : String} (h : InPhase file index id) :
    ∃ entry ∈ entries file, entry.step.id = id ∧
      (∃ k, entry.path = phasePath index k) ∧
      entry.needs = entry.step.needs ++ phaseIds file index := by
  obtain ⟨phase,hp,hid⟩ := h
  obtain ⟨step,hstep,rfl⟩ := List.mem_map.mp hid
  obtain ⟨k,hk⟩ := List.mem_iff_getElem?.mp hstep
  exact ⟨_,mem_entries.mpr (.phase hp hk),rfl,⟨k,rfl⟩,rfl⟩

namespace Compiled
variable (h : Compiled catalog file d specs)
include h

/-- A later phase needs an earlier one, directly or through the phases between. -/
theorem reaches {earlier later : ℕ} (hlt : earlier < later) (hfull : Unbroken file earlier later)
    {a b : String} (ha : InPhase file earlier a) (hb : InPhase file later b) :
    TransGen (SpecNeeds specs) b a := by
  induction later generalizing b with
  | zero => cases hlt
  | succ later ih =>
    obtain ⟨entry,he,rfl,-,hneeds⟩ := hb.entry
    have step : ∀ c, InPhase file later c → SpecNeeds specs entry.step.id c := fun c hc =>
      h.specNeeds_iff.mpr ⟨entry,he,rfl,hneeds ▸ List.mem_append_right _ (mem_phaseIds.mpr hc)⟩
    rcases Nat.lt_or_eq_of_le (Nat.le_of_lt_succ hlt) with hlt | rfl
    · obtain ⟨c,hc⟩ := hfull later hlt (Nat.lt_succ_self _)
      have hc' := ih hlt (fun k hk hk' => hfull k hk (Nat.lt_succ_of_lt hk')) hc
      exact .head (step c hc) hc'
    · exact .single (step a ha)

lemma phase_unique {i j : ℕ} {id : String} (hi : InPhase file i id) (hj : InPhase file j id) :
    i = j := by
  obtain ⟨e,he,hid,⟨k,hk⟩,-⟩ := hi.entry
  obtain ⟨e',he',hid',⟨l,hl⟩,-⟩ := hj.entry
  obtain rfl := h.entry_unique he he' (hid.trans hid'.symm)
  have hpath := congrArg String.toList (hk.symm.trans hl)
  simp only [phasePath_toList, List.cons_append, List.cons.injEq, true_and] at hpath
  exact (index_delimited (List.append_cancel_left hpath)).1

/-- Without needs of their own, steps wait for exactly the steps of earlier phases that no empty
phase cuts off. -/
theorem reaches_iff (hs : file.step = [])
    (hown : ∀ phase ∈ file.phase, ∀ step ∈ phase.step, step.needs = []) {a b : String} :
    TransGen (SpecNeeds specs) b a ↔ ∃ earlier later, earlier < later ∧
      Unbroken file earlier later ∧ InPhase file earlier a ∧ InPhase file later b := by
  have direct : ∀ x y, SpecNeeds specs x y → ∃ k, InPhase file k y ∧ InPhase file (k+1) x := by
    intro x y hxy
    obtain ⟨entry,he,rfl,hy⟩ := h.specNeeds_iff.mp hxy
    cases mem_entries.mp he with
    | step hstep => simp [hs] at hstep
    | @phase index k phase step hp hstep =>
      have hempty := hown phase (List.mem_of_getElem? hp) step (List.mem_of_getElem? hstep)
      rw [hempty,List.nil_append] at hy
      cases index with
      | zero => cases hy
      | succ index =>
        exact ⟨index,mem_phaseIds.mp hy,phase,hp,
          List.mem_map_of_mem (List.mem_of_getElem? hstep)⟩
  constructor
  · intro hba
    induction hba using TransGen.head_induction_on with
    | single hxa =>
      obtain ⟨k,ha,hb⟩ := direct _ _ hxa
      exact ⟨k,k+1,Nat.lt_succ_self k,fun i hi hi' => by omega,ha,hb⟩
    | head hxc _ ih =>
      obtain ⟨k,hc,hx⟩ := direct _ _ hxc
      obtain ⟨earlier,later,hlt,hfull,ha,hc'⟩ := ih
      obtain rfl := h.phase_unique hc hc'
      refine ⟨earlier,k+1,by omega,fun i hi hi' => ?_,ha,hx⟩
      rcases Nat.lt_or_eq_of_le (Nat.le_of_lt_succ hi') with hi' | rfl
      · exact hfull i hi hi'
      · exact ⟨_,hc⟩
  · rintro ⟨earlier,later,hlt,hfull,ha,hb⟩
    exact h.reaches hlt hfull ha hb

end Compiled
end Barrier

section Results
variable {O E : Type} {I : Type} {parse : String → Except String WorkflowFile}
  {debug : List StepId → String} {fileName document : String} {catalog : ProfileCatalog}
  {file : WorkflowFile}

/-- The barrier between phases: in every run of a file that compiles, a step of a phase is called
only after every step of an earlier phase has settled successfully, when no phase between the two
is empty. -/
theorem phase_barrier {max : ℕ} {request : WorkflowRequest I Job} {t : List (Event O E)}
    {s : State I Job O E} (hparse : parse document = .ok file)
    (hc : compile parse debug fileName document catalog = .ok (.ok request.definition))
    (hmax : 0 < max) (hr : (execute max request).run t = some s) {earlier later : ℕ}
    (hlt : earlier < later) (hfull : Unbroken file earlier later) {a b : StepId}
    (ha : InPhase file earlier a.value) (hb : InPhase file later b.value)
    {before after : List (Event O E)} (ht : t = before ++ .call b::after) :
    ∃ o, .pollCall a (.settled (.ok o)) ∈ before := by
  obtain ⟨specs,h⟩ := exists_compiled hparse hc
  obtain ⟨hwf,hd⟩ := h.describes
  exact Workflow.settled_before_call hmax hwf hr
    (hd.transGen_iff.mp (h.reaches hlt hfull ha hb)) ht

/-- What phases order, exactly: in a file of phases whose steps name no needs, a step waits for
another, directly or not, if and only if the other is in an earlier phase and no phase between
theirs is empty. -/
theorem phase_order_iff {d : WorkflowDefinition Job} (hparse : parse document = .ok file)
    (hc : compile parse debug fileName document catalog = .ok (.ok d)) (hs : file.step = [])
    (hown : ∀ phase ∈ file.phase, ∀ step ∈ phase.step, step.needs = []) (a b : StepId) :
    TransGen (Workflow.Needs d.steps) b a ↔ ∃ earlier later, earlier < later ∧
      Unbroken file earlier later ∧ InPhase file earlier a.value ∧ InPhase file later b.value := by
  obtain ⟨specs,h⟩ := exists_compiled hparse hc
  rw [←h.describes.2.transGen_iff]
  exact h.reaches_iff hs hown

lemma architecture_valid : Workflow.isIdentifier "architecture" = true := by decide

def branch : StepId := ⟨"branch",by decide⟩
def architecture : StepId := ⟨"architecture",architecture_valid⟩
def tests : StepId := ⟨"tests",by decide⟩
def join : StepId := ⟨"join",by decide⟩

theorem phase_order_iff_sample : ∃ d,
    compile readPhases debugStepIds "phases.toml" phasesText ProfileCatalog.exampleCatalog =
      .ok (.ok d) ∧
    TransGen (Workflow.Needs d.steps) join branch ∧
    ¬ TransGen (Workflow.Needs d.steps) tests architecture := by
  obtain ⟨d,hd⟩ := phases_accepted
  have hown : ∀ phase ∈ phasesFile.phase, ∀ step ∈ phase.step, step.needs = [] := by
    simp [phasesFile]
  have horder := phase_order_iff (if_pos rfl) hd rfl hown
  refine ⟨d,hd,(horder branch join).mpr ⟨0,2,by decide,fun k hk hk' => ?_,⟨_,rfl,by decide⟩,
    ⟨_,rfl,by decide⟩⟩,fun h => ?_⟩
  · obtain rfl : k = 1 := by omega
    exact ⟨"tests",_,rfl,by decide⟩
  · -- Both steps are of the second phase only.
    obtain ⟨i,j,hlt,-,ha,hb⟩ := (horder architecture tests).mp h
    obtain ⟨specs,hcomp⟩ := exists_compiled (if_pos rfl) hd
    have hi := hcomp.phase_unique ha (j := 1) ⟨_,rfl,by decide⟩
    have hj := hcomp.phase_unique hb (j := 1) ⟨_,rfl,by decide⟩
    omega

/-- One step at a time: a step admitted and called, its call about to settle. -/
def callTurn (id : StepId) : List (Event O E) :=
  [.advance,.advance,.admitStep id,.advance,.advance,.advance,.poll 0,.readToken id false,
    .pollReady id .ok,.readToken id false,.call id]

/-- A run of the shipped workflow up to its last call. -/
def phasesTrace : List (Event ℕ String) :=
  [.advance,.advance] ++
    ([branch,architecture,tests].flatMap fun id =>
      callTurn id ++ [.pollCall id (.settled (.ok 0)),.advance]) ++ callTurn join

def localRun : Workflow.WorkflowRunId := ⟨"local-run",by decide⟩

def phasesRequest (d : WorkflowDefinition Job) : WorkflowRequest Unit Job :=
  ⟨⟨localRun,none⟩,d,()⟩

theorem phase_barrier_sample : ∃ d s,
    compile readPhases debugStepIds "phases.toml" phasesText ProfileCatalog.exampleCatalog =
      .ok (.ok d) ∧
    (execute 1 (phasesRequest d)).run phasesTrace = some s ∧
    ∃ before, phasesTrace = before ++ [.call join] ∧
      ∃ o, .pollCall branch (.settled (.ok o)) ∈ before := by
  have h : ((acceptedFile .exampleCatalog phasesFile).bind fun d =>
      (execute 1 (phasesRequest d)).run phasesTrace).isSome = true := by
    decide +kernel
  obtain ⟨s,hs⟩ := Option.isSome_iff_exists.mp h
  obtain ⟨d,hd,hrun⟩ := Option.bind_eq_some_iff.mp hs
  have hc : compile readPhases debugStepIds "phases.toml" phasesText ProfileCatalog.exampleCatalog =
    .ok (.ok (phasesRequest d).definition) := acceptedFile_eq_some (if_pos rfl) hd
  refine ⟨d,s,hc,hrun,phasesTrace.dropLast,rfl,?_⟩
  refine phase_barrier (if_pos rfl) hc (by decide) hrun (show 0 < 2 by decide)
    (fun k hk hk' => ?_) ⟨_,rfl,by decide⟩ ⟨_,rfl,by decide⟩ rfl
  obtain rfl : k = 1 := by omega
  exact ⟨"tests",_,rfl,by decide⟩

end Results
end TowerAgent.Worker
