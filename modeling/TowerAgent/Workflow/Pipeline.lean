import TowerAgent.Workflow.Compile

/-! Pipelines: the linear authoring syntax, whose dependencies are inferred from insertion order,
and its equality with the DAG in which each step needs its predecessor. -/
namespace TowerAgent.Workflow
open Lib Lib.Digraph
open Std (ExtTreeMap ExtTreeSet)

variable {J : Type}

/-- Linear authoring syntax. -/
structure PipelineBuilder (J : Type) where
  id : String
  version : String
  steps : List (StepSpec J)

/-- The loop of `build`: each step gets the step before it as its only need. -/
def inferNeeds : Option String → List (StepSpec J) →
    Except WorkflowDefinitionError (List (StepSpec J))
  | _,[] => .ok []
  | previous,step::steps =>
    if !step.needs.isEmpty then
      .error (.pipelineStepHasDependencies step.id)
    else do
      let rest ← inferNeeds (some step.id) steps
      .ok ({ step with needs := previous.toList }::rest)

namespace PipelineBuilder

def new (id version : String) : PipelineBuilder J := ⟨id,version,[]⟩

/-- Append a step after the previously appended step. -/
def «then» (b : PipelineBuilder J) (step : StepSpec J) : PipelineBuilder J :=
  { b with steps := b.steps ++ [step] }

def build (b : PipelineBuilder J) :
    Panics (Except WorkflowDefinitionError (WorkflowDefinition J)) :=
  match inferNeeds none b.steps with
  | .error e => .ok (.error e)
  | .ok steps => compile b.id b.version steps

end PipelineBuilder

/-- The steps no dependency holds back, in step-id order. -/
def WorkflowDefinition.roots (d : WorkflowDefinition J) : List (StepDefinition J) :=
  (valuesOf d.steps).filter (fun step => step.needs.isEmpty)

/-- The same steps, the first with the given needs and each other with its predecessor's id. -/
def chainFrom (needs : List String) (specs : List (StepSpec J)) : List (StepSpec J) :=
  List.zipWith (fun step needs => { step with needs }) specs (needs::specs.map (fun s => [s.id]))

/-- The same steps, each needing exactly its predecessor. -/
def chain (specs : List (StepSpec J)) : List (StepSpec J) := chainFrom [] specs

section Chain
variable {specs : List (StepSpec J)} {needs : List String}

@[simp] lemma chainFrom_nil : chainFrom needs ([] : List (StepSpec J)) = [] := by rfl

@[simp] lemma chainFrom_cons (s : StepSpec J) : chainFrom needs (s::specs) =
    { s with needs }::chainFrom [s.id] specs := rfl

lemma map_id_chainFrom : (chainFrom needs specs).map StepSpec.id = specs.map StepSpec.id := by
  induction specs generalizing needs with
  | nil => rfl
  | cons s specs ih => rw [chainFrom_cons,List.map_cons,List.map_cons,ih]

lemma inferNeeds_eq {previous : Option String} (h : ∀ s ∈ specs, s.needs = []) :
    inferNeeds previous specs = .ok (chainFrom previous.toList specs) := by
  induction specs generalizing previous with
  | nil => rfl
  | cons s specs ih =>
    have hs : s.needs = [] := h s List.mem_cons_self
    rw [inferNeeds,ih (fun t ht => h t (List.mem_cons_of_mem _ ht))]
    simp only [hs, List.isEmpty_nil, Bool.not_true, Bool.false_eq_true, if_false]
    rfl

lemma specNeeds_chainFrom {x y : String} : SpecNeeds (chainFrom needs specs) x y ↔
    ((specs.map StepSpec.id).head? = some x ∧ y ∈ needs) ∨
      ∃ before after, specs.map StepSpec.id = before ++ y::x::after := by
  induction specs generalizing needs with
  | nil => simp [SpecNeeds]
  | cons s specs ih =>
    have hcons : SpecNeeds (chainFrom needs (s::specs)) x y ↔
        s.id = x ∧ y ∈ needs ∨ SpecNeeds (chainFrom [s.id] specs) x y := by
      simp [SpecNeeds]
    rw [hcons,ih,List.map_cons,List.head?_cons,Option.some.injEq]
    refine or_congr_right ⟨?_,?_⟩
    · rintro (⟨hx,hy⟩ | ⟨before,after,h⟩)
      · obtain ⟨after,hafter⟩ := List.head?_eq_some_iff.mp hx
        exact ⟨[],after,by rw [hafter,List.mem_singleton.mp hy]; rfl⟩
      · exact ⟨s.id::before,after,by rw [h]; rfl⟩
    · rintro ⟨before,after,h⟩
      cases before with
      | nil =>
        obtain ⟨rfl,hrest⟩ := List.cons.inj h
        exact .inl ⟨List.head?_eq_some_iff.mpr ⟨after,hrest⟩,List.mem_singleton_self _⟩
      | cons z before => exact .inr ⟨before,after,(List.cons.inj h).2⟩

lemma needs_nodup_chainFrom (hneeds : needs.Nodup) {s : StepSpec J}
    (hs : s ∈ chainFrom needs specs) : s.needs.Nodup := by
  induction specs generalizing needs with
  | nil => simp at hs
  | cons t specs ih =>
    rcases List.mem_cons.mp hs with rfl | hs
    · exact hneeds
    · exact ih (List.nodup_singleton t.id) hs

/-- A step of the chain needs exactly the step listed right before it. -/
theorem specNeeds_chain {x y : String} : SpecNeeds (chain specs) x y ↔
    ∃ before after, specs.map StepSpec.id = before ++ y::x::after := by
  rw [chain,specNeeds_chainFrom]
  simp

lemma isChain_ids : (specs.map StepSpec.id).IsChain (fun y x => SpecNeeds (chain specs) x y) := by
  rw [List.isChain_iff_forall_rel_of_append_cons_cons]
  intro y x before after h
  exact specNeeds_chain.mpr ⟨before,after,h⟩

end Chain

/-- What a pipeline is accepted on. -/
structure PipelineBuilder.Valid (b : PipelineBuilder J) : Prop where
  nonempty : b.steps ≠ []
  id_valid : isIdentifier b.id = true
  version_valid : isIdentifier b.version = true
  ids_valid : ∀ s ∈ b.steps, isIdentifier s.id = true
  ids_nodup : (b.steps.map StepSpec.id).Nodup

section Accepted
variable {specs : List (StepSpec J)} (hn : (specs.map StepSpec.id).Nodup)
include hn

/-- In a list without repetitions an element has one place. -/
lemma before_eq {x : String} {before after before' after' : List String}
    (h : specs.map StepSpec.id = before ++ x::after)
    (h' : specs.map StepSpec.id = before' ++ x::after') : before = before' := by
  rw [h',List.nodup_append] at hn
  obtain ⟨-,htail,hdisjoint⟩ := hn
  have hbefore : x ∉ before' := fun hx => hdisjoint x hx x List.mem_cons_self rfl
  have hafter : x ∉ after' := (List.nodup_cons.mp htail).1
  exact ((List.append_cons_inj_of_notMem hbefore hafter).mp (h'.symm.trans h)).1.symm

/-- Insertion order is a topological order of the chain. -/
lemma ordered_ids : Ordered (SpecNeeds (chain specs)) (specs.map StepSpec.id) := by
  intro before x after h y hy
  obtain ⟨before',after',h'⟩ := specNeeds_chain.mp hy
  have he : before = before' ++ [y] := before_eq hn h (by simpa using h')
  simp [he]

lemma acyclic_chain : Acyclic (SpecNeeds (chain specs)) := by
  rw [acyclic_iff_not_blocked]
  intro x hb
  obtain ⟨y,hy,-⟩ := hb.exists_rel
  obtain ⟨before,after,h⟩ := specNeeds_chain.mp hy
  exact (ordered_ids hn).not_blocked x (by simp [h]) hb

/-- The first step is the only one without a need. -/
lemma head_iff {x : String} (hx : x ∈ specs.map StepSpec.id) :
    (∀ y, ¬ SpecNeeds (chain specs) x y) ↔ (specs.map StepSpec.id).head? = some x := by
  constructor
  · intro hno
    obtain ⟨before,after,h⟩ := List.append_of_mem hx
    rcases List.eq_nil_or_concat before with rfl | ⟨before',y,rfl⟩
    · simp [h]
    · exact absurd (specNeeds_chain.mpr ⟨before',after,by simpa using h⟩) (hno y)
  · intro hhead y hy
    obtain ⟨after,h⟩ := List.head?_eq_some_iff.mp hhead
    obtain ⟨before',after',h'⟩ := specNeeds_chain.mp hy
    have he : [] = before' ++ [y] := before_eq hn h (by simpa using h')
    simp at he

/-- The last step is the only one nothing needs. -/
lemma getLast_iff {x : String} (hx : x ∈ specs.map StepSpec.id) :
    (∀ z, ¬ SpecNeeds (chain specs) z x) ↔ (specs.map StepSpec.id).getLast? = some x := by
  constructor
  · intro hno
    obtain ⟨before,after,h⟩ := List.append_of_mem hx
    cases after with
    | nil => simp [h]
    | cons z after => exact absurd (specNeeds_chain.mpr ⟨before,after,h⟩) (hno z)
  · intro hlast z hz
    obtain ⟨before,h⟩ := List.getLast?_eq_some_iff.mp hlast
    obtain ⟨before',after',h'⟩ := specNeeds_chain.mp hz
    obtain rfl : before = before' := before_eq hn h h'
    simp [h] at h'

end Accepted

lemma mem_ids_of_specNeeds {specs : List (StepSpec J)} {x y : String}
    (h : SpecNeeds (chain specs) x y) : y ∈ specs.map StepSpec.id := by
  obtain ⟨before,after,h⟩ := specNeeds_chain.mp h
  simp [h]

/-- The checks `compile` makes on the texts of a chain. -/
lemma textsAccepted_chain (b : PipelineBuilder J) :
    TextsAccepted b.id b.version (chain b.steps) ↔ b.Valid := by
  have hids : (chain b.steps).map StepSpec.id = b.steps.map StepSpec.id := map_id_chainFrom
  constructor
  · intro h
    refine ⟨?_,h.id_valid,h.version_valid,fun s hs => ?_,hids ▸ h.ids_nodup⟩
    · intro he
      exact h.nonempty (by rw [he]; rfl)
    · obtain ⟨s',hs',he⟩ := List.mem_map.mp (hids ▸ List.mem_map_of_mem hs)
      exact he ▸ (h.specs_accepted s' hs').id_valid
  · intro h
    have hvalid : ∀ x ∈ b.steps.map StepSpec.id, isIdentifier x = true := by
      intro x hx
      obtain ⟨s,hs,rfl⟩ := List.mem_map.mp hx
      exact h.ids_valid s hs
    refine ⟨h.id_valid,h.version_valid,?_,fun s hs => ⟨?_,fun n hn => ?_,?_⟩,?_,
      fun s hs n hn => ?_,fun s hs hself => ?_⟩
    · intro he
      rw [he] at hids
      exact h.nonempty (List.map_eq_nil_iff.mp hids.symm)
    · exact hvalid _ (hids ▸ List.mem_map_of_mem hs)
    · exact hvalid n (mem_ids_of_specNeeds ⟨s,hs,rfl,hn⟩)
    · exact needs_nodup_chainFrom List.nodup_nil hs
    · exact hids.symm ▸ h.ids_nodup
    · exact hids.symm ▸ mem_ids_of_specNeeds ⟨s,hs,rfl,hn⟩
    · exact acyclic_chain h.ids_nodup s.id (.single ⟨s,hs,rfl,hself⟩)

/-- The roots are the steps that need no step. -/
lemma mem_roots {d : WorkflowDefinition J} (hw : WellNeeded d.steps) {k : StepId} :
    k ∈ d.roots.map StepDefinition.id ↔ k ∈ d.steps ∧ ∀ y, ¬ Needs d.steps k y := by
  simp only [WorkflowDefinition.roots, List.mem_map, List.mem_filter, mem_valuesOf,
    List.isEmpty_iff]
  constructor
  · rintro ⟨step,⟨⟨j,hj⟩,hempty⟩,rfl⟩
    obtain rfl := hw.id_eq j step hj
    refine ⟨ExtTreeMap.mem_iff_isSome_getElem?.mpr (by rw [hj]; rfl),fun y hy => ?_⟩
    rw [Needs,needsOf_eq hj,hempty] at hy
    simp at hy
  · rintro ⟨hk,hno⟩
    obtain ⟨step,hstep⟩ := Option.isSome_iff_exists.mp
      (ExtTreeMap.mem_iff_isSome_getElem?.mp hk)
    refine ⟨step,⟨⟨k,hstep⟩,List.eq_nil_iff_forall_not_mem.mpr fun y hy => hno y ?_⟩,
      hw.id_eq k step hstep⟩
    rwa [Needs,needsOf_eq hstep]

/-- The selected steps of a definition are pairwise different. -/
lemma filter_ids_nodup {d : WorkflowDefinition J} (hw : WellNeeded d.steps)
    (p : StepDefinition J → Bool) :
    ((((valuesOf d.steps).filter p).map StepDefinition.id).map Identifier.value).Nodup := by
  have hkeys : ((valuesOf d.steps).map StepDefinition.id).Nodup := by
    rw [map_id_valuesOf hw.id_eq]
    exact keys_nodup
  have hsub : (((valuesOf d.steps).filter p).map StepDefinition.id).Nodup :=
    hkeys.sublist (List.filter_sublist.map _)
  exact (List.nodup_map_iff Identifier.value_injective).mpr hsub

lemma eq_singleton {l : List String} (hn : l.Nodup) {x : String} (h : ∀ y, y ∈ l ↔ y = x) :
    l = [x] := by
  apply List.perm_singleton.mp
  rw [List.perm_ext_iff_of_nodup hn (List.nodup_singleton x)]
  simpa using h

section Ends
variable {specs : List (StepSpec J)} {d : WorkflowDefinition J} (hw : WellNeeded d.steps)
  (hd : Describes (chain specs) d.steps) (hn : (specs.map StepSpec.id).Nodup)
include hd

lemma Describes.mem_ids {k : StepId} : k ∈ d.steps ↔ k.value ∈ specs.map StepSpec.id := by
  rw [hd.mem_iff,chain,map_id_chainFrom]

lemma Describes.exists_step {x : String} (hx : x ∈ specs.map StepSpec.id) :
    ∃ k : StepId, k ∈ d.steps ∧ k.value = x := by
  obtain ⟨ids,-,hmap,hmem⟩ := hd.map_id
  rw [chain,map_id_chainFrom] at hmap
  obtain ⟨k,hk,rfl⟩ := List.mem_map.mp (hmap ▸ hx)
  exact ⟨k,(hmem k).mp hk,rfl⟩

include hw hn

lemma mem_roots_iff {x : String} :
    x ∈ (d.roots.map StepDefinition.id).map Identifier.value ↔
      (specs.map StepSpec.id).head? = some x := by
  have hneeds : ∀ k : StepId, (∀ y, ¬ Needs d.steps k y) ↔
      ∀ y, ¬ SpecNeeds (chain specs) k.value y := by
    intro k
    simp only [hd.needs_iff, not_exists, not_and]
    exact ⟨fun h _ y _ => h y,fun h y => h _ y rfl⟩
  rw [List.mem_map]
  constructor
  · rintro ⟨k,hk,rfl⟩
    obtain ⟨hks,hno⟩ := (mem_roots hw).mp hk
    exact (head_iff hn (hd.mem_ids.mp hks)).mp ((hneeds k).mp hno)
  · intro hhead
    have hx := List.mem_of_mem_head? hhead
    obtain ⟨k,hk,rfl⟩ := hd.exists_step hx
    exact ⟨k,(mem_roots hw).mpr ⟨hk,(hneeds k).mpr ((head_iff hn hx).mpr hhead)⟩,rfl⟩

lemma mem_leaves_iff {x : String} :
    x ∈ (d.leaves.map StepDefinition.id).map Identifier.value ↔
      (specs.map StepSpec.id).getLast? = some x := by
  have hneeds : ∀ k : StepId, (∀ z, ¬ Needs d.steps z k) ↔
      ∀ z, ¬ SpecNeeds (chain specs) z k.value := by
    intro k
    constructor
    · intro h z hz
      obtain ⟨spec,hspec,rfl,-⟩ := id hz
      have hid := (hd.accepted spec hspec).id_valid
      obtain ⟨y,hy,hzy⟩ := (hd.needs_iff (x := ⟨spec.id,hid⟩)).mp hz
      exact h _ (Identifier.value_injective hy ▸ hzy)
    · exact fun h z hz => h z.value (hd.needs_iff.mpr ⟨k,rfl,hz⟩)
  rw [List.mem_map]
  constructor
  · rintro ⟨k,hk,rfl⟩
    obtain ⟨hks,hno⟩ := (mem_leaves hw).mp hk
    exact (getLast_iff hn (hd.mem_ids.mp hks)).mp ((hneeds k).mp hno)
  · intro hlast
    have hx := List.mem_of_getLast? hlast
    obtain ⟨k,hk,rfl⟩ := hd.exists_step hx
    exact ⟨k,(mem_leaves hw).mpr ⟨hk,(hneeds k).mpr ((getLast_iff hn hx).mpr hlast)⟩,rfl⟩

/-- The first step is the only root. -/
lemma exists_root (hne : specs ≠ []) : ∃ first, specs.head? = some first ∧
    (d.roots.map StepDefinition.id).map Identifier.value = [first.id] := by
  obtain ⟨first,specs,rfl⟩ := List.exists_cons_of_ne_nil hne
  refine ⟨first,rfl,eq_singleton (filter_ids_nodup hw _) fun x => ?_⟩
  refine (mem_roots_iff hw hd hn).trans ?_
  rw [List.map_cons,List.head?_cons,Option.some.injEq,eq_comm]

/-- The last step is the only leaf. -/
lemma exists_leaf (hne : specs ≠ []) : ∃ last, specs.getLast? = some last ∧
    (d.leaves.map StepDefinition.id).map Identifier.value = [last.id] := by
  refine ⟨_,List.getLast?_eq_getLast_of_ne_nil hne,eq_singleton (filter_ids_nodup hw _) fun x => ?_⟩
  refine (mem_leaves_iff hw hd hn).trans ?_
  rw [List.getLast?_map,List.getLast?_eq_getLast_of_ne_nil hne,Option.map_some,Option.some.injEq,
    eq_comm]

end Ends

/-- A pipeline is the linear DAG. -/
theorem PipelineBuilder.build_linear (b : PipelineBuilder J) (h : ∀ s ∈ b.steps, s.needs = []) :
    b.build = (DagBuilder.mk b.id b.version (chain b.steps)).build ∧
      ((∃ d, b.build = .ok (.ok d)) ↔ b.Valid) ∧
      ∀ d, b.build = .ok (.ok d) →
        d.topologicalOrder.map Identifier.value = b.steps.map StepSpec.id ∧
        (∃ first, b.steps.head? = some first ∧
          (d.roots.map StepDefinition.id).map Identifier.value = [first.id]) ∧
        ∃ last, b.steps.getLast? = some last ∧
          (d.leaves.map StepDefinition.id).map Identifier.value = [last.id] := by
  have hbuild : b.build = compile b.id b.version (chain b.steps) := by
    simp only [PipelineBuilder.build, inferNeeds_eq h]
    rfl
  have haccepted : (∃ d, b.build = .ok (.ok d)) ↔ b.Valid := by
    rw [hbuild]
    rcases compile_cases b.id b.version (chain b.steps) with
      ⟨e,he,-,hno⟩ | ⟨ids,he,hac,-,hmem⟩ | ⟨d,he,hacc,-⟩
    · simp only [he, Except.ok.injEq, reduceCtorEq, exists_false, false_iff]
      exact mt (textsAccepted_chain b).mpr hno
    · simp only [he, Except.ok.injEq, reduceCtorEq, exists_false, false_iff]
      exact fun hv => hac (acyclic_chain hv.ids_nodup)
    · exact ⟨fun _ => (textsAccepted_chain b).mp hacc,fun _ => ⟨d,he⟩⟩
  refine ⟨hbuild,haccepted,fun d hd => ?_⟩
  have hv := haccepted.mp ⟨d,hd⟩
  obtain ⟨hwf,hdesc⟩ := compile_wellFormed (hbuild ▸ hd)
  obtain ⟨hperm,hordered⟩ := hwf.order_texts hdesc
  rw [chain,map_id_chainFrom] at hperm
  have hnodup : ([] ++ b.steps.map StepSpec.id).Nodup := hv.ids_nodup
  exact ⟨Ordered.eq_of_chain isChain_ids hnodup hperm hordered,
    exists_root hwf.well hdesc hv.ids_nodup hv.nonempty,
    exists_leaf hwf.well hdesc hv.ids_nodup hv.nonempty⟩

/-- A pipeline of three steps, authored one after the other. -/
def samplePipeline : PipelineBuilder ℕ :=
  (((PipelineBuilder.new "review" "v1").then ⟨"research",[],1⟩).then ⟨"implement",[],2⟩).then
    ⟨"check",[],3⟩

theorem PipelineBuilder.build_linear_sample : ∃ d, samplePipeline.build = .ok (.ok d) ∧
    d.topologicalOrder.map Identifier.value = ["research","implement","check"] := by
  obtain ⟨-,hvalid,hd⟩ := build_linear samplePipeline (by decide)
  obtain ⟨d,hok⟩ := hvalid.mpr ⟨by decide,by decide,by decide,by decide,by decide⟩
  exact ⟨d,hok,(hd d hok).1⟩

end TowerAgent.Workflow
