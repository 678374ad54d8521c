import TowerAgent.Workflow.Order
import TowerAgent.Workflow.Validate

/-! `compile` accepts exactly the well-formed acyclic definitions, lists their steps in a
topological order, and otherwise reports the steps a cycle blocks. -/
namespace TowerAgent.Workflow
open Lib Lib.Digraph
open Std (ExtTreeMap ExtTreeSet)

variable {J : Type}

lemma map_id_valuesOf {steps : ExtTreeMap StepId (StepDefinition J)}
    (h : ∀ (k : StepId) (d : StepDefinition J), steps[k]? = some d → d.id = k) :
    (valuesOf steps).map StepDefinition.id = steps.keys := by
  rw [valuesOf,List.map_map,←ExtTreeMap.map_fst_toList_eq_keys]
  refine List.map_congr_left fun e he => ?_
  exact h e.1 e.2 (ExtTreeMap.mem_toList_iff_getElem?_eq_some.mp he)

/-- The successor table of the accepted edges inverts the needs. -/
theorem sortSuccessors_inverts {steps : ExtTreeMap StepId (StepDefinition J)}
    {outgoing : ExtTreeMap StepId (List StepId)}
    (hid : ∀ (k : StepId) (d : StepDefinition J), steps[k]? = some d → d.id = k)
    (hlook : ∀ k : StepId, outgoing[k]? =
      (steps.map (fun _ _ => ([] : List StepId)))[k]?.map (· ++ successorsIn (valuesOf steps) k)) :
    Inverts steps (sortSuccessors outgoing) := by
  intro y hy
  obtain ⟨d,hd⟩ := Option.isSome_iff_exists.mp (ExtTreeMap.mem_iff_isSome_getElem?.mp hy)
  have hl : (sortSuccessors outgoing)[y]? =
      some ((successorsIn (valuesOf steps) y).insertionSort (· ≤ ·)) := by
    rw [sortSuccessors,ExtTreeMap.getElem?_map,hlook,ExtTreeMap.getElem?_map,hd]
    rfl
  refine ⟨_,hl,sort_strict ?_,fun x => ?_⟩
  · refine List.Nodup.sublist (List.Sublist.map _ List.filter_sublist) ?_
    rw [map_id_valuesOf hid]
    exact keys_nodup
  · rw [(sort_perm _).mem_iff]
    simp only [successorsIn, List.mem_map, List.mem_filter, mem_valuesOf, decide_eq_true_eq]
    constructor
    · rintro ⟨e,⟨⟨k,hk⟩,hn⟩,rfl⟩
      rw [Needs,needsOf_eq (hid k e hk ▸ hk)]
      exact hn
    · intro hn
      obtain ⟨e,he⟩ := Option.isSome_iff_exists.mp
        (ExtTreeMap.mem_iff_isSome_getElem?.mp (mem_of_needs hn))
      rw [Needs,needsOf_eq he] at hn
      exact ⟨e,⟨⟨x,he⟩,hn⟩,hid x e he⟩

/-- What the checks before the ordering loop establish. -/
structure Validated (id version : String) (specs : List (StepSpec J)) (i : WorkflowId)
    (v : WorkflowVersion) (steps : ExtTreeMap StepId (StepDefinition J))
    (outgoing : ExtTreeMap StepId (List StepId)) : Prop where
  id_eq : i.value = id
  version_eq : v.value = version
  nonempty : specs ≠ []
  describes : Describes specs steps
  well : WellNeeded steps
  inverts : Inverts steps outgoing

theorem validate_spec {id version : String} {specs : List (StepSpec J)} {i : WorkflowId}
    {v : WorkflowVersion} {steps : ExtTreeMap StepId (StepDefinition J)}
    {outgoing : ExtTreeMap StepId (List StepId)}
    (h : validate id version specs = .ok (i,v,steps,outgoing)) :
    Validated id version specs i v steps outgoing := by
  rw [validate] at h
  obtain ⟨i',hi,h⟩ := bind_eq_ok.mp h
  obtain ⟨v',hv,h⟩ := bind_eq_ok.mp h
  split at h
  · cases h
  · rename_i hempty
    have hne : specs ≠ [] := by simpa using hempty
    obtain ⟨steps',hc,h⟩ := bind_eq_ok.mp h
    obtain ⟨o,ho,h⟩ := bind_eq_ok.mp h
    simp only [Except.ok.injEq, Prod.mk.injEq] at h
    obtain ⟨rfl,rfl,rfl,rfl⟩ := h
    obtain ⟨defs,hall,hnodup,-,hlook⟩ := collectSteps_spec hc
    have hlook' : ∀ (k : StepId) (d : StepDefinition J),
        steps'[k]? = some d ↔ d ∈ defs ∧ d.id = k := fun k d => by simp [hlook k d]
    have hsorted : ∀ (k : StepId) (d : StepDefinition J), steps'[k]? = some d →
        d.needs.Pairwise (· < ·) := by
      intro k d hd
      obtain ⟨spec,-,hn⟩ := exists_left_of_forall₂ hall ((hlook' k d).mp hd).1
      exact hn.sorted
    obtain ⟨hedges,hout⟩ := connect_spec (fun d hd => by
      obtain ⟨k,hk⟩ := mem_valuesOf.mp hd
      exact (hsorted k d hk).imp (fun hlt => hlt.ne)) ho
    have hedge : ∀ x y, Needs steps' x y → y ≠ x ∧ y ∈ steps' := by
      intro x y hn
      obtain ⟨d,hd⟩ := Option.isSome_iff_exists.mp
        (ExtTreeMap.mem_iff_isSome_getElem?.mp (mem_of_needs hn))
      rw [Needs,needsOf_eq hd] at hn
      obtain ⟨hne,hm⟩ := hedges d (mem_valuesOf.mpr ⟨x,hd⟩) y hn
      exact ⟨((hlook' x d).mp hd).2 ▸ hne,ExtTreeMap.mem_map.mp hm⟩
    have hid : ∀ (k : StepId) (d : StepDefinition J), steps'[k]? = some d → d.id = k :=
      fun k d hd => ((hlook' k d).mp hd).2
    exact ⟨identifier_eq_ok.mp hi,identifier_eq_ok.mp hv,hne,
      ⟨defs,hall,hnodup,hlook'⟩,
      ⟨hid,hsorted,fun x y hn => (hedge x y hn).2,fun x hn => (hedge x x hn).1 rfl⟩,
      sortSuccessors_inverts hid hout⟩

/-- The checks on the texts of a definition, apart from acyclicity. -/
structure TextsAccepted (id version : String) (specs : List (StepSpec J)) : Prop where
  id_valid : isIdentifier id = true
  version_valid : isIdentifier version = true
  nonempty : specs ≠ []
  specs_accepted : ∀ spec ∈ specs, SpecAccepted spec
  ids_nodup : (specs.map StepSpec.id).Nodup
  needs_declared : ∀ spec ∈ specs, ∀ n ∈ spec.needs, n ∈ specs.map StepSpec.id
  no_self : ∀ spec ∈ specs, spec.id ∉ spec.needs

theorem Validated.accepted {id version : String} {specs : List (StepSpec J)} {i : WorkflowId}
    {v : WorkflowVersion} {steps : ExtTreeMap StepId (StepDefinition J)}
    {outgoing : ExtTreeMap StepId (List StepId)}
    (h : Validated id version specs i v steps outgoing) : TextsAccepted id version specs := by
  have hneeds : ∀ spec ∈ specs, ∀ n ∈ spec.needs, ∃ x y : StepId,
      spec.id = x.value ∧ n = y.value ∧ Needs steps x y := by
    intro spec hspec n hn
    have hid := (h.describes.accepted spec hspec).id_valid
    obtain ⟨y,rfl,hy⟩ := (h.describes.needs_iff (x := ⟨spec.id,hid⟩)).mp ⟨spec,hspec,rfl,hn⟩
    exact ⟨_,y,rfl,rfl,hy⟩
  refine ⟨h.id_eq ▸ i.valid,h.version_eq ▸ v.valid,h.nonempty,h.describes.accepted,
    h.describes.ids_nodup,fun spec hspec n hn => ?_,fun spec hspec hself => ?_⟩
  · obtain ⟨x,y,-,rfl,hxy⟩ := hneeds spec hspec n hn
    exact h.describes.mem_iff.mp (h.well.known x y hxy)
  · obtain ⟨x,y,hx,hy,hxy⟩ := hneeds spec hspec _ hself
    obtain rfl := Identifier.value_injective (hx.symm.trans hy)
    exact h.well.irrefl x hxy

theorem validate_isOk {id version : String} {specs : List (StepSpec J)}
    (h : TextsAccepted id version specs) :
    ∃ i v steps outgoing, validate id version specs = .ok (i,v,steps,outgoing) := by
  obtain ⟨steps,hc⟩ := collectSteps_isOk (m := ∅) h.specs_accepted h.ids_nodup (by simp)
  obtain ⟨defs,hall,-,-,hlook⟩ := collectSteps_spec hc
  have hspec : ∀ d ∈ valuesOf steps, ∃ spec ∈ specs, Normalizes spec d := by
    intro d hd
    obtain ⟨k,hk⟩ := mem_valuesOf.mp hd
    refine exists_left_of_forall₂ hall (((hlook k d).mp hk).resolve_left (by simp)).1
  have hdecl : ∀ d ∈ defs, ∃ k : StepId, k ∈ steps ∧ k.value = d.id.value := by
    intro d hd
    refine ⟨d.id,ExtTreeMap.mem_iff_isSome_getElem?.mpr ?_,rfl⟩
    rw [(hlook d.id d).mpr (.inr ⟨hd,rfl⟩)]
    rfl
  obtain ⟨outgoing,ho⟩ := connect_isOk (o := steps.map (fun _ _ => [])) (fun d hd => by
      obtain ⟨spec,-,hn⟩ := hspec d hd
      exact hn.sorted.imp (fun hlt => hlt.ne)) (fun d hd n hn => by
      obtain ⟨spec,hm,hnorm⟩ := hspec d hd
      have hnv : n.value ∈ spec.needs := hnorm.perm.mem_iff.mp (List.mem_map_of_mem hn)
      refine ⟨fun he => h.no_self spec hm ?_,?_⟩
      · rwa [←hnorm.id_eq,←he]
      · obtain ⟨s,hs,hse⟩ := List.mem_map.mp (h.needs_declared spec hm _ hnv)
        obtain ⟨e,he,hse'⟩ := exists_right_of_forall₂ hall hs
        obtain ⟨k,hk,hke⟩ := hdecl e he
        obtain rfl := Identifier.value_injective (hke.trans (hse'.id_eq.trans hse))
        exact ExtTreeMap.mem_map.mpr hk)
  refine ⟨⟨id,h.id_valid⟩,⟨version,h.version_valid⟩,steps,sortSuccessors outgoing,?_⟩
  have hne : specs.isEmpty = false := by simpa using h.nonempty
  simp only [validate, identifier_isOk h.id_valid, identifier_isOk h.version_valid, hne, hc, ho,
    bind, Except.bind, Bool.false_eq_true, if_false]

/-- Being blocked means the same for the texts and for the validated steps. -/
theorem Describes.blocked_iff {specs : List (StepSpec J)}
    {steps : ExtTreeMap StepId (StepDefinition J)} (h : Describes specs steps) {s : String} :
    Blocked (SpecNeeds specs) s ↔ ∃ x : StepId, x.value = s ∧ Blocked (Needs steps) x := by
  have hiff : ∀ x : StepId, Blocked (SpecNeeds specs) x.value ↔ Blocked (Needs steps) x :=
    fun x => blocked_embedding Identifier.value_injective
      (fun x y hxy => h.needs_iff.mpr ⟨y,rfl,hxy⟩) (fun x b hb => h.needs_iff.mp hb)
  constructor
  · intro hb
    obtain ⟨n,⟨spec,hspec,rfl,-⟩,-⟩ := hb.exists_rel
    exact ⟨⟨spec.id,(h.accepted spec hspec).id_valid⟩,rfl,(hiff _).mp hb⟩
  · rintro ⟨x,rfl,hx⟩
    exact (hiff x).mpr hx

lemma Describes.acyclic_iff {specs : List (StepSpec J)}
    {steps : ExtTreeMap StepId (StepDefinition J)} (h : Describes specs steps) :
    Acyclic (SpecNeeds specs) ↔ Acyclic (Needs steps) := by
  rw [acyclic_iff_not_blocked,acyclic_iff_not_blocked]
  constructor
  · exact fun hs x hx => hs x.value (h.blocked_iff.mpr ⟨x,rfl,hx⟩)
  · intro hs s hb
    obtain ⟨x,-,hx⟩ := h.blocked_iff.mp hb
    exact hs x hx

/-- What holds of every definition `compile` accepts. -/
structure WorkflowDefinition.WellFormed (d : WorkflowDefinition J) : Prop where
  well : WellNeeded d.steps
  nodup : d.topologicalOrder.Nodup
  mem_iff : ∀ x, x ∈ d.topologicalOrder ↔ x ∈ d.steps
  ordered : Ordered (Needs d.steps) d.topologicalOrder

/-- What `compile` returns once the ordering loop ends. -/
lemma compile_eq {id version : String} {specs : List (StepSpec J)} {i : WorkflowId}
    {v : WorkflowVersion} {steps : ExtTreeMap StepId (StepDefinition J)}
    {outgoing : ExtTreeMap StepId (List StepId)} {final : OrderState}
    (he : validate id version specs = .ok (i,v,steps,outgoing))
    (hf : order steps outgoing = .ok final) : compile id version specs =
      if final.topologicalOrder.length ≠ steps.size then
        .ok (.error (.cycle (keysWhere final.indegree (fun count => decide (0 < count)))))
      else .ok (.ok ⟨i,v,steps,final.topologicalOrder⟩) := by
  unfold compile
  rw [he]
  dsimp only
  rw [hf]
  rfl

/-- The ordering loop after a successful validation. -/
theorem order_result {id version : String} {specs : List (StepSpec J)} {i : WorkflowId}
    {v : WorkflowVersion} {steps : ExtTreeMap StepId (StepDefinition J)}
    {outgoing : ExtTreeMap StepId (List StepId)}
    (h : Validated id version specs i v steps outgoing)
    (he : validate id version specs = .ok (i,v,steps,outgoing)) :
    (∃ ids, compile id version specs = .ok (.error (.cycle ids)) ∧ ¬ Acyclic (Needs steps) ∧
      ids.Pairwise (· < ·) ∧ ∀ x, x ∈ ids ↔ x ∈ steps ∧ Blocked (Needs steps) x) ∨
    ∃ d, compile id version specs = .ok (.ok d) ∧ Acyclic (Needs steps) ∧ d.steps = steps ∧
      d.WellFormed := by
  obtain ⟨final,hf,hinv,hexit⟩ := order_spec h.well h.inverts
  by_cases hlen : final.topologicalOrder.length = steps.size
  · have hac := (complete_iff_acyclic h.well hinv hexit).mp hlen
    refine .inr ⟨⟨i,v,steps,final.topologicalOrder⟩,?_,hac,rfl,h.well,hinv.nodup,fun x => ?_,
      hinv.ordered⟩
    · rw [compile_eq he hf,if_neg (not_not.mpr hlen)]
    · refine ⟨hinv.known x,fun hx => ?_⟩
      by_contra hn
      exact acyclic_iff_not_blocked.mp hac x ((unlisted_iff_blocked h.well hinv hexit hx).mp hn)
  · refine .inl ⟨_,?_,fun hac => hlen ((complete_iff_acyclic h.well hinv hexit).mpr hac),
      keysWhere_sorted _,fun x => positive_iff_blocked h.well hinv hexit⟩
    rw [compile_eq he hf,if_pos hlen]

/-- The three outcomes of `compile`. -/
theorem compile_cases (id version : String) (specs : List (StepSpec J)) :
    (∃ e, compile id version specs = .ok (.error e) ∧ (∀ ids, e ≠ .cycle ids) ∧
      ¬ TextsAccepted id version specs) ∨
    (∃ ids, compile id version specs = .ok (.error (.cycle ids)) ∧
      ¬ Acyclic (SpecNeeds specs) ∧ ids.Pairwise (· < ·) ∧
      ∀ s, s ∈ ids.map Identifier.value ↔ Blocked (SpecNeeds specs) s) ∨
    ∃ d, compile id version specs = .ok (.ok d) ∧ TextsAccepted id version specs ∧
      Acyclic (SpecNeeds specs) ∧ Describes specs d.steps ∧ d.WellFormed := by
  cases he : validate id version specs with
  | error e =>
    refine .inl ⟨e,by unfold compile; rw [he],validate_fails e he,?_⟩
    intro hacc
    obtain ⟨i,v,steps,outgoing,hok⟩ := validate_isOk hacc
    simp [he] at hok
  | ok r =>
    obtain ⟨i,v,steps,outgoing⟩ := r
    have h := validate_spec he
    rcases order_result h he with ⟨ids,hc,hac,hsorted,hmem⟩ | ⟨d,hc,hac,rfl,hwf⟩
    · refine .inr (.inl ⟨ids,hc,mt h.describes.acyclic_iff.mp hac,hsorted,fun s => ?_⟩)
      rw [h.describes.blocked_iff,List.mem_map]
      constructor
      · rintro ⟨x,hx,rfl⟩
        exact ⟨x,rfl,((hmem x).mp hx).2⟩
      · rintro ⟨x,rfl,hx⟩
        obtain ⟨y,hy,-⟩ := hx.exists_rel
        exact ⟨x,(hmem x).mpr ⟨mem_of_needs hy,hx⟩,rfl⟩
    · exact .inr (.inr ⟨d,hc,h.accepted,h.describes.acyclic_iff.mpr hac,h.describes,hwf⟩)

/-- Every definition `compile` returns is well formed. -/
theorem compile_wellFormed {id version : String} {specs : List (StepSpec J)}
    {d : WorkflowDefinition J} (h : compile id version specs = .ok (.ok d)) :
    d.WellFormed ∧ Describes specs d.steps := by
  rcases compile_cases id version specs with ⟨e,he,-⟩ | ⟨ids,he,-⟩ | ⟨d',he,-,-,hd,hwf⟩
  · simp [he] at h
  · simp [he] at h
  · obtain rfl : d' = d := by simpa [he] using h
    exact ⟨hwf,hd⟩

/-- The leaves are the steps that no step needs. -/
lemma mem_leaves {d : WorkflowDefinition J} (hw : WellNeeded d.steps) {k : StepId} :
    k ∈ d.leaves.map StepDefinition.id ↔ k ∈ d.steps ∧ ∀ x, ¬ Needs d.steps x k := by
  have hdeps : k ∈ (valuesOf d.steps).flatMap StepDefinition.needs ↔ ∃ x, Needs d.steps x k := by
    simp only [List.mem_flatMap, mem_valuesOf]
    constructor
    · rintro ⟨step,⟨x,hx⟩,hk⟩
      exact ⟨x,by rwa [Needs,needsOf_eq hx]⟩
    · rintro ⟨x,hx⟩
      obtain ⟨step,hstep⟩ := Option.isSome_iff_exists.mp
        (ExtTreeMap.mem_iff_isSome_getElem?.mp (mem_of_needs hx))
      rw [Needs,needsOf_eq hstep] at hx
      exact ⟨step,⟨x,hstep⟩,hx⟩
  simp only [WorkflowDefinition.leaves, List.mem_map, List.mem_filter, mem_collectSet,
    decide_eq_true_eq]
  constructor
  · rintro ⟨step,⟨hmem,hno⟩,rfl⟩
    obtain ⟨j,hj⟩ := mem_valuesOf.mp hmem
    obtain rfl := hw.id_eq j step hj
    refine ⟨ExtTreeMap.mem_iff_isSome_getElem?.mpr (by rw [hj]; rfl),fun x hx => ?_⟩
    exact hno (hdeps.mpr ⟨x,hx⟩)
  · rintro ⟨hk,hno⟩
    obtain ⟨step,hstep⟩ := Option.isSome_iff_exists.mp
      (ExtTreeMap.mem_iff_isSome_getElem?.mp hk)
    obtain rfl := hw.id_eq k step hstep
    exact ⟨step,⟨mem_valuesOf.mpr ⟨_,hstep⟩,fun h => (hdeps.mp h).elim hno⟩,rfl⟩

/-- The definition of an accepted input. -/
def accepted (id version : String) (specs : List (StepSpec J)) : Option (WorkflowDefinition J) :=
  match compile id version specs with
  | .ok (.ok d) => some d
  | _ => none

lemma accepted_eq_some {id version : String} {specs : List (StepSpec J)}
    {d : WorkflowDefinition J} :
    accepted id version specs = some d ↔ compile id version specs = .ok (.ok d) := by
  unfold accepted
  split
  · next d' h => simp [h]
  · next h => exact ⟨fun h' => by simp at h',fun h' => absurd h' (h d)⟩

/-- The order read as texts: the authored steps, each after its declared needs. -/
lemma WorkflowDefinition.WellFormed.order_texts {specs : List (StepSpec J)}
    {d : WorkflowDefinition J} (hwf : d.WellFormed) (hd : Describes specs d.steps) :
    (d.topologicalOrder.map Identifier.value).Perm (specs.map StepSpec.id) ∧
      Ordered (SpecNeeds specs) (d.topologicalOrder.map Identifier.value) := by
  refine ⟨?_,hwf.ordered.map fun x b hb => hd.needs_iff.mp hb⟩
  rw [List.perm_ext_iff_of_nodup ((List.nodup_map_iff Identifier.value_injective).mpr hwf.nodup)
    hd.ids_nodup]
  intro s
  obtain ⟨ids,-,hmap,hmem⟩ := hd.map_id
  rw [←hmap,List.mem_map,List.mem_map]
  exact exists_congr fun x => by rw [hwf.mem_iff,hmem]

/-- A DAG authoring input `build` has to accept: texts that pass every check, and no cycle. -/
structure DagBuilder.Valid (b : DagBuilder J) : Prop where
  texts : TextsAccepted b.id b.version b.steps
  acyclic : Acyclic (SpecNeeds b.steps)

/-- `build` never aborts, accepts exactly the valid definitions and puts their steps in a
topological order; a reported cycle is the ascending list of the steps it blocks. -/
theorem DagBuilder.build_correct (b : DagBuilder J) :
    ∃ result, b.build = .ok result ∧
      ((∃ d, result = .ok d) ↔ b.Valid) ∧
      (∀ d, result = .ok d →
        (d.topologicalOrder.map Identifier.value).Perm (b.steps.map StepSpec.id) ∧
        Ordered (SpecNeeds b.steps) (d.topologicalOrder.map Identifier.value)) ∧
      ∀ ids, result = .error (.cycle ids) → ids.Pairwise (· < ·) ∧
        ∀ s, s ∈ ids.map Identifier.value ↔ Blocked (SpecNeeds b.steps) s := by
  rcases compile_cases b.id b.version b.steps with
    ⟨e,he,hne,hacc⟩ | ⟨ids,he,hac,hsorted,hmem⟩ | ⟨d,he,hacc,hac,hd,hwf⟩
  · refine ⟨.error e,he,⟨by simp,fun h => absurd h.texts hacc⟩,by simp,fun ids h => ?_⟩
    exact absurd (Except.error.inj h) (hne ids)
  · refine ⟨.error (.cycle ids),he,⟨by simp,fun h => absurd h.acyclic hac⟩,by simp,fun l h => ?_⟩
    obtain rfl : ids = l := by simpa using h
    exact ⟨hsorted,hmem⟩
  · refine ⟨.ok d,he,⟨fun _ => ⟨hacc,hac⟩,fun _ => ⟨d,rfl⟩⟩,fun d' h => ?_,by simp⟩
    obtain rfl : d = d' := by simpa using h
    exact hwf.order_texts hd

end TowerAgent.Workflow
