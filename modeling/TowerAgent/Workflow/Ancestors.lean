import TowerAgent.Workflow.CallSafety

/-! What a step needs directly or through other steps: the same in the texts and in the definition,
and settled before the step is called. -/
namespace TowerAgent.Workflow
open Lib Lib.Digraph Relation
open Std (ExtTreeMap)

variable {I J O E : Type} {max : ℕ} {request : WorkflowRequest I J} {t : List (Event O E)}
  {s : State I J O E}

/-- Everything an admitted step needs, directly or not, has its output. -/
lemma Sound.ancestors_done (h : Sound max request t s) {x y : StepId} (hx : x ∈ admissions t)
    (hxy : TransGen (Needs request.definition.steps) x y) : y ∈ s.outputs := by
  induction hxy with
  | single hy => exact h.served x hx _ hy
  | tail _ hyz ih => exact h.served _ (h.admitted_of_output ih) _ hyz

/-- A call comes after everything its step needs, directly or not, has settled. -/
lemma settled_before_call (hmax : 0 < max) (hd : request.definition.WellFormed)
    (hr : (execute max request).run t = some s) {a b : StepId}
    (hba : TransGen (Needs request.definition.steps) b a)
    {before after : List (Event O E)} (ht : t = before ++ .call b::after) :
    ∃ o, .pollCall a (.settled (.ok o)) ∈ before := by
  subst ht
  obtain ⟨m,f,hm,hpc,rfl,-⟩ := call_state hr
  have hs := sound_of_run hmax hd hm
  have hadmitted : f.id ∈ admissions before := by
    rw [←Multiset.mem_coe,hs.ledger.admitted]
    refine Multiset.mem_add.mpr (.inl (Multiset.mem_add.mpr (.inl (Multiset.mem_map_of_mem _ ?_))))
    rw [crew_polling hpc]
    exact Multiset.mem_cons_self _ _
  obtain ⟨o,ho⟩ := Option.isSome_iff_exists.mp
    (ExtTreeMap.mem_iff_isSome_getElem?.mp (hs.ancestors_done hadmitted hba))
  exact ⟨o,mem_results_ok.mp (hs.result_of_output ho)⟩

/-- Needing, directly or not, is the same for the texts and for the validated steps. -/
lemma Describes.transGen_iff {specs : List (StepSpec J)}
    {steps : ExtTreeMap StepId (StepDefinition J)} (h : Describes specs steps) {x y : StepId} :
    TransGen (SpecNeeds specs) x.value y.value ↔ TransGen (Needs steps) x y := by
  constructor
  · intro hxy
    obtain ⟨b,hxb,hby⟩ := TransGen.head'_iff.mp hxy
    obtain ⟨z,rfl,hxz⟩ := h.needs_iff.mp hxb
    obtain ⟨w,hw,hzw⟩ := reaches_of_embedding (fun x b hb => h.needs_iff.mp hb) hby
    obtain rfl := Identifier.value_injective hw
    exact .head' hxz hzw
  · exact fun hxy => hxy.lift Identifier.value fun x y h' => h.needs_iff.mpr ⟨y,rfl,h'⟩

end TowerAgent.Workflow
