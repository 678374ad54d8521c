import Mathlib.Order.Bounds.Basic
import TowerAgent.Workflow.Compile

/-! The compiled definition does not depend on how its steps were authored: permuted steps and needs
give an equal definition, and its order is the least topological order by step id. -/
namespace TowerAgent.Workflow
open Lib Lib.Digraph
open Std (ExtTreeMap ExtTreeSet)

variable {J : Type}

/-- The topological orders of the steps of a definition. -/
structure TopologicalOrder (steps : ExtTreeMap StepId (StepDefinition J)) (l : List StepId) :
    Prop where
  nodup : l.Nodup
  mem_iff : ∀ x, x ∈ l ↔ x ∈ steps
  ordered : Ordered (Needs steps) l

lemma TopologicalOrder.length_eq {steps : ExtTreeMap StepId (StepDefinition J)}
    {l t : List StepId} (hl : TopologicalOrder steps l) (ht : TopologicalOrder steps t) :
    l.length = t.length := by
  apply List.Perm.length_eq
  rw [List.perm_ext_iff_of_nodup hl.nodup ht.nodup]
  intro x
  rw [hl.mem_iff,ht.mem_iff]

section Loop
variable {steps : ExtTreeMap StepId (StepDefinition J)} {outgoing : ExtTreeMap StepId (List StepId)}

/-- Every turn of the ordering loop takes the least step that is available. -/
lemma orderBody_greedy {s s' : OrderState} (h : OrderInv steps s)
    (hg : Greedy (Needs steps) (· ∈ steps) s.topologicalOrder)
    (hb : orderBody outgoing s = .ok (some s')) :
    Greedy (Needs steps) (· ∈ steps) s'.topologicalOrder := by
  unfold orderBody at hb
  cases hp : popFirst s.ready with
  | none => simp [hp] at hb
  | some p =>
    obtain ⟨x,ready⟩ := p
    obtain ⟨-,hleast,-⟩ := popFirst_eq_some hp
    simp only [hp] at hb
    cases ho : outgoing[x]? with
    | none => simp [ho] at hb
    | some successors =>
      simp only [ho] at hb
      obtain ⟨⟨indegree,ready'⟩,-,hb⟩ := bind_eq_ok.mp hb
      obtain rfl := Option.some.inj (Except.ok.inj hb)
      refine hg.concat fun y hy hyl hneeds => hleast y ?_
      refine (h.frontier.ready y).mpr ⟨hy,by rwa [List.mem_toFinset],?_⟩
      exact outstanding_eq_zero.mpr fun n hn => List.mem_toFinset.mpr (hneeds n hn)

/-- The ordering loop ends with a greedy order. -/
theorem order_greedy (hw : WellNeeded steps) (ho : Inverts steps outgoing) {final : OrderState}
    (hf : order steps outgoing = .ok final) :
    Greedy (Needs steps) (· ∈ steps) final.topologicalOrder := by
  have hstart : OrderInv steps ⟨zeroCounts (needCounts steps),needCounts steps,[]⟩ :=
    ⟨List.nodup_nil,by simp,ordered_nil,by simpa using Frontier.start hw⟩
  obtain ⟨s,hs,⟨-,hg⟩,-⟩ := iterate_exits
    (I := fun s => OrderInv steps s ∧ Greedy (Needs steps) (· ∈ steps) s.topologicalOrder)
    (μ := fun s => steps.size - s.topologicalOrder.length)
    (fun s hs => show orderBody outgoing s = .ok none ∨ _ by
      rcases orderBody_spec ho hs.1 with hb | ⟨s',hb,hi,hlt⟩
      · exact .inl hb
      · exact .inr ⟨s',hb,⟨hi,orderBody_greedy hs.1 hs.2 hb⟩,hlt⟩)
    (n := steps.size+1) ⟨hstart,greedy_nil⟩ (by simp)
  rw [order] at hf
  obtain rfl := Except.ok.inj (hs.symm.trans hf)
  exact hg

end Loop

/-- The passes behind an accepted definition. -/
lemma compile_eq_ok {id version : String} {specs : List (StepSpec J)} {d : WorkflowDefinition J}
    (h : compile id version specs = .ok (.ok d)) :
    ∃ outgoing final, Validated id version specs d.id d.version d.steps outgoing ∧
      order d.steps outgoing = .ok final ∧ final.topologicalOrder = d.topologicalOrder := by
  unfold compile at h
  cases hv : validate id version specs with
  | error e => simp [hv] at h
  | ok r =>
    obtain ⟨i,v,steps,outgoing⟩ := r
    simp only [hv] at h
    obtain ⟨final,hf,h⟩ := bind_eq_ok.mp h
    split at h
    · simp at h
    · obtain rfl := Except.ok.inj (Except.ok.inj h)
      exact ⟨outgoing,final,validate_spec hv,hf,rfl⟩

/-- `topological_order` is the lexicographically least topological order, by step id. -/
theorem compile_isLeast {id version : String} {specs : List (StepSpec J)}
    {d : WorkflowDefinition J} (h : compile id version specs = .ok (.ok d)) :
    IsLeast {l | TopologicalOrder d.steps l} d.topologicalOrder := by
  obtain ⟨hwf,-⟩ := compile_wellFormed h
  have hd : TopologicalOrder d.steps d.topologicalOrder := ⟨hwf.nodup,hwf.mem_iff,hwf.ordered⟩
  refine ⟨hd,fun t ht => ?_⟩
  obtain ⟨outgoing,final,hval,hf,hfinal⟩ := compile_eq_ok h
  have hg := order_greedy hval.well hval.inverts hf
  rw [hfinal] at hg
  exact hg.le ht.ordered ht.nodup (fun y hy => (ht.mem_iff y).mp hy) (hd.length_eq ht)

/-- The same step with its needs listed in another order. -/
structure SameStep (a b : StepSpec J) : Prop where
  id_eq : a.id = b.id
  job_eq : a.job = b.job
  needs_perm : a.needs.Perm b.needs

/-- The same steps in another order, each with its needs in another order. -/
def Rearranged (specs specs' : List (StepSpec J)) : Prop :=
  ∃ mid, specs.Perm mid ∧ List.Forall₂ SameStep mid specs'

lemma SameStep.symm {a b : StepSpec J} (h : SameStep a b) : SameStep b a :=
  ⟨h.id_eq.symm,h.job_eq.symm,h.needs_perm.symm⟩

namespace Rearranged
variable {specs specs' : List (StepSpec J)} (h : Rearranged specs specs')
include h

lemma exists_left {spec' : StepSpec J} (hs : spec' ∈ specs') :
    ∃ spec ∈ specs, SameStep spec spec' := by
  obtain ⟨mid,hperm,hall⟩ := h
  obtain ⟨spec,hspec,hsame⟩ := exists_left_of_forall₂ hall hs
  exact ⟨spec,hperm.mem_iff.mpr hspec,hsame⟩

lemma exists_right {spec : StepSpec J} (hs : spec ∈ specs) :
    ∃ spec' ∈ specs', SameStep spec spec' := by
  obtain ⟨mid,hperm,hall⟩ := h
  exact exists_right_of_forall₂ hall (hperm.mem_iff.mp hs)

lemma ids_perm : (specs.map StepSpec.id).Perm (specs'.map StepSpec.id) := by
  obtain ⟨mid,hperm,hall⟩ := h
  have hids : mid.map StepSpec.id = specs'.map StepSpec.id := by
    clear hperm
    induction hall with
    | nil => rfl
    | cons hsame _ ih => rw [List.map_cons,List.map_cons,hsame.id_eq,ih]
  exact hids ▸ hperm.map StepSpec.id

lemma specNeeds_eq : SpecNeeds specs' = SpecNeeds specs := by
  funext a b
  apply propext
  constructor
  · rintro ⟨spec',hspec',rfl,hb⟩
    obtain ⟨spec,hspec,hsame⟩ := h.exists_left hspec'
    exact ⟨spec,hspec,hsame.id_eq,hsame.needs_perm.mem_iff.mpr hb⟩
  · rintro ⟨spec,hspec,rfl,hb⟩
    obtain ⟨spec',hspec',hsame⟩ := h.exists_right hspec
    exact ⟨spec',hspec',hsame.id_eq.symm,hsame.needs_perm.mem_iff.mp hb⟩

/-- The checks on the texts do not depend on the authoring order. -/
lemma textsAccepted {id version : String} (ha : TextsAccepted id version specs) :
    TextsAccepted id version specs' := by
  have hids := h.ids_perm
  refine ⟨ha.id_valid,ha.version_valid,?_,fun spec' hs => ?_,hids.nodup_iff.mp ha.ids_nodup,
    fun spec' hs n hn => ?_,fun spec' hs hself => ?_⟩
  · rintro rfl
    exact ha.nonempty (List.map_eq_nil_iff.mp hids.eq_nil)
  · obtain ⟨spec,hspec,hsame⟩ := h.exists_left hs
    obtain ⟨hid,hneeds,hnodup⟩ := ha.specs_accepted spec hspec
    exact ⟨hsame.id_eq ▸ hid,fun n hn => hneeds n (hsame.needs_perm.mem_iff.mpr hn),
      hsame.needs_perm.nodup_iff.mp hnodup⟩
  · obtain ⟨spec,hspec,hsame⟩ := h.exists_left hs
    exact hids.mem_iff.mp (ha.needs_declared spec hspec n (hsame.needs_perm.mem_iff.mpr hn))
  · obtain ⟨spec,hspec,hsame⟩ := h.exists_left hs
    rw [←hsame.id_eq,←hsame.needs_perm.mem_iff] at hself
    exact ha.no_self spec hspec hself

end Rearranged

/-- A validated step is determined by its text, whatever the order of its needs. -/
lemma Normalizes.unique {a b : StepSpec J} {x y : StepDefinition J} (hx : Normalizes a x)
    (hy : Normalizes b y) (h : SameStep a b) : x = y := by
  have hid : x.id = y.id :=
    Identifier.value_injective (hx.id_eq.trans (h.id_eq.trans hy.id_eq.symm))
  have hjob : x.job = y.job := hx.job_eq.trans (h.job_eq.trans hy.job_eq.symm)
  have hperm : (x.needs.map Identifier.value).Perm (y.needs.map Identifier.value) :=
    hx.perm.trans (h.needs_perm.trans hy.perm.symm)
  have hneeds : x.needs = y.needs := by
    refine List.Perm.eq_of_pairwise (fun a b _ _ hab hba => absurd hab (not_lt_of_gt hba))
      hx.sorted hy.sorted ?_
    exact (List.map_perm_map_iff Identifier.value_injective).mp hperm
  cases x
  cases y
  simp only at hid hjob hneeds
  rw [hid,hjob,hneeds]

/-- The step table is determined by the steps, not by their order. -/
theorem Describes.unique {specs specs' : List (StepSpec J)}
    {steps steps' : ExtTreeMap StepId (StepDefinition J)} (h : Describes specs steps)
    (h' : Describes specs' steps') (hr : Rearranged specs specs') : steps = steps' := by
  obtain ⟨defs,hall,-,hlook⟩ := h
  obtain ⟨defs',hall',-,hlook'⟩ := h'
  have hdefs : ∀ d, d ∈ defs ↔ d ∈ defs' := by
    intro d
    constructor
    · intro hd
      obtain ⟨spec,hspec,hn⟩ := exists_left_of_forall₂ hall hd
      obtain ⟨spec',hspec',hsame⟩ := hr.exists_right hspec
      obtain ⟨d',hd',hn'⟩ := exists_right_of_forall₂ hall' hspec'
      exact hn.unique hn' hsame ▸ hd'
    · intro hd
      obtain ⟨spec',hspec',hn'⟩ := exists_left_of_forall₂ hall' hd
      obtain ⟨spec,hspec,hsame⟩ := hr.exists_left hspec'
      obtain ⟨d',hd',hn⟩ := exists_right_of_forall₂ hall hspec
      exact hn'.unique hn hsame.symm ▸ hd'
  apply ExtTreeMap.ext_getElem?
  intro k
  apply Option.ext
  intro d
  rw [hlook k d,hlook' k d,hdefs d]

/-- Compilation is canonical: permuting the steps and the needs of each gives an equal definition,
whose order is the least topological order by step id. -/
theorem compile_canonical {id version : String} {specs specs' : List (StepSpec J)}
    {d : WorkflowDefinition J} (h : compile id version specs = .ok (.ok d))
    (hr : Rearranged specs specs') :
    compile id version specs' = .ok (.ok d) ∧
      IsLeast {l | TopologicalOrder d.steps l} d.topologicalOrder := by
  refine ⟨?_,compile_isLeast h⟩
  rcases compile_cases id version specs with ⟨e,he,-⟩ | ⟨ids,he,-⟩ | ⟨d₀,he,hacc,hac,hd,-⟩
  · simp [he] at h
  · simp [he] at h
  · obtain rfl : d₀ = d := by simpa [he] using h
    rcases compile_cases id version specs' with ⟨e,-,-,hno⟩ | ⟨ids,-,hno,-⟩ | ⟨d',he',-,-,hd',-⟩
    · exact absurd (hr.textsAccepted hacc) hno
    · exact absurd (hr.specNeeds_eq ▸ hac) hno
    · obtain ⟨_,_,hv,-⟩ := compile_eq_ok he
      obtain ⟨_,_,hv',-⟩ := compile_eq_ok he'
      have hid : d₀.id = d'.id := Identifier.value_injective (hv.id_eq.trans hv'.id_eq.symm)
      have hversion : d₀.version = d'.version :=
        Identifier.value_injective (hv.version_eq.trans hv'.version_eq.symm)
      have hsteps : d₀.steps = d'.steps := hd.unique hd' hr
      have horder : d₀.topologicalOrder = d'.topologicalOrder :=
        IsLeast.unique (compile_isLeast he) (hsteps ▸ compile_isLeast he')
      have heq : d₀ = d' := by
        cases d₀
        cases d'
        simp only at hid hversion hsteps horder
        rw [hid,hversion,hsteps,horder]
      rw [he',heq]

/-- A diamond, its last step authored first. -/
def diamond : List (StepSpec ℕ) :=
  [⟨"join",["left","right"],3⟩,⟨"left",["root"],1⟩,⟨"right",["root"],2⟩,⟨"root",[],0⟩]

/-- The same diamond in its topological order. -/
def diamondForward : List (StepSpec ℕ) :=
  [⟨"root",[],0⟩,⟨"right",["root"],2⟩,⟨"left",["root"],1⟩,⟨"join",["right","left"],3⟩]

lemma diamond_rearranged : Rearranged diamond diamondForward := by
  refine ⟨diamond.reverse,(List.reverse_perm _).symm,?_⟩
  refine .cons ⟨rfl,rfl,.refl _⟩ (.cons ⟨rfl,rfl,.refl _⟩ (.cons ⟨rfl,rfl,.refl _⟩ (.cons ?_ .nil)))
  exact ⟨rfl,rfl,.swap _ _ _⟩

theorem compile_canonical_sample : ∃ d, compile "diamond" "1" diamond = .ok (.ok d) ∧
    compile "diamond" "1" diamondForward = .ok (.ok d) ∧
    IsLeast {l | TopologicalOrder d.steps l} d.topologicalOrder := by
  have h : (accepted "diamond" "1" diamond).isSome = true := by decide +kernel
  obtain ⟨d,hd⟩ := Option.isSome_iff_exists.mp h
  have hd := accepted_eq_some.mp hd
  exact ⟨d,hd,compile_canonical hd diamond_rearranged⟩

end TowerAgent.Workflow
