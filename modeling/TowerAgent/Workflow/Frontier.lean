import TowerAgent.Lib.Digraph
import TowerAgent.Workflow.Definition

/-! The frontier of a workflow graph: which steps have been taken, which are done, and the
counters and ready set that `compile` and `execute` maintain for them. -/
namespace TowerAgent.Workflow
open Lib
open Std (ExtTreeMap ExtTreeSet)

variable {J : Type} (steps : ExtTreeMap StepId (StepDefinition J))

/-- The needs of a step, none for an unknown one. -/
def needsOf (x : StepId) : List StepId :=
  match steps[x]? with
  | some step => step.needs
  | none => []

/-- The edge relation: `x` needs `y`. -/
def Needs (x y : StepId) : Prop := y ∈ needsOf steps x

/-- How many needs of a step are not done. -/
def outstanding (done : Finset StepId) (x : StepId) : ℕ := ((needsOf steps x).toFinset \ done).card

variable {steps}

lemma needsOf_eq {x : StepId} {step : StepDefinition J} (h : steps[x]? = some step) :
    needsOf steps x = step.needs := by simp [needsOf, h]

lemma mem_of_needs {x y : StepId} (h : Needs steps x y) : x ∈ steps := by
  unfold Needs needsOf at h
  split at h
  · next hx => rw [ExtTreeMap.mem_iff_isSome_getElem?,hx]; rfl
  · simp at h

lemma outstanding_eq_zero {done : Finset StepId} {x : StepId} :
    outstanding steps done x = 0 ↔ ∀ n, Needs steps x n → n ∈ done := by
  simp only [outstanding, Finset.card_eq_zero, Finset.sdiff_eq_empty_iff_subset, Finset.subset_iff,
    List.mem_toFinset, Needs]

lemma outstanding_pos {done : Finset StepId} {x n : StepId} (h : Needs steps x n)
    (hn : n ∉ done) : 0 < outstanding steps done x := by
  rw [Nat.pos_iff_ne_zero]
  exact fun h0 => hn (outstanding_eq_zero.mp h0 n h)

lemma outstanding_insert_of_needs {done : Finset StepId} {x n : StepId} (h : Needs steps x n)
    (hn : n ∉ done) : outstanding steps (insert n done) x = outstanding steps done x - 1 := by
  have hm : n ∈ (needsOf steps x).toFinset \ done := by
    simpa [hn] using (show n ∈ needsOf steps x from h)
  rw [outstanding,Finset.sdiff_insert,Finset.card_erase_of_mem hm,outstanding]

lemma outstanding_insert_of_not_needs {done : Finset StepId} {x n : StepId}
    (h : ¬ Needs steps x n) : outstanding steps (insert n done) x = outstanding steps done x := by
  have hm : n ∉ (needsOf steps x).toFinset \ done := by
    simp only [Finset.mem_sdiff, List.mem_toFinset, not_and]
    exact fun hx => absurd hx h
  rw [outstanding,Finset.sdiff_insert,Finset.erase_eq_of_notMem hm,outstanding]

/-- What the edge checks establish about the step table. -/
structure WellNeeded (steps : ExtTreeMap StepId (StepDefinition J)) : Prop where
  id_eq : ∀ (k : StepId) (step : StepDefinition J), steps[k]? = some step → step.id = k
  sorted : ∀ (k : StepId) (step : StepDefinition J), steps[k]? = some step → step.needs.Pairwise (· < ·)
  known : ∀ x y, Needs steps x y → y ∈ steps
  irrefl : ∀ x, ¬ Needs steps x x

/-- The successor table inverts the needs. -/
def Inverts (steps : ExtTreeMap StepId (StepDefinition J))
    (outgoing : ExtTreeMap StepId (List StepId)) : Prop :=
  ∀ y ∈ steps, ∃ l, outgoing[y]? = some l ∧ l.Pairwise (· < ·) ∧ ∀ x, x ∈ l ↔ Needs steps x y

/-- The counters hold the outstanding needs; ready are the untaken steps without any. -/
structure Frontier (steps : ExtTreeMap StepId (StepDefinition J)) (taken done : Finset StepId)
    (counts : ExtTreeMap StepId ℕ) (ready : ExtTreeSet StepId) : Prop where
  counts : ∀ x, counts[x]? = steps[x]?.map (fun _ => outstanding steps done x)
  ready : ∀ x, x ∈ ready ↔ x ∈ steps ∧ x ∉ taken ∧ outstanding steps done x = 0

lemma needCounts_eq (hw : WellNeeded steps) (x : StepId) :
    (needCounts steps)[x]? = steps[x]?.map (fun _ => outstanding steps ∅ x) := by
  rw [needCounts,ExtTreeMap.getElem?_map]
  cases h : steps[x]? with
  | none => rfl
  | some step =>
    have hn : step.needs.Nodup := (hw.sorted x step h).imp (fun hlt => hlt.ne)
    simp only [Option.map_some, outstanding, needsOf_eq h, Finset.sdiff_empty]
    rw [List.toFinset_card_of_nodup hn]

/-- Both loops start with nothing taken and nothing done. -/
theorem Frontier.start (hw : WellNeeded steps) :
    Frontier steps ∅ ∅ (needCounts steps) (zeroCounts (needCounts steps)) := by
  refine ⟨needCounts_eq hw,fun x => ?_⟩
  simp only [zeroCounts, mem_collectSet, mem_keysWhere, needCounts_eq hw, Option.map_eq_some_iff,
    ExtTreeMap.mem_iff_isSome_getElem?, Option.isSome_iff_exists, Finset.notMem_empty,
    not_false_eq_true, true_and, beq_iff_eq]
  constructor
  · rintro ⟨v,⟨step,hstep,rfl⟩,hv⟩
    exact ⟨⟨step,hstep⟩,hv⟩
  · rintro ⟨⟨step,hstep⟩,hv⟩
    exact ⟨_,⟨step,hstep,rfl⟩,hv⟩

/-- Taking the least ready step. -/
theorem Frontier.take {taken done : Finset StepId} {counts : ExtTreeMap StepId ℕ}
    {ready ready' : ExtTreeSet StepId} {x : StepId} (h : Frontier steps taken done counts ready)
    (hp : popFirst ready = some (x,ready')) : Frontier steps (insert x taken) done counts ready' := by
  refine ⟨h.counts,fun y => ?_⟩
  rw [mem_of_popFirst hp,h.ready,Finset.mem_insert,not_or]
  tauto

/-- The effect of the decrement loop on a duplicate-free list of positive counters. -/
theorem countDown_eq (message : String) {l : List StepId} (hl : l.Nodup)
    {counts : ExtTreeMap StepId ℕ} {ready : ExtTreeSet StepId}
    (hpos : ∀ x ∈ l, ∃ n, counts[x]? = some (n+1)) :
    ∃ counts' ready', countDown message (counts,ready) l = .ok (counts',ready') ∧
      (∀ x, counts'[x]? = if x ∈ l then counts[x]?.map (· - 1) else counts[x]?) ∧
      ∀ x, x ∈ ready' ↔ x ∈ ready ∨ x ∈ l ∧ counts[x]? = some 1 := by
  induction l generalizing counts ready with
  | nil => exact ⟨counts,ready,rfl,by simp,by simp⟩
  | cons y l ih =>
    obtain ⟨hy,hl⟩ := List.nodup_cons.mp hl
    obtain ⟨n,hn⟩ := hpos y List.mem_cons_self
    have hkeep : ∀ x ∈ l, (counts.insert y n)[x]? = counts[x]? := by
      intro x hx
      rw [getElem?_insert_eq,if_neg (by rintro rfl; exact hy hx)]
    have hpos' : ∀ x ∈ l, ∃ n', (counts.insert y n)[x]? = some (n'+1) := fun x hx =>
      hkeep x hx ▸ hpos x (List.mem_cons_of_mem _ hx)
    obtain ⟨counts',ready',he,hc,hr⟩ := @ih hl (counts.insert y n)
      (if n = 0 then ready.insert y else ready) hpos'
    refine ⟨counts',ready',by simp only [countDown, hn]; exact he,fun x => ?_,fun x => ?_⟩
    · rw [hc x,getElem?_insert_eq]
      by_cases hxy : y = x
      · subst hxy
        simp [hy, hn]
      · simp [hxy, Ne.symm hxy]
    · rw [hr x,List.mem_cons]
      by_cases hxy : x = y
      · subst hxy
        simp only [hy, false_and, or_false, true_and, hn]
        by_cases h0 : n = 0 <;> simp [h0]
      · have hx : x ∈ (if n = 0 then ready.insert y else ready) ↔ x ∈ ready := by
          split
          · rw [mem_insert_iff,or_iff_right hxy]
          · rfl
        rw [hx,getElem?_insert_eq,if_neg (Ne.symm hxy)]
        simp [hxy]

/-- Completing a taken step whose successors are then counted down. -/
theorem Frontier.complete {taken done : Finset StepId} {counts : ExtTreeMap StepId ℕ}
    {ready : ExtTreeSet StepId} {outgoing : ExtTreeMap StepId (List StepId)} {y : StepId}
    (h : Frontier steps taken done counts ready) (ho : Inverts steps outgoing)
    (hy : y ∈ steps) (hd : y ∉ done) (ht : ∀ x ∈ taken, ∀ n, Needs steps x n → n ∈ done)
    (message : String) :
    ∃ l counts' ready', outgoing[y]? = some l ∧
      countDown message (counts,ready) l = .ok (counts',ready') ∧
      Frontier steps taken (insert y done) counts' ready' := by
  obtain ⟨l,hl,hsorted,hmem⟩ := ho y hy
  have hcount : ∀ x ∈ l, counts[x]? = some (outstanding steps done x) := by
    intro x hx
    have hxs := mem_of_needs ((hmem x).mp hx)
    rw [ExtTreeMap.mem_iff_isSome_getElem?,Option.isSome_iff_exists] at hxs
    obtain ⟨step,hstep⟩ := hxs
    rw [h.counts x,hstep]
    rfl
  have hpositive : ∀ x ∈ l, ∃ n, counts[x]? = some (n+1) := by
    intro x hx
    have hpos := outstanding_pos ((hmem x).mp hx) hd
    exact ⟨outstanding steps done x - 1,by rw [hcount x hx]; congr 1; omega⟩
  obtain ⟨counts',ready',he,hc,hr⟩ := @countDown_eq message l (hsorted.imp fun hlt => hlt.ne)
    counts ready hpositive
  refine ⟨l,counts',ready',hl,he,fun x => ?_,fun x => ?_⟩
  · rw [hc x,h.counts x]
    by_cases hx : x ∈ l
    · rw [if_pos hx,outstanding_insert_of_needs ((hmem x).mp hx) hd,Option.map_map]
      rfl
    · rw [if_neg hx,outstanding_insert_of_not_needs (fun hn => hx ((hmem x).mpr hn))]
  · rw [hr x,h.ready x]
    by_cases hx : x ∈ l
    · have hn := (hmem x).mp hx
      have hpos := outstanding_pos hn hd
      have hxt : x ∉ taken := fun hxt => hd (ht x hxt y hn)
      have hz : ¬ outstanding steps done x = 0 := by omega
      have hone : outstanding steps done x - 1 = 0 ↔ outstanding steps done x = 1 := by omega
      rw [outstanding_insert_of_needs hn hd,hcount x hx,hone]
      simp [hx, hz, hxt, mem_of_needs hn]
    · rw [outstanding_insert_of_not_needs (fun hn => hx ((hmem x).mpr hn))]
      simp [hx]

end TowerAgent.Workflow
