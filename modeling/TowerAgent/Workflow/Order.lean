import TowerAgent.Workflow.Frontier

/-! The ordering loop of `compile`: it takes exactly the steps no cycle blocks. -/
namespace TowerAgent.Workflow
open Lib Lib.Digraph
open Std (ExtTreeMap ExtTreeSet)

variable {J : Type} {steps : ExtTreeMap StepId (StepDefinition J)}
  {outgoing : ExtTreeMap StepId (List StepId)}

/-- The loop invariant: the steps listed so far are taken and done at once. -/
structure OrderInv (steps : ExtTreeMap StepId (StepDefinition J)) (s : OrderState) : Prop where
  nodup : s.topologicalOrder.Nodup
  known : ∀ x ∈ s.topologicalOrder, x ∈ steps
  ordered : Ordered (Needs steps) s.topologicalOrder
  frontier : Frontier steps s.topologicalOrder.toFinset s.topologicalOrder.toFinset
    s.indegree s.ready

lemma OrderInv.length_le {s : OrderState} (h : OrderInv steps s) :
    s.topologicalOrder.length ≤ steps.size := by
  rw [size_eq_card_keys,←List.toFinset_card_of_nodup h.nodup]
  refine Finset.card_le_card fun x hx => ?_
  rw [List.mem_toFinset] at hx ⊢
  exact ExtTreeMap.mem_keys.mpr (h.known x hx)

/-- One turn either finds nothing ready or lists one more step. -/
theorem orderBody_spec (ho : Inverts steps outgoing) {s : OrderState}
    (h : OrderInv steps s) : orderBody outgoing s = .ok none ∨
      ∃ s', orderBody outgoing s = .ok (some s') ∧ OrderInv steps s' ∧
        steps.size - s'.topologicalOrder.length < steps.size - s.topologicalOrder.length := by
  cases hp : popFirst s.ready with
  | none => exact .inl (by simp [orderBody, hp])
  | some p =>
    obtain ⟨x,ready⟩ := p
    obtain ⟨hx,-,-⟩ := popFirst_eq_some hp
    obtain ⟨hxs,hxo,hx0⟩ := (h.frontier.ready x).mp hx
    rw [List.mem_toFinset] at hxo
    have hneeds : ∀ n, Needs steps x n → n ∈ s.topologicalOrder :=
      fun n hn => List.mem_toFinset.mp (outstanding_eq_zero.mp hx0 n hn)
    have hclosed : ∀ y ∈ insert x s.topologicalOrder.toFinset, ∀ n, Needs steps y n →
        n ∈ s.topologicalOrder.toFinset := by
      intro y hy n hn
      rw [Finset.mem_insert,List.mem_toFinset] at hy
      rw [List.mem_toFinset]
      rcases hy with rfl | hy
      · exact hneeds n hn
      · exact h.ordered.mem_of_rel hy hn
    obtain ⟨l,counts',ready',hl,hc,hf⟩ := (h.frontier.take hp).complete ho hxs
      (by rwa [List.mem_toFinset]) hclosed "validated successor must have an indegree"
    have hinv : OrderInv steps ⟨ready',counts',s.topologicalOrder ++ [x]⟩ := by
      refine ⟨?_,?_,h.ordered.concat hneeds,?_⟩
      · rw [List.nodup_append]
        refine ⟨h.nodup,List.nodup_singleton x,fun a ha b hb => ?_⟩
        obtain rfl := List.mem_singleton.mp hb
        exact fun hab => hxo (hab ▸ ha)
      · intro y hy
        rcases List.mem_append.mp hy with hy | hy
        · exact h.known y hy
        · exact List.mem_singleton.mp hy ▸ hxs
      · have he : (s.topologicalOrder ++ [x]).toFinset = insert x s.topologicalOrder.toFinset := by
          ext y
          simp
        simpa only [he] using hf
    refine .inr ⟨⟨ready',counts',s.topologicalOrder ++ [x]⟩,?_,hinv,?_⟩
    · simp only [orderBody, hp, hl, hc]
      rfl
    · have hlen := hinv.length_le
      simp only [List.length_append, List.length_singleton] at hlen ⊢
      omega

/-- The ordering loop ends with nothing ready and never aborts. -/
theorem order_spec (hw : WellNeeded steps) (ho : Inverts steps outgoing) :
    ∃ final, order steps outgoing = .ok final ∧ OrderInv steps final ∧
      ∀ x, x ∉ final.ready := by
  have hstart : OrderInv steps ⟨zeroCounts (needCounts steps),needCounts steps,[]⟩ :=
    ⟨List.nodup_nil,by simp,ordered_nil,by simpa using Frontier.start hw⟩
  obtain ⟨final,he,hinv,hexit⟩ := iterate_exits (I := OrderInv steps)
    (μ := fun s => steps.size - s.topologicalOrder.length)
    (fun s hs => orderBody_spec ho hs) (n := steps.size+1) hstart (by simp)
  refine ⟨final,he,hinv,popFirst_eq_none.mp ?_⟩
  cases hp : popFirst final.ready with
  | none => rfl
  | some p =>
    rcases orderBody_spec ho hinv with _ | ⟨s',hs',-⟩
    · obtain ⟨x,ready⟩ := p
      simp only [orderBody, hp] at hexit
      cases hx : outgoing[x]? with
      | none => simp [hx] at hexit
      | some l =>
        simp only [hx] at hexit
        cases hc : countDown "validated successor must have an indegree" (final.indegree,ready) l
          <;> simp [hc, bind, Except.bind] at hexit
    · simp [hs'] at hexit

section Final
variable {final : OrderState} (hw : WellNeeded steps) (hinv : OrderInv steps final)
  (hexit : ∀ x, x ∉ final.ready)
include hexit hinv

lemma outstanding_pos_of_unlisted {x : StepId} (hx : x ∈ steps)
    (hn : x ∉ final.topologicalOrder) :
    0 < outstanding steps final.topologicalOrder.toFinset x := by
  rw [Nat.pos_iff_ne_zero]
  intro h0
  exact hexit x ((hinv.frontier.ready x).mpr ⟨hx,by rwa [List.mem_toFinset],h0⟩)

include hw

/-- A step is left out of the order exactly when a cycle blocks it. -/
theorem unlisted_iff_blocked {x : StepId} (hx : x ∈ steps) :
    x ∉ final.topologicalOrder ↔ Blocked (Needs steps) x := by
  constructor
  · intro hn
    refine blocked_of_forall_exists
      (s := steps.keys.toFinset \ final.topologicalOrder.toFinset) ?_ x
      (by simpa using ⟨hx,hn⟩)
    intro y hy
    simp only [Finset.mem_sdiff, List.mem_toFinset, ExtTreeMap.mem_keys] at hy
    have hpos := outstanding_pos_of_unlisted hinv hexit hy.1 hy.2
    have : ¬ ∀ n, Needs steps y n → n ∈ final.topologicalOrder.toFinset :=
      fun h => hpos.ne' (outstanding_eq_zero.mpr h)
    push Not at this
    obtain ⟨n,hn,hno⟩ := this
    refine ⟨n,?_,hn⟩
    simp only [Finset.mem_sdiff, List.mem_toFinset, ExtTreeMap.mem_keys] at hno ⊢
    exact ⟨hw.known y n hn,hno⟩
  · exact fun hb ho => hinv.ordered.not_blocked x ho hb

/-- The counters left positive are exactly those of the blocked steps. -/
theorem positive_iff_blocked {x : StepId} :
    x ∈ keysWhere final.indegree (fun count => decide (0 < count)) ↔
      x ∈ steps ∧ Blocked (Needs steps) x := by
  simp only [mem_keysWhere, hinv.frontier.counts, Option.map_eq_some_iff, decide_eq_true_eq]
  constructor
  · rintro ⟨count,⟨step,hstep,rfl⟩,hpos⟩
    have hx : x ∈ steps := by rw [ExtTreeMap.mem_iff_isSome_getElem?,hstep]; rfl
    refine ⟨hx,(unlisted_iff_blocked hw hinv hexit hx).mp fun ho => ?_⟩
    refine hpos.ne' (outstanding_eq_zero.mpr fun n hn => ?_)
    exact List.mem_toFinset.mpr (hinv.ordered.mem_of_rel ho hn)
  · rintro ⟨hx,hb⟩
    have hn := (unlisted_iff_blocked hw hinv hexit hx).mpr hb
    have hpos := outstanding_pos_of_unlisted hinv hexit hx hn
    rw [ExtTreeMap.mem_iff_isSome_getElem?,Option.isSome_iff_exists] at hx
    obtain ⟨step,hstep⟩ := hx
    exact ⟨_,⟨step,hstep,rfl⟩,hpos⟩

/-- The order is complete exactly when its length is the number of steps. -/
theorem complete_iff_acyclic :
    final.topologicalOrder.length = steps.size ↔ Acyclic (Needs steps) := by
  rw [acyclic_iff_not_blocked]
  constructor
  · intro hlen x hb
    obtain ⟨y,hy,-⟩ := hb.exists_rel
    have hx := mem_of_needs hy
    refine (unlisted_iff_blocked hw hinv hexit hx).mpr hb ?_
    have he : final.topologicalOrder.toFinset = steps.keys.toFinset := by
      refine Finset.eq_of_subset_of_card_le (fun z hz => ?_) ?_
      · rw [List.mem_toFinset] at hz ⊢
        exact ExtTreeMap.mem_keys.mpr (hinv.known z hz)
      · rw [List.toFinset_card_of_nodup hinv.nodup,←size_eq_card_keys,hlen]
    rw [←List.mem_toFinset,he,List.mem_toFinset]
    exact ExtTreeMap.mem_keys.mpr hx
  · intro h
    rw [size_eq_card_keys,←List.toFinset_card_of_nodup hinv.nodup]
    congr 1
    ext x
    rw [List.mem_toFinset,List.mem_toFinset,ExtTreeMap.mem_keys]
    refine ⟨hinv.known x,fun hx => ?_⟩
    by_contra hn
    exact h x ((unlisted_iff_blocked hw hinv hexit hx).mp hn)

end Final
end TowerAgent.Workflow
