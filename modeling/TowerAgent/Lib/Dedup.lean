import Mathlib.Data.List.Destutter
import Mathlib.Data.List.Sort

/-! Lists sorted and then rid of adjacent duplicates: what they hold, and that they depend on no more
than what is in the list. -/
namespace TowerAgent.Lib
variable {α : Type*} [DecidableEq α]

/-- `v.sort(); v.dedup()`. -/
def sortDedup (le : α → α → Bool) (l : List α) : List α := (l.mergeSort le).destutter (· ≠ ·)

lemma mem_destutter'_ne {a b : α} {l : List α} : a ∈ l.destutter' (· ≠ ·) b ↔ a = b ∨ a ∈ l := by
  induction l generalizing b with
  | nil => simp
  | cons c l ih =>
    by_cases h : b = c
    · subst h
      rw [List.destutter'_cons_neg _ (not_not.mpr rfl),ih]
      simp
    · rw [List.destutter'_cons_pos _ h,List.mem_cons,ih,List.mem_cons]

lemma mem_destutter_ne {a : α} {l : List α} : a ∈ l.destutter (· ≠ ·) ↔ a ∈ l := by
  cases l with
  | nil => simp
  | cons b l => rw [List.destutter_cons',mem_destutter'_ne,List.mem_cons]

/-- An order by which any two values can be compared, though it may not tell them apart. -/
structure TotalPreorder {α : Type*} (le : α → α → Bool) : Prop where
  trans : ∀ a b c, le a b = true → le b c = true → le a c = true
  total : ∀ a b, (le a b || le b a) = true

section Sorted
variable {le : α → α → Bool} {l l' : List α}

@[simp] theorem mem_sortDedup {a : α} : a ∈ sortDedup le l ↔ a ∈ l := by
  rw [sortDedup,mem_destutter_ne,List.mem_mergeSort]

/-- Where the order tells the members of the list apart, the result is strictly sorted. -/
theorem sortDedup_strict (hle : TotalPreorder le)
    (hanti : ∀ a ∈ l, ∀ b ∈ l, le a b = true → le b a = true → a = b) :
    (sortDedup le l).Pairwise (fun a b => le a b = true ∧ le b a = false) := by
  have hsorted : (sortDedup le l).Pairwise (fun a b => le a b = true) :=
    (List.pairwise_mergeSort hle.trans hle.total l).sublist (List.destutter_sublist _ _)
  have hchain : (sortDedup le l).IsChain (fun a b => a ≠ b) := List.isChain_destutter _ _
  have hanti : ∀ a ∈ sortDedup le l, ∀ b ∈ sortDedup le l, le a b = true → le b a = true →
      a = b := fun a ha b hb => hanti a (mem_sortDedup.mp ha) b (mem_sortDedup.mp hb)
  generalize sortDedup le l = m at hsorted hchain hanti
  induction m with
  | nil => exact List.Pairwise.nil
  | cons a m ih =>
    rw [List.pairwise_cons] at hsorted
    refine List.pairwise_cons.mpr ⟨?_,ih hsorted.2 hchain.tail fun x hx y hy =>
      hanti x (List.mem_cons_of_mem _ hx) y (List.mem_cons_of_mem _ hy)⟩
    intro b hb
    refine ⟨hsorted.1 b hb,?_⟩
    rw [Bool.eq_false_iff]
    intro hba
    cases m with
    | nil => cases hb
    | cons c m =>
      -- The neighbour of `a` lies between `a` and `b`, which would make it `a`.
      have hac := hsorted.1 c List.mem_cons_self
      have hcb : le c b = true := by
        rcases List.mem_cons.mp hb with rfl | hb
        · exact (Bool.or_self _).symm.trans (hle.total b b)
        · exact (List.pairwise_cons.mp hsorted.2).1 b hb
      have hca := hle.trans c b a hcb hba
      have hne : a ≠ c := (List.isChain_cons_cons.mp hchain).1
      exact hne (hanti a List.mem_cons_self c (List.mem_cons_of_mem _ List.mem_cons_self) hac hca)

/-- Lists in strict order with the same members are the same. -/
theorem eq_of_strict {β : Type*} {r : β → β → Prop} (hr : ∀ a b, r a b → ¬ r b a) {l l' : List β}
    (hl : l.Pairwise r) (hl' : l'.Pairwise r) (h : ∀ a, a ∈ l ↔ a ∈ l') : l = l' := by
  have hnodup : ∀ {m : List β}, m.Pairwise r → m.Nodup := by
    intro m hm
    refine hm.imp fun {a b} hab he => ?_
    subst he
    exact hr a a hab hab
  have hperm : l.Perm l' := (List.perm_ext_iff_of_nodup (hnodup hl) (hnodup hl')).mpr h
  exact hperm.eq_of_pairwise (fun a b _ _ hab hba => absurd hba (hr a b hab)) hl hl'

end Sorted
end TowerAgent.Lib
