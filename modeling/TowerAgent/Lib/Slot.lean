import Mathlib.Algebra.Order.BigOperators.Group.List
import Mathlib.Algebra.GroupWithZero.Nat
import Mathlib.Algebra.Order.Group.Nat
import Mathlib.Data.List.Basic

/-! A list as a bank of slots: what replacing or removing one slot does to a property of all of
them, and to a sum of them. -/
namespace TowerAgent.Lib
variable {α : Type} {l : List α} {i : ℕ} {a b : α}

/-- A list around one of its slots: replacing it and removing it. -/
theorem exists_slot (h : l[i]? = some a) :
    ∃ front back, l = front ++ a::back ∧ (∀ b, l.set i b = front ++ b::back) ∧
      l.eraseIdx i = front ++ back := by
  obtain ⟨hi,rfl⟩ := List.getElem?_eq_some_iff.mp h
  refine ⟨l.take i,l.drop (i+1),?_,fun b => ?_,List.eraseIdx_eq_take_drop_succ l i⟩
  · rw [List.getElem_cons_drop,List.take_append_drop]
  · rw [List.set_eq_take_append_cons_drop,if_pos hi]

/-- Replacing a slot by one that has the property keeps it of all. -/
theorem forall_mem_slot {P : α → Prop} {front back : List α}
    (h : ∀ x ∈ front ++ a::back, P x) (hb : P b) : ∀ x ∈ front ++ b::back, P x := by
  intro x hx
  rcases List.mem_append.mp hx with hx | hx
  · exact h x (List.mem_append_left _ hx)
  · rcases List.mem_cons.mp hx with rfl | hx
    · exact hb
    · exact h x (List.mem_append_right _ (List.mem_cons_of_mem _ hx))

theorem forall_mem_set {P : α → Prop} (h : ∀ x ∈ l, P x) (hb : P b) : ∀ x ∈ l.set i b, P x := by
  intro x hx
  rcases List.mem_or_eq_of_mem_set hx with hx | rfl
  · exact h x hx
  · exact hb

theorem forall_mem_concat {P : α → Prop} (h : ∀ x ∈ l, P x) (hb : P b) : ∀ x ∈ l ++ [b], P x := by
  intro x hx
  rcases List.mem_append.mp hx with hx | hx
  · exact h x hx
  · exact List.mem_singleton.mp hx ▸ hb

/-- A sum over the slots changes by what the replaced slot contributes. -/
theorem sum_set (f : α → ℕ) (h : l[i]? = some a) (b : α) :
    ((l.set i b).map f).sum + f a = (l.map f).sum + f b := by
  obtain ⟨front,back,rfl,hset,-⟩ := exists_slot h
  rw [hset]
  simp only [List.map_append, List.map_cons, List.sum_append, List.sum_cons]
  omega

theorem sum_eraseIdx (f : α → ℕ) (h : l[i]? = some a) :
    ((l.eraseIdx i).map f).sum + f a = (l.map f).sum := by
  obtain ⟨front,back,rfl,-,herase⟩ := exists_slot h
  rw [herase]
  simp only [List.map_append, List.map_cons, List.sum_append, List.sum_cons]
  omega

/-- Counting slots is summing over them. -/
theorem countP_eq_sum (p : α → Bool) (l : List α) :
    l.countP p = (l.map fun x => (p x).toNat).sum := by
  induction l with
  | nil => rfl
  | cons a l ih =>
    rw [List.countP_cons,List.map_cons,List.sum_cons,ih,Nat.add_comm]
    cases p a <;> rfl

/-- Of two sums over the slots, one slot at a time below the other, the difference at one slot
remains between them. -/
theorem sum_gap {f g : α → ℕ} (h : l[i]? = some a) (hle : ∀ x ∈ l, f x ≤ g x) :
    (l.map f).sum + g a ≤ (l.map g).sum + f a := by
  obtain ⟨front,back,rfl,-,-⟩ := exists_slot h
  have hfront : (front.map f).sum ≤ (front.map g).sum :=
    List.sum_le_sum fun x hx => hle x (List.mem_append_left _ hx)
  have hback : (back.map f).sum ≤ (back.map g).sum :=
    List.sum_le_sum fun x hx => hle x (List.mem_append_right _ (List.mem_cons_of_mem _ hx))
  simp only [List.map_append, List.map_cons, List.sum_append, List.sum_cons]
  omega

/-- One slot contributes at most the sum. -/
theorem le_sum_slot (f : α → ℕ) (h : a ∈ l) : f a ≤ (l.map f).sum :=
  List.single_le_sum (fun _ _ => Nat.zero_le _) _ (List.mem_map_of_mem h)

end TowerAgent.Lib
