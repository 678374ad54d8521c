import Mathlib.Order.Compare
import Mathlib.Data.List.Sort
import Mathlib.Data.Finset.Card

/-! Ordered maps and sets over a linear order, and removal of the least element. -/
namespace TowerAgent.Lib
open Std (ExtTreeMap ExtTreeSet LawfulEqOrd)

variable {α β γ : Type*}

instance instLawfulEqOrd [LinearOrder α] : LawfulEqOrd α := ⟨fun h => compare_eq_iff_eq.mp h⟩

/-- Remove the least element of an ordered set, if there is one. -/
def popFirst [LinearOrder α] (s : ExtTreeSet α) : Option (α × ExtTreeSet α) :=
  match s.toList with
  | [] => none
  | a::_ => some (a,s.erase a)

/-- Collect a list into an ordered set. -/
def collectSet [LinearOrder α] (l : List α) : ExtTreeSet α := l.foldr (fun a s => s.insert a) ∅

section PopFirst
variable [LinearOrder α] {s t : ExtTreeSet α} {a : α}

lemma toList_sorted : s.toList.Pairwise (· < ·) :=
  ExtTreeSet.ordered_toList.imp (fun h => compare_lt_iff_lt.mp h)

lemma popFirst_eq_none : popFirst s = none ↔ ∀ a, a ∉ s := by
  unfold popFirst
  cases h : s.toList with
  | nil => simp [←ExtTreeSet.mem_toList, h]
  | cons a l =>
    have ha : a ∈ s := ExtTreeSet.mem_toList.mp (by simp [h])
    simp only [reduceCtorEq, false_iff, not_forall, not_not]
    exact ⟨a,ha⟩

lemma popFirst_eq_some (h : popFirst s = some (a,t)) :
    a ∈ s ∧ (∀ b ∈ s, a ≤ b) ∧ t = s.erase a := by
  unfold popFirst at h
  cases hl : s.toList with
  | nil => simp [hl] at h
  | cons m l =>
    simp only [hl, Option.some.injEq, Prod.mk.injEq] at h
    obtain ⟨rfl,rfl⟩ := h
    have hs := toList_sorted (s := s)
    rw [hl,List.pairwise_cons] at hs
    refine ⟨ExtTreeSet.mem_toList.mp (by simp [hl]),fun b hb => ?_,rfl⟩
    rw [←ExtTreeSet.mem_toList,hl] at hb
    rcases List.mem_cons.mp hb with rfl | hb
    · exact le_refl _
    · exact (hs.1 b hb).le

@[simp] lemma mem_erase_iff {b : α} : b ∈ s.erase a ↔ b ≠ a ∧ b ∈ s := by
  rw [ExtTreeSet.mem_erase,ne_eq,compare_eq_iff_eq,eq_comm]

@[simp] lemma mem_insert_iff {b : α} : b ∈ s.insert a ↔ b = a ∨ b ∈ s := by
  rw [ExtTreeSet.mem_insert,compare_eq_iff_eq,eq_comm]

@[simp] lemma mem_collectSet {l : List α} : a ∈ collectSet l ↔ a ∈ l := by
  induction l with
  | nil => simp [collectSet]
  | cons b l ih =>
    change a ∈ (collectSet l).insert b ↔ _
    rw [mem_insert_iff,ih,List.mem_cons]

lemma mem_of_popFirst (h : popFirst s = some (a,t)) {b : α} : b ∈ t ↔ b ≠ a ∧ b ∈ s := by
  obtain ⟨-,-,rfl⟩ := popFirst_eq_some h
  exact mem_erase_iff

end PopFirst

section Maps
variable [LinearOrder α] {m : ExtTreeMap α β} {k l : α}

lemma getElem?_insert_eq (v : β) : (m.insert k v)[l]? = if k = l then some v else m[l]? := by
  rw [ExtTreeMap.getElem?_insert]
  simp only [compare_eq_iff_eq]

lemma keys_sorted : m.keys.Pairwise (· < ·) :=
  ExtTreeMap.ordered_keys.imp (fun h => compare_lt_iff_lt.mp h)

lemma keys_nodup : m.keys.Nodup := keys_sorted.imp (fun h => h.ne)

/-- The values, in key order. -/
def valuesOf (m : ExtTreeMap α β) : List β := m.toList.map Prod.snd

lemma mem_valuesOf {v : β} : v ∈ valuesOf m ↔ ∃ k : α, m[k]? = some v := by
  simp only [valuesOf, List.mem_map, Prod.exists, ExtTreeMap.mem_toList_iff_getElem?_eq_some,
    exists_eq_right]

/-- The keys a predicate on values selects, in key order. -/
def keysWhere (m : ExtTreeMap α β) (p : β → Bool) : List α :=
  m.toList.filterMap (fun e => if p e.2 then some e.1 else none)

lemma mem_keysWhere {p : β → Bool} : k ∈ keysWhere m p ↔ ∃ v, m[k]? = some v ∧ p v := by
  unfold keysWhere
  simp only [List.mem_filterMap, Prod.exists, Option.ite_none_right_eq_some, Option.some.injEq,
    ExtTreeMap.mem_toList_iff_getElem?_eq_some]
  constructor
  · rintro ⟨a,v,hv,hp,rfl⟩
    exact ⟨v,hv,hp⟩
  · rintro ⟨v,hv,hp⟩
    exact ⟨k,v,hv,hp,rfl⟩

lemma keysWhere_sorted (p : β → Bool) : (keysWhere m p).Pairwise (· < ·) := by
  unfold keysWhere
  rw [List.pairwise_filterMap]
  refine ExtTreeMap.ordered_keys_toList.imp fun {a b} hab => ?_
  rintro x hx y hy
  simp only [Option.ite_none_right_eq_some, Option.some.injEq] at hx hy
  obtain ⟨-,rfl⟩ := hx
  obtain ⟨-,rfl⟩ := hy
  exact compare_lt_iff_lt.mp hab

lemma toList_empty : (∅ : ExtTreeMap α β).toList = [] := by
  rw [←List.isEmpty_iff,ExtTreeMap.isEmpty_toList]
  rfl

lemma keys_empty : (∅ : ExtTreeMap α β).keys = [] := by
  rw [←List.isEmpty_iff,ExtTreeMap.isEmpty_keys]
  rfl

lemma toList_nodup : m.toList.Nodup :=
  ExtTreeMap.ordered_keys_toList.imp (fun h he => by simp [he] at h)

/-- A new key adds exactly its own entry. -/
lemma toList_insert_perm (h : k ∉ m) (v : β) : (m.insert k v).toList.Perm ((k,v)::m.toList) := by
  have hnone : m[k]? = none := ExtTreeMap.getElem?_eq_none h
  have hk : (k,v) ∉ m.toList := by
    rw [ExtTreeMap.mem_toList_iff_getElem?_eq_some,hnone]
    simp
  rw [List.perm_ext_iff_of_nodup toList_nodup (List.nodup_cons.mpr ⟨hk,toList_nodup⟩)]
  rintro ⟨a,b⟩
  rw [List.mem_cons,ExtTreeMap.mem_toList_iff_getElem?_eq_some,
    ExtTreeMap.mem_toList_iff_getElem?_eq_some,getElem?_insert_eq]
  by_cases hka : k = a
  · subst hka
    simp [hnone, eq_comm]
  · simp [hka, Ne.symm hka]

lemma size_eq_card_keys : m.size = m.keys.toFinset.card := by
  rw [List.toFinset_card_of_nodup keys_nodup,ExtTreeMap.length_keys]

lemma toFinset_keys_insert (k : α) (v : β) :
    (m.insert k v).keys.toFinset = insert k m.keys.toFinset := by
  ext x
  rw [List.mem_toFinset,ExtTreeMap.mem_keys,Finset.mem_insert,List.mem_toFinset,
    ExtTreeMap.mem_keys,ExtTreeMap.mem_insert,compare_eq_iff_eq,eq_comm]

end Maps

lemma sort_perm [LinearOrder α] (l : List α) : (l.insertionSort (· ≤ ·)).Perm l :=
  List.perm_insertionSort _ l

/-- Sorting a duplicate-free list gives a strictly increasing one. -/
lemma sort_strict [LinearOrder α] {l : List α} (h : l.Nodup) :
    (l.insertionSort (· ≤ ·)).Pairwise (· < ·) := by
  have hs : (l.insertionSort (· ≤ ·)).Pairwise (· ≤ ·) := List.pairwise_insertionSort _ l
  have hn : (l.insertionSort (· ≤ ·)).Nodup := (sort_perm l).nodup_iff.mpr h
  exact List.Pairwise.imp₂ (fun a b hle hne => lt_of_le_of_ne hle hne) hs hn

lemma exists_right_of_forall₂ {R : α → β → Prop} {l : List α} {m : List β} (h : List.Forall₂ R l m)
    {a : α} (ha : a ∈ l) : ∃ b ∈ m, R a b := by
  induction h with
  | nil => simp at ha
  | cons hab _ ih =>
    rcases List.mem_cons.mp ha with rfl | ha
    · exact ⟨_,List.mem_cons_self,hab⟩
    · obtain ⟨b,hb,hr⟩ := ih ha
      exact ⟨b,List.mem_cons_of_mem _ hb,hr⟩

lemma exists_left_of_forall₂ {R : α → β → Prop} {l : List α} {m : List β} (h : List.Forall₂ R l m)
    {b : β} (hb : b ∈ m) : ∃ a ∈ l, R a b := exists_right_of_forall₂ h.flip hb

end TowerAgent.Lib
