import Mathlib.Data.List.Chain
import Mathlib.Data.List.Lex
import Mathlib.Logic.Relation
import Mathlib.Order.WellFounded
import Mathlib.Data.Fintype.Card
import Mathlib.Data.Set.Finite.Basic

/-! Topological orders and cycles of a relation, read as "x needs y". -/
namespace TowerAgent.Lib.Digraph
open Relation

variable {α : Type*} (r : α → α → Prop)

/-- Every element comes after everything it needs. -/
def Ordered (l : List α) : Prop :=
  ∀ before x after, l = before ++ x::after → ∀ y, r x y → y ∈ before

/-- On a cycle, or transitively needing an element of one. -/
def Blocked (x : α) : Prop := ∃ c, ReflTransGen r x c ∧ TransGen r c c

/-- No element transitively needs itself. -/
def Acyclic : Prop := ∀ x, ¬ TransGen r x x

variable {r}

lemma ordered_nil : Ordered r [] := by
  intro before x after h
  simp at h

/-- An order is extended by an element whose needs it already lists. -/
lemma Ordered.concat {l : List α} {x : α} (h : Ordered r l) (hx : ∀ y, r x y → y ∈ l) :
    Ordered r (l ++ [x]) := by
  intro before z after he y hy
  rcases List.eq_nil_or_concat after with rfl | ⟨after',w,rfl⟩
  · obtain ⟨rfl,hz⟩ := List.append_inj' he rfl
    obtain rfl : x = z := by simpa using hz
    exact hx y hy
  · rw [List.concat_eq_append,←List.cons_append,←List.append_assoc] at he
    exact h before z after' (List.append_inj_left' he rfl) y hy

lemma Ordered.of_concat {l : List α} {x : α} (h : Ordered r (l ++ [x])) :
    Ordered r l ∧ ∀ y, r x y → y ∈ l := by
  refine ⟨fun before z after he => ?_,h l x [] rfl⟩
  exact h before z (after ++ [x]) (by simp [he])

/-- Induction along a topological order: a property passes from the needs to the element. -/
theorem Ordered.induction {l : List α} (h : Ordered r l) {P : α → Prop}
    (hP : ∀ x, (∀ y, r x y → P y) → P x) : ∀ x ∈ l, P x := by
  induction l using List.reverseRecOn with
  | nil => simp
  | append_singleton l z ih =>
    obtain ⟨hl,hz⟩ := h.of_concat
    intro x hx
    rcases List.mem_append.mp hx with hx | hx
    · exact ih hl x hx
    · obtain rfl := List.mem_singleton.mp hx
      exact hP x (fun y hy => ih hl y (hz y hy))

lemma Ordered.mem_of_rel {l : List α} (h : Ordered r l) {x y : α} (hx : x ∈ l) (hy : r x y) :
    y ∈ l := by
  obtain ⟨before,after,rfl⟩ := List.append_of_mem hx
  exact List.mem_append_left _ (h before x after rfl y hy)

/-- An order is carried along a map that neither loses nor adds needs. -/
lemma Ordered.map {β : Type*} {s : β → β → Prop} {f : α → β} {l : List α} (h : Ordered r l)
    (hs : ∀ x b, s (f x) b → ∃ y, b = f y ∧ r x y) : Ordered s (l.map f) := by
  induction l using List.reverseRecOn with
  | nil => exact ordered_nil
  | append_singleton l z ih =>
    obtain ⟨hl,hz⟩ := h.of_concat
    rw [List.map_append,List.map_singleton]
    refine (ih hl).concat fun b hb => ?_
    obtain ⟨y,rfl,hy⟩ := hs z b hb
    exact List.mem_map_of_mem (hz y hy)

/-- A chain, each element needing the one before it, has no other order: the next element of one
cannot stand before the element it needs. -/
theorem Ordered.eq_of_chain {before l t : List α} (hl : l.IsChain (fun y x => r x y))
    (hn : (before ++ l).Nodup) (hp : t.Perm l) (ho : Ordered r (before ++ t)) : t = l := by
  induction l generalizing before t with
  | nil => exact hp.eq_nil
  | cons x l ih =>
    cases t with
    | nil => exact absurd hp.length_eq (by simp)
    | cons y t =>
      rcases List.mem_cons.mp (hp.mem_iff.mp List.mem_cons_self) with rfl | hy
      · have hnodup : (before ++ [y] ++ l).Nodup := by simpa using hn
        have hordered : Ordered r (before ++ [y] ++ t) := by simpa using ho
        have htail : t = l := ih hl.tail hnodup (List.perm_cons y |>.mp hp) hordered
        rw [htail]
      · -- the predecessor of `y` in the chain would have to be listed already
        obtain ⟨before',after,rfl⟩ := List.append_of_mem hy
        obtain ⟨z,hz,hyz⟩ : ∃ z ∈ x::before', r y z := by
          rw [←List.cons_append,List.isChain_append] at hl
          exact ⟨_,List.getLast_mem (List.cons_ne_nil x before'),
            hl.2.2 _ (List.getLast?_eq_getLast_of_ne_nil _) y rfl⟩
        have hzb : z ∈ before := ho before y t rfl z hyz
        have hzl : z ∈ x::(before' ++ y::after) := by
          rw [←List.cons_append]
          exact List.mem_append_left _ hz
        exact absurd rfl ((List.nodup_append.mp hn).2.2 z hzb z hzl)

lemma Blocked.exists_rel {x : α} (h : Blocked r x) : ∃ y, r x y ∧ Blocked r y := by
  obtain ⟨c,hc,hcc⟩ := h
  rcases hc.cases_head with rfl | ⟨y,hxy,hyc⟩
  · obtain ⟨y,hxy,hyx⟩ := TransGen.head'_iff.mp hcc
    exact ⟨y,hxy,x,hyx,hcc⟩
  · exact ⟨y,hxy,c,hyc,hcc⟩

/-- Nothing listed by a topological order is blocked. -/
theorem Ordered.not_blocked {l : List α} (h : Ordered r l) : ∀ x ∈ l, ¬ Blocked r x := by
  refine h.induction fun x hx hb => ?_
  obtain ⟨y,hy,hby⟩ := hb.exists_rel
  exact hx y hy hby

lemma acyclic_iff_not_blocked : Acyclic r ↔ ∀ x, ¬ Blocked r x := by
  constructor
  · rintro h x ⟨c,-,hc⟩
    exact h c hc
  · exact fun h x hx => h x ⟨x,.refl,hx⟩

/-- In a finite set where everything needs something in the set, everything is blocked. -/
theorem blocked_of_forall_exists {s : Finset α} (h : ∀ x ∈ s, ∃ y ∈ s, r x y) :
    ∀ x ∈ s, Blocked r x := by
  intro x hx
  by_contra hb
  -- What is reachable from `x` inside `s` has no cycle, so some element of it needs nothing there.
  let t := {y : s // ReflTransGen r x y.val}
  have irrefl : ∀ y : t, ¬ TransGen r y.val.val y.val.val :=
    fun y hy => hb ⟨y.val.val,y.property,hy⟩
  let R : t → t → Prop := fun b a => TransGen r a.val.val b.val.val
  have : IsTrans t R := ⟨fun a b c hab hbc => TransGen.trans hbc hab⟩
  have : Std.Irrefl R := ⟨irrefl⟩
  have wf : WellFounded R := Finite.wellFounded_of_trans_of_irrefl R
  obtain ⟨m,-,hm⟩ := wf.has_min Set.univ ⟨⟨⟨x,hx⟩,.refl⟩,trivial⟩
  obtain ⟨y,hy,hmy⟩ := h m.val.val m.val.property
  exact hm ⟨⟨y,hy⟩,m.property.tail hmy⟩ trivial (.single hmy)

section Embedding
variable {β : Type*} {s : β → β → Prop} {f : α → β} (hf : Function.Injective f)
  (hr : ∀ x y, r x y → s (f x) (f y)) (hs : ∀ x b, s (f x) b → ∃ y, b = f y ∧ r x y)
include hs

lemma reaches_of_embedding {x : α} {b : β} (h : ReflTransGen s (f x) b) :
    ∃ y, b = f y ∧ ReflTransGen r x y := by
  induction h with
  | refl => exact ⟨x,rfl,.refl⟩
  | tail _ hbc ih =>
    obtain ⟨y,rfl,hxy⟩ := ih
    obtain ⟨z,rfl,hyz⟩ := hs y _ hbc
    exact ⟨z,rfl,hxy.tail hyz⟩

include hf hr

/-- Being blocked is invariant under an embedding onto a successor-closed set. -/
theorem blocked_embedding {x : α} : Blocked s (f x) ↔ Blocked r x := by
  constructor
  · rintro ⟨c,hc,hcc⟩
    obtain ⟨y,rfl,hxy⟩ := reaches_of_embedding hs hc
    obtain ⟨b,hyb,hby⟩ := TransGen.head'_iff.mp hcc
    obtain ⟨z,rfl,hyz⟩ := hs y b hyb
    obtain ⟨w,hw,hzw⟩ := reaches_of_embedding hs hby
    obtain rfl := hf hw
    exact ⟨y,hxy,.head' hyz hzw⟩
  · rintro ⟨c,hc,hcc⟩
    exact ⟨f c,hc.lift f hr,hcc.lift f hr⟩

end Embedding
section Greedy
variable [LinearOrder α]

/-- Every position holds the least of the unlisted elements of a set whose needs stand before it. -/
def Greedy (r : α → α → Prop) (s : α → Prop) (l : List α) : Prop :=
  ∀ before x after, l = before ++ x::after →
    ∀ y, s y → y ∉ before → (∀ z, r y z → z ∈ before) → x ≤ y

variable {s : α → Prop}

lemma greedy_nil : Greedy r s [] := by
  intro before x after h
  simp at h

/-- A greedy order is extended by the least element that is available. -/
lemma Greedy.concat {l : List α} {x : α} (h : Greedy r s l)
    (hx : ∀ y, s y → y ∉ l → (∀ z, r y z → z ∈ l) → x ≤ y) : Greedy r s (l ++ [x]) := by
  intro before z after he
  rcases List.eq_nil_or_concat after with rfl | ⟨after',w,rfl⟩
  · obtain ⟨rfl,hz⟩ := List.append_inj' he rfl
    obtain rfl : x = z := by simpa using hz
    exact hx
  · rw [List.concat_eq_append,←List.cons_append,←List.append_assoc] at he
    exact h before z after' (List.append_inj_left' he rfl)

/-- After a common beginning no topological order continues with less than the greedy one: where
they part, the other order's element was available too. -/
lemma Greedy.not_lex {before l t : List α} (hg : Greedy r s (before ++ l))
    (ho : Ordered r (before ++ t)) (hn : (before ++ t).Nodup) (hs : ∀ y ∈ t, s y)
    (hlen : l.length = t.length) : ¬ List.Lex (· < ·) t l := by
  induction l generalizing before t with
  | nil => exact fun h => nomatch h
  | cons x l ih =>
    cases t with
    | nil => simp at hlen
    | cons y t =>
      intro hlex
      cases hlex with
      | cons hlex =>
        have hgreedy : Greedy r s (before ++ [x] ++ l) := by simpa using hg
        have hordered : Ordered r (before ++ [x] ++ t) := by simpa using ho
        have hnodup : (before ++ [x] ++ t).Nodup := by simpa using hn
        exact ih hgreedy hordered hnodup (fun z hz => hs z (List.mem_cons_of_mem _ hz))
          (by simpa using hlen) hlex
      | rel hyx =>
        have hfresh : y ∉ before := fun hy =>
          (List.nodup_append.mp hn).2.2 y hy y List.mem_cons_self rfl
        have hxy : x ≤ y := hg before x l rfl y (hs y List.mem_cons_self) hfresh (ho before y t rfl)
        exact absurd hyx (not_lt.mpr hxy)

/-- The greedy order is the lexicographically least topological order of its elements. -/
theorem Greedy.le {l t : List α} (hg : Greedy r s l) (ho : Ordered r t) (hn : t.Nodup)
    (hs : ∀ y ∈ t, s y) (hlen : l.length = t.length) : l ≤ t :=
  not_lt.mp (Greedy.not_lex (show Greedy r s ([] ++ l) from hg) ho hn hs hlen)

end Greedy
end TowerAgent.Lib.Digraph
