import TowerAgent.Lib.Retention
import TowerAgent.Mcp.Continuation

/-! The in-process store as the list of what it retains, in the order of minting: its map and its
queue stay two views of that list. -/
namespace TowerAgent.Mcp
open Lib Kernel
open Std (ExtTreeMap)

/-- Names with what they stand for, the oldest first. -/
abbrev Retained := List (ContinuationId × Entry)

namespace Retained

/-- Record a new name; at the capacity the oldest one makes room for it. -/
def mint (capacity : ℕ) (l : Retained) (id : ContinuationId) (entry : Entry) : Retained :=
  if l.length < capacity then l ++ [(id,entry)] else l.tail ++ [(id,entry)]

/-- The names that make room. -/
def evicts (capacity : ℕ) (l : Retained) : List ContinuationId :=
  if l.length < capacity then [] else (l.take 1).map Prod.fst

def forgetScope (l : Retained) (scope : Scope) : Retained :=
  l.filter (fun e => e.2.scope ≠ scope)

end Retained

/-- What is asked of a store; a name to mint is the one that is generated. -/
inductive StoreOp where
  | mint (id : ContinuationId) (session : SessionHandle) (scope : Scope)
  | resolve (id : ContinuationId) (scope : Scope)
  | forgetScope (scope : Scope)

namespace StoreOp

def minted : StoreOp → Option ContinuationId
  | .mint id _ _ => some id
  | _ => none

/-- The operations on the store; resolving leaves it as it is. -/
def apply (store : InMemoryContinuationStore) : StoreOp → InMemoryContinuationStore
  | .mint id session scope => store.mint id session scope
  | .resolve _ _ => store
  | .forgetScope scope => store.forgetScope scope

/-- The same operations on what is retained. -/
def applyTo (capacity : ℕ) (l : Retained) : StoreOp → Retained
  | .mint id session scope => l.mint capacity id ⟨scope,session⟩
  | .resolve _ _ => l
  | .forgetScope scope => l.forgetScope scope

end StoreOp

namespace State
variable {entries : ExtTreeMap ContinuationId Entry} {order : List ContinuationId} {l : Retained}

/-- The loop of `mint` drops what is beyond the capacity, from the front. -/
theorem shrink_lists (capacity : ℕ) (h : Lists entries order l) :
    Lists (shrink capacity entries order).entries (shrink capacity entries order).order
      (l.drop (l.length-capacity)) ∧
    dropped capacity entries order = (l.take (l.length-capacity)).map Prod.fst := by
  induction order generalizing entries l with
  | nil =>
    obtain rfl : l = [] := List.map_eq_nil_iff.mp h.order.symm
    rw [List.drop_nil,List.take_nil]
    exact ⟨h,rfl⟩
  | cons oldest order ih =>
    obtain ⟨v,rest,rfl,hrest⟩ := h.pop
    have hsize := h.size
    rw [List.length_cons] at hsize
    unfold shrink dropped
    split
    · rename_i hfull
      obtain ⟨hlists,hdropped⟩ := ih hrest
      rw [List.length_cons,show rest.length+1-capacity = rest.length-capacity+1 by omega]
      exact ⟨hlists,by rw [hdropped]; rfl⟩
    · rename_i hfull
      rw [List.length_cons,show rest.length+1-capacity = 0 by omega]
      exact ⟨h,rfl⟩

end State

/-- A store whose map and queue are those of a list within its capacity. -/
structure Retains (store : InMemoryContinuationStore) (l : Retained) : Prop where
  lists : Lists store.state.entries store.state.order l
  bounded : l.length ≤ store.capacity

namespace Retains
variable {store : InMemoryContinuationStore} {l : Retained} {id : ContinuationId} {scope : Scope}
  {session : SessionHandle}

theorem withCapacity (capacity : ℕ) (h : 0 < capacity) :
    Retains (.withCapacity capacity h) [] := ⟨.empty,Nat.zero_le _⟩

/-- Minting a new name appends it, and evicts exactly the oldest when the store is full. -/
theorem mint (h : Retains store l) (hid : id ∉ l.map Prod.fst) (session : SessionHandle)
    (scope : Scope) :
    Retains (store.mint id session scope) (l.mint store.capacity id ⟨scope,session⟩) ∧
    store.evicts id session scope = l.evicts store.capacity := by
  have hbound := h.bounded
  have hpos := store.capacity_pos
  have hpushed := h.lists.push hid ⟨scope,session⟩
  obtain ⟨hlists,hdropped⟩ := State.shrink_lists store.capacity hpushed
  rw [List.length_append,List.length_singleton] at hlists hdropped
  unfold Retained.mint Retained.evicts
  by_cases hroom : l.length < store.capacity
  · have hzero : l.length+1-store.capacity = 0 := by omega
    rw [if_pos hroom,if_pos hroom]
    rw [hzero] at hlists hdropped
    refine ⟨⟨hlists,?_⟩,hdropped⟩
    rw [List.length_append,List.length_singleton]
    exact hroom
  · -- the store is full, and holds at least one entry
    have hone : l.length+1-store.capacity = 1 := by omega
    rw [if_neg hroom,if_neg hroom]
    rw [hone] at hlists hdropped
    cases l with
    | nil => exact absurd hpos hroom
    | cons e l =>
      refine ⟨⟨hlists,?_⟩,hdropped⟩
      rw [List.tail_cons,List.length_append,List.length_singleton]
      exact hbound

theorem forgetScope (h : Retains store l) (scope : Scope) :
    Retains (store.forgetScope scope) (l.forgetScope scope) := by
  refine ⟨h.lists.filter (fun entry => entry.scope ≠ scope),?_⟩
  exact (List.length_filter_le _ _).trans h.bounded

theorem resolve_eq_some (h : Retains store l) :
    store.resolve id scope = some session ↔ (id,⟨scope,session⟩) ∈ l :=
  InMemoryContinuationStore.resolve_eq_some.trans (h.lists.entries id ⟨scope,session⟩)

end Retains

lemma mem_mint {capacity : ℕ} {l : Retained} {id k : ContinuationId} {entry : Entry}
    (h : k ∈ (l.mint capacity id entry).map Prod.fst) : k ∈ l.map Prod.fst ∨ k = id := by
  have hsub : (l.mint capacity id entry).map Prod.fst ⊆ (l ++ [(id,entry)]).map Prod.fst := by
    unfold Retained.mint
    split
    · exact List.Subset.refl _
    · exact ((List.tail_sublist l).append_right _).map _ |>.subset
  rw [List.map_append] at hsub
  exact (List.mem_append.mp (hsub h)).imp_right List.mem_singleton.mp

/-- What one operation keeps: the store follows the list, under names that were minted. -/
theorem retains_of_history (capacity : ℕ) (hpos : 0 < capacity) (ops : List StoreOp)
    (hfresh : (ops.filterMap StoreOp.minted).Nodup) :
    Retains (ops.foldl StoreOp.apply (.withCapacity capacity hpos))
      (ops.foldl (StoreOp.applyTo capacity) []) ∧
    (ops.foldl StoreOp.apply (.withCapacity capacity hpos)).capacity = capacity ∧
    ∀ k ∈ (ops.foldl (StoreOp.applyTo capacity) []).map Prod.fst,
      k ∈ ops.filterMap StoreOp.minted := by
  induction ops using List.reverseRecOn with
  | nil => exact ⟨.withCapacity capacity hpos,rfl,by simp⟩
  | append_singleton ops op ih =>
    rw [List.filterMap_append] at hfresh
    obtain ⟨hretains,hcap,hnames⟩ := ih (List.nodup_append.mp hfresh).1
    simp only [List.foldl_append, List.foldl_cons, List.foldl_nil, List.filterMap_append]
    cases op with
    | mint id session scope =>
      have hnew : id ∉ ops.filterMap StoreOp.minted := fun hm =>
        (List.nodup_append.mp hfresh).2.2 id hm id List.mem_cons_self rfl
      have hmint := (hretains.mint (fun hm => hnew (hnames id hm)) session scope).1
      rw [hcap] at hmint
      refine ⟨hmint,hcap,fun k hk => ?_⟩
      rcases mem_mint hk with hk | rfl
      · exact List.mem_append_left _ (hnames k hk)
      · exact List.mem_append_right _ List.mem_cons_self
    | resolve id scope =>
      exact ⟨hretains,hcap,fun k hk => List.mem_append_left _ (hnames k hk)⟩
    | forgetScope scope =>
      refine ⟨hretains.forgetScope scope,hcap,fun k hk => List.mem_append_left _ (hnames k ?_)⟩
      exact (List.filter_sublist.map _).subset hk

/-- In every history whose generated names are fresh, the store is the list of what it retains in
the order of minting: its queue and its map hold that list, each name once and never more than the
capacity; minting appends, evicting exactly the oldest once the store is full; forgetting a scope
removes its entries and leaves the others in order; and a name resolves within a scope to the
session that is retained with them. -/
theorem store_retains (capacity : ℕ) (hpos : 0 < capacity) (ops : List StoreOp)
    (hfresh : (ops.filterMap StoreOp.minted).Nodup) :
    let store := ops.foldl StoreOp.apply (.withCapacity capacity hpos)
    let l := ops.foldl (StoreOp.applyTo capacity) []
    store.state.order = l.map Prod.fst ∧ (l.map Prod.fst).Nodup ∧
    (∀ id entry, store.state.entries[id]? = some entry ↔ (id,entry) ∈ l) ∧
    store.state.entries.size = l.length ∧ l.length ≤ capacity ∧
    (∀ id session scope, id ∉ ops.filterMap StoreOp.minted →
      store.evicts id session scope = l.evicts capacity) ∧
    ∀ id scope session, store.resolve id scope = some session ↔ (id,⟨scope,session⟩) ∈ l := by
  obtain ⟨hretains,hcap,hnames⟩ := retains_of_history capacity hpos ops hfresh
  refine ⟨hretains.lists.order,hretains.lists.nodup,hretains.lists.entries,hretains.lists.size,
    hretains.bounded.trans_eq hcap,fun id session scope hid => ?_,
    fun id scope session => hretains.resolve_eq_some⟩
  have hevicts := (hretains.mint (fun hm => hid (hnames id hm)) session scope).2
  rwa [hcap] at hevicts

def olderId : ContinuationId := ⟨"older",by decide⟩
def newerId : ContinuationId := ⟨"newer",by decide⟩
def latestId : ContinuationId := ⟨"latest",by decide⟩

/-- Forgetting the scope of the older conversation makes room for a third one. -/
def forgettingOps : List StoreOp :=
  [.mint olderId ⟨"claude","s1"⟩ (.session "left"),.mint newerId ⟨"codex","s2"⟩ (.session "kept"),
    .forgetScope (.session "left"),.mint latestId ⟨"claude","s3"⟩ (.session "kept")]

theorem store_retains_sample :
    let store := forgettingOps.foldl StoreOp.apply (.withCapacity 2 (by decide))
    store.state.order = [newerId,latestId] ∧ store.state.entries.size = 2 ∧
    store.resolve newerId (.session "kept") = some ⟨"codex","s2"⟩ := by
  have hl : forgettingOps.foldl (StoreOp.applyTo 2) [] =
    [(newerId,⟨.session "kept",⟨"codex","s2"⟩⟩),(latestId,⟨.session "kept",⟨"claude","s3"⟩⟩)] := rfl
  obtain ⟨horder,-,-,hsize,-,-,hresolve⟩ :=
    store_retains 2 (by decide) forgettingOps (by decide +kernel)
  rw [hl] at horder hsize hresolve
  exact ⟨horder,hsize,(hresolve _ _ _).mpr List.mem_cons_self⟩

end TowerAgent.Mcp
