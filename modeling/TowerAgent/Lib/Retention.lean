import TowerAgent.Lib.Ordered

/-! A map together with the queue of its keys, as the one list of its entries in the order in which
they came. -/
namespace TowerAgent.Lib
open Std (ExtTreeMap)
variable {κ β : Type} [LinearOrder κ]

/-- A map and a queue of keys that hold the entries of one list, each key once. -/
structure Lists (entries : ExtTreeMap κ β) (order : List κ) (l : List (κ × β)) : Prop where
  order : order = l.map Prod.fst
  nodup : (l.map Prod.fst).Nodup
  entries : ∀ k v, entries[k]? = some v ↔ (k,v) ∈ l

namespace Lists
variable {entries : ExtTreeMap κ β} {order : List κ} {l : List (κ × β)} {k : κ} {v : β}

theorem empty : Lists (∅ : ExtTreeMap κ β) [] [] := ⟨rfl,List.nodup_nil,by simp⟩

/-- The map has as many entries as the list. -/
theorem size (h : Lists entries order l) : entries.size = l.length := by
  have hperm : entries.toList.Perm l := by
    refine (List.perm_ext_iff_of_nodup toList_nodup (List.Nodup.of_map _ h.nodup)).mpr ?_
    rintro ⟨k,v⟩
    rw [ExtTreeMap.mem_toList_iff_getElem?_eq_some,h.entries]
  rw [←ExtTreeMap.length_toList]
  exact hperm.length_eq

theorem mem_keys (h : Lists entries order l) : k ∈ entries.keys ↔ k ∈ l.map Prod.fst := by
  rw [ExtTreeMap.mem_keys,ExtTreeMap.mem_iff_isSome_getElem?,Option.isSome_iff_exists,List.mem_map]
  constructor
  · rintro ⟨v,hv⟩
    exact ⟨(k,v),(h.entries k v).mp hv,rfl⟩
  · rintro ⟨⟨k',v⟩,hm,rfl⟩
    exact ⟨v,(h.entries _ v).mpr hm⟩

/-- A new key goes to the end. -/
theorem push (h : Lists entries order l) (hk : k ∉ l.map Prod.fst) (v : β) :
    Lists (entries.insert k v) (order ++ [k]) (l ++ [(k,v)]) := by
  refine ⟨?_,?_,fun k' v' => ?_⟩
  · rw [h.order,List.map_append]
    rfl
  · rw [List.map_append]
    refine List.nodup_append.mpr ⟨h.nodup,List.nodup_singleton _,?_⟩
    rintro a ha b hb rfl
    obtain rfl := List.mem_singleton.mp hb
    exact hk ha
  · rw [getElem?_insert_eq,List.mem_append,List.mem_singleton,Prod.mk.injEq]
    split
    · rename_i hkk
      subst hkk
      constructor
      · intro hv
        exact .inr ⟨rfl,(Option.some.inj hv).symm⟩
      · rintro (hm | ⟨-,rfl⟩)
        · exact absurd (List.mem_map_of_mem hm) hk
        · rfl
    · rename_i hkk
      rw [h.entries]
      exact (or_iff_left fun hx => hkk hx.1.symm).symm

/-- The key at the front of the queue is the list's first. -/
theorem pop (h : Lists entries (k::order) l) :
    ∃ v rest, l = (k,v)::rest ∧ Lists (entries.erase k) order rest := by
  cases l with
  | nil => cases h.order
  | cons e rest =>
    obtain ⟨k',v⟩ := e
    obtain ⟨rfl,horder⟩ := List.cons.inj h.order
    have hnodup := h.nodup
    rw [List.map_cons,List.nodup_cons] at hnodup
    refine ⟨v,rest,rfl,horder,hnodup.2,fun a b => ?_⟩
    rw [ExtTreeMap.getElem?_erase]
    simp only [compare_eq_iff_eq]
    split
    · rename_i hk
      subst hk
      simp only [reduceCtorEq, false_iff]
      exact fun hm => hnodup.1 (List.mem_map.mpr ⟨_,hm,rfl⟩)
    · rename_i hk
      rw [h.entries,List.mem_cons,Prod.mk.injEq]
      exact or_iff_right fun hx => hk hx.1.symm

/-- Keeping the entries that pass a test, and then the keys that the map still has, keeps the order
of those that stay. -/
theorem filter (h : Lists entries order l) (p : β → Bool) :
    Lists (entries.filter fun _ v => p v)
      (order.filter fun k => (entries.filter fun _ v => p v).keys.contains k)
      (l.filter fun e => p e.2) := by
  have hentries : ∀ k v, (entries.filter fun _ v => p v)[k]? = some v ↔
      (k,v) ∈ l.filter fun e => p e.2 := by
    intro k v
    rw [ExtTreeMap.getElem?_filter',Option.filter_eq_some_iff,h.entries,List.mem_filter]
  have hnodup : ((l.filter fun e => p e.2).map Prod.fst).Nodup :=
    h.nodup.sublist (List.filter_sublist.map _)
  refine ⟨?_,hnodup,hentries⟩
  have hlists : Lists (entries.filter fun _ v => p v) _ (l.filter fun e => p e.2) :=
    ⟨rfl,hnodup,hentries⟩
  rw [h.order,List.filter_map]
  refine congrArg (List.map Prod.fst) (List.filter_congr fun e he => ?_)
  rw [Bool.eq_iff_iff,Function.comp_apply,List.contains_iff_mem,hlists.mem_keys,List.mem_map]
  constructor
  · rintro ⟨e',hm,hkey⟩
    obtain ⟨hm,hp⟩ := List.mem_filter.mp hm
    exact List.inj_on_of_nodup_map h.nodup hm he hkey ▸ hp
  · exact fun hp => ⟨e,List.mem_filter.mpr ⟨he,hp⟩,rfl⟩

end Lists
end TowerAgent.Lib
