import TowerAgent.Kernel.Error
import TowerAgent.Lib.Ordered
import TowerAgent.Lib.Text
import Mathlib.Data.String.Basic

/-! Public names of resumable conversations, the scopes they belong to, and the bounded in-process
store of them. -/
namespace TowerAgent.Mcp
open Lib Kernel
open Std (ExtTreeMap)

/-- The public name for a resumable conversation. -/
structure ContinuationId where
  asStr : String
  nonblank : Text.isBlank asStr = false

/-- The error of a blank identifier. -/
structure InvalidContinuationId where
  deriving DecidableEq, Repr

def InvalidContinuationId.display (_ : InvalidContinuationId) : String :=
  "continuation id must not be blank"

namespace ContinuationId

theorem asStr_injective : Function.Injective asStr := by
  rintro ⟨a,ha⟩ ⟨b,hb⟩ h
  cases h
  rfl

instance : LinearOrder ContinuationId := LinearOrder.lift' asStr asStr_injective

instance : Std.TransOrd ContinuationId := inferInstance

/-- Accept an identifier a client sent back. -/
def parse (value : String) : Except InvalidContinuationId ContinuationId :=
  if h : Text.isBlank value = false then .ok ⟨value,h⟩ else .error {}

theorem parse_eq_ok {value : String} {id : ContinuationId} :
    parse value = .ok id ↔ id.asStr = value := by
  unfold parse
  constructor
  · intro h
    split at h
    · cases h; rfl
    · cases h
  · rintro rfl
    simp [id.nonblank]

end ContinuationId

/-- What a continuation belongs to: one transport session, or one authenticated subject. -/
inductive Scope where
  | session (id : String)
  | principal (subject : String)
  deriving DecidableEq, Repr

/-- Why a continuation store could not answer. -/
inductive ContinuationError where
  | backend (text : String)
  deriving DecidableEq, Repr

def ContinuationError.display : ContinuationError → String
  | .backend text => "continuation store backend failed: " ++ text

/-- A store's answer to a name presented under a scope. -/
abbrev Resolver := ContinuationId → Scope → Except ContinuationError (Option SessionHandle)

/-- What one tool call asks of a continuation store. -/
structure ContinuationStore where
  mint : SessionHandle → Scope → Except ContinuationError ContinuationId
  resolve : Resolver

structure Entry where
  scope : Scope
  session : SessionHandle

/-- The entries of a store, and their names in the order of minting. -/
structure State where
  entries : ExtTreeMap ContinuationId Entry := ∅
  order : List ContinuationId := []

namespace State

/-- Every entry's name is in the queue, so that it can be dropped. -/
def Queued (s : State) : Prop := ∀ id ∈ s.entries, id ∈ s.order

/-- The loop of `mint`: pop names off the queue while there are too many entries. -/
def shrink (capacity : ℕ) (entries : ExtTreeMap ContinuationId Entry) :
    List ContinuationId → State
  | [] => ⟨entries,[]⟩
  | oldest::order =>
    if capacity < entries.size then shrink capacity (entries.erase oldest) order
    else ⟨entries,oldest::order⟩

/-- The names that the loop pops. -/
def dropped (capacity : ℕ) (entries : ExtTreeMap ContinuationId Entry) :
    List ContinuationId → List ContinuationId
  | [] => []
  | oldest::order =>
    if capacity < entries.size then oldest::dropped capacity (entries.erase oldest) order else []

/-- Record an entry under a name, at the end of the queue. -/
def push (s : State) (id : ContinuationId) (entry : Entry) : State :=
  ⟨s.entries.insert id entry,s.order ++ [id]⟩

/-- Drop every entry of a scope. -/
def forget (s : State) (scope : Scope) : State :=
  let entries := s.entries.filter (fun _ entry => entry.scope ≠ scope)
  ⟨entries,s.order.filter (fun id => entries.keys.contains id)⟩

variable {s : State} {capacity : ℕ} {entries : ExtTreeMap ContinuationId Entry}
  {order : List ContinuationId} {id : ContinuationId} {e : Entry}

lemma getElem?_erase_eq (k : ContinuationId) :
    (entries.erase k)[id]? = if k = id then none else entries[id]? := by
  rw [ExtTreeMap.getElem?_erase]
  simp only [compare_eq_iff_eq]

/-- What the loop leaves was there before, under a name it did not pop. -/
theorem shrink_some (h : (shrink capacity entries order).entries[id]? = some e) :
    entries[id]? = some e ∧ id ∉ dropped capacity entries order := by
  induction order generalizing entries with
  | nil => exact ⟨h,List.not_mem_nil⟩
  | cons oldest order ih =>
    unfold shrink at h
    unfold dropped
    split at h
    · rename_i hfull
      obtain ⟨he,hd⟩ := ih h
      rw [getElem?_erase_eq] at he
      split at he
      · cases he
      · rename_i hne
        refine ⟨he,?_⟩
        rw [if_pos hfull,List.mem_cons,not_or]
        exact ⟨Ne.symm hne,hd⟩
    · rename_i hfull
      rw [if_neg hfull]
      exact ⟨h,List.not_mem_nil⟩

/-- Popping a name and removing its entry leaves the other names in the queue. -/
lemma queued_erase {oldest : ContinuationId} (h : Queued ⟨entries,oldest::order⟩) :
    Queued ⟨entries.erase oldest,order⟩ := by
  intro id hid
  obtain ⟨hne,hid⟩ := ExtTreeMap.mem_erase.mp hid
  rw [ne_eq,compare_eq_iff_eq] at hne
  exact (List.mem_cons.mp (h id hid)).resolve_left (Ne.symm hne)

theorem shrink_queued (h : Queued ⟨entries,order⟩) : (shrink capacity entries order).Queued := by
  induction order generalizing entries with
  | nil => exact h
  | cons oldest order ih =>
    unfold shrink
    split
    · exact ih (queued_erase h)
    · exact h

/-- The loop ends within the capacity, since it can pop every entry. -/
theorem shrink_bounded (h : Queued ⟨entries,order⟩) :
    (shrink capacity entries order).entries.size ≤ capacity := by
  induction order generalizing entries with
  | nil =>
    have hempty : entries = ∅ :=
      ExtTreeMap.eq_empty_iff_forall_not_mem.mpr (fun id hid => List.not_mem_nil (h id hid))
    subst hempty
    exact Nat.zero_le _
  | cons oldest order ih =>
    unfold shrink
    split
    · exact ih (queued_erase h)
    · rename_i hfull
      exact Nat.le_of_not_lt hfull

theorem push_queued (h : s.Queued) : (s.push id e).Queued := by
  intro k hk
  rcases ExtTreeMap.mem_insert.mp hk with hk | hk
  · exact List.mem_append_right _ (List.mem_singleton.mpr (compare_eq_iff_eq.mp hk).symm)
  · exact List.mem_append_left _ (h k hk)

/-- Forgetting a scope keeps the other entries as they were. -/
theorem forget_some {scope : Scope} : (s.forget scope).entries[id]? = some e ↔
    s.entries[id]? = some e ∧ e.scope ≠ scope := by
  unfold forget
  rw [ExtTreeMap.getElem?_filter']
  simp [Option.filter_eq_some_iff]

theorem forget_queued {scope : Scope} (h : s.Queued) : (s.forget scope).Queued := by
  intro id hid
  refine List.mem_filter.mpr ⟨h id (ExtTreeMap.mem_of_mem_filter hid),?_⟩
  exact List.contains_iff_mem.mpr (ExtTreeMap.mem_keys.mpr hid)

end State

/-- A bounded in-process store. -/
structure InMemoryContinuationStore where
  capacity : ℕ
  capacity_pos : 0 < capacity
  state : State
  queued : state.Queued
  bounded : state.entries.size ≤ capacity

namespace InMemoryContinuationStore

/-- An empty store holding at most `capacity` continuations. -/
def withCapacity (capacity : ℕ) (h : 0 < capacity) : InMemoryContinuationStore where
  capacity := capacity
  capacity_pos := h
  state := {}
  queued _ hid := absurd hid ExtTreeMap.not_mem_empty
  bounded := Nat.zero_le _

variable (store : InMemoryContinuationStore)

/-- Record `session` under a generated name, and drop the oldest names beyond the capacity. -/
def mint (id : ContinuationId) (session : SessionHandle) (scope : Scope) :
    InMemoryContinuationStore :=
  let pushed := store.state.push id ⟨scope,session⟩
  { store with
    state := .shrink store.capacity pushed.entries pushed.order
    queued := State.shrink_queued (State.push_queued store.queued)
    bounded := State.shrink_bounded (State.push_queued store.queued) }

/-- The names that minting under a generated name drops. -/
def evicts (id : ContinuationId) (session : SessionHandle) (scope : Scope) : List ContinuationId :=
  let pushed := store.state.push id ⟨scope,session⟩
  State.dropped store.capacity pushed.entries pushed.order

/-- The session a name stands for within a scope. -/
def resolve (id : ContinuationId) (scope : Scope) : Option SessionHandle :=
  store.state.entries[id]?.bind fun entry =>
    if entry.scope = scope then some entry.session else none

/-- The store's answers as a tool call gets them; this store never fails. -/
def resolver : Resolver := fun id scope => .ok (store.resolve id scope)

def forgetScope (scope : Scope) : InMemoryContinuationStore :=
  { store with
    state := store.state.forget scope
    queued := State.forget_queued store.queued
    bounded := ExtTreeMap.size_filter_le_size.trans store.bounded }

variable {store} {id : ContinuationId} {scope : Scope} {session : SessionHandle}

theorem resolve_eq_some :
    store.resolve id scope = some session ↔ store.state.entries[id]? = some ⟨scope,session⟩ := by
  unfold resolve
  cases store.state.entries[id]? with
  | none => simp
  | some e =>
    obtain ⟨sc,s⟩ := e
    simp

/-- An entry after a mint is the new one, or an earlier one, under a name that was not dropped. -/
theorem mint_some {k : ContinuationId} {e : Entry}
    (h : (store.mint id session scope).state.entries[k]? = some e) :
    ((k = id ∧ e = ⟨scope,session⟩) ∨ store.state.entries[k]? = some e) ∧
      k ∉ store.evicts id session scope := by
  obtain ⟨he,hd⟩ := State.shrink_some h
  refine ⟨?_,hd⟩
  rw [State.push,getElem?_insert_eq] at he
  split at he
  · rename_i hk
    exact .inl ⟨hk.symm,(Option.some.inj he).symm⟩
  · exact .inr he

end InMemoryContinuationStore
end TowerAgent.Mcp
