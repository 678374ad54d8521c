import TowerAgent.Kernel.Folding
import TowerAgent.Mcp.Projection

/-! The causes of a projected failure: a client that reads at one level that the turn may be
replayed reads the same at every level below. -/
namespace TowerAgent.Kernel

/-- The cause that many levels below an error. -/
def AgentError.causeAt (e : AgentError) : ℕ → Option AgentError
  | 0 => some e
  | n+1 => (e.causeAt n).bind AgentError.cause

/-- The causes below a folded error are folded errors, and less severe the deeper they are. -/
theorem Folding.causeAt_error (t : Folding) {m n : ℕ} (h : m ≤ n) {a b : AgentError}
    (ha : t.error.causeAt m = some a) (hb : t.error.causeAt n = some b) :
    (∃ t' : Folding, t'.error = b) ∧ b.effects ≤ a.effects := by
  have hfolded : ∀ k c, t.error.causeAt k = some c → ∃ t' : Folding, t'.error = c := by
    intro k
    induction k with
    | zero =>
      intro c hc
      exact ⟨t,Option.some.inj hc⟩
    | succ k ih =>
      intro c hc
      obtain ⟨d,hd,hc⟩ := Option.bind_eq_some_iff.mp hc
      obtain ⟨t',rfl⟩ := ih d hd
      obtain ⟨t'',ht,-⟩ := error_cause hc
      exact ⟨t'',ht⟩
  refine ⟨hfolded n b hb,?_⟩
  induction h generalizing b with
  | refl =>
    obtain rfl := Option.some.inj (ha.symm.trans hb)
    exact le_refl _
  | @step k _ ih =>
    obtain ⟨c,hc,hcause⟩ := Option.bind_eq_some_iff.mp hb
    obtain ⟨t',rfl⟩ := hfolded k c hc
    obtain ⟨-,-,hle⟩ := error_cause hcause
    exact hle.trans (ih hc)

end TowerAgent.Kernel

namespace TowerAgent.Mcp
open Lib Kernel

/-- The projection of the cause that many levels below a projected failure; null below the last. -/
def causeAt (value : Json) : ℕ → Option Json
  | 0 => some value
  | n+1 => (causeAt value n).bind (Json.get "cause")

/-- What a client reads on replaying the turn. -/
def replaySafe (value : Json) : Option Bool :=
  match value.get "replaySafe" with
  | some (.bool safe) => some safe
  | _ => none

section Levels
variable {p : Projection} {decimal : F64 → String}

theorem failureBody_replaySafe (e : AgentError) (continuation : Option ContinuationId) :
    replaySafe (p.failureBody decimal e continuation) = some (decide (e.effects = .none)) := by
  cases e
  unfold Projection.failureBody
  rfl

theorem failureBody_cause (e : AgentError) (continuation : Option ContinuationId) :
    (p.failureBody decimal e continuation).get "cause" = some (p.causeJson decimal e.cause) := by
  cases e
  unfold Projection.failureBody
  rfl

theorem causeJson_none : p.causeJson decimal none = .null := by
  unfold Projection.causeJson
  rfl

theorem causeJson_some (c : AgentError) :
    p.causeJson decimal (some c) = p.failureBody decimal c none := by
  rw [Projection.causeJson]

/-- The operation's identity is published beside the failure, which it leaves as it is. -/
theorem failure_get {key : String} (hkey : key ≠ "operationId") (e : AgentError)
    (operationId : UInt64) (continuation : Option ContinuationId) :
    (p.failure decimal e operationId continuation).get key =
      (p.failureBody decimal e continuation).get key := Json.get_insert_of_ne hkey _ _

/-- Each level of a projected failure projects the cause at that level, or is past the last. -/
theorem failure_causeAt (e : AgentError) (operationId : UInt64)
    (continuation : Option ContinuationId) {n : ℕ} {value : Json}
    (h : causeAt (p.failure decimal e operationId continuation) n = some value) :
    (∃ c, e.causeAt n = some c ∧ replaySafe value = some (decide (c.effects = .none)) ∧
      value.get "cause" = some (p.causeJson decimal c.cause)) ∨ value = .null := by
  induction n generalizing value with
  | zero =>
    obtain rfl := Option.some.inj h
    refine .inl ⟨e,rfl,?_,?_⟩
    · rw [replaySafe,failure_get (by decide)]
      exact failureBody_replaySafe e continuation
    · rw [failure_get (by decide)]
      exact failureBody_cause e continuation
  | succ n ih =>
    obtain ⟨above,habove,hvalue⟩ := Option.bind_eq_some_iff.mp h
    obtain ⟨c,hc,-,hcause⟩ | rfl := ih habove
    · rw [hcause] at hvalue
      obtain rfl := Option.some.inj hvalue
      cases hd : c.cause with
      | none => exact .inr causeJson_none
      | some d =>
        rw [causeJson_some]
        refine .inl ⟨d,?_,failureBody_replaySafe d none,failureBody_cause d none⟩
        rw [AgentError.causeAt,hc]
        exact hd
    · cases hvalue

end Levels

/-- Folding causes is a lawful merge: what a folded error establishes is the most severe effect
state, the first fact of each kind and the first guidance along its chain, however the fold was
bracketed; and where its projection tells a client that the turn may be replayed, every level below
tells the same. -/
theorem causes_lawful (t : Folding) :
    t.error.effects = (t.chain.map AgentError.effects).foldr max .none ∧
    (∀ field, t.error.binding field = t.chain.findSome? (fun e => e.binding field)) ∧
    t.error.retryAfter = t.chain.findSome? AgentError.retryAfter ∧
    (∀ d ∈ t.error.retryAfter, d ≤ maxRetryAfter) ∧
    (∀ a b c : AgentError,
      ((a.withCause b).withCause c).effects = (a.withCause (b.withCause c)).effects ∧
      ((a.withCause b).withCause c).evidence = (a.withCause (b.withCause c)).evidence ∧
      ((a.withCause b).withCause c).retryAfter = (a.withCause (b.withCause c)).retryAfter) ∧
    ∀ (p : Projection) (decimal : F64 → String) (operationId : UInt64)
      (continuation : Option ContinuationId) (m n : ℕ) (above below : Json), m ≤ n →
      causeAt (p.failure decimal t.error operationId continuation) m = some above →
      causeAt (p.failure decimal t.error operationId continuation) n = some below →
      replaySafe above = some true → below = .null ∨ replaySafe below = some true := by
  refine ⟨t.error_effects,t.error_binding,t.error_retryAfter,t.error_clamped,
    AgentError.withCause_assoc,?_⟩
  intro p decimal operationId continuation m n above below hmn habove hbelow hsafe
  obtain ⟨a,ha,hsafe',-⟩ | rfl := failure_causeAt _ _ _ habove
  · obtain ⟨b,hb,hsafe'',-⟩ | rfl := failure_causeAt _ _ _ hbelow
    · right
      have hnone : a.effects = .none := by simpa [hsafe'] using hsafe
      have hle := (t.causeAt_error hmn ha hb).2
      rw [hnone] at hle
      rw [hsafe'',le_antisymm hle b.effects.none_le]
      rfl
    · exact .inl rfl
  · cases hsafe

end TowerAgent.Mcp
