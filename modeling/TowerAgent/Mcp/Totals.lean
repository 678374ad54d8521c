import TowerAgent.Lib.Checked
import TowerAgent.Mcp.Causes
import Mathlib.Data.List.ReduceOption

/-! The totals of published accounting: a total that no bucket reports is summed while a terminal
result or a progress event is projected, in 64 bits, with or without overflow checks. -/
namespace TowerAgent.Kernel.TokenUsage
open Lib Lib.OverflowChecks
variable (u : TokenUsage)

/-- `total()` as a build computes it; `none` is a panic. -/
def totalIn (checks : OverflowChecks) : Option (Option UInt64) :=
  match u.providerTotal with
  | some total => some (some total)
  | none =>
    if u.buckets.any Option.isSome then (checks.sum u.buckets.reduceOption).map some
    else some none

/-- The reported total, or else the mathematical sum of what was reported. -/
def exactTotal : Option ℕ :=
  (u.providerTotal.map UInt64.toNat).or
    (if u.buckets.any Option.isSome then some (exactSum u.buckets.reduceOption) else none)

/-- The accounting brings its own total, or its buckets sum to one that 64 bits hold. -/
def Fits : Prop := u.providerTotal = none → exactSum u.buckets.reduceOption < 2^64

/-- A build without overflow checks computes the wrapped total. -/
theorem totalIn_off : u.totalIn .off = some u.total := by
  unfold totalIn total
  cases u.providerTotal with
  | some total => rfl
  | none =>
    dsimp only
    rw [sum_off]
    split <;> rfl

lemma buckets_eq_nil (h : ¬ u.buckets.any Option.isSome = true) : u.buckets.reduceOption = [] := by
  refine List.eq_nil_iff_forall_not_mem.mpr fun n hn => h ?_
  exact List.any_eq_true.mpr ⟨some n,List.reduceOption_mem_iff.mp hn,rfl⟩

/-- A total is exact precisely when the accounting fits. -/
theorem totalIn_exact (checks : OverflowChecks) :
    (u.totalIn checks).map (Option.map UInt64.toNat) = some u.exactTotal ↔ u.Fits := by
  unfold totalIn exactTotal Fits
  cases u.providerTotal with
  | some total => simp
  | none =>
    dsimp only
    have hsum : exactSum u.buckets.reduceOption < 2^64 ↔
        ∃ s, checks.sum u.buckets.reduceOption = some s ∧
          s.toNat = exactSum u.buckets.reduceOption := sum_exact.symm
    rw [hsum,Option.map_none,Option.none_or]
    split
    · next h => simp [Option.map_eq_some_iff]
    · next h =>
      rw [u.buckets_eq_nil h]
      simp [sum, exactSum]

/-- With overflow checks, an accounting that does not fit has a panic for its total. -/
theorem totalIn_on : u.totalIn .on = none ↔ ¬ u.Fits := by
  unfold totalIn Fits
  cases u.providerTotal with
  | some total => simp
  | none =>
    dsimp only
    split
    · rw [Option.map_eq_none_iff,sum_on]
      simp
    · next h =>
      rw [u.buckets_eq_nil h]
      simp [exactSum]

end TowerAgent.Kernel.TokenUsage

namespace TowerAgent.Mcp
open Lib Kernel Adapter

/-- How a projection comes by a total: the outer `none` is a panic. -/
abbrev Totals := TokenUsage → Option (Option ℕ)

/-- The totals that a build computes. -/
def machineTotals (checks : OverflowChecks) : Totals :=
  fun u => (u.totalIn checks).map (Option.map UInt64.toNat)

/-- The totals without a bound on their width. -/
def exactTotals : Totals := fun u => some u.exactTotal

/-- `usage_json`, which computes the total. -/
def usageJsonWith (totals : Totals) : Option TokenUsage → Option Json
  | none => some .null
  | some usage => do
    let total ← totals usage
    return .object [
      ("input",.ofOption u64Json usage.input),
      ("cachedInput",.ofOption u64Json usage.cachedInput),
      ("cacheWriteInput",.ofOption u64Json usage.cacheWriteInput),
      ("output",.ofOption u64Json usage.output),
      ("reasoningOutput",.ofOption u64Json usage.reasoningOutput),
      ("total",.ofOption Json.nat total)]

def evidenceJsonWith (totals : Totals) (decimal : F64 → String)
    (evidence : Option FailureEvidence) (continuation : Option ContinuationId) : Option Json := do
  let usage ← usageJsonWith totals (evidence.bind FailureEvidence.usage)
  return .object [
    ("session",sessionJson (evidence.bind FailureEvidence.session) continuation),
    ("usage",usage),
    ("cost",costJson decimal (evidence.bind FailureEvidence.cost)),
    ("durationMs",.ofOption (fun d => .nat (durationMillis d))
      (evidence.bind FailureEvidence.duration)),
    ("providerTurns",.ofOption (fun n => .nat n.toNat)
      (evidence.bind FailureEvidence.providerTurns))]

namespace Projection
variable (p : Projection) (totals : Totals) (decimal : F64 → String)

/-- A settled outcome, projected with these totals. -/
def outcomeWith (_ : Projection) (outcome : TurnOutcome) (operationId : UInt64)
    (continuation : Option ContinuationId) : Option Json := do
  let usage ← usageJsonWith totals outcome.usage
  return .object [
    ("operationId",u64Json operationId),
    ("output",.string outcome.output),
    ("structured",.ofOption id outcome.structured),
    ("session",sessionJson outcome.session continuation),
    ("usage",usage),
    ("cost",costJson decimal outcome.cost),
    ("durationMs",.ofOption (fun d => .nat (durationMillis d)) outcome.duration),
    ("providerTurns",.ofOption (fun n => .nat n.toNat) outcome.providerTurns)]

mutual

def failureBodyWith (error : AgentError) (continuation : Option ContinuationId) : Option Json :=
  match error with
  | ⟨kind,message,phase,effects,evidence,_,cause⟩ => do
    let evidence ← evidenceJsonWith totals decimal evidence continuation
    let cause ← causeJsonWith cause
    return .object [
      ("kind",.string kind.display),
      ("phase",.string phase.display),
      ("effects",.string effects.display),
      ("message",.string (p.text kind message)),
      ("replaySafe",.bool (effects = .none)),
      ("evidence",evidence),
      ("cause",cause)]

def causeJsonWith : Option AgentError → Option Json
  | none => some .null
  | some cause => failureBodyWith cause none

end

/-- A failure, projected with these totals. -/
def failureWith (error : AgentError) (operationId : UInt64)
    (continuation : Option ContinuationId) : Option Json :=
  (p.failureBodyWith totals decimal error continuation).map
    (fun body => body.insert "operationId" (u64Json operationId))

end Projection

/-- `structural`, which computes the total of an accounting. -/
def structuralWith (totals : Totals) : AgentEvent → Option String
  | .usage usage => do
    match ← totals usage with
    | some total => return "usage " ++ toString total
    | none => return "usage"
  | event => some (structural event)

def verbatimWith (totals : Totals) : AgentEvent → Option String
  | .usage usage => structuralWith totals (.usage usage)
  | event => some (verbatim event)

/-- The message of a progress event, with these totals. -/
def ProgressEvents.messageWith (totals : Totals) (sink : ProgressEvents) (event : AgentEvent) :
    Option String :=
  match sink.providerMessages with
  | .redacted => structuralWith totals event
  | .verbatim => verbatimWith totals event

section Wrapping
variable (p : Projection) (decimal : F64 → String)

lemma machineTotals_off (u : TokenUsage) :
    machineTotals .off u = some (u.total.map UInt64.toNat) := by
  rw [machineTotals,u.totalIn_off,Option.map_some]

lemma usageJsonWith_off (usage : Option TokenUsage) :
    usageJsonWith (machineTotals .off) usage = some (usageJson usage) := by
  cases usage with
  | none => rfl
  | some u =>
    simp only [usageJsonWith, machineTotals_off, usageJson]
    cases u.total <;> rfl

lemma evidenceJsonWith_off (evidence : Option FailureEvidence)
    (continuation : Option ContinuationId) :
    evidenceJsonWith (machineTotals .off) decimal evidence continuation =
      some (evidenceJson decimal evidence continuation) := by
  rw [evidenceJsonWith,usageJsonWith_off]
  rfl

/-- Without overflow checks, an outcome projects with its wrapped total. -/
theorem outcomeWith_off (outcome : TurnOutcome) (operationId : UInt64)
    (continuation : Option ContinuationId) :
    p.outcomeWith (machineTotals .off) decimal outcome operationId continuation =
      some (p.outcome decimal outcome operationId continuation) := by
  rw [Projection.outcomeWith,usageJsonWith_off]
  rfl

mutual

theorem failureBodyWith_off : ∀ (error : AgentError) (continuation : Option ContinuationId),
    p.failureBodyWith (machineTotals .off) decimal error continuation =
      some (p.failureBody decimal error continuation)
  | ⟨kind,message,phase,effects,evidence,retryAfter,cause⟩,continuation => by
    have he := evidenceJsonWith_off decimal evidence continuation
    have hc := causeJsonWith_off cause
    simp only [Projection.failureBodyWith, Projection.failureBody, he, hc]
    rfl

theorem causeJsonWith_off : ∀ cause : Option AgentError,
    p.causeJsonWith (machineTotals .off) decimal cause = some (p.causeJson decimal cause)
  | none => by simp only [Projection.causeJsonWith, Projection.causeJson]
  | some cause => by
    simp only [Projection.causeJsonWith, Projection.causeJson]
    exact failureBodyWith_off cause none

end

/-- Without overflow checks, a failure projects with its wrapped totals. -/
theorem failureWith_off (error : AgentError) (operationId : UInt64)
    (continuation : Option ContinuationId) :
    p.failureWith (machineTotals .off) decimal error operationId continuation =
      some (p.failure decimal error operationId continuation) := by
  rw [Projection.failureWith,failureBodyWith_off]
  rfl

/-- Without overflow checks, an event is reported with its wrapped total. -/
theorem messageWith_off (sink : ProgressEvents) (event : AgentEvent) :
    sink.messageWith (machineTotals .off) event = some (sink.message event) := by
  unfold ProgressEvents.messageWith ProgressEvents.message
  cases sink.providerMessages <;> cases event <;>
    simp only [structuralWith, verbatimWith, machineTotals_off, structural, verbatim]
  all_goals
    next usage => cases usage.total <;> rfl

end Wrapping
section Depth

/-- What follows from the accounting of an error and of every cause below it. -/
def EveryUsage (P : TokenUsage → Prop) (e : AgentError) : Prop :=
  ∀ n c u, e.causeAt n = some c → c.evidence.bind FailureEvidence.usage = some u → P u

lemma causeAt_succ (e : AgentError) (n : ℕ) :
    e.causeAt (n+1) = e.cause.bind (fun cause => cause.causeAt n) := by
  induction n with
  | zero =>
    rw [AgentError.causeAt,AgentError.causeAt,Option.bind_some]
    cases e.cause <;> rfl
  | succ n ih =>
    rw [AgentError.causeAt,ih,Option.bind_assoc]
    rfl

/-- Every level is the error itself, or a level of its cause. -/
lemma everyUsage_iff {P : TokenUsage → Prop} {e : AgentError} : EveryUsage P e ↔
    (∀ u, e.evidence.bind FailureEvidence.usage = some u → P u) ∧
      ∀ cause, e.cause = some cause → EveryUsage P cause := by
  constructor
  · intro h
    refine ⟨fun u => h 0 e u rfl,fun cause hc n c u hn => h (n+1) c u ?_⟩
    rw [causeAt_succ,hc,Option.bind_some,hn]
  · rintro ⟨he,hc⟩ n c u hn hu
    cases n with
    | zero =>
      obtain rfl := Option.some.inj hn
      exact he u hu
    | succ n =>
      rw [causeAt_succ] at hn
      obtain ⟨cause,hcause,hn⟩ := Option.bind_eq_some_iff.mp hn
      exact hc cause hcause n c u hn hu

end Depth

section Exact
variable {totals : Totals} {p : Projection} {decimal : F64 → String}

lemma ofOption_nat_injective : Function.Injective (Json.ofOption Json.nat) := by
  intro a b h
  cases a <;> cases b <;> try cases h
  · rfl
  · rename_i m n
    exact congrArg some (Json.nat_injective h)

/-- Wholes made of one part alike agree when the parts do. -/
lemma bind_inj {α β : Type} {x x' : Option α} {whole : α → β} (h : Function.Injective whole) :
    (do let a ← x; return whole a) = (do let a ← x'; return whole a) ↔ x = x' := by
  cases x <;> cases x' <;> simp [h.eq_iff]

/-- Wholes made of two parts alike agree when the parts do, if one side has both. -/
lemma bind_bind_inj {α β γ : Type} {x x' : Option α} {y y' : Option β} {whole : α → β → γ}
    (h : Function.Injective2 whole) (hx : x'.isSome = true) (hy : y'.isSome = true) :
    (do let a ← x; let b ← y; return whole a b) = (do let a ← x'; let b ← y'; return whole a b) ↔
      x = x' ∧ y = y' := by
  obtain ⟨a',rfl⟩ := Option.isSome_iff_exists.mp hx
  obtain ⟨b',rfl⟩ := Option.isSome_iff_exists.mp hy
  cases x <;> cases y <;> simp [h.eq_iff]

/-- An accounting is projected exactly precisely when its total is exact. -/
lemma usageJsonWith_iff (usage : Option TokenUsage) :
    usageJsonWith totals usage = usageJsonWith exactTotals usage ↔
      ∀ u, usage = some u → totals u = some u.exactTotal := by
  cases usage with
  | none => simp [usageJsonWith]
  | some u =>
    cases ht : totals u with
    | none => simp [usageJsonWith, exactTotals, ht]
    | some total => simp [usageJsonWith, exactTotals, ht, ofOption_nat_injective.eq_iff]

lemma usageJsonWith_exact_isSome (usage : Option TokenUsage) :
    (usageJsonWith exactTotals usage).isSome = true := by
  cases usage <;> rfl

lemma evidenceJsonWith_iff (evidence : Option FailureEvidence)
    (continuation : Option ContinuationId) :
    evidenceJsonWith totals decimal evidence continuation =
      evidenceJsonWith exactTotals decimal evidence continuation ↔
      ∀ u, evidence.bind FailureEvidence.usage = some u → totals u = some u.exactTotal := by
  rw [←usageJsonWith_iff]
  exact bind_inj fun a b h => by simpa using h

lemma evidenceJsonWith_exact_isSome (evidence : Option FailureEvidence)
    (continuation : Option ContinuationId) :
    (evidenceJsonWith exactTotals decimal evidence continuation).isSome = true := by
  obtain ⟨usage,hu⟩ := Option.isSome_iff_exists.mp
    (usageJsonWith_exact_isSome (evidence.bind FailureEvidence.usage))
  rw [evidenceJsonWith,hu]
  rfl

/-- An outcome is projected exactly precisely when its total is exact. -/
lemma outcomeWith_iff (outcome : TurnOutcome) (operationId : UInt64)
    (continuation : Option ContinuationId) :
    p.outcomeWith totals decimal outcome operationId continuation =
      p.outcomeWith exactTotals decimal outcome operationId continuation ↔
      ∀ u, outcome.usage = some u → totals u = some u.exactTotal := by
  rw [←usageJsonWith_iff]
  exact bind_inj fun a b h => by simpa using h

mutual

theorem failureBodyWith_exact_isSome : ∀ (error : AgentError)
    (continuation : Option ContinuationId),
    (p.failureBodyWith exactTotals decimal error continuation).isSome = true
  | ⟨kind,message,phase,effects,evidence,retryAfter,cause⟩,continuation => by
    have hev : (evidenceJsonWith exactTotals decimal evidence continuation).isSome = true :=
      evidenceJsonWith_exact_isSome evidence continuation
    obtain ⟨ev,he⟩ := Option.isSome_iff_exists.mp hev
    obtain ⟨c,hc⟩ := Option.isSome_iff_exists.mp (causeJsonWith_exact_isSome cause)
    simp only [Projection.failureBodyWith, he, hc]
    rfl

theorem causeJsonWith_exact_isSome : ∀ cause : Option AgentError,
    (p.causeJsonWith exactTotals decimal cause).isSome = true
  | none => by
    simp only [Projection.causeJsonWith]
    rfl
  | some cause => by
    simp only [Projection.causeJsonWith]
    exact failureBodyWith_exact_isSome cause none

end

mutual

/-- A failure's body is projected exactly precisely when the totals at every depth are exact; by
recursion along the causes. -/
theorem failureBodyWith_iff : ∀ (error : AgentError) (continuation : Option ContinuationId),
    p.failureBodyWith totals decimal error continuation =
      p.failureBodyWith exactTotals decimal error continuation ↔
      EveryUsage (fun u => totals u = some u.exactTotal) error
  | ⟨kind,message,phase,effects,evidence,retryAfter,cause⟩,continuation => by
    have hev : evidenceJsonWith totals decimal evidence continuation =
        evidenceJsonWith exactTotals decimal evidence continuation ↔
        ∀ u, evidence.bind FailureEvidence.usage = some u → totals u = some u.exactTotal :=
      evidenceJsonWith_iff evidence continuation
    rw [everyUsage_iff,←hev,←causeJsonWith_iff cause]
    simp only [Projection.failureBodyWith]
    exact bind_bind_inj (fun a b c d h => by simpa using h)
      (evidenceJsonWith_exact_isSome evidence continuation) (causeJsonWith_exact_isSome cause)

theorem causeJsonWith_iff : ∀ cause : Option AgentError,
    p.causeJsonWith totals decimal cause = p.causeJsonWith exactTotals decimal cause ↔
      ∀ c, cause = some c → EveryUsage (fun u => totals u = some u.exactTotal) c
  | none => by simp [Projection.causeJsonWith]
  | some cause => by
    simp only [Projection.causeJsonWith]
    rw [failureBodyWith_iff cause none]
    simp

end

/-- The body of a failure names no operation of its own. -/
lemma failureBodyWith_entries {error : AgentError} {continuation : Option ContinuationId}
    {body : Json} (h : p.failureBodyWith totals decimal error continuation = some body) :
    ∃ entries, body = .object entries ∧ ∀ e ∈ entries, e.1 ≠ "operationId" := by
  cases error with
  | mk kind message phase effects evidence retryAfter cause =>
    simp only [Projection.failureBodyWith] at h
    obtain ⟨ev,-,h⟩ := Option.bind_eq_some_iff.mp h
    obtain ⟨c,-,h⟩ := Option.bind_eq_some_iff.mp h
    obtain rfl := Option.some.inj h
    exact ⟨_,rfl,by simp⟩

/-- A key that an object lacks is put behind its entries. -/
lemma insert_of_absent {entries : List (String × Json)} {key : String} (entry : Json)
    (h : ∀ e ∈ entries, e.1 ≠ key) :
    (Json.object entries).insert key entry = .object (entries ++ [(key,entry)]) := by
  have hkept : entries.filter (fun e => e.1 != key) = entries :=
    List.filter_eq_self.mpr fun e he => bne_iff_ne.mpr (h e he)
  rw [Json.insert,hkept]

/-- A failure is projected exactly precisely when the totals at every depth are exact. -/
lemma failureWith_iff (error : AgentError) (operationId : UInt64)
    (continuation : Option ContinuationId) :
    p.failureWith totals decimal error operationId continuation =
      p.failureWith exactTotals decimal error operationId continuation ↔
      EveryUsage (fun u => totals u = some u.exactTotal) error := by
  have hiff : p.failureBodyWith totals decimal error continuation =
      p.failureBodyWith exactTotals decimal error continuation ↔
      EveryUsage (fun u => totals u = some u.exactTotal) error :=
    failureBodyWith_iff error continuation
  have hsome : (p.failureBodyWith exactTotals decimal error continuation).isSome = true :=
    failureBodyWith_exact_isSome error continuation
  rw [←hiff]
  unfold Projection.failureWith
  constructor
  · intro h
    obtain ⟨body',hbody'⟩ := Option.isSome_iff_exists.mp hsome
    rw [hbody',Option.map_some] at h
    obtain ⟨body,hbody,he⟩ := Option.map_eq_some_iff.mp h
    obtain ⟨entries,rfl,hkeys⟩ := failureBodyWith_entries hbody
    obtain ⟨entries',rfl,hkeys'⟩ := failureBodyWith_entries hbody'
    rw [insert_of_absent _ hkeys,insert_of_absent _ hkeys',Json.object.injEq] at he
    rw [hbody,hbody',List.append_cancel_right he]
  · intro h
    rw [h]

lemma usage_text (a b : Option ℕ) :
    (match a with | some total => "usage " ++ toString total | none => "usage") =
      (match b with | some total => "usage " ++ toString total | none => "usage") ↔ a = b := by
  have hne : ∀ n : ℕ, "usage " ++ toString n ≠ "usage" := by
    intro n h
    have hl := congrArg String.length h
    have hlong : "usage ".length = 6 := rfl
    have hshort : "usage".length = 5 := rfl
    rw [String.length_append] at hl
    omega
  cases a with
  | none =>
    cases b with
    | none => simp
    | some n => simpa using (hne n).symm
  | some m =>
    cases b with
    | none => simpa using hne m
    | some n =>
      have hinj : "usage " ++ toString m = "usage " ++ toString n ↔ m = n := by
        rw [String.append_right_inj]
        exact Json.natText_injective.eq_iff
      rw [Option.some.injEq]
      exact hinj

/-- A progress event is reported exactly precisely when its total is exact. -/
lemma messageWith_iff (sink : ProgressEvents) (event : AgentEvent) :
    sink.messageWith totals event = sink.messageWith exactTotals event ↔
      ∀ u, event = .usage u → totals u = some u.exactTotal := by
  have hstructural : ∀ u, structuralWith totals (.usage u) = structuralWith exactTotals (.usage u) ↔
      totals u = some u.exactTotal := by
    intro u
    cases ht : totals u with
    | none =>
      simp only [structuralWith, exactTotals, ht]
      cases u.exactTotal <;> simp
    | some total =>
      rw [Option.some.injEq,←usage_text]
      simp only [structuralWith, exactTotals, ht]
      cases total <;> cases u.exactTotal <;> simp
  unfold ProgressEvents.messageWith
  cases sink.providerMessages <;> cases event <;> simp [structuralWith, verbatimWith]
  · exact hstructural _
  · exact hstructural _

end Exact
/-- What a build publishes is what exact totals give, which never panic. -/
def PublishedExactly {α : Type} (built exact : Option α) : Prop :=
  built = exact ∧ exact.isSome = true

section Published

lemma machineTotals_iff (checks : OverflowChecks) (u : TokenUsage) :
    machineTotals checks u = some u.exactTotal ↔ u.Fits := u.totalIn_exact checks

lemma messageWith_exact_isSome (sink : ProgressEvents) (event : AgentEvent) :
    (sink.messageWith exactTotals event).isSome = true := by
  unfold ProgressEvents.messageWith
  cases sink.providerMessages <;> cases event <;> try rfl
  all_goals
    next usage =>
      simp only [structuralWith, verbatimWith, exactTotals]
      cases usage.exactTotal <;> rfl

/-- In either build a total is exact, and a projection publishes exact totals, precisely when every
accounting that has no total of its own sums to one that 64 bits hold. -/
theorem totals_exact_iff (checks : OverflowChecks) :
    (∀ u : TokenUsage, u.providerTotal = none →
      ((u.totalIn checks).map (Option.map UInt64.toNat) = some u.exactTotal ↔
        OverflowChecks.exactSum u.buckets.reduceOption < 2^64)) ∧
      (∀ (p : Projection) decimal outcome operationId continuation,
        PublishedExactly
          (p.outcomeWith (machineTotals checks) decimal outcome operationId continuation)
          (p.outcomeWith exactTotals decimal outcome operationId continuation) ↔
          ∀ u, outcome.usage = some u → u.Fits) ∧
      (∀ (p : Projection) decimal error operationId continuation,
        PublishedExactly
          (p.failureWith (machineTotals checks) decimal error operationId continuation)
          (p.failureWith exactTotals decimal error operationId continuation) ↔
          ∀ n cause u, error.causeAt n = some cause →
            cause.evidence.bind FailureEvidence.usage = some u → u.Fits) ∧
      ∀ (sink : ProgressEvents) event,
        PublishedExactly (sink.messageWith (machineTotals checks) event)
          (sink.messageWith exactTotals event) ↔ ∀ u, event = .usage u → u.Fits := by
  refine ⟨fun u hu => ?_,fun p decimal outcome operationId continuation => ?_,
    fun p decimal error operationId continuation => ?_,fun sink event => ?_⟩
  · rw [u.totalIn_exact checks]
    exact ⟨fun h => h hu,fun h _ => h⟩
  · have hsome : (p.outcomeWith exactTotals decimal outcome operationId continuation).isSome =
        true := by
      obtain ⟨usage,hu⟩ := Option.isSome_iff_exists.mp (usageJsonWith_exact_isSome outcome.usage)
      rw [Projection.outcomeWith,hu]
      rfl
    simp only [PublishedExactly, hsome, and_true, outcomeWith_iff, machineTotals_iff]
  · have hsome : (p.failureWith exactTotals decimal error operationId continuation).isSome =
        true := by
      rw [Projection.failureWith,Option.isSome_map]
      exact failureBodyWith_exact_isSome error continuation
    simp only [PublishedExactly, hsome, and_true, failureWith_iff, machineTotals_iff, EveryUsage]
  · simp only [PublishedExactly, messageWith_exact_isSome, and_true, messageWith_iff,
      machineTotals_iff]

end Published

/-- Buckets whose sum is one more than 64 bits hold. -/
def overflowing : TokenUsage := { input := some 18446744073709551615, output := some 1 }

/-- Not every total is exact: with overflow checks such accounting panics in an outcome, a nested
cause and an event, and without them its total is published as zero. -/
theorem overflowing_total_lost :
    (¬ ∀ (checks : OverflowChecks) (u : TokenUsage), u.providerTotal = none →
      (u.totalIn checks).map (Option.map UInt64.toNat) = some u.exactTotal) ∧
    overflowing.totalIn .on = none ∧
      (({} : Projection).outcomeWith (machineTotals .on) (fun _ => "")
        { output := "done", usage := some overflowing } 1 none).isNone = true ∧
      (({} : Projection).failureWith (machineTotals .on) (fun _ => "")
        { AgentError.new .provider "outer" .running .possible with
          cause := some ((AgentError.new .provider "inner" .running .possible).withEvidence
            { usage := some overflowing }) } 1 none).isNone = true ∧
      (ProgressEvents.messageWith (machineTotals .on) ⟨true,.redacted,0⟩
        (.usage overflowing)).isNone = true ∧
      overflowing.totalIn .off = some (some 0) ∧
      ProgressEvents.messageWith (machineTotals .off) ⟨true,.redacted,0⟩ (.usage overflowing) =
        some "usage 0" := by
  refine ⟨fun h => ?_,by decide +kernel⟩
  have hwrapped := h .off overflowing rfl
  revert hwrapped
  decide +kernel

end TowerAgent.Mcp
