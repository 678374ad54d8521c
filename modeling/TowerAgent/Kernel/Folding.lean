import TowerAgent.Kernel.Error

/-! Failures folded into one another: however the fold is bracketed, what it establishes is read off
the chain of the failures it is made of, the outermost first. -/
namespace TowerAgent.Kernel
open Lib Lib.Bindings

namespace FailureEvidence

/-- Filling gaps twice is filling them once, from what the two of them fill. -/
theorem mergeMissing_assoc (a b c : FailureEvidence) :
    (a.mergeMissing b).mergeMissing c = a.mergeMissing (b.mergeMissing c) := by
  simp only [mergeMissing, ite_isNone, Option.or_assoc]

end FailureEvidence

namespace AgentError

theorem withCause_evidence (self cause : AgentError) :
    (self.withCause cause).evidence =
      Option.merge FailureEvidence.mergeMissing self.evidence cause.evidence := by
  unfold withCause
  cases cause.evidence <;> cases self.evidence <;> rfl

/-- Bracketing a fold to the left or to the right establishes the same facts. -/
theorem withCause_assoc (a b c : AgentError) :
    ((a.withCause b).withCause c).effects = (a.withCause (b.withCause c)).effects ∧
    ((a.withCause b).withCause c).evidence = (a.withCause (b.withCause c)).evidence ∧
    ((a.withCause b).withCause c).retryAfter = (a.withCause (b.withCause c)).retryAfter := by
  have hassoc : Std.Associative FailureEvidence.mergeMissing := ⟨FailureEvidence.mergeMissing_assoc⟩
  refine ⟨?_,?_,?_⟩
  · simp only [withCause_effects, max_assoc]
  · simp only [withCause_evidence]
    exact Std.Associative.assoc _ _ _
  · simp only [withCause_retryAfter, Option.or_assoc]

/-- An error as the constructors build it, with evidence and guidance attached in any order. -/
inductive Built : AgentError → Prop
  | new (kind : ErrorKind) (message : String) (phase : FailurePhase) (effects : EffectState) :
    Built (new kind message phase effects)
  | withEvidence {e : AgentError} (h : Built e) (evidence : FailureEvidence) :
    Built (e.withEvidence evidence)
  | withRetryAfter {e : AgentError} (h : Built e) (after : Duration) :
    Built (e.withRetryAfter after)

namespace Built
variable {e : AgentError}

theorem cause (h : Built e) : e.cause = none := by
  induction h with
  | new => rfl
  | withEvidence _ _ ih => exact ih
  | withRetryAfter _ _ ih => exact ih

/-- Guidance is clamped where it is attached. -/
theorem clamped (h : Built e) : ∀ d ∈ e.retryAfter, d ≤ maxRetryAfter := by
  induction h with
  | new => simp [AgentError.new]
  | withEvidence _ _ ih => exact ih
  | withRetryAfter _ after _ =>
    intro d hd
    obtain rfl := Option.some.inj hd
    exact min_le_right _ _

end Built
end AgentError

/-- Built errors folded into one another by `with_cause`, in any bracketing. -/
inductive Folding where
  | built (e : AgentError) (h : e.Built)
  | fold (outer inner : Folding)

namespace Folding

def error : Folding → AgentError
  | built e _ => e
  | fold outer inner => outer.error.withCause inner.error

/-- The errors that were folded, the outermost first. -/
def chain : Folding → List AgentError
  | built e _ => [e]
  | fold outer inner => outer.chain ++ inner.chain

theorem error_effects (t : Folding) :
    t.error.effects = (t.chain.map AgentError.effects).foldr max .none := by
  have hmax (l : List EffectState) (x : EffectState) :
      l.foldr max x = max (l.foldr max .none) x := by
    induction l with
    | nil => exact (max_eq_right x.none_le).symm
    | cons y l ih => rw [List.foldr_cons,ih,List.foldr_cons,max_assoc]
  induction t with
  | built e h => exact (max_eq_left e.effects.none_le).symm
  | fold outer inner iho ihi =>
    rw [error,AgentError.withCause_effects,iho,ihi,chain,List.map_append,List.foldr_append]
    exact (hmax _ _).symm

/-- Each fact is the first one established along the chain. -/
theorem error_binding (t : Folding) (field : EvidenceField) :
    t.error.binding field = t.chain.findSome? (fun e => e.binding field) := by
  induction t with
  | built e h => simp [error, chain]
  | fold outer inner iho ihi =>
    rw [error,AgentError.withCause_binding,overlay,iho,ihi,chain,List.findSome?_append]

theorem error_retryAfter (t : Folding) :
    t.error.retryAfter = t.chain.findSome? AgentError.retryAfter := by
  induction t with
  | built e h => simp [error, chain]
  | fold outer inner iho ihi =>
    rw [error,AgentError.withCause_retryAfter,iho,ihi,chain,List.findSome?_append]

theorem mem_chain_built {t : Folding} {e : AgentError} (h : e ∈ t.chain) : e.Built := by
  induction t with
  | built e' h' => exact List.mem_singleton.mp h ▸ h'
  | fold outer inner iho ihi => exact (List.mem_append.mp h).elim iho ihi

/-- Folding never lengthens the guidance beyond its limit. -/
theorem error_clamped (t : Folding) : ∀ d ∈ t.error.retryAfter, d ≤ maxRetryAfter := by
  intro d hd
  rw [error_retryAfter] at hd
  obtain ⟨e,he,hd⟩ := List.exists_of_findSome?_eq_some hd
  exact (mem_chain_built he).clamped d hd

/-- The cause of a folded error is a folded error, whose effects are no more severe. -/
theorem error_cause {t : Folding} {c : AgentError} (h : t.error.cause = some c) :
    ∃ t' : Folding, t'.error = c ∧ c.effects ≤ t.error.effects := by
  cases t with
  | built e hb => simp [error, hb.cause] at h
  | fold outer inner =>
    obtain rfl := Option.some.inj h
    refine ⟨inner,rfl,?_⟩
    rw [error,AgentError.withCause_effects]
    exact le_max_right _ _

end Folding
end TowerAgent.Kernel
