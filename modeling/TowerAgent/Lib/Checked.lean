import Mathlib.Algebra.GroupWithZero.Nat

/-! Machine sums: a chain of 64-bit additions that panics on overflow in a build with overflow checks
and wraps in one without. -/
namespace TowerAgent.Lib

/-- Whether a build checks its arithmetic for overflow. -/
inductive OverflowChecks where
  | on
  | off
  deriving DecidableEq, Repr

namespace OverflowChecks
variable (checks : OverflowChecks)

/-- `a + b`; `none` is a panic. -/
def add (a b : UInt64) : Option UInt64 :=
  if checks = .on ∧ 2^64 ≤ a.toNat + b.toNat then none else some (a + b)

/-- `iter().sum()`. -/
def sum (l : List UInt64) : Option UInt64 := l.foldlM checks.add 0

/-- The sum that no width bounds. -/
def exactSum (l : List UInt64) : ℕ := (l.map UInt64.toNat).sum

variable {checks} {l : List UInt64}

lemma toNat_add_of_lt {a b : UInt64} (h : a.toNat + b.toNat < 2^64) :
    (a + b).toNat = a.toNat + b.toNat := by
  rw [UInt64.toNat_add]
  exact Nat.mod_eq_of_lt h

/-- From any running total, the chain returns the exact sum precisely when it fits. -/
lemma foldlM_add_exact (a : UInt64) :
    (∃ s, l.foldlM checks.add a = some s ∧ s.toNat = a.toNat + exactSum l) ↔
      a.toNat + exactSum l < 2^64 := by
  constructor
  · rintro ⟨s,-,hs⟩
    rw [←hs]
    exact s.toNat_lt
  · intro h
    induction l generalizing a with
    | nil => exact ⟨a,rfl,rfl⟩
    | cons x l ih =>
      have hx : a.toNat + x.toNat < 2^64 := by
        simp only [exactSum, List.map_cons, List.sum_cons] at h
        omega
      have hadd : checks.add a x = some (a + x) := if_neg fun hc => by omega
      have hsum : a.toNat + exactSum (x::l) = (a + x).toNat + exactSum l := by
        rw [toNat_add_of_lt hx,exactSum,exactSum,List.map_cons,List.sum_cons,Nat.add_assoc]
      obtain ⟨s,hs,hv⟩ := ih (a + x) (hsum ▸ h)
      refine ⟨s,?_,hsum ▸ hv⟩
      rw [List.foldlM_cons,hadd]
      exact hs

/-- The machine sum is exact precisely when the exact sum fits, in either build. -/
theorem sum_exact : (∃ s, checks.sum l = some s ∧ s.toNat = exactSum l) ↔ exactSum l < 2^64 := by
  have h : (∃ s, checks.sum l = some s ∧ s.toNat = UInt64.toNat 0 + exactSum l) ↔
      UInt64.toNat 0 + exactSum l < 2^64 := foldlM_add_exact 0
  rw [UInt64.toNat_zero,Nat.zero_add] at h
  exact h

/-- Without checks the chain returns the wrapped sum. -/
theorem sum_off : sum .off l = some (l.foldl (· + ·) 0) := by
  have h : ∀ a, l.foldlM (add .off) a = some (l.foldl (· + ·) a) := by
    induction l with
    | nil => exact fun _ => rfl
    | cons x l ih => exact fun a => ih (a + x)
  exact h 0

/-- With checks the chain panics precisely when the exact sum does not fit. -/
theorem sum_on : sum .on l = none ↔ 2^64 ≤ exactSum l := by
  have hchain : ∀ a : UInt64, 2^64 ≤ a.toNat + exactSum l → l.foldlM (add .on) a = none := by
    induction l with
    | nil =>
      intro a ha
      exact absurd a.toNat_lt (Nat.not_lt.mpr ha)
    | cons x l ih =>
      intro a ha
      rw [List.foldlM_cons]
      by_cases hx : 2^64 ≤ a.toNat + x.toNat
      · have hadd : add .on a x = none := if_pos ⟨rfl,hx⟩
        rw [hadd]
        rfl
      · have hadd : add .on a x = some (a + x) := if_neg fun hc => hx hc.2
        rw [hadd]
        apply ih
        rw [toNat_add_of_lt (Nat.not_le.mp hx),Nat.add_assoc]
        exact ha
  constructor
  · intro h
    refine Nat.not_lt.mp fun hlt => ?_
    obtain ⟨s,hs,-⟩ := sum_exact.mpr hlt
    cases h.symm.trans hs
  · intro h
    apply hchain
    rw [UInt64.toNat_zero,Nat.zero_add]
    exact h

end OverflowChecks
end TowerAgent.Lib
