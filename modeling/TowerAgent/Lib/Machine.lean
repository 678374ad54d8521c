import Mathlib.Data.List.Induction

/-! Executable labelled machines: runs as label traces, the invariant rule, and a
potential argument bounding the number of productive steps. -/
namespace TowerAgent.Lib

/-- A start state and a partial step function; the label carries every choice made outside. -/
structure Machine (σ ℓ : Type*) where
  start : σ
  step : σ → ℓ → Option σ

namespace Machine
variable {σ ℓ : Type*}

/-- Execute a trace from a given state. -/
def runFrom (M : Machine σ ℓ) (s : σ) : List ℓ → Option σ
  | [] => some s
  | l::t => (M.step s l).bind (fun s' => runFrom M s' t)

variable (M : Machine σ ℓ)

/-- Execute a trace from the start state. -/
def run (t : List ℓ) : Option σ := M.runFrom M.start t

@[simp] theorem runFrom_nil (s : σ) : M.runFrom s [] = some s := rfl

theorem runFrom_append (s : σ) (t u : List ℓ) :
    M.runFrom s (t ++ u) = (M.runFrom s t).bind (fun s' => M.runFrom s' u) := by
  induction t generalizing s with
  | nil => simp
  | cons l t ih =>
    simp only [List.cons_append, runFrom]
    cases M.step s l with
    | none => rfl
    | some s' => exact ih s'

theorem run_append (t u : List ℓ) :
    M.run (t ++ u) = (M.run t).bind (fun s => M.runFrom s u) := M.runFrom_append _ t u

theorem run_concat (t : List ℓ) (l : ℓ) :
    M.run (t ++ [l]) = (M.run t).bind (fun s => M.step s l) := by
  rw [run_append]
  cases M.run t with
  | none => rfl
  | some s => cases h : M.step s l <;> simp [runFrom, h]

variable {M}

/-- A state reached by a longer trace was reached through its prefix. -/
theorem run_split {t u : List ℓ} {s : σ} (h : M.run (t ++ u) = some s) :
    ∃ m, M.run t = some m ∧ M.runFrom m u = some s := by
  rw [run_append] at h
  exact Option.bind_eq_some_iff.mp h

/-- The step a label in the middle of a trace took. -/
theorem run_step_of_split {t u : List ℓ} {l : ℓ} {s : σ} (h : M.run (t ++ l::u) = some s) :
    ∃ m m', M.run t = some m ∧ M.step m l = some m' ∧ M.runFrom m' u = some s := by
  obtain ⟨m,hm,hu⟩ := run_split h
  obtain ⟨m',hm',hu'⟩ := Option.bind_eq_some_iff.mp hu
  exact ⟨m,m',hm,hm',hu'⟩

/-- What every step keeps, from wherever it holds, holds after every continuation. -/
theorem stable {P : List ℓ → σ → Prop}
    (hs : ∀ t s l s', P t s → M.step s l = some s' → P (t ++ [l]) s')
    {t u : List ℓ} {s s' : σ} (h : M.runFrom s u = some s') (hp : P t s) : P (t ++ u) s' := by
  induction u generalizing t s with
  | nil =>
    obtain rfl := Option.some.inj h
    simpa using hp
  | cons l u ih =>
    obtain ⟨m,hm,hu⟩ := Option.bind_eq_some_iff.mp h
    simpa using ih hu (hs t s l m hp hm)

/-- The invariant rule over traces and states. -/
theorem invariant {P : List ℓ → σ → Prop} (h0 : P [] M.start)
    (hs : ∀ t s l s', M.run t = some s → P t s → M.step s l = some s' → P (t ++ [l]) s')
    {t : List ℓ} {s : σ} (h : M.run t = some s) : P t s := by
  have hstep : ∀ t s l s', M.run t = some s ∧ P t s → M.step s l = some s' →
      M.run (t ++ [l]) = some s' ∧ P (t ++ [l]) s' := by
    rintro t s l s' ⟨hr,hp⟩ hl
    exact ⟨by rw [run_concat,hr]; exact hl,hs t s l s' hr hp hl⟩
  simpa using (stable hstep h ⟨rfl,h0⟩).2

section Guard
variable (M) (G : σ → ℓ → Prop)

/-- Every step of a trace meets a guard in the state it is taken in. -/
def GuardedFrom (s : σ) : List ℓ → Prop
  | [] => True
  | l::t => G s l ∧ ∀ s' ∈ M.step s l, GuardedFrom s' t

def Guarded (t : List ℓ) : Prop := M.GuardedFrom G M.start t

variable {M G}

instance decidableGuardedFrom [∀ s, DecidablePred (G s)] (s : σ) :
    DecidablePred (M.GuardedFrom G s)
  | [] => .isTrue trivial
  | l::t =>
    have (s' : σ) : Decidable (M.GuardedFrom G s' t) := decidableGuardedFrom s' t
    inferInstanceAs (Decidable (G s l ∧ ∀ s' ∈ M.step s l, M.GuardedFrom G s' t))

instance [∀ s, DecidablePred (G s)] : DecidablePred (M.Guarded G) := decidableGuardedFrom M.start

/-- A guarded trace is guarded up to each of its steps, and there. -/
theorem GuardedFrom.split {s m : σ} {t u : List ℓ} {l : ℓ} (h : M.GuardedFrom G s (t ++ l::u))
    (hm : M.runFrom s t = some m) : M.GuardedFrom G s t ∧ G m l := by
  induction t generalizing s with
  | nil =>
    obtain rfl := Option.some.inj hm
    exact ⟨trivial,h.1⟩
  | cons l' t ih =>
    obtain ⟨s',hs',hrun⟩ := Option.bind_eq_some_iff.mp hm
    obtain ⟨ht,hl⟩ := ih (h.2 s' hs') hrun
    refine ⟨⟨h.1,fun s'' hs'' => ?_⟩,hl⟩
    obtain rfl := Option.some.inj (hs'.symm.trans hs'')
    exact ht

/-- A trace whose every step meets the guard where it is taken is guarded. -/
theorem GuardedFrom.of_steps {s : σ} {t : List ℓ} (h : ∀ before l after m, t = before ++ l::after →
    M.runFrom s before = some m → G m l) : M.GuardedFrom G s t := by
  induction t generalizing s with
  | nil => trivial
  | cons l t ih =>
    refine ⟨h [] l t s rfl rfl,fun s' hs' => ih fun before l' after m ht hm => ?_⟩
    refine h (l::before) l' after m (by rw [ht]; rfl) ?_
    rw [runFrom,Option.mem_def.mp hs']
    exact hm

/-- The invariant rule for the runs whose steps meet the guard. -/
theorem invariant_guarded {P : List ℓ → σ → Prop} (h0 : P [] M.start)
    (hs : ∀ t s l s', M.run t = some s → P t s → G s l → M.step s l = some s' → P (t ++ [l]) s')
    {t : List ℓ} {s : σ} (h : M.run t = some s) (hg : M.Guarded G t) : P t s := by
  have hfrom : ∀ (u t : List ℓ) (m : σ), M.run t = some m → P t m → M.GuardedFrom G m u →
      M.runFrom m u = some s → P (t ++ u) s := by
    intro u
    induction u with
    | nil =>
      intro t m _ hp _ hu
      obtain rfl := Option.some.inj hu
      simpa using hp
    | cons l u ih =>
      rintro t m hm hp ⟨hl,hg⟩ hu
      obtain ⟨m',hstep,hu⟩ := Option.bind_eq_some_iff.mp hu
      have hm' : M.run (t ++ [l]) = some m' := by rw [run_concat,hm]; exact hstep
      simpa using ih (t ++ [l]) m' hm' (hs t m l m' hm hp hl hstep) (hg m' hstep) hu
  simpa using hfrom t [] M.start rfl h0 hg h

end Guard

section Potential
variable (Q : List ℓ → Prop) (idle : ℓ → Bool) (potential : List ℓ → σ → ℕ) (c : ℕ)

/-- In the runs of a prefix-closed class, idle steps raise the potential by at most a constant and
every other step lowers it; so the productive steps of such a run are bounded by its idle ones. -/
theorem productive_bound (hQ : ∀ t l, Q (t ++ [l]) → Q t)
    (hi : ∀ t s l s', Q (t ++ [l]) → M.run t = some s → M.step s l = some s' →
      idle l = true → potential (t ++ [l]) s' ≤ potential t s + c)
    (hp : ∀ t s l s', Q (t ++ [l]) → M.run t = some s → M.step s l = some s' →
      idle l = false → potential (t ++ [l]) s' < potential t s)
    {t : List ℓ} {s : σ} (h : M.run t = some s) (hq : Q t) :
    t.countP (fun l => !idle l) + potential t s ≤ potential [] M.start + c*t.countP idle := by
  refine invariant (P := fun t s => Q t → t.countP (fun l => !idle l) + potential t s ≤
    potential [] M.start + c*t.countP idle) (by simp) ?_ h hq
  intro t s l s' ht hb hl hq
  have hb := hb (hQ t l hq)
  cases hidle : idle l with
  | true =>
    have := hi t s l s' hq ht hl hidle
    simp only [List.countP_append, List.countP_singleton, hidle]
    simp only [Bool.not_true, Bool.false_eq_true, if_false, if_true, Nat.mul_add]
    omega
  | false =>
    have := hp t s l s' hq ht hl hidle
    simp only [List.countP_append, List.countP_singleton, hidle]
    simp only [Bool.not_false, Bool.false_eq_true, if_false, if_true, Nat.mul_add]
    omega

/-- The same bound from a state a run has reached, for every continuation. -/
theorem productive_bound_from
    (hi : ∀ t s l s', M.run t = some s → M.step s l = some s' → idle l = true →
      potential (t ++ [l]) s' ≤ potential t s + c)
    (hp : ∀ t s l s', M.run t = some s → M.step s l = some s' → idle l = false →
      potential (t ++ [l]) s' < potential t s)
    {t u : List ℓ} {s s' : σ} (h : M.run t = some s) (hu : M.runFrom s u = some s') :
    u.countP (fun l => !idle l) + potential (t ++ u) s' ≤ potential t s + c*u.countP idle := by
  induction u generalizing t s with
  | nil =>
    obtain rfl := Option.some.inj hu
    simp
  | cons l u ih =>
    obtain ⟨m,hm,hu⟩ := Option.bind_eq_some_iff.mp hu
    have hrun : M.run (t ++ [l]) = some m := by rw [run_concat,h]; exact hm
    have hrest := ih hrun hu
    rw [List.append_assoc,List.singleton_append] at hrest
    cases hidle : idle l with
    | true =>
      have := hi t s l m h hm hidle
      simp only [List.countP_cons, hidle, Bool.not_true, Bool.false_eq_true, if_false, if_true,
        Nat.mul_add]
      omega
    | false =>
      have := hp t s l m h hm hidle
      simp only [List.countP_cons, hidle, Bool.not_false, Bool.false_eq_true, if_false, if_true,
        Nat.add_zero]
      omega

end Potential
end Machine
end TowerAgent.Lib
