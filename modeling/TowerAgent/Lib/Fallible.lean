import Mathlib.Data.Nat.Notation

/-! Computations that may fail: what a sequence of them returns or refuses, what it did on the way,
and a `while` loop with a fallible body with its total-correctness rule. -/
namespace TowerAgent.Lib

section Bind
variable {α β : Type*} {ε : Type*} {x : Except ε α} {f : α → Except ε β}

/-- A sequence returns what its second part returns on a value of its first. -/
theorem bind_eq_ok {b : β} : x.bind f = .ok b ↔ ∃ a, x = .ok a ∧ f a = .ok b := by
  cases x <;> simp [Except.bind]

/-- A sequence refuses as its first part does, or as its second on a value of the first. -/
theorem bind_eq_error {e : ε} :
    x.bind f = .error e ↔ x = .error e ∨ ∃ a, x = .ok a ∧ f a = .error e := by
  cases x <;> simp [Except.bind]

theorem mapError_eq_ok {δ : Type*} {g : ε → δ} {a : α} (h : x.mapError g = .ok a) : x = .ok a := by
  cases x with
  | error e => cases h
  | ok b => exact congrArg Except.ok (Except.ok.inj h)

/-- A check of an optional value, as the check of a list of at most one. -/
theorem mapM_toList_eq_ok {ε α β : Type} {o : Option α} {f : α → Except ε β} {bs : List β}
    (h : o.toList.mapM f = .ok bs) :
    (o = none ∧ bs = []) ∨ ∃ a b, o = some a ∧ f a = .ok b ∧ bs = [b] := by
  cases o with
  | none => exact .inl ⟨rfl,(Except.ok.inj h).symm⟩
  | some a =>
    rw [Option.toList_some,List.mapM_cons] at h
    obtain ⟨b,hb,h⟩ := bind_eq_ok.mp h
    exact .inr ⟨a,b,rfl,hb,(Except.ok.inj h).symm⟩

/-- Checks made one after another succeed when each of them does. -/
theorem forM_eq_ok {ε γ : Type} {l : List γ} {g : γ → Except ε Unit} :
    forM l g = .ok () ↔ ∀ c ∈ l, g c = .ok () := by
  induction l with
  | nil => simp [pure, Except.pure]
  | cons c l ih =>
    rw [List.forM_cons,List.forall_mem_cons,←ih]
    exact bind_eq_ok.trans ⟨fun ⟨_,hc,hl⟩ => ⟨hc,hl⟩,fun ⟨hc,hl⟩ => ⟨(),hc,hl⟩⟩

end Bind

/-- Whatever the computation fails with has the property. -/
def Fails {ε : Type*} {α : Type*} (P : ε → Prop) (x : Except ε α) : Prop := ∀ e, x = .error e → P e

namespace Fails
variable {ε : Type} {α β : Type} {P Q : ε → Prop} {x : Except ε α} {f : α → Except ε β}

theorem ok (a : α) : Fails P (.ok a) := nofun

theorem error {e : ε} (h : P e) : Fails P (.error e : Except ε α) := by
  rintro _ ⟨⟩
  exact h

theorem trivial : Fails (fun _ => True) x := fun _ _ => True.intro

theorem mono (h : Fails P x) (himp : ∀ e, P e → Q e) : Fails Q x := fun e he => himp e (h e he)

/-- A sequence fails only as its parts do. -/
theorem bind (hx : Fails P x) (hf : ∀ a, Fails P (f a)) : Fails P (x >>= f) := by
  intro e he
  rcases bind_eq_error.mp he with h | ⟨a,-,h⟩
  · exact hx e h
  · exact hf a e h

theorem mapError {δ : Type} {g : δ → ε} {y : Except δ α} (h : Fails (fun d => P (g d)) y) :
    Fails P (y.mapError g) := by
  cases y with
  | ok a => exact ok a
  | error d => exact error (h d rfl)

theorem forM_list {γ : Type} {l : List γ} {g : γ → Except ε Unit} (h : ∀ c ∈ l, Fails P (g c)) :
    Fails P (forM l g) := by
  induction l with
  | nil => exact ok ()
  | cons c l ih =>
    rw [List.forM_cons]
    exact bind (h c List.mem_cons_self) (fun _ => ih (fun d hd => h d (List.mem_cons_of_mem _ hd)))

theorem mapM_list {γ : Type} {l : List γ} {g : γ → Except ε β} (h : ∀ c ∈ l, Fails P (g c)) :
    Fails P (l.mapM g) := by
  induction l with
  | nil => exact ok []
  | cons c l ih =>
    rw [List.mapM_cons]
    refine bind (h c List.mem_cons_self) (fun b => bind ?_ (fun bs => ok _))
    exact ih (fun d hd => h d (List.mem_cons_of_mem _ hd))

end Fails

/-- A computation that may fail, together with the steps it took. -/
structure Traced (σ ε α : Type*) where
  steps : List σ
  result : Except ε α

namespace Traced
variable {σ ε α β : Type}

/-- A computation that takes no step. -/
def check (x : Except ε α) : Traced σ ε α := ⟨[],x⟩

/-- One step, which does not fail. -/
def step (s : σ) : Traced σ ε Unit := ⟨[s],.ok ()⟩

/-- Go on from the value of the first part, or fail as it does. -/
protected def bind (x : Traced σ ε α) (f : α → Traced σ ε β) : Traced σ ε β :=
  match x.result with
  | .error e => ⟨x.steps,.error e⟩
  | .ok a => ⟨x.steps ++ (f a).steps,(f a).result⟩

/-- The same computation with its failure changed. -/
def mapError {δ : Type} (g : ε → δ) (x : Traced σ ε α) : Traced σ δ α :=
  ⟨x.steps,x.result.mapError g⟩

instance : Monad (Traced σ ε) where
  pure a := ⟨[],.ok a⟩
  bind := Traced.bind

variable {x : Traced σ ε α} {f : α → Traced σ ε β}

@[simp] theorem check_error_bind (e : ε) : check (.error e) >>= f = ⟨[],.error e⟩ := rfl

@[simp] theorem check_ok_bind (a : α) : check (.ok a) >>= f = f a := rfl

@[simp] theorem step_bind (s : σ) (f : Unit → Traced σ ε β) :
    step s >>= f = ⟨s::(f ()).steps,(f ()).result⟩ := rfl

/-- A sequence fails as its first part does, or as its second on a value of the first. -/
theorem bind_result_error {e : ε} : (x >>= f).result = .error e ↔
    x.result = .error e ∨ ∃ a, x.result = .ok a ∧ (f a).result = .error e := by
  change (Traced.bind x f).result = _ ↔ _
  cases h : x.result <;> simp [Traced.bind, h]

theorem fails_bind {P : ε → Prop} (hx : Fails P x.result) (hf : ∀ a, Fails P (f a).result) :
    Fails P (x >>= f).result := by
  intro e he
  rcases bind_result_error.mp he with h | ⟨a,-,h⟩
  · exact hx e h
  · exact hf a e h

/-- The result of a sequence, once the value of its first part is known. -/
theorem bind_result {a : α} (h : x.result = .ok a) : (x >>= f).result = (f a).result := by
  change (Traced.bind x f).result = _
  simp [Traced.bind, h]

/-- A value computed at the end takes no step. -/
theorem bind_pure_eq (x : Traced σ ε α) (g : α → β) :
    (x >>= fun a => pure (g a)) = ⟨x.steps,x.result.map g⟩ := by
  change Traced.bind x _ = _
  cases h : x.result with
  | error e => simp [Traced.bind, h, Except.map]
  | ok a => simp [Traced.bind, h, Except.map, pure]

/-- The steps of a sequence are those of its first part, then those of the second. -/
theorem mem_bind_steps {s : σ} : s ∈ (x >>= f).steps ↔
    s ∈ x.steps ∨ ∃ a, x.result = .ok a ∧ s ∈ (f a).steps := by
  change s ∈ (Traced.bind x f).steps ↔ _
  cases h : x.result <;> simp [Traced.bind, h]

/-- The computation takes a step of the kind, or else fails with the property. -/
def StopsBefore (kind : σ → Prop) (P : ε → Prop) (x : Traced σ ε α) : Prop :=
  (∃ e, x.result = .error e ∧ P e) ∨ ∃ s ∈ x.steps, kind s

namespace StopsBefore
variable {kind : σ → Prop} {P : ε → Prop}

theorem of_mem {s : σ} (hs : s ∈ x.steps) (h : kind s) : StopsBefore kind P x := .inr ⟨s,hs,h⟩

/-- A sequence stops as its first part fails, or as its second on a value of the first. -/
theorem bind (hx : Fails P x.result) (hf : ∀ a, x.result = .ok a → StopsBefore kind P (f a)) :
    StopsBefore kind P (x >>= f) := by
  cases hr : x.result with
  | error e => exact .inl ⟨e,bind_result_error.mpr (.inl hr),hx e hr⟩
  | ok a =>
    rcases hf a hr with ⟨e,he,hP⟩ | ⟨s,hs,hkind⟩
    · exact .inl ⟨e,bind_result_error.mpr (.inr ⟨a,hr,he⟩),hP⟩
    · exact .inr ⟨s,mem_bind_steps.mpr (.inr ⟨a,hr,hs⟩),hkind⟩

end StopsBefore

/-- Every step of the computation has the relation to what it ends with. -/
def EndsBy (R : σ → Except ε α → Prop) (x : Traced σ ε α) : Prop := ∀ s ∈ x.steps, R s x.result

namespace EndsBy
variable {R : σ → Except ε β → Prop}

/-- A sequence whose first part takes steps that fit every end. -/
theorem bind (hx : ∀ s ∈ x.steps, ∀ r, R s r) (hf : ∀ a, x.result = .ok a → EndsBy R (f a)) :
    EndsBy R (x >>= f) := by
  intro s hs
  rcases mem_bind_steps.mp hs with hs | ⟨a,ha,hs⟩
  · exact hx s hs _
  · rw [bind_result ha]
    exact hf a ha s hs

theorem check_bind {x : Except ε α} (hf : ∀ a, x = .ok a → EndsBy R (f a)) :
    EndsBy R (check x >>= f) :=
  bind (fun _ hs => by cases hs) hf

end EndsBy
end Traced

variable {σ ε : Type*}

/-- Run a loop body until it reports its exit, at most the given number of times. -/
def iterate (body : σ → Except ε (Option σ)) : ℕ → σ → Except ε σ
  | 0,s => .ok s
  | n+1,s =>
    match body s with
    | .error e => .error e
    | .ok none => .ok s
    | .ok (some s') => iterate body n s'

/-- An invariant and a decreasing measure: the loop does not fail, leaves through its exit, and
the fuel was enough. -/
theorem iterate_exits {body : σ → Except ε (Option σ)} {I : σ → Prop} {μ : σ → ℕ}
    (h : ∀ s, I s → body s = .ok none ∨ ∃ s', body s = .ok (some s') ∧ I s' ∧ μ s' < μ s)
    {n : ℕ} {s : σ} (hs : I s) (hn : μ s < n) :
    ∃ s', iterate body n s = .ok s' ∧ I s' ∧ body s' = .ok none := by
  induction n generalizing s with
  | zero => exact absurd hn (Nat.not_lt_zero _)
  | succ n ih =>
    rcases h s hs with hd | ⟨s',hb,hi,hμ⟩
    · exact ⟨s,by simp [iterate, hd],hs,hd⟩
    · obtain ⟨t,ht,hit,hdt⟩ := ih hi (by omega)
      exact ⟨t,by simp [iterate, hb, ht],hit,hdt⟩

end TowerAgent.Lib
