import TowerAgent.Durable.Store

/-! One step of a durable log, away from the log: which claims on it may still call the provider,
whether it was called, and what keeps it at one call. -/
namespace TowerAgent.Durable

/-- What one step has gone through: its view, the claims on it under which a call may still come
(with the epoch, and whether it is launched), whether it was called since its effects were last
disproved, and the epochs of all its claims. -/
structure Account where
  view : Option StepView
  callers : List (ℕ × Bool)
  spent : Bool
  claims : List ℕ

/-- What a careful operation can do to one step. -/
inductive Move : Account → Account → Prop where
  | rest (a : Account) : Move a a
  | freeze {a : Account} {view : StepView} (h : a.view = none) (hs : view.state = .pending) :
      Move a { a with view := some view }
  | claim {a : Account} {view : StepView} (h : a.view = some view)
      (hs : view.launchable = true) (hc : a.callers = []) : Move a { a with
        view := some (view.claim (view.highestEpoch+1))
        callers := [(view.highestEpoch+1,false)]
        claims := a.claims ++ [view.highestEpoch+1] }
  | launch {a : Account} {e : ℕ} {front back : List (ℕ × Bool)}
      (h : a.callers = front ++ (e,false)::back) : Move a { a with
        view := a.view.map (·.launch e)
        callers := front ++ (e,true)::back }
  | call {a : Account} {e : ℕ} {front back : List (ℕ × Bool)}
      (h : a.callers = front ++ (e,true)::back) : Move a { a with
        callers := front ++ back
        spent := true }
  | settle {a : Account} (e : ℕ) (result : TerminalRecord) : Move a { a with
        view := a.view.map (·.settle e result) }
  | drop {a : Account} {callers : List (ℕ × Bool)} (h : callers.Sublist a.callers) :
      Move a { a with callers }
  | lose {a : Account} (e : ℕ) (reason : String) : Move a { a with
        view := a.view.map (·.lose e reason) }
  | resolve {a : Account} (decision : Reconciliation)
      (h : ∀ view, a.view = some view → view.isTerminal = false)
      (hd : decision ≠ .provedNoEffects) : Move a { a with
        view := a.view.map (·.reconcile decision) }
  | disprove {a : Account} (h : ∀ view, a.view = some view → view.isTerminal = false)
      (hl : ∀ x ∈ a.callers, x.2 = false) : Move a { a with
        view := a.view.map (·.reconcile .provedNoEffects)
        spent := false }

/-- What holds of a step in every careful run: at most one claim may still call, it is the current
one, and until something is launched nothing was called. -/
structure StepView.Live (v : StepView) (callers : List (ℕ × Bool)) (spent : Bool)
    (claims : List ℕ) : Prop where
  current : ∀ e, v.state = .claimed e ∨ v.state = .launched e → e = v.highestEpoch
  bounded : ∀ e ∈ claims, e ≤ v.highestEpoch
  one : callers.length ≤ 1
  caller : ∀ x ∈ callers, x.1 = v.highestEpoch ∧ (x.2 = true → v.launchable = false)
  unspent : ∀ x ∈ callers, spent = false
  fresh : v.launchable = true → spent = false

def Account.Sound : Account → Prop
  | ⟨none,callers,spent,claims⟩ => callers = [] ∧ spent = false ∧ claims = []
  | ⟨some v,callers,spent,claims⟩ => v.Live callers spent claims

namespace StepView
variable {v : StepView} {callers : List (ℕ × Bool)} {spent : Bool} {claims : List ℕ}

lemma isTerminal_of_launchable (h : v.launchable = true) : v.isTerminal = false := by
  unfold launchable at h
  unfold isTerminal
  split at h
  · next hs => rw [hs]
  · next hs => rw [hs]
  · cases h

lemma launchable_of_isTerminal (h : v.isTerminal = true) : v.launchable = false := by
  cases hl : v.launchable with
  | false => rfl
  | true =>
    rw [isTerminal_of_launchable hl] at h
    cases h

lemma claim_next (h : v.launchable = true) : v.claim (v.highestEpoch+1) =
    { v with highestEpoch := v.highestEpoch+1, state := .claimed (v.highestEpoch+1) } :=
  if_pos (by simp [accepts, isTerminal_of_launchable h])

lemma launch_current : v.isTerminal = true ∧ v.launch v.highestEpoch = v ∨
    v.launch v.highestEpoch = { v with state := .launched v.highestEpoch } := by
  cases ht : v.isTerminal with
  | true => exact .inl ⟨rfl,if_neg (by simp [accepts, ht])⟩
  | false => exact .inr (if_pos (by simp [accepts, ht]))

lemma settle_cases (e : ℕ) (result : TerminalRecord) : v.settle e result = v ∨
    v.isTerminal = false ∧ v.settle e result = { v with state := .settled result } := by
  unfold settle accepts
  split
  · next h => exact .inr ⟨by simp_all,rfl⟩
  · exact .inl rfl

lemma lose_cases (e : ℕ) (reason : String) : v.lose e reason = v ∨
    v.lose e reason = { v with state := .uncertain e reason } := by
  unfold lose
  split
  · exact .inl rfl
  · exact .inr rfl

/-- A state in which nothing can be launched is sound for whatever was called. -/
lemma Live.close (hv : v.Live callers spent claims) {state : StepState}
    (h : ({ v with state := state } : StepView).launchable = false) (hs : ∀ e, state ≠ .launched e) :
    ({ v with state := state } : StepView).Live callers spent claims := by
  refine ⟨?_,hv.bounded,hv.one,fun x hx => ⟨(hv.caller x hx).1,fun _ => h⟩,hv.unspent,?_⟩
  · rintro e (rfl | he)
    · cases h
    · exact absurd he (hs e)
  · intro hl
    rw [h] at hl
    cases hl

lemma Live.claim (hv : v.Live [] spent claims) (hs : v.launchable = true) :
    (v.claim (v.highestEpoch+1)).Live [(v.highestEpoch+1,false)] spent
      (claims ++ [v.highestEpoch+1]) := by
  rw [claim_next hs]
  refine ⟨?_,?_,le_rfl,?_,fun _ _ => hv.fresh hs,fun _ => hv.fresh hs⟩
  · rintro e (he | he)
    · exact (StepState.claimed.inj he).symm
    · cases he
  · intro e he
    rcases List.mem_append.mp he with he | he
    · exact (hv.bounded e he).trans (Nat.le_succ _)
    · exact (List.mem_singleton.mp he).le
  · intro x hx
    obtain rfl := List.mem_singleton.mp hx
    exact ⟨rfl,fun hf => absurd hf Bool.false_ne_true⟩

/-- The current claim is launched, unless its step is settled. -/
lemma Live.launch {e : ℕ} (hv : v.Live [(e,false)] spent claims) :
    (v.launch e).Live [(e,true)] spent claims := by
  obtain rfl := (hv.caller _ List.mem_cons_self).1
  have hspent := hv.unspent _ List.mem_cons_self
  rcases v.launch_current with ⟨ht,hl⟩ | hl
  · rw [hl]
    refine ⟨hv.current,hv.bounded,le_rfl,fun x hx => ?_,fun _ _ => hspent,hv.fresh⟩
    obtain rfl := List.mem_singleton.mp hx
    exact ⟨rfl,fun _ => launchable_of_isTerminal ht⟩
  · rw [hl]
    refine ⟨?_,hv.bounded,le_rfl,fun x hx => ?_,fun _ _ => hspent,fun _ => hspent⟩
    · rintro e (he | he)
      · cases he
      · exact (StepState.launched.inj he).symm
    · obtain rfl := List.mem_singleton.mp hx
      exact ⟨rfl,fun _ => rfl⟩

/-- What was launched is called once. -/
lemma Live.call {e : ℕ} (hv : v.Live [(e,true)] spent claims) : v.Live [] true claims := by
  have hl := (hv.caller _ List.mem_cons_self).2 rfl
  refine ⟨hv.current,hv.bounded,Nat.zero_le _,by simp,by simp,fun h => ?_⟩
  rw [hl] at h
  cases h

lemma Live.settle (hv : v.Live callers spent claims) (e : ℕ) (result : TerminalRecord) :
    (v.settle e result).Live callers spent claims := by
  rcases v.settle_cases e result with hs | ⟨-,hs⟩
  · rw [hs]
    exact hv
  · rw [hs]
    exact hv.close rfl (by simp)

lemma Live.lose (hv : v.Live callers spent claims) (e : ℕ) (reason : String) :
    (v.lose e reason).Live callers spent claims := by
  rcases v.lose_cases e reason with hs | hs
  · rw [hs]
    exact hv
  · rw [hs]
    exact hv.close rfl (by simp)

lemma Live.drop (hv : v.Live callers spent claims) {fewer : List (ℕ × Bool)}
    (h : fewer.Sublist callers) : v.Live fewer spent claims :=
  ⟨hv.current,hv.bounded,h.length_le.trans hv.one,fun x hx => hv.caller x (h.subset hx),
    fun x hx => hv.unspent x (h.subset hx),hv.fresh⟩

lemma Live.resolve (hv : v.Live callers spent claims) {decision : Reconciliation}
    (hd : decision ≠ .provedNoEffects) : (v.reconcile decision).Live callers spent claims := by
  cases decision with
  | adoptCompleted output => exact hv.close rfl (by simp)
  | provedNoEffects => exact absurd rfl hd
  | abandoned note => exact hv.close rfl (by simp)

/-- A step without effects may be claimed again: nothing launched has yet to call. -/
lemma Live.disprove (hv : v.Live callers spent claims) (hl : ∀ x ∈ callers, x.2 = false) :
    (v.reconcile .provedNoEffects).Live callers false claims := by
  refine ⟨?_,hv.bounded,hv.one,fun x hx => ⟨(hv.caller x hx).1,fun h => ?_⟩,fun _ _ => rfl,
    fun _ => rfl⟩
  · rintro e (he | he) <;> cases he
  · rw [hl x hx] at h
    cases h

end StepView

namespace Account
variable {a : Account}

lemma sound_some {v : StepView} (h : a.view = some v) :
    a.Sound ↔ v.Live a.callers a.spent a.claims := by
  cases a
  cases h
  exact Iff.rfl

lemma sound_none (h : a.view = none) :
    a.Sound ↔ a.callers = [] ∧ a.spent = false ∧ a.claims = [] := by
  cases a
  cases h
  exact Iff.rfl

lemma Sound.of_live {v : StepView} (h : a.view = some v)
    (hl : v.Live a.callers a.spent a.claims) : a.Sound := (sound_some h).mpr hl

lemma Sound.of_none (h : a.view = none) (hc : a.callers = []) (hs : a.spent = false)
    (hl : a.claims = []) : a.Sound := (sound_none h).mpr ⟨hc,hs,hl⟩

/-- A claim that may call is the only one, on a step that has a view. -/
lemma Sound.alone (ha : a.Sound) {front back : List (ℕ × Bool)} {x : ℕ × Bool}
    (h : a.callers = front ++ x::back) : front = [] ∧ back = [] ∧
      ∃ v, a.view = some v ∧ v.Live [x] a.spent a.claims := by
  cases hv : a.view with
  | none =>
    have hno := ((sound_none hv).mp ha).1
    rw [h] at hno
    exact absurd hno (List.append_ne_nil_of_right_ne_nil _ (List.cons_ne_nil _ _))
  | some v =>
    have hlive := (sound_some hv).mp ha
    have hone := hlive.one
    rw [h,List.length_append,List.length_cons] at hone
    obtain rfl : front = [] := List.eq_nil_of_length_eq_zero (by omega)
    obtain rfl : back = [] := List.eq_nil_of_length_eq_zero (by omega)
    rw [h] at hlive
    exact ⟨rfl,rfl,v,rfl,hlive⟩

end Account

theorem Move.sound {a b : Account} (h : Move a b) (ha : a.Sound) : b.Sound := by
  cases h with
  | rest => exact ha
  | freeze hn hs =>
    obtain ⟨hc,hspent,hcl⟩ := (Account.sound_none hn).mp ha
    refine .of_live rfl ?_
    refine ⟨?_,by simp [hcl],by simp [hc],by simp [hc],fun _ _ => hspent,fun _ => hspent⟩
    rintro e (he | he) <;> rw [hs] at he <;> cases he
  | claim hv hs hc =>
    have hlive := (Account.sound_some hv).mp ha
    rw [hc] at hlive
    exact .of_live rfl (hlive.claim hs)
  | @launch e front back hc =>
    obtain ⟨rfl,rfl,v,hv,hlive⟩ := ha.alone hc
    exact .of_live (v := v.launch e) (by rw [hv]; rfl) hlive.launch
  | call hc =>
    obtain ⟨rfl,rfl,v,hv,hlive⟩ := ha.alone hc
    exact .of_live hv hlive.call
  | settle e result =>
    cases hv : a.view with
    | none =>
      obtain ⟨hc,hspent,hcl⟩ := (Account.sound_none hv).mp ha
      exact .of_none rfl hc hspent hcl
    | some v => exact .of_live rfl (((Account.sound_some hv).mp ha).settle e result)
  | drop hc =>
    cases hv : a.view with
    | none =>
      obtain ⟨hn,hspent,hcl⟩ := (Account.sound_none hv).mp ha
      rw [hn] at hc
      exact .of_none rfl (List.sublist_nil.mp hc) hspent hcl
    | some v => exact .of_live rfl (((Account.sound_some hv).mp ha).drop hc)
  | lose e reason =>
    cases hv : a.view with
    | none =>
      obtain ⟨hc,hspent,hcl⟩ := (Account.sound_none hv).mp ha
      exact .of_none rfl hc hspent hcl
    | some v => exact .of_live rfl (((Account.sound_some hv).mp ha).lose e reason)
  | resolve decision h hd =>
    cases hv : a.view with
    | none =>
      obtain ⟨hc,hspent,hcl⟩ := (Account.sound_none hv).mp ha
      exact .of_none rfl hc hspent hcl
    | some v => exact .of_live rfl (((Account.sound_some hv).mp ha).resolve hd)
  | disprove h hl =>
    cases hv : a.view with
    | none =>
      obtain ⟨hc,-,hcl⟩ := (Account.sound_none hv).mp ha
      exact .of_none rfl hc rfl hcl
    | some v => exact .of_live rfl (((Account.sound_some hv).mp ha).disprove hl)

/-- What a record of a step does to it. -/
def Account.append (a : Account) : Record → Account
  | .frozen _ _ _ fingerprint notAfterUtcMs => { a with view := some (a.view.getD
      { state := .pending, fingerprint, notAfterUtcMs, highestEpoch := 0 }) }
  | .claimed _ epoch _ => { a with
      view := a.view.map (·.claim epoch)
      callers := a.callers ++ [(epoch,false)]
      claims := a.claims ++ [epoch] }
  | .launched _ epoch => { a with view := a.view.map (·.launch epoch) }
  | .settled _ epoch result => { a with view := a.view.map (·.settle epoch result) }
  | .uncertain _ epoch reason => { a with view := a.view.map (·.lose epoch reason) }
  | .reconciled _ .provedNoEffects _ => { a with
      view := a.view.map (·.reconcile .provedNoEffects)
      spent := false }
  | .reconciled _ decision _ => { a with view := a.view.map (·.reconcile decision) }
  | .cancelRequested .. => a

end TowerAgent.Durable
