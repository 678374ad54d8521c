import TowerAgent.Kernel.Stack

/-! Settlement ownership: under supervision the provider's future lives, and keeps its permits,
until it settles or panics, whatever becomes of the caller. -/
namespace TowerAgent.Kernel
open Lib

def Event.isAdmitted : Event → Bool
  | .admitted => true
  | _ => false

/-- The provider's future settled or panicked. -/
def Ended (log : List Event) : Prop := (∃ r, .settled r ∈ log) ∨ .panicked ∈ log

theorem Ended.append {v : List Event} (h : Ended v) (u : List Event) : Ended (v ++ u) := by
  rcases h with ⟨r,hr⟩ | hp
  · exact .inl ⟨r,List.mem_append_left u hr⟩
  · exact .inr (List.mem_append_left u hp)

/-- The provider's future is never dropped unsettled, and from its creation until it ends the call
holds the permit of each of its admission layers. -/
structure Owned (permits : ℕ) (log : List Event) : Prop where
  kept : .dropped ∉ log
  held : ∀ front, front <+: log → .created ∈ front → ¬Ended front →
    front.countP Event.isAdmitted = permits ∧ .released ∉ front

theorem Owned.concat {n : ℕ} {v : List Event} (h : Owned n v) {e : Event} (he : e ≠ .dropped)
    (hh : .created ∈ v ++ [e] → ¬Ended (v ++ [e]) →
      (v ++ [e]).countP Event.isAdmitted = n ∧ .released ∉ v ++ [e]) : Owned n (v ++ [e]) where
  kept hm := by
    rcases List.mem_append.mp hm with hm | hm
    · exact h.kept hm
    · exact he (List.mem_singleton.mp hm).symm
  held front hf := by
    rcases List.prefix_concat_iff.mp hf with rfl | hf
    · exact hh
    · exact h.held front hf

/-- Before the call: nothing is created, and the layers above hold their permits. -/
structure Entered (taken : ℕ) (log : List Event) : Prop where
  fresh : .created ∉ log
  kept : .dropped ∉ log
  held : .released ∉ log
  taken : log.countP Event.isAdmitted = taken

theorem Entered.concat {k k' : ℕ} {v : List Event} (h : Entered k v) {e : Event}
    (hc : e ≠ .created) (hd : e ≠ .dropped) (hr : e ≠ .released)
    (hk : k+[e].countP Event.isAdmitted = k') : Entered k' (v ++ [e]) where
  fresh := by simpa [hc.symm] using h.fresh
  kept := by simpa [hd.symm] using h.kept
  held := by simpa [hr.symm] using h.held
  taken := by rw [List.countP_append,h.taken,hk]

/-- While the provider runs: every permit is taken and none given back. -/
structure Running (n : ℕ) (log : List Event) : Prop where
  owned : Owned n log
  created : .created ∈ log
  taken : log.countP Event.isAdmitted = n
  held : .released ∉ log

theorem Running.concat {n : ℕ} {v : List Event} (h : Running n v) {e : Event}
    (hd : e ≠ .dropped) (hr : e ≠ .released) (ha : e.isAdmitted = false) : Running n (v ++ [e]) := by
  have ht : (v ++ [e]).countP Event.isAdmitted = n := by
    simpa [List.countP_append, List.countP_singleton, ha] using h.taken
  have hh : .released ∉ v ++ [e] := by simpa [hr.symm] using h.held
  exact ⟨h.owned.concat hd fun _ _ => ⟨ht,hh⟩,List.mem_append_left _ h.created,ht,hh⟩

/-- Once there is a result or a panic: a created future has ended. -/
structure Over (n : ℕ) (log : List Event) : Prop where
  owned : Owned n log
  ended : .created ∈ log → Ended log

theorem Over.concat {n : ℕ} {v : List Event} (h : Over n v) {e : Event} (hc : e ≠ .created)
    (hd : e ≠ .dropped) : Over n (v ++ [e]) := by
  have he : .created ∈ v ++ [e] → Ended (v ++ [e]) := fun hm =>
    (h.ended ((List.mem_append.mp hm).resolve_right fun hm =>
      hc (List.mem_singleton.mp hm).symm)).append _
  exact ⟨h.owned.concat hd fun hm hn => absurd (he hm) hn,he⟩

theorem Entered.owned {k n : ℕ} {v : List Event} (h : Entered k v) : Owned n v where
  kept := h.kept
  held _ hf hc := absurd (hf.subset hc) h.fresh

theorem Entered.over {k n : ℕ} {v : List Event} (h : Entered k v) : Over n v :=
  ⟨h.owned,fun hc => absurd hc h.fresh⟩

theorem Running.over {n : ℕ} {v : List Event} (h : Running n v) {e : Event} (hd : e ≠ .dropped)
    (he : Ended (v ++ [e])) : Over n (v ++ [e]) :=
  ⟨h.owned.concat hd fun _ hn => absurd he hn,fun _ => he⟩

/-- The regime of a call that crosses some number of admission layers. -/
def custody (n : ℕ) : Regime where
  safe := Owned n
  idle := Entered
  refused _ _ := True
  live := Running n
  done _ := Over n
  broken := Over n

theorem custody_lawful (n : ℕ) : (custody n).TurnLawful where
  idle_safe _ _ h := h.owned
  done_safe _ _ h := h.owned
  broken_safe _ h := h.owned
  idle_unready _ _ _ h := h.concat (by simp) (by simp) (by simp) rfl
  admitted _ _ h := h.concat (by simp) (by simp) (by simp) rfl
  done_released _ _ h := h.concat (by simp) (by simp)
  broken_released _ h := h.concat (by simp) (by simp)
  refuse _ _ _ h _ := h.over
  unready _ _ _ := trivial
  exceeded _ _ _ h := h
  unlaunched _ _ h := h
  caught _ _ h := h.concat (by simp) (by simp)
  faulted _ _ _ _ h := h.concat (by simp) (by simp)
  preserve _ _ _ h := h.concat (by simp) (by simp)
  done_receipt _ _ _ _ h := h.concat (by simp) (by simp)
  broken_receipt _ _ _ h := h.concat (by simp) (by simp)
  joined _ _ h := h

theorem custody_provides (n : ℕ) : (custody n).Provides n where
  safe _ h := h.owned
  unready _ _ := trivial
  unlaunched _ h := (h.concat (by simp) (by simp) (by simp) rfl : Entered n _).over
  launched v h := by
    have hcalled : Entered n (v ++ [.called]) := h.concat (by simp) (by simp) (by simp) rfl
    have ht : (v ++ [Event.called] ++ [Event.created]).countP Event.isAdmitted = n := by
      rw [List.countP_append,hcalled.taken]
      rfl
    have hh : .released ∉ v ++ [Event.called] ++ [Event.created] := by simpa using hcalled.held
    exact ⟨hcalled.owned.concat (by simp) fun _ _ => ⟨ht,hh⟩,by simp,ht,hh⟩
  polled _ h := h.concat (by simp) (by simp) rfl
  settled r _ h :=
    (h.concat (by simp) (by simp) rfl).over (by simp) (.inl ⟨r,by simp⟩)
  panicked _ h := (h.concat (by simp) (by simp) rfl).over (by simp) (.inr (by simp))

section Stacks
variable {O : Type} [RequestsFilesystemAuthority O]

/-- What a session over a supervised stack keeps. -/
theorem supervised_standing (layers : List Layer) (oracle : ℕ → Moment Reply) (cancelled : Bool)
    (now : ℕ) (service : (stack O (.supervise::layers)).State) (ops : List (Op (TurnRequest O))) :
    ∃ inv, (∀ f v, inv f v → Owned (permits layers) v) ∧
      (Session.run (Session.fresh oracle cancelled now service) ops).Standing
        ((custody (permits layers)).terms 0) inv inv := by
  obtain ⟨inv,h⟩ := stack_keeps (O := O) (k := 0) (custody_lawful _) (custody_provides _) layers
    (Nat.zero_add _)
  have hs := Supervise.keeps (custody_lawful _) h
  refine ⟨_,hs.safe,Session.run_standing _ hs ?_ (fun _ _ hf => hf) hs.background
    ⟨by simp,by simp,by simp,rfl⟩ oracle cancelled now service ops⟩
  rintro v e hv ⟨error,rfl⟩
  exact (custody_lawful (permits layers)).idle_unready 0 error v hv

/-- Under supervision, in every run of the caller, the runtime and the clock: the provider's future
is never dropped before it ends and its permits are held until then, no result reaches the caller
before, and dropping the returned future signals the request's token. -/
theorem supervised_call_owned (layers : List Layer) (oracle : ℕ → Moment Reply) (cancelled : Bool)
    (now : ℕ) (service : (stack O (.supervise::layers)).State) (ops : List (Op (TurnRequest O))) :
    Owned (permits layers) ((Session.fresh oracle cancelled now service).run ops).world.log ∧
    (∀ r, ((Session.fresh oracle cancelled now service).run ops).caller = .resolved r →
      .created ∈ ((Session.fresh oracle cancelled now service).run ops).world.log →
      Ended ((Session.fresh oracle cancelled now service).run ops).world.log) ∧
    (∀ f, ((Session.fresh oracle cancelled now service).run ops).caller = .holding f →
      (((Session.fresh oracle cancelled now service).run ops).drive .drop).world.cancelled =
        true) := by
  obtain ⟨inv,hsafe,hrun⟩ := supervised_standing layers oracle cancelled now service ops
  generalize (Session.fresh oracle cancelled now service).run ops = s at hrun ⊢
  have hcaller := hrun.caller
  refine ⟨?_,fun r hr => ?_,fun f hf => ?_⟩
  · cases hc : s.caller with
    | idle =>
      rw [hc] at hcaller
      exact Entered.owned hcaller
    | holding f =>
      rw [hc] at hcaller
      exact hsafe f _ hcaller
    | dropped f =>
      rw [hc] at hcaller
      exact hsafe f _ hcaller
    | resolved r =>
      rw [hc] at hcaller
      exact Over.owned hcaller
    | crashed =>
      rw [hc] at hcaller
      exact hcaller.elim Entered.owned Over.owned
  · rw [hr] at hcaller
    exact Over.ended hcaller
  · simp only [Session.drive, hf]
    rfl

end Stacks

/-- The provider is still running when the runtime first polls its task, and then responds. -/
def orphanOracle : ℕ → Moment Reply
  | 4 => { answer := { progress := .returned (.ready (.ok { output := "done" })) } }
  | _ => { answer := {} }

def orphanLayers : List Layer := [.generic .admission]

def orphanService : (stack SampleOptions (.supervise::orphanLayers)).State :=
  @Admission.State.mk Unit () false

/-- The caller drops its future unpolled; the runtime then polls the task. -/
def orphanOps : List (Op (TurnRequest SampleOptions)) :=
  [.pollReady,.call sampleRequest,.drop,.background 0]

/-- An abandoned call keeps its permit while the provider runs, and its token is cancelled. -/
theorem supervised_call_owned_sample :
    Owned 1 ((Session.fresh orphanOracle false 0 orphanService).run orphanOps).world.log ∧
    .created ∈ ((Session.fresh orphanOracle false 0 orphanService).run orphanOps).world.log ∧
    ((Session.fresh orphanOracle false 0 orphanService).run orphanOps).world.cancelled = true := by
  refine ⟨(supervised_call_owned orphanLayers orphanOracle false 0 orphanService orphanOps).1,
    ?_,rfl⟩
  have hlog : ((Session.fresh orphanOracle false 0 orphanService).run orphanOps).world.log =
    [.admitted,.called,.created,.polled] := rfl
  simp [hlog]

end TowerAgent.Kernel
