import TowerAgent.Durable.Account
import TowerAgent.Durable.Handles

/-! Any number of workers on one log: a careful run moves every step as its account allows, keeps
what is settled, and so calls the provider at most once a step. -/
namespace TowerAgent.Durable
open Lib (Machine)

def Worker.caller (k : StepKey) (worker : Worker) : Option (ℕ × Bool) :=
  if worker.key = k then match worker.pc with
    | .admitted => some (worker.epoch,false)
    | .launched _ => some (worker.epoch,true)
    | .called .. | .gone => none
  else none

/-- Whether a step is still called after one more event. -/
def Event.spend (k : StepKey) (spent : Bool) : Event → Bool
  | .called key _ => if key = k then true else spent
  | .recorded (.reconciled key .provedNoEffects _) => if key = k then false else spent
  | _ => spent

def Event.claimOf (k : StepKey) : Event → Option ℕ
  | .recorded (.claimed key epoch _) => if key = k then some epoch else none
  | _ => none

def Host.account (h : Host) (k : StepKey) : Account where
  view := h.replayed.steps[k]?
  callers := h.workers.filterMap (Worker.caller k)
  spent := h.history.foldl (Event.spend k) false
  claims := h.history.filterMap (Event.claimOf k)

section Step
variable {h h' : Host} {k : StepKey} {j : ℕ}

lemma replayed_append (h : Host) (record : Record) :
    (h.append j record).replayed = h.replayed.apply record :=
  List.foldl_append.trans rfl

/-- What a record adds to an account, field by field. -/
lemma account_append_eq (h : Host) (record : Record) (k : StepKey) :
    (h.append j record).account k = {
      view := (h.replayed.apply record).steps[k]?
      callers := (h.account k).callers ++ record.handed.filterMap (Worker.caller k)
      spent := Event.spend k (h.account k).spent (.recorded record)
      claims := (h.account k).claims ++ (Event.claimOf k (.recorded record)).toList } := by
  have hclaims : (h.history ++ [Event.recorded record]).filterMap (Event.claimOf k) =
      h.history.filterMap (Event.claimOf k) ++ (Event.claimOf k (.recorded record)).toList := by
    rw [List.filterMap_append,List.filterMap_cons,List.filterMap_nil]
    cases Event.claimOf k (.recorded record) <;> rfl
  simp only [Host.account, replayed_append, Account.mk.injEq, true_and]
  exact ⟨List.filterMap_append,List.foldl_append.trans rfl,hclaims⟩

lemma account_append (h : Host) (record : Record) (k : StepKey) :
    (h.append j record).account k =
      if record.key = some k then (h.account k).append record else h.account k := by
  rw [account_append_eq]
  split
  · next hk =>
    cases record with
    | frozen key =>
      obtain rfl := Option.some.inj hk
      simp [Host.account, Account.append, DurableStore.apply, DurableStore.orInsert_steps,
        Record.handed, Event.spend, Event.claimOf]
    | claimed key | launched key | settled key | uncertain key =>
      obtain rfl := Option.some.inj hk
      simp [Host.account, Account.append, DurableStore.apply, DurableStore.modify_steps,
        Record.handed, Event.spend, Event.claimOf, Worker.caller]
    | reconciled key decision =>
      obtain rfl := Option.some.inj hk
      cases decision <;> simp [Host.account, Account.append, DurableStore.apply,
        DurableStore.modify_steps, Record.handed, Event.spend, Event.claimOf]
    | cancelRequested => cases hk
  · next hk =>
    have hh : record.handed.filterMap (Worker.caller k) = [] := by
      cases record <;> simp_all [Record.handed, Record.key, Worker.caller]
    have hs : ∀ spent, Event.spend k spent (.recorded record) = spent := by
      intro spent
      unfold Event.spend
      split <;> simp_all [Record.key]
    have hc : Event.claimOf k (.recorded record) = none := by
      cases record <;> simp_all [Event.claimOf, Record.key]
    simp [Host.account, DurableStore.apply_other hk, hh, hs, hc]

/-- A worker that goes on changes the claims that may call in one place. -/
lemma account_goto {i : ℕ} {w : Worker} (w' : Worker) (hi : h.workers[i]? = some w)
    (k : StepKey) :
    ∃ front back, (h.account k).callers = front ++ ((w.caller k).toList ++ back) ∧
      (h.goto i w').account k =
        { h.account k with callers := front ++ ((w'.caller k).toList ++ back) } := by
  obtain ⟨hlt,rfl⟩ := List.getElem?_eq_some_iff.mp hi
  obtain ⟨front,back,he,-,hset⟩ : ∃ front back, h.workers = front ++ h.workers[i]::back ∧
      front.length = i ∧ h.workers.set i w' = front ++ w'::back := List.exists_of_set hlt
  refine ⟨front.filterMap (Worker.caller k),back.filterMap (Worker.caller k),?_,?_⟩
  · have hc : (h.account k).callers = h.workers.filterMap (Worker.caller k) := rfl
    rw [hc]
    conv_lhs => rw [he]
    rw [List.filterMap_append,List.filterMap_cons]
    cases Worker.caller k h.workers[i] <;> rfl
  · simp only [Host.account, Host.replayed, Host.goto, hset, List.filterMap_append,
      List.filterMap_cons]
    cases Worker.caller k w' <;> rfl

lemma caller_other {w : Worker} (h : w.key ≠ k) : w.caller k = none := if_neg h

lemma goto_other {i : ℕ} {w w' : Worker} (hi : h.workers[i]? = some w) (hk : w.key ≠ k)
    (hk' : w'.key ≠ k) : (h.goto i w').account k = h.account k := by
  obtain ⟨front,back,hc,hg⟩ := account_goto w' hi k
  rw [hg,caller_other hk',←caller_other hk,←hc]

/-- A worker that appends a record and goes on moves its own step only. -/
lemma worker_moves {i : ℕ} {key : StepKey} {epoch : ℕ} {pc pc' : Pc} {record : Record}
    (hi : h.workers[i]? = some ⟨key,epoch,pc⟩) (hr : record.key = some key)
    (hn : record.handed = []) (hself : ∀ front back, (h.account key).callers =
        front ++ ((Worker.caller key ⟨key,epoch,pc⟩).toList ++ back) →
      Move (h.account key) { (h.account key).append record with
        callers := front ++ ((Worker.caller key ⟨key,epoch,pc'⟩).toList ++ back) }) (k : StepKey) :
    Move (h.account k) (((h.append j record).goto i ⟨key,epoch,pc'⟩).account k) := by
  have hi' : (h.append j record).workers[i]? = some ⟨key,epoch,pc⟩ := by
    rw [←hi,Host.append,hn,List.append_nil]
  by_cases hk : key = k
  · subst hk
    obtain ⟨front,back,hc,hg⟩ := account_goto ⟨key,epoch,pc'⟩ hi' key
    have hsame : ((h.append j record).account key).callers = (h.account key).callers := by
      simp only [Host.account, Host.append, hn, List.append_nil]
    rw [hg,account_append,if_pos hr]
    exact hself front back (hsame ▸ hc)
  · rw [goto_other hi' hk hk,account_append,if_neg fun he => hk (Option.some.inj (hr.symm.trans he))]
    exact .rest _

/-- No claim may call where no worker may. -/
lemma callers_nil (hw : ∀ w ∈ h.workers, w.key = k → w.mayCall = false) :
    (h.account k).callers = [] := by
  refine List.filterMap_eq_nil_iff.mpr fun w hm => ?_
  by_cases hk : w.key = k
  · have hm := hw w hm hk
    obtain ⟨key,epoch,pc⟩ := w
    cases pc with
    | admitted | launched => cases hm
    | called | gone => simp [Worker.caller]
  · exact caller_other hk

/-- An allowed claim is of the step as the whole log has it. -/
lemma claim_moves {key : StepKey} {epoch : ℕ} {worker : String}
    (hc : h.Allows (.claimed key epoch worker)) (k : StepKey) :
    Move (h.account k) ((h.append j (.claimed key epoch worker)).account k) := by
  obtain ⟨hw,view,hv,hl,rfl⟩ := hc
  rw [account_append]
  split
  · next hk =>
    obtain rfl := Option.some.inj hk
    have hview : (h.account key).view = some view := hv
    have hcall := callers_nil hw
    have hmove := Move.claim hview hl hcall
    simpa [Account.append, hcall, hview] using hmove
  · exact .rest _

/-- A delivery claims the step it is about, or does nothing. -/
lemma deliver_moves {store : DurableStore} {job : StepJobRef} {fingerprint worker : String}
    {now : ℕ} (hc : ∀ record ∈ (admitJob store job fingerprint worker now).2, h.Allows record)
    (k : StepKey) : Move (h.account k)
      (((admitJob store job fingerprint worker now).2.foldl (Host.append j) h).account k) := by
  rcases admitJob_cases store job fingerprint worker now with hn | ⟨view,-,-,hr⟩
  · rw [hn]
    exact .rest _
  · rw [hr] at hc ⊢
    exact claim_moves (hc _ List.mem_cons_self) k

/-- What a sweep does next: it claims one step again, gives one up, or returns. -/
lemma Sweep.next_cases (sweep : Sweep) : sweep.next.1 = [] ∨
    (∃ key epoch worker, sweep.next.1 = [.claimed key epoch worker]) ∨
    ∃ key epoch reason, sweep.next.1 = [.uncertain key epoch reason] := by
  obtain ⟨worker,lost,recovery⟩ := sweep
  cases lost with
  | nil => exact .inl rfl
  | cons lost rest =>
    rcases recoverStep_cases worker recovery lost with hn | ⟨epoch,hr⟩ | ⟨epoch,reason,hr⟩
    · exact .inl hn
    · exact .inr (.inl ⟨_,epoch,worker,hr⟩)
    · exact .inr (.inr ⟨_,epoch,reason,hr⟩)

lemma recoverNext_moves {sweep : Sweep} (hc : ∀ record ∈ sweep.next.1, h.Allows record)
    (k : StepKey) : Move (h.account k) ((sweep.next.1.foldl (Host.append j) h).account k) := by
  rcases sweep.next_cases with hn | ⟨key,epoch,worker,hr⟩ | ⟨key,epoch,reason,hr⟩
  · rw [hn]
    exact .rest _
  · rw [hr] at hc ⊢
    exact claim_moves (hc _ List.mem_cons_self) k
  · rw [hr,List.foldl_cons,List.foldl_nil,account_append]
    split
    · exact .lose epoch reason
    · exact .rest _

/-- A decision ends a step, or opens it again when nothing launched has yet to call. -/
lemma reconcile_moves {key : StepKey} {decision : Reconciliation} {decidedBy : String}
    (hc : h.Allows (.reconciled key decision decidedBy)) (k : StepKey) :
    Move (h.account k) ((h.append j (.reconciled key decision decidedBy)).account k) := by
  obtain ⟨ht,hl⟩ := hc
  rw [account_append]
  split
  · next hk =>
    obtain rfl := Option.some.inj hk
    cases decision with
    | adoptCompleted output => exact .resolve (.adoptCompleted output) ht (by simp)
    | abandoned note => exact .resolve (.abandoned note) ht (by simp)
    | provedNoEffects =>
      refine .disprove ht fun x hx => ?_
      obtain ⟨⟨wkey,epoch,pc⟩,hm,hx⟩ := List.mem_filterMap.mp hx
      unfold Worker.caller at hx
      split at hx
      · next hkey =>
        cases pc with
        | admitted =>
          obtain rfl := Option.some.inj hx
          rfl
        | launched => cases hl rfl _ hm hkey
        | called | gone => cases hx
      · cases hx
  · exact .rest _

/-- A call uses up the claim of the worker that makes it. -/
lemma call_moves {i : ℕ} {key : StepKey} {epoch : ℕ} {result : TerminalRecord}
    (hi : h.workers[i]? = some ⟨key,epoch,.launched j⟩) (k : StepKey) : Move (h.account k)
      (Host.account { h.goto i ⟨key,epoch,.called j result⟩ with
        history := h.history ++ [.called key epoch] } k) := by
  have hcalled : Host.account { h.goto i ⟨key,epoch,.called j result⟩ with
      history := h.history ++ [.called key epoch] } k =
        { (h.goto i ⟨key,epoch,.called j result⟩).account k with
          spent := if key = k then true else (h.account k).spent } := by
    simp [Host.account, Host.replayed, Host.goto, Event.fold, Event.spend, Event.claimOf]
  rw [hcalled]
  by_cases hk : key = k
  · subst hk
    obtain ⟨front,back,hc,hg⟩ := account_goto ⟨key,epoch,.called j result⟩ hi key
    simp only [Worker.caller, if_true] at hc hg
    rw [hg,if_pos rfl]
    exact .call hc
  · rw [goto_other hi hk hk,if_neg hk]
    exact .rest _

lemma lose_moves {i : ℕ} {key : StepKey} {epoch : ℕ} {pc : Pc}
    (hi : h.workers[i]? = some ⟨key,epoch,pc⟩) (k : StepKey) :
    Move (h.account k) ((h.goto i ⟨key,epoch,.gone⟩).account k) := by
  obtain ⟨front,back,hc,hg⟩ := account_goto ⟨key,epoch,.gone⟩ hi k
  have hgone : Worker.caller k ⟨key,epoch,.gone⟩ = none := by simp [Worker.caller]
  rw [hg]
  refine .drop ?_
  rw [hc,hgone]
  exact (List.Sublist.refl front).append (List.sublist_append_right _ back)

theorem Transition.moves {l : Label} (ht : Transition h l h') (hc : h.Careful l) (k : StepKey) :
    Move (h.account k) (h'.account k) := by
  cases ht with
  | openStore => exact .rest _
  | freeze =>
    rw [account_append]
    split
    · cases hv : (h.account k).view with
      | none => simpa [Account.append, hv] using Move.freeze hv rfl
      | some view =>
        have hsame : { h.account k with view := some view } = h.account k := by rw [←hv]
        simp only [Account.append, hv, Option.getD_some, hsame]
        exact .rest _
    · exact .rest _
  | cancel =>
    rw [account_append]
    exact .rest _
  | reconcile => exact reconcile_moves hc.1 k
  | deliver idle => exact deliver_moves (hc _ idle) k
  | recoverLost => exact .rest _
  | recoverNext opened swept => exact recoverNext_moves (hc _ opened _ swept) k
  | launch found =>
    refine worker_moves found rfl rfl (fun front back hc => ?_) k
    simp only [Worker.caller, if_true] at hc ⊢
    exact .launch hc
  | call found => exact call_moves found k
  | @settle i j key epoch result found =>
    refine worker_moves found rfl rfl (fun front back hc => ?_) k
    simp only [Worker.caller, if_true] at hc ⊢
    rw [←hc]
    exact .settle epoch result
  | lose found => exact lose_moves found k

end Step

section Keeps
variable {h h' : Host} {l : Label} {k : StepKey} {j : ℕ} {record : Record}

/-- Only a decision replaces a settled answer. -/
lemma DurableStore.Answers.apply {store : DurableStore} {result : TerminalRecord}
    (ha : store.Answers k result)
    (hr : ∀ decision decidedBy, record ≠ .reconciled k decision decidedBy) :
    (store.apply record).Answers k result := by
  obtain ⟨view,hv,hs⟩ := ha
  have hsame : ∀ change : StepView → StepView, (change view).state = .settled result →
      ∀ key, (store.modify key change).Answers k result := by
    intro change hchange key
    refine ⟨if key = k then change view else view,?_,?_⟩
    · rw [modify_steps,hv]
      split <;> rfl
    · split
      · exact hchange
      · exact hs
  have ht : view.isTerminal = true := by rw [StepView.isTerminal,hs]
  cases record with
  | frozen key =>
    refine ⟨view,?_,hs⟩
    rw [DurableStore.apply,orInsert_steps,hv]
    split <;> rfl
  | claimed key epoch | launched key epoch | settled key epoch | uncertain key epoch =>
    refine hsame _ ?_ key
    simp [StepView.claim, StepView.launch, StepView.settle, StepView.lose, StepView.accepts, ht, hs]
  | reconciled key decision decidedBy =>
    refine ⟨view,?_,hs⟩
    rw [apply_other fun hk => hr decision decidedBy (by rw [Option.some.inj hk])]
    exact hv
  | cancelRequested => exact ⟨view,hv,hs⟩

lemma DurableStore.Answers.not_open {store : DurableStore} {result : TerminalRecord}
    (ha : store.Answers k result) : ¬∀ view ∈ store.steps[k]?, view.isTerminal = false := by
  obtain ⟨view,hv,hs⟩ := ha
  intro hno
  have := hno view hv
  rw [StepView.isTerminal,hs] at this
  cases this

namespace Host

lemma Keeps.of_same (hr : h'.replayed = h.replayed) (hh : ∀ (j : ℕ) (x : Handle),
    h.handles[j]? = some x → ∃ x', h'.handles[j]? = some x' ∧ x'.store = x.store) :
    h.Keeps h' := by
  refine ⟨fun k result ha => hr ▸ ha,fun j x hx => ?_⟩
  obtain ⟨x',hx',hs⟩ := hh j x hx
  exact ⟨x',hx',fun k result ha => hs ▸ ha⟩

lemma Keeps.refl (h : Host) : h.Keeps h := .of_same rfl fun _ x hx => ⟨x,hx,rfl⟩

lemma Keeps.trans {m : Host} (hm : h.Keeps m) (hh : m.Keeps h') : h.Keeps h' := by
  refine ⟨fun k result ha => hh.log k result (hm.log k result ha),fun j x hx => ?_⟩
  obtain ⟨y,hy,hxy⟩ := hm.handles j x hx
  obtain ⟨z,hz,hyz⟩ := hh.handles j y hy
  exact ⟨z,hz,fun k result ha => hyz k result (hxy k result ha)⟩

/-- A record that is appended keeps every answer it does not decide on. -/
lemma Keeps.append (hlog : ∀ k result, h.replayed.Answers k result →
      (h.replayed.apply record).Answers k result)
    (hown : ∀ x, h.handles[j]? = some x → ∀ k result, x.store.Answers k result →
      (x.store.apply record).Answers k result) : h.Keeps (h.append j record) := by
  refine ⟨fun k result ha => ?_,fun i x hx => ?_⟩
  · rw [replayed_append]
    exact hlog k result ha
  · by_cases hij : j = i
    · subst hij
      refine ⟨{ x with store := x.store.apply record },?_,hown x hx⟩
      rw [Host.append,List.getElem?_modify_eq,hx]
      rfl
    · refine ⟨x,?_,fun _ _ ha => ha⟩
      rw [Host.append,List.getElem?_modify_ne _ _ hij]
      exact hx

lemma Keeps.append_fact
    (hr : ∀ key decision decidedBy, record ≠ .reconciled key decision decidedBy) :
    h.Keeps (h.append j record) :=
  .append (fun k _ ha => ha.apply (hr k)) fun _ _ k _ ha => ha.apply (hr k)

lemma Keeps.goto (i : ℕ) (worker : Worker) : h.Keeps (h.goto i worker) :=
  .of_same rfl fun _ x hx => ⟨x,hx,rfl⟩

lemma Keeps.sweepOn (sweep : Option Sweep) : h.Keeps (h.sweepOn j sweep) := by
  refine .of_same rfl fun i x hx => ?_
  by_cases hij : j = i
  · subst hij
    refine ⟨{ x with sweep := sweep },?_,rfl⟩
    rw [Host.sweepOn,List.getElem?_modify_eq,hx]
    rfl
  · refine ⟨x,?_,rfl⟩
    rw [Host.sweepOn,List.getElem?_modify_ne _ _ hij]
    exact hx

lemma idle_eq_some {store : DurableStore} : h.idle j = some store ↔ ∃ x, h.handles[j]? = some x ∧
    x.sweep = none ∧ (∀ w ∈ h.workers, w.handle ≠ some j) ∧ x.store = store := by
  simp [Host.idle, Option.bind_eq_some_iff, and_assoc]

end Host

theorem Transition.keeps (ht : Transition h l h') (hc : h.Careful l) : h.Keeps h' := by
  cases ht with
  | openStore =>
    refine .of_same rfl fun i x hx => ⟨x,?_,rfl⟩
    exact List.getElem?_append_left (List.getElem?_eq_some_iff.mp hx).1 ▸ hx
  | freeze | cancel => exact .append_fact (by simp)
  | @reconcile j key decision decidedBy store idle =>
    obtain ⟨⟨ht,-⟩,hown⟩ := hc
    have hother : ∀ {store : DurableStore}, (∀ view ∈ store.steps[key]?, view.isTerminal = false) →
        ∀ k result, store.Answers k result →
          (store.apply (.reconciled key decision decidedBy)).Answers k result := by
      intro store hopen k result ha
      refine ha.apply fun decision' decidedBy' he => ?_
      obtain ⟨rfl,-⟩ := Record.reconciled.inj he
      exact absurd hopen ha.not_open
    refine .append (hother ht) fun x hx => hother ?_
    obtain ⟨x',hx',-,-,rfl⟩ := Host.idle_eq_some.mp idle
    obtain rfl := Option.some.inj (hx.symm.trans hx')
    exact hown x.store idle
  | @deliver j job fingerprint worker now store =>
    rcases admitJob_cases store job fingerprint worker now with hn | ⟨view,-,-,hr⟩
    · rw [hn]
      exact .refl h
    · rw [hr]
      exact .append_fact (by simp)
  | recoverLost => exact .sweepOn _
  | @recoverNext j handle sweep =>
    refine .trans ?_ (.sweepOn _)
    rcases sweep.next_cases with hn | ⟨key,epoch,worker,hr⟩ | ⟨key,epoch,reason,hr⟩
    · rw [hn]
      exact .refl h
    · rw [hr]
      exact .append_fact (by simp)
    · rw [hr]
      exact .append_fact (by simp)
  | launch | settle => exact .trans (.append_fact (by simp)) (.goto _ _)
  | call => exact .of_same (List.foldl_append.trans rfl) fun _ x hx => ⟨x,hx,rfl⟩
  | lose => exact .goto _ _

end Keeps

/-- Every call found its step not called since its effects were last disproved, and its claim not
superseded. -/
def Fair (history : List Event) : Prop :=
  ∀ (k : StepKey) (e : ℕ) (a b : List Event), history = a ++ .called k e::b →
    a.foldl (Event.spend k) false = false ∧
      ∀ (e' : ℕ) (worker : String), .recorded (.claimed k e' worker) ∈ a → e' ≤ e

section Run
variable {h h' : Host} {t : List Label} {history : List Event} {j : ℕ}

lemma Fair.concat (hf : Fair history) {event : Event}
    (he : ∀ k e, event = .called k e → history.foldl (Event.spend k) false = false ∧
      ∀ (e' : ℕ) (worker : String), .recorded (.claimed k e' worker) ∈ history → e' ≤ e) :
    Fair (history ++ [event]) := by
  intro k e a b hs
  rcases List.eq_nil_or_concat b with rfl | ⟨b,last,rfl⟩
  · obtain ⟨rfl,hl⟩ := List.append_inj' hs rfl
    exact he k e (List.singleton_inj.mp hl)
  · have hs : history ++ [event] = (a ++ .called k e::b) ++ [last] := by simpa using hs
    obtain ⟨hs,-⟩ := List.append_inj' hs rfl
    exact hf k e a b hs

lemma Fair.append (hf : Fair h.history) (record : Record) : Fair (h.append j record).history :=
  hf.concat fun _ _ he => by cases he

lemma Fair.foldl (hf : Fair h.history) (records : List Record) :
    Fair (records.foldl (Host.append j) h).history := by
  induction records generalizing h with
  | nil => exact hf
  | cons record records ih => exact ih (hf.append record)

/-- The one claim that may call is current, and its step is not called yet. -/
lemma fair_call {i : ℕ} {key : StepKey} {epoch : ℕ} (hs : (h.account key).Sound)
    (hi : h.workers[i]? = some ⟨key,epoch,.launched j⟩) :
    h.history.foldl (Event.spend key) false = false ∧ ∀ (e' : ℕ) (worker : String),
      .recorded (.claimed key e' worker) ∈ h.history → e' ≤ epoch := by
  obtain ⟨front,back,hc,-⟩ := account_goto ⟨key,epoch,.gone⟩ hi key
  simp only [Worker.caller, if_true] at hc
  obtain ⟨-,-,v,hv,hlive⟩ := hs.alone hc
  refine ⟨hlive.unspent _ List.mem_cons_self,fun e' worker hm => ?_⟩
  have hcur : epoch = v.highestEpoch := (hlive.caller _ List.mem_cons_self).1
  rw [hcur]
  refine hlive.bounded e' (List.mem_filterMap.mpr ⟨_,hm,?_⟩)
  simp [Event.claimOf]

lemma Transition.fair {l : Label} (ht : Transition h l h') (hs : ∀ k, (h.account k).Sound)
    (hf : Fair h.history) : Fair h'.history := by
  cases ht with
  | freeze | cancel | reconcile => exact hf.append _
  | @launch i j | @settle i j => exact hf.append (j := j) _
  | deliver | recoverNext => exact hf.foldl _
  | @call i j outcome key epoch found =>
    refine hf.concat fun k e he => ?_
    obtain ⟨rfl,rfl⟩ := Event.called.inj he
    exact fair_call (hs key) found
  | openStore | recoverLost | lose => exact hf

/-- What every careful run keeps. -/
structure Host.Sound (t : List Label) (h : Host) : Prop where
  account : ∀ k, (h.account k).Sound
  fair : Fair h.history
  final : ∀ (p u : List Label) (m : Host), t = p ++ u → host.run p = some m → m.Keeps h

theorem host_sound (hg : host.Guarded Host.Careful t) (ht : host.run t = some h) : h.Sound t := by
  refine Machine.invariant_guarded (P := fun t h => h.Sound t) ?_ ?_ ht hg
  · refine ⟨fun k => ?_,?_,?_⟩
    · exact .of_none Std.ExtTreeMap.getElem?_empty rfl rfl rfl
    · exact fun k e a b hs =>
        absurd hs.symm (List.append_ne_nil_of_right_ne_nil _ (List.cons_ne_nil _ _))
    · intro p u m hsplit hm
      obtain ⟨rfl,-⟩ := List.append_eq_nil_iff.mp hsplit.symm
      obtain rfl := Option.some.inj hm
      exact .refl _
  · intro t h l h' ht hs hc hl
    have hstep := step_transition hl
    refine ⟨fun k => (hstep.moves hc k).sound (hs.account k),hstep.fair hs.account hs.fair,?_⟩
    intro p u m hsplit hm
    rcases List.eq_nil_or_concat u with rfl | ⟨u,last,rfl⟩
    · rw [List.append_nil] at hsplit
      subst hsplit
      have hsame : host.run (t ++ [l]) = some h' := by rw [Machine.run_concat,ht]; exact hl
      obtain rfl := Option.some.inj (hm.symm.trans hsame)
      exact .refl _
    · have hsplit : t ++ [l] = (p ++ u) ++ [last] := by simpa using hsplit
      obtain ⟨hsplit,-⟩ := List.append_inj' hsplit rfl
      exact (hs.final p u m hsplit hm).trans (hstep.keeps hc)

/-- After a call only a disproof opens the step again. -/
lemma disproved_of_spend {k : StepKey} {b : List Event}
    (h : b.foldl (Event.spend k) true = false) :
    ∃ decidedBy, .recorded (.reconciled k .provedNoEffects decidedBy) ∈ b := by
  by_contra hno
  simp only [not_exists] at hno
  have hkeep : b.foldl (Event.spend k) true = true := by
    clear h
    induction b with
    | nil => rfl
    | cons e b ih =>
      have he : Event.spend k true e = true := by
        unfold Event.spend
        split
        · exact ite_self _
        · next key decidedBy =>
          refine if_neg ?_
          rintro rfl
          exact hno decidedBy List.mem_cons_self
        · rfl
      rw [List.foldl_cons,he]
      exact ih fun decidedBy hm => hno decidedBy (List.mem_cons_of_mem _ hm)
  rw [hkeep] at h
  cases h

/-- In every careful run the provider is called at most once a step, by the current claim, and what
is settled stays. -/
theorem host_at_most_once (hg : host.Guarded Host.Careful t) (ht : host.run t = some h) :
    AtMostOnce t h := by
  have hs := host_sound hg ht
  refine ⟨fun k e e' a b c hh => ?_,fun k e e' worker a b hh hm => ?_,hs.final⟩
  · have hsplit : h.history = (a ++ .called k e::b) ++ .called k e'::c := by simpa using hh
    have hspent := (hs.fair k e' _ c hsplit).1
    rw [List.foldl_append,List.foldl_cons] at hspent
    exact disproved_of_spend (by simpa [Event.spend] using hspent)
  · exact (hs.fair k e a b hh).2 e' worker hm

/-- Whatever executes does so on a handle that was opened. -/
def Host.Opened (h : Host) : Prop :=
  ∀ w ∈ h.workers, ∀ j, w.handle = some j → j < h.handles.length

namespace Host.Opened

lemma append (ho : h.Opened) (record : Record) : (h.append j record).Opened := by
  intro w hw i hi
  rw [Host.append,List.length_modify]
  rcases List.mem_append.mp hw with hw | hw
  · exact ho w hw i hi
  · cases record with
    | claimed =>
      obtain rfl := List.mem_singleton.mp hw
      cases hi
    | _ => cases hw

lemma foldl (ho : h.Opened) (records : List Record) :
    (records.foldl (Host.append j) h).Opened := by
  induction records generalizing h with
  | nil => exact ho
  | cons record records ih => exact ih (ho.append record)

lemma goto (ho : h.Opened) {i : ℕ} {worker : Worker}
    (hw : ∀ j, worker.handle = some j → j < h.handles.length) : (h.goto i worker).Opened := by
  intro w hm
  rcases List.mem_or_eq_of_mem_set hm with hm | rfl
  · exact ho w hm
  · exact hw

lemma sweepOn (ho : h.Opened) (sweep : Option Sweep) : (h.sweepOn j sweep).Opened := by
  intro w hw i hi
  rw [Host.sweepOn,List.length_modify]
  exact ho w hw i hi

end Host.Opened

lemma Transition.opened {l : Label} (ht : Transition h l h') (ho : h.Opened) : h'.Opened := by
  cases ht with
  | openStore =>
    intro w hw i hi
    rw [List.length_append]
    exact Nat.lt_add_right _ (ho w hw i hi)
  | freeze | cancel | reconcile => exact ho.append _
  | deliver => exact ho.foldl _
  | recoverLost => exact ho.sweepOn _
  | recoverNext => exact (ho.foldl _).sweepOn _
  | @launch i j key epoch store found idle =>
    obtain ⟨x,hx,-⟩ := Host.idle_eq_some.mp idle
    refine (ho.append _).goto fun i hi => ?_
    obtain rfl := Option.some.inj hi
    rw [Host.append,List.length_modify]
    exact (List.getElem?_eq_some_iff.mp hx).1
  | call found => exact ho.goto fun i hj => ho _ (List.mem_of_getElem? found) i hj
  | settle => exact (ho.append _).goto fun _ hi => by cases hi
  | lose => exact ho.goto fun _ hi => by cases hi

lemma host_opened (ht : host.run t = some h) : h.Opened :=
  Machine.invariant (P := fun _ h => h.Opened) (fun _ h => (by cases h))
    (fun _ _ _ _ _ ho hl => (step_transition hl).opened ho) ht

/-- The condition is needed: a worker that may still call goes on to call, whatever has superseded
its claim. -/
theorem superseded_calls (ht : host.run t = some h) {i : ℕ} {w : Worker}
    (hi : h.workers[i]? = some w) (hmay : w.mayCall = true) {epoch : ℕ} {worker : String}
    (hnew : .recorded (.claimed w.key epoch worker) ∈ h.history) (hlt : w.epoch < epoch) :
    ∃ u h', host.run (t ++ u) = some h' ∧ ¬AtMostOnce (t ++ u) h' := by
  -- from a launched worker one step is missing
  have hcall : ∀ t h j, host.run t = some h → h.workers[i]? = some ⟨w.key,w.epoch,.launched j⟩ →
      .recorded (.claimed w.key epoch worker) ∈ h.history →
      ∃ h', host.run (t ++ [.call i (.ok "")]) = some h' ∧
        ¬AtMostOnce (t ++ [.call i (.ok "")]) h' := by
    intro t h j ht hi hnew
    have hstep : host.run (t ++ [.call i (.ok "")]) =
        some { h.goto i ⟨w.key,w.epoch,.called j (terminalRecord (.ok ""))⟩ with
          history := h.history ++ [.called w.key w.epoch] } := by
      rw [Machine.run_concat,ht]
      simp only [Option.bind_some, host, Host.step, hi]
    refine ⟨_,hstep,fun hall => ?_⟩
    have hle := hall.current w.key w.epoch epoch worker h.history [] rfl hnew
    omega
  obtain ⟨key,e,pc⟩ := w
  cases pc with
  | admitted =>
    -- it launches on a handle of its own
    have hopen : host.run (t ++ [.openStore]) =
        some { h with handles := h.handles ++ [{ store := h.replayed }] } := by
      rw [Machine.run_concat,ht]
      rfl
    have hidle : Host.idle { h with handles := h.handles ++ [{ store := h.replayed }] }
        h.handles.length = some h.replayed := by
      refine Host.idle_eq_some.mpr ⟨_,List.getElem?_concat_length,rfl,fun w hw hj => ?_,rfl⟩
      exact absurd (host_opened ht w hw _ hj) (lt_irrefl _)
    have hlaunch : host.run (t ++ [.openStore] ++ [.launch i h.handles.length]) =
        some ((Host.append h.handles.length { h with
          handles := h.handles ++ [{ store := h.replayed }] } (.launched key e)).goto i
            ⟨key,e,.launched h.handles.length⟩) := by
      rw [Machine.run_concat,hopen]
      simp only [Option.bind_some, host, Host.step, hi, hidle, Option.map_some]
    have hlen : i < h.workers.length := (List.getElem?_eq_some_iff.mp hi).1
    obtain ⟨h',hrun,hno⟩ := hcall _ _ h.handles.length hlaunch
      (by simp [Host.goto, Host.append, Record.handed, hlen]) (List.mem_append_left _ hnew)
    rw [List.append_assoc,List.append_assoc] at hrun hno
    exact ⟨_,h',hrun,hno⟩
  | launched j =>
    obtain ⟨h',hrun,hno⟩ := hcall t h j ht hi hnew
    exact ⟨_,h',hrun,hno⟩
  | called | gone => cases hmay

end Run

def sampleKey : StepKey := ⟨"run","review"⟩

def sampleFreeze : Label := .freeze 0 sampleKey "review" "v1" "fp" none

def sampleDelivery (j : ℕ) (worker : String) : Label :=
  .deliver j ⟨1,"run","review"⟩ "fp" worker 0

/-- One worker is lost before its launch, the next one after it; a third one settles the step, and
a late answer and one more delivery change nothing. Each has a handle of its own. -/
def sampleTrace : List Label :=
  [.openStore,sampleFreeze,sampleDelivery 0 "a",.lose 0,.openStore,.recoverLost 1 "b",
    .recoverNext 1,.recoverNext 1,.launch 1 1,.call 1 (.ok "late"),.openStore,.recoverLost 2 "c",
    .recoverNext 2,.recoverNext 2,.reconcile 2 sampleKey .provedNoEffects "operator",
    sampleDelivery 2 "d",.launch 2 2,.call 2 (.ok "done"),.settle 1,.settle 2,.openStore,
    sampleDelivery 3 "e"]

theorem host_at_most_once_sample : ∃ h, host.run sampleTrace = some h ∧
    (h.replayed.steps[sampleKey]?.map StepView.state) = some (.settled (.succeeded "done")) ∧
    AtMostOnce sampleTrace h :=
  ⟨_,rfl,rfl,host_at_most_once (by decide +kernel) rfl⟩

/-- A step is delivered again while the worker of its first delivery is alive. -/
def redelivery : List Label :=
  [.openStore,sampleFreeze,sampleDelivery 0 "a",.openStore,sampleDelivery 1 "b",.launch 0 0,
    .launch 1 1,.call 0 (.ok "first"),.call 1 (.ok "second")]

/-- A settled step is delivered again to a process that opened its store before it was claimed. -/
def staleDelivery : List Label :=
  [.openStore,sampleFreeze,.openStore,sampleDelivery 0 "a",.launch 0 0,.call 0 (.ok "first"),
    .settle 0,sampleDelivery 1 "b",.launch 1 1,.call 1 (.ok "second")]

/-- Both workers call the provider, in either run. -/
theorem host_called_twice : (∃ h, host.run redelivery = some h ∧ ¬AtMostOnce redelivery h) ∧
    ∃ h, host.run staleDelivery = some h ∧ ¬AtMostOnce staleDelivery h := by
  refine ⟨⟨_,rfl,fun hall => ?_⟩,⟨_,rfl,fun hall => ?_⟩⟩
  · obtain ⟨decidedBy,hm⟩ := hall.once sampleKey 1 2
      [.recorded (.frozen sampleKey "review" "v1" "fp" none),.recorded (.claimed sampleKey 1 "a"),
        .recorded (.claimed sampleKey 2 "b"),.recorded (.launched sampleKey 1),
        .recorded (.launched sampleKey 2)] [] [] rfl
    cases hm
  · obtain ⟨decidedBy,hm⟩ := hall.once sampleKey 1 1
      [.recorded (.frozen sampleKey "review" "v1" "fp" none),.recorded (.claimed sampleKey 1 "a"),
        .recorded (.launched sampleKey 1)] [.recorded (.settled sampleKey 1 (.succeeded "first")),
        .recorded (.claimed sampleKey 1 "b"),.recorded (.launched sampleKey 1)] [] rfl
    simp at hm

end TowerAgent.Durable
