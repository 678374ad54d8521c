import TowerAgent.Mcp.History

/-! Scope isolation: whatever a service is asked to resume was left by an earlier call under the
same scope, and its name was neither evicted nor forgotten before it was presented. -/
namespace TowerAgent.Mcp.History
open Lib Kernel

/-- Neither evicted nor forgotten with its scope. -/
def Kept (id : ContinuationId) (scope : Scope) (log : List HistoryEvent) : Prop :=
  ∀ event ∈ log, event ≠ .evicted id ∧ event ≠ .forgot scope

/-- An earlier call under the scope settled with the session and minted the name, which has been
kept since. -/
def Live (log : List HistoryEvent) (id : ContinuationId) (scope : Scope) (session : SessionHandle) :
    Prop :=
  ∃ earlier later call request result, log = earlier ++ .minted call id scope result::later ∧
    .began call request ∈ earlier ∧ request.scope = .ok scope ∧
    settledSession result = some session ∧ Kept id scope later

/-- A call that began under a scope and presented a live name for the session; if nothing was
evicted or forgotten while it was under way, the name is live still. -/
def Resumed (log : List HistoryEvent) (call : ℕ) (session : SessionHandle) : Prop :=
  ∃ before since request scope id, log = before ++ .began call request::since ∧
    request.scope = .ok scope ∧ request.continuation = some id.asStr ∧
    Live before id scope session ∧ (Kept id scope since → Live log id scope session)

/-- What the phase of a call that began after `before` rests on. -/
def Justified (before : List HistoryEvent) : CallState → Prop
  | ⟨request,.admitted scope pending⟩ => request.scope = .ok scope ∧
    ∀ session, pending.session = some session →
      ∃ id : ContinuationId, request.continuation = some id.asStr ∧ Live before id scope session
  | ⟨request,.running scope⟩ => request.scope = .ok scope
  | ⟨_,.closed⟩ => True

/-- The beginning of a call is in the log, and its phase rests on what was before. -/
def Grounded (log : List HistoryEvent) (call : ℕ) (c : CallState) : Prop :=
  ∃ before since, log = before ++ .began call c.request::since ∧ Justified before c

structure Isolated (s : History) : Prop where
  entries : ∀ id e, s.store.state.entries[id]? = some e → Live s.log id e.scope e.session
  calls : ∀ i c, s.calls[i]? = some c → Grounded s.log i c
  launched : ∀ before i body, before ++ [.launched i body] <+: s.log →
    i < s.calls.length ∧ ∀ session, body.session = some session → Resumed before i session

section Logs
variable {log new : List HistoryEvent} {id : ContinuationId} {scope : Scope}
  {session : SessionHandle}

@[simp] lemma kept_nil : Kept id scope [] := List.forall_mem_nil _

@[simp] lemma kept_cons {event : HistoryEvent} : Kept id scope (event::log) ↔
    (event ≠ .evicted id ∧ event ≠ .forgot scope) ∧ Kept id scope log :=
  List.forall_mem_cons

@[simp] lemma kept_append : Kept id scope (log ++ new) ↔ Kept id scope log ∧ Kept id scope new :=
  List.forall_mem_append

/-- Evicting other names keeps one. -/
lemma kept_evicted {ids : List ContinuationId} (h : id ∉ ids) :
    Kept id scope (ids.map .evicted) := by
  intro event hmem
  obtain ⟨k,hk,rfl⟩ := List.mem_map.mp hmem
  refine ⟨?_,nofun⟩
  rintro ⟨⟩
  exact h hk

theorem Live.append (h : Live log id scope session) (hn : Kept id scope new) :
    Live (log ++ new) id scope session := by
  obtain ⟨earlier,later,call,request,result,rfl,hb,hs,hr,hk⟩ := h
  exact ⟨earlier,later ++ new,call,request,result,by simp,hb,hs,hr,kept_append.mpr ⟨hk,hn⟩⟩

theorem Grounded.append {i : ℕ} {c : CallState} (h : Grounded log i c) :
    Grounded (log ++ new) i c := by
  obtain ⟨before,since,rfl,hj⟩ := h
  exact ⟨before,since ++ new,by simp,hj⟩

/-- An event of a longer log was in the log before, or is one of the new ones. -/
lemma prefix_append_cases {front : List HistoryEvent} {event : HistoryEvent}
    (h : front ++ [event] <+: log ++ new) : front ++ [event] <+: log ∨ event ∈ new := by
  induction new using List.reverseRecOn with
  | nil => exact .inl (by simpa using h)
  | append_singleton new last ih =>
    rw [←List.append_assoc,List.prefix_concat_iff] at h
    rcases h with h | h
    · obtain ⟨-,heq⟩ := List.append_inj' h rfl
      obtain rfl := List.singleton_inj.mp heq
      exact .inr (List.mem_append_right _ (List.mem_singleton_self _))
    · exact (ih h).imp id (List.mem_append_left _)

/-- A call that is launched after it began, with a session its phase rests on. -/
lemma resumed_of_grounded {i : ℕ} {request : Request} {pending : Pending}
    (h : Grounded log i ⟨request,.admitted scope pending⟩) (hs : pending.session = some session) :
    Resumed log i session := by
  obtain ⟨before,since,rfl,hscope,hlive⟩ := h
  obtain ⟨id,hc,hl⟩ := hlive session hs
  refine ⟨before,since,request,scope,id,rfl,hscope,hc,hl,fun hk => hl.append ?_⟩
  simpa using hk

end Logs

variable {s s' : History}

/-- A step that appends events, none of them a launch, keeps what is said of launches. -/
lemma Isolated.launched_append (h : Isolated s) {new : List HistoryEvent}
    (hn : ∀ i body, HistoryEvent.launched i body ∉ new) {calls : List CallState}
    (hlen : s.calls.length ≤ calls.length) : ∀ before i body,
      before ++ [.launched i body] <+: s.log ++ new →
      i < calls.length ∧ ∀ session, body.session = some session → Resumed before i session := by
  intro before i body hp
  rcases prefix_append_cases hp with hp | hmem
  · obtain ⟨hi,hr⟩ := h.launched before i body hp
    exact ⟨hi.trans_le hlen,hr⟩
  · exact absurd hmem (hn i body)

/-- Replacing the phase of a call, grounded as before, keeps the calls grounded. -/
lemma grounded_set {log : List HistoryEvent} {calls : List CallState} {i : ℕ} {c : CallState}
    (h : ∀ j d, calls[j]? = some d → Grounded log j d) (hc : Grounded log i c) :
    ∀ j d, (calls.set i c)[j]? = some d → Grounded log j d := by
  intro j d hd
  rw [List.getElem?_set] at hd
  split at hd
  · rename_i hij
    subst hij
    split at hd
    · obtain rfl := Option.some.inj hd
      exact hc
    · cases hd
  · exact h j d hd

/-- Moving on from a phase that rests on the caller's scope keeps the call grounded. -/
lemma Grounded.run {log : List HistoryEvent} {i : ℕ} {request : Request} {scope : Scope}
    {pending : Pending} (h : Grounded log i ⟨request,.admitted scope pending⟩) :
    Grounded log i ⟨request,.running scope⟩ := by
  obtain ⟨before,since,hlog,hj⟩ := h
  exact ⟨before,since,hlog,hj.1⟩

lemma Grounded.close {log : List HistoryEvent} {i : ℕ} {request : Request} {phase : Phase}
    (h : Grounded log i ⟨request,phase⟩) : Grounded log i ⟨request,.closed⟩ := by
  obtain ⟨before,since,hlog,-⟩ := h
  exact ⟨before,since,hlog,trivial⟩

/-- A beginning call rests on what its continuation stands for in the store. -/
theorem Isolated.begin (h : Isolated s) (request : Request) : Isolated (s.begin request) := by
  refine ⟨fun id e he => (h.entries id e he).append (by simp),?_,?_⟩
  · intro i c hc
    rcases Nat.lt_or_ge i s.calls.length with hi | hi
    · rw [History.begin,List.getElem?_append_left hi] at hc
      exact (h.calls i c hc).append
    · have hlt : i < s.calls.length + 1 := by
        simpa [History.begin] using (List.getElem?_eq_some_iff.mp hc).1
      obtain rfl : i = s.calls.length := by omega
      rw [History.begin,List.getElem?_concat_length] at hc
      obtain rfl := Option.some.inj hc
      refine ⟨s.log,[],rfl,?_⟩
      cases ha : request.admission s.store.resolver with
      | error e => trivial
      | ok admitted =>
        obtain ⟨scope,pending⟩ := admitted
        obtain ⟨hscope,hresolved⟩ := Request.admission_resumes ha
        refine ⟨hscope,fun session hs => ?_⟩
        obtain ⟨id,hcont,hid⟩ := hresolved session hs
        have hentry := InMemoryContinuationStore.resolve_eq_some.mp (Except.ok.inj hid)
        exact ⟨id,hcont,h.entries id _ hentry⟩
  · refine h.launched_append (fun i body hmem => ?_) (by simp [History.begin])
    cases List.mem_singleton.mp hmem

/-- A launch resumes what the call's phase rests on. -/
theorem Isolated.launch (h : Isolated s) {i : ℕ} {request : Request} {scope : Scope}
    {pending : Pending} (hc : s.calls[i]? = some ⟨request,.admitted scope pending⟩)
    (client : Client) : Isolated (s.launch i request scope pending client) := by
  have hg : Grounded s.log i ⟨request,.admitted scope pending⟩ := h.calls i _ hc
  have hi : i < s.calls.length := (List.getElem?_eq_some_iff.mp hc).1
  unfold History.launch
  cases hb : pending.body client with
  | error e =>
    refine ⟨h.entries,grounded_set h.calls hg.close,?_⟩
    intro before j body hp
    simpa using h.launched before j body hp
  | ok body =>
    refine ⟨fun id e he => (h.entries id e he).append (by simp),?_,?_⟩
    · exact grounded_set (fun j d hd => (h.calls j d hd).append) hg.run.append
    · intro before j body' hp
      rw [List.length_set]
      rcases List.prefix_concat_iff.mp hp with heq | hp
      · obtain ⟨rfl,hlast⟩ := List.append_inj' heq rfl
        obtain ⟨rfl,rfl⟩ := HistoryEvent.launched.inj (List.singleton_inj.mp hlast)
        refine ⟨hi,fun session hs => resumed_of_grounded hg ?_⟩
        rw [←Pending.body_session hb]
        exact hs
      · exact h.launched before j body' hp

/-- A settling call names the session it leaves, and the names dropped for it are no longer live. -/
theorem Isolated.settle (h : Isolated s) {i : ℕ} {request : Request} {scope : Scope}
    (hc : s.calls[i]? = some ⟨request,.running scope⟩) (result : CallResult)
    (id : ContinuationId) : Isolated (s.settle i request scope result id) := by
  have hg : Grounded s.log i ⟨request,.running scope⟩ := h.calls i _ hc
  unfold History.settle
  cases hs : settledSession result with
  | none =>
    refine ⟨h.entries,grounded_set h.calls hg.close,?_⟩
    intro before j body hp
    simpa using h.launched before j body hp
  | some session =>
    refine ⟨?_,?_,?_⟩
    · intro k e he
      obtain ⟨hnew | hold,hk⟩ := InMemoryContinuationStore.mint_some he
      · obtain ⟨rfl,rfl⟩ := hnew
        obtain ⟨before,since,hlog,hscope⟩ := hg
        refine ⟨s.log,_,i,request,result,rfl,?_,hscope,hs,kept_evicted hk⟩
        rw [hlog]
        exact List.mem_append_right _ List.mem_cons_self
      · refine (h.entries k e hold).append ?_
        exact kept_cons.mpr ⟨⟨nofun,nofun⟩,kept_evicted hk⟩
    · exact grounded_set (fun j d hd => (h.calls j d hd).append) hg.close.append
    · refine h.launched_append (fun j body hmem => ?_) (by simp)
      rcases List.mem_cons.mp hmem with hmem | hmem
      · cases hmem
      · obtain ⟨k,-,hk⟩ := List.mem_map.mp hmem
        cases hk

/-- Forgetting a scope keeps the names of the others live. -/
theorem Isolated.forget (h : Isolated s) (scope : Scope) : Isolated (s.forget scope) := by
  refine ⟨?_,fun i c hc => (h.calls i c hc).append,?_⟩
  · intro id e he
    obtain ⟨he,hne⟩ := State.forget_some.mp he
    refine (h.entries id e he).append ?_
    simpa using Ne.symm hne
  · refine h.launched_append (fun i body hmem => ?_) le_rfl
    cases List.mem_singleton.mp hmem

theorem Isolated.step (h : Isolated s) {l : HistoryLabel} (hl : s.step l = some s') :
    Isolated s' := by
  obtain ⟨request,-,rfl⟩ | ⟨i,client,request,scope,pending,-,hc,rfl⟩ |
    ⟨i,result,id,request,scope,-,hc,rfl⟩ | ⟨scope,-,rfl⟩ := step_cases hl
  · exact h.begin request
  · exact h.launch hc client
  · exact h.settle hc result id
  · exact h.forget scope

section Run
variable {capacity : ℕ} {hpos : 0 < capacity} {t : List HistoryLabel}

theorem run_isolated (h : (history capacity hpos).run t = some s) : Isolated s := by
  refine Machine.invariant (P := fun _ s => Isolated s) ?_ ?_ h
  · refine ⟨fun id e he => ?_,fun i c hc => ?_,fun before i body hp => ?_⟩
    · simp [history, InMemoryContinuationStore.withCapacity] at he
    · cases hc
    · simp [history] at hp
  · intro _ s l s' _ hi hl
    exact hi.step hl

end Run

/-- A call that was refused when it began. -/
structure Shut (s : History) (call : ℕ) : Prop where
  closed : ∃ request, s.calls[call]? = some ⟨request,.closed⟩
  unlaunched : ∀ body, .launched call body ∉ s.log

/-- A step of another call, which launches nothing for this one, leaves it refused. -/
lemma Shut.other {i j : ℕ} (h : Shut s i) {c : CallState} (hne : j ≠ i)
    {store : InMemoryContinuationStore} {new : List HistoryEvent}
    (hn : ∀ body, .launched i body ∉ new) :
    Shut ⟨store,s.calls.set j c,s.log ++ new⟩ i := by
  obtain ⟨⟨request,hclosed⟩,hun⟩ := h
  refine ⟨⟨request,(List.getElem?_set_ne hne).trans hclosed⟩,fun body hmem => ?_⟩
  exact (List.mem_append.mp hmem).elim (hun body) (hn body)

/-- A refused call stays closed, whatever the other calls do. -/
theorem Shut.step {i : ℕ} (h : Shut s i) {l : HistoryLabel} (hl : s.step l = some s') :
    Shut s' i := by
  obtain ⟨request₀,hclosed⟩ := h.closed
  have hopen : ∀ {j : ℕ} {request : Request} {phase : Phase},
      s.calls[j]? = some ⟨request,phase⟩ → phase ≠ .closed → j ≠ i := by
    rintro j request phase hj hphase rfl
    exact hphase (congrArg CallState.phase (Option.some.inj (hj.symm.trans hclosed)))
  obtain ⟨request,-,rfl⟩ | ⟨j,client,request,scope,pending,-,hj,rfl⟩ |
    ⟨j,result,id,request,scope,-,hj,rfl⟩ | ⟨scope,-,rfl⟩ := step_cases hl
  · refine ⟨⟨request₀,?_⟩,fun body hmem => ?_⟩
    · rw [History.begin,List.getElem?_append_left (List.getElem?_eq_some_iff.mp hclosed).1]
      exact hclosed
    · rcases List.mem_append.mp hmem with hmem | hmem
      · exact h.unlaunched body hmem
      · cases List.mem_singleton.mp hmem
  · have hne : j ≠ i := hopen hj nofun
    unfold History.launch
    cases pending.body client with
    | error e => exact ⟨⟨request₀,(List.getElem?_set_ne hne).trans hclosed⟩,h.unlaunched⟩
    | ok body =>
      refine h.other hne (fun body' hmem => ?_)
      obtain ⟨rfl,-⟩ := HistoryEvent.launched.inj (List.mem_singleton.mp hmem)
      exact hne rfl
  · have hne : j ≠ i := hopen hj nofun
    unfold History.settle
    cases settledSession result with
    | none => exact ⟨⟨request₀,(List.getElem?_set_ne hne).trans hclosed⟩,h.unlaunched⟩
    | some session =>
      refine h.other hne (fun body hmem => ?_)
      rcases List.mem_cons.mp hmem with hmem | hmem
      · cases hmem
      · obtain ⟨k,-,hk⟩ := List.mem_map.mp hmem
        cases hk
  · refine ⟨⟨request₀,hclosed⟩,fun body hmem => ?_⟩
    rcases List.mem_append.mp hmem with hmem | hmem
    · exact h.unlaunched body hmem
    · cases List.mem_singleton.mp hmem

/-- A call that presents no scope, or a name that does not resolve, is refused when it begins. -/
theorem shut_begin (h : Isolated s) {request : Request} (hb : request.Barred s.store.resolver) :
    Shut (s.begin request) s.calls.length := by
  refine ⟨⟨request,?_⟩,fun body hmem => ?_⟩
  · rw [History.begin,List.getElem?_concat_length]
    cases ha : request.admission s.store.resolver with
    | error e => rfl
    | ok admitted => exact absurd ha (Request.barred_refused hb)
  · rcases List.mem_append.mp hmem with hmem | hmem
    · obtain ⟨before,after,hlog⟩ := List.append_of_mem hmem
      have hprefix : before ++ [.launched s.calls.length body] <+: s.log := ⟨after,by simp [hlog]⟩
      exact absurd (h.launched before _ body hprefix).1 (Nat.lt_irrefl _)
    · cases List.mem_singleton.mp hmem

/-- Over every history of calls and forgotten scopes, a service is asked to resume only a session
that an earlier call under an equal scope left and named, and only while that name was neither
evicted nor forgotten; a call with no scope, or whose continuation does not resolve, is never
launched. -/
theorem continuations_isolated {capacity : ℕ} (hpos : 0 < capacity) {t : List HistoryLabel}
    {s : History} (h : (history capacity hpos).run t = some s) :
    (∀ before call body session, before ++ [.launched call body] <+: s.log →
      body.session = some session → Resumed before call session) ∧
    ∀ t₁ request t₂ m, t = t₁ ++ .begin request::t₂ → (history capacity hpos).run t₁ = some m →
      request.Barred m.store.resolver → ∀ body, .launched m.calls.length body ∉ s.log := by
  refine ⟨fun before call body session hp hs => ?_,?_⟩
  · exact ((run_isolated h).launched before call body hp).2 session hs
  · rintro t₁ request t₂ m rfl hm hb
    obtain ⟨m',m'',hm',hstep,hrest⟩ := Machine.run_step_of_split h
    obtain rfl := Option.some.inj (hm.symm.trans hm')
    obtain rfl := Option.some.inj hstep
    have hshut := shut_begin (run_isolated hm) hb
    have hend : Shut s m.calls.length :=
      Machine.stable (P := fun _ s => Shut s m.calls.length) (t := [])
        (fun _ s l s' hs hl => hs.step hl) hrest hshut
    exact hend.unlaunched

def sampleId : ContinuationId := ⟨"k1",by decide⟩

def firstRequest : Request := .turn (.ok (.session "a")) { prompt := "go" }

def secondRequest : Request :=
  .turn (.ok (.session "a")) { prompt := "more", continuation := some "k1" }

def firstResult : CallResult := .ok { output := "done", session := some ⟨"claude","s1"⟩ }

/-- A caller whose first turn leaves a session, and whose second one continues it. -/
def sampleHistory : List HistoryLabel :=
  [.begin firstRequest,.launch 0 (fun _ _ => .error "no client"),.settle 0 firstResult sampleId,
    .begin secondRequest,.launch 1 (fun _ _ => .error "no client")]

theorem continuations_isolated_sample : ∃ s, (history 1 Nat.one_pos).run sampleHistory = some s ∧
    Resumed [.began 0 firstRequest,.launched 0 (.turn { prompt := "go", options := () }),
      .minted 0 sampleId (.session "a") firstResult,.began 1 secondRequest] 1 ⟨"claude","s1"⟩ := by
  refine ⟨_,rfl,?_⟩
  have h := continuations_isolated Nat.one_pos
    (rfl : (history 1 Nat.one_pos).run sampleHistory = some _)
  exact h.1 _ 1 (.turn { prompt := "more", session := some ⟨"claude","s1"⟩, options := () }) _
    ⟨[],rfl⟩ rfl

end TowerAgent.Mcp.History
