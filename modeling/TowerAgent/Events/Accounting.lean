import TowerAgent.Events.Channel

/-! The books of the bounded event channel: at every point of every interleaving the counter is the
payload in the channel, plus what calls have reserved, plus what the receiver has taken. -/
namespace TowerAgent.Events
open Lib Kernel Adapter Mcp

/-- A call holds what its stage says, and only forms sums that fit what was in memory at once. -/
structure Emitter.Valid (peak : ℕ) (e : Emitter) : Prop where
  held : e.held = e.reserved
  current : ∀ current, e.stage = .exchanging current → current + e.bytes ≤ peak

/-- The books of a channel whose receiver is alive. -/
structure Accounted (limits : EventLimits) (s : Channel) : Prop where
  total : s.queued = s.channelBytes + s.heldBytes + s.takenBytes
  bound : s.queued ≤ limits.maxQueuedBytes
  live : s.live ≤ s.peak
  order : s.accepted = s.delivered ++ s.taken.toList ++ s.channel
  nodup : (s.accepted.map Sent.emitter).Nodup
  sent : ∀ x, x ∈ s.accepted ↔ s.emitters[x.emitter]?.bind Emitter.sent = some x.event
  emitters : ∀ e ∈ s.emitters, e.Valid s.peak

lemma enter_cases (limits : EventLimits) (event : AgentEvent) :
    enter limits event = { event, stage := .returned (.error .full) } ∨
    enter limits event = { event, stage := .loading } := by
  unfold enter
  split
  · exact .inl rfl
  · exact .inr rfl

lemma reserved_le_owned (e : Emitter) : e.reserved ≤ e.owned := by
  unfold Emitter.reserved Emitter.owned
  cases e.stage <;> simp

lemma sent_eq_some {e : Emitter} {event : AgentEvent} :
    e.sent = some event ↔ e.event = event ∧ e.stage = .returned (.ok ()) := by
  unfold Emitter.sent
  split
  · rename_i hstage
    simp [hstage]
  · rename_i hstage
    constructor
    · intro h
      cases h
    · rintro ⟨-,h⟩
      exact absurd h hstage

/-- No step revives a dropped receiver. -/
lemma alive_of_step {limits : EventLimits} {capacity : ℕ} {s s' : Channel} {l : Label}
    (hs : s.step limits capacity l = some s') (halive : s'.alive = true) : s.alive = true := by
  cases l with
  | giveBack =>
    obtain ⟨x,-,rfl⟩ := Option.map_eq_some_iff.mp hs
    exact halive
  | _ => grind [Channel.step, Channel.emit, Channel.load, Channel.exchange, Channel.send,
    Channel.release, Channel.take, Channel.close, Channel.put]

namespace Accounted
variable {limits : EventLimits} {capacity : ℕ} {s s' : Channel} {i : ℕ} {e : Emitter}

theorem valid (h : Accounted limits s) (he : s.emitters[i]? = some e) : e.Valid s.peak :=
  h.emitters e (List.mem_of_getElem? he)

/-- A call that holds no bytes yet finds the counter and its event within what is in memory. -/
theorem fits (h : Accounted limits s) (he : s.emitters[i]? = some e) (hheld : e.reserved = 0)
    (howned : e.owned = e.bytes) : s.queued + e.bytes ≤ s.peak := by
  have hgap := sum_gap (f := Emitter.held) (g := Emitter.owned) he fun x hx =>
    (h.emitters x hx).held ▸ reserved_le_owned x
  have hlive := h.live
  rw [(h.valid he).held,hheld,howned] at hgap
  rw [h.total]
  unfold Channel.live at hlive
  unfold Channel.heldBytes
  omega

/-- One call moves on without sending, and the counter moves by what the call comes to hold. -/
theorem put (h : Accounted limits s) (he : s.emitters[i]? = some e) (e' : Emitter)
    (hvalid : e'.Valid s.peak) (howned : e'.owned ≤ e.owned) (hsent : e.sent = none)
    (hsent' : e'.sent = none) (queued : ℕ) (hqueued : queued + e.held = s.queued + e'.held)
    (hbound : queued ≤ limits.maxQueuedBytes) : Accounted limits { s.put i e' with queued } := by
  have hheld := sum_set Emitter.held he e'
  have hown := sum_set Emitter.owned he e'
  refine ⟨?_,hbound,?_,h.order,h.nodup,fun x => ?_,forall_mem_set h.emitters hvalid⟩
  · have htotal := h.total
    simp only [Channel.channelBytes, Channel.heldBytes, Channel.takenBytes, Channel.put]
      at htotal ⊢
    omega
  · have hlive := h.live
    simp only [Channel.live, Channel.channelBytes, Channel.takenBytes, Channel.put] at hlive ⊢
    omega
  · refine (h.sent x).trans ?_
    simp only [Channel.put, List.getElem?_set]
    split
    · rename_i hx
      subst hx
      obtain ⟨hi,-⟩ := List.getElem?_eq_some_iff.mp he
      rw [he,if_pos hi]
      simp only [Option.bind_some, hsent, hsent']
    · rfl

theorem emit (h : Accounted limits s) (event : AgentEvent) :
    Accounted limits (s.emit limits event) := by
  have hheld : (enter limits event).held = 0 := by
    rcases enter_cases limits event with he | he <;> rw [he]
  have howned : (enter limits event).owned ≤ payloadBytes event := by
    rcases enter_cases limits event with he | he <;> simp [he, Emitter.owned, Emitter.bytes]
  refine ⟨?_,h.bound,?_,h.order,h.nodup,fun x => ?_,?_⟩
  · have htotal := h.total
    simp only [Channel.emit, Channel.channelBytes, Channel.heldBytes, Channel.takenBytes,
      List.map_append, List.sum_append, List.map_singleton, List.sum_singleton] at htotal ⊢
    omega
  · have hlive := h.live
    simp only [Channel.live, Channel.emit, Channel.channelBytes, Channel.takenBytes,
      List.map_append, List.sum_append, List.map_singleton, List.sum_singleton] at hlive ⊢
    omega
  · refine (h.sent x).trans ?_
    simp only [Channel.emit]
    by_cases hx : x.emitter < s.emitters.length
    · rw [List.getElem?_append_left hx]
    · rw [List.getElem?_append_right (Nat.le_of_not_lt hx),
        List.getElem?_eq_none (Nat.le_of_not_lt hx)]
      cases x.emitter - s.emitters.length with
      | zero => rcases enter_cases limits event with he | he <;> simp [he, Emitter.sent]
      | succ d => simp
  · refine forall_mem_concat (fun e he => ?_) ?_
    · have hv := h.emitters e he
      exact ⟨hv.held,fun current hc => (hv.current current hc).trans (le_max_left _ _)⟩
    · rcases enter_cases limits event with he | he
      · rw [he]
        exact ⟨rfl,by simp⟩
      · rw [he]
        exact ⟨rfl,by simp⟩

theorem load (h : Accounted limits s) (he : s.emitters[i]? = some e)
    (hs : s.load i e = some s') : Accounted limits s' := by
  obtain ⟨event,stage,held⟩ := e
  cases stage <;> simp only [Channel.load, Option.some.injEq, reduceCtorEq] at hs
  subst hs
  have hheld : held = 0 := (h.valid he).held
  have hfits : s.queued + payloadBytes event ≤ s.peak := h.fits he rfl rfl
  refine h.put he ⟨event,.exchanging s.queued,held⟩ ⟨hheld,fun current hc => ?_⟩ (le_refl _) rfl rfl
    s.queued rfl h.bound
  exact Stage.exchanging.inj hc ▸ hfits

theorem exchange (h : Accounted limits s) (he : s.emitters[i]? = some e) {spurious : Bool}
    (hs : s.exchange limits i spurious e = some s') : Accounted limits s' := by
  obtain ⟨event,stage,held⟩ := e
  cases stage <;> simp only [Channel.exchange, reduceCtorEq] at hs
  rename_i current
  have hheld : held = 0 := (h.valid he).held
  have hfits : s.queued + payloadBytes event ≤ s.peak := h.fits he rfl rfl
  split at hs
  · obtain rfl := Option.some.inj hs
    exact h.put he ⟨event,.returned (.error .full),held⟩ ⟨hheld,by simp⟩ (Nat.zero_le _) rfl rfl
      s.queued rfl h.bound
  rename_i hroom
  split at hs
  · obtain rfl := Option.some.inj hs
    refine h.put he ⟨event,.exchanging s.queued,held⟩ ⟨hheld,fun current hc => ?_⟩ (le_refl _) rfl
      rfl s.queued rfl h.bound
    exact Stage.exchanging.inj hc ▸ hfits
  · -- the exchange succeeds: the counter is still what the call read
    rename_i hfresh
    obtain rfl := Option.some.inj hs
    have hcurrent : s.queued = current := by
      simp only [Bool.or_eq_true, bne_iff_ne, ne_eq, not_or, not_not] at hfresh
      exact hfresh.2
    refine h.put he ⟨event,.sending,held + payloadBytes event⟩ ⟨?_,by simp⟩ (le_refl _) rfl rfl
      (current + payloadBytes event) ?_ (Nat.le_of_not_lt hroom)
    · rw [hheld]
      exact Nat.zero_add _
    · simp only [hcurrent]
      omega

theorem release (h : Accounted limits s) (he : s.emitters[i]? = some e)
    (hs : s.release i e = some s') : Accounted limits s' := by
  obtain ⟨event,stage,held⟩ := e
  cases stage <;> simp only [Channel.release, Option.some.injEq, reduceCtorEq] at hs
  rename_i error
  subst hs
  have hheld : held = payloadBytes event := (h.valid he).held
  have hcovered : held ≤ s.heldBytes := le_sum_slot Emitter.held (List.mem_of_getElem? he)
  have htotal := h.total
  refine h.put he ⟨event,.returned (.error error),held - payloadBytes event⟩ ⟨?_,by simp⟩
    (Nat.zero_le _) rfl rfl (s.queued - payloadBytes event) ?_ ((Nat.sub_le _ _).trans h.bound)
  · rw [hheld]
    exact Nat.sub_self _
  · simp only
    omega

/-- A send that succeeds moves the bytes from the call to the channel. -/
theorem accept {event : AgentEvent} {held : ℕ} (h : Accounted limits s)
    (he : s.emitters[i]? = some ⟨event,.sending,held⟩) : Accounted limits
      { s.put i ⟨event,.returned (.ok ()),held - payloadBytes event⟩ with
        channel := s.channel ++ [⟨i,event⟩]
        accepted := s.accepted ++ [⟨i,event⟩] } := by
  have hheld : held = payloadBytes event := (h.valid he).held
  have hnew : ∀ x ∈ s.accepted, x.emitter ≠ i := by
    rintro x hx rfl
    rw [h.sent,he] at hx
    cases hx
  obtain ⟨hi,-⟩ := List.getElem?_eq_some_iff.mp he
  have hheldSum := sum_set Emitter.held he ⟨event,.returned (.ok ()),held - payloadBytes event⟩
  have hownedSum := sum_set Emitter.owned he ⟨event,.returned (.ok ()),held - payloadBytes event⟩
  refine ⟨?_,h.bound,?_,?_,?_,fun x => ?_,?_⟩
  · have htotal := h.total
    simp only [Channel.channelBytes, Channel.heldBytes, Channel.takenBytes, Channel.put,
      List.map_append, List.sum_append, List.map_singleton, List.sum_singleton, Sent.bytes]
      at htotal hheldSum ⊢
    omega
  · have hlive := h.live
    simp only [Channel.live, Channel.channelBytes, Channel.takenBytes, Channel.put,
      List.map_append, List.sum_append, List.map_singleton, List.sum_singleton, Sent.bytes,
      Emitter.owned, Emitter.bytes] at hlive hownedSum ⊢
    omega
  · simp only [Channel.put, h.order, List.append_assoc]
  · rw [List.map_append,List.nodup_append]
    refine ⟨h.nodup,List.nodup_singleton _,fun j hj k hk => ?_⟩
    obtain ⟨x,hx,rfl⟩ := List.mem_map.mp hj
    obtain rfl := List.mem_singleton.mp hk
    exact hnew x hx
  · simp only [Channel.put, List.mem_append, List.mem_singleton, List.getElem?_set]
    split
    · rename_i hx
      subst hx
      constructor
      · rintro (hx | hx)
        · exact absurd rfl (hnew x hx)
        · exact congrArg (fun y => some y.event) hx.symm
      · intro hx
        right
        obtain ⟨j,event'⟩ := x
        obtain rfl := Option.some.inj hx
        rfl
    · rename_i hx
      rw [←h.sent]
      refine or_iff_left fun hxi => hx ?_
      rw [hxi]
  · refine forall_mem_set h.emitters ⟨?_,by simp⟩
    rw [hheld]
    exact Nat.sub_self _

theorem send (h : Accounted limits s) (he : s.emitters[i]? = some e)
    (hs : s.send capacity i e = some s') : Accounted limits s' := by
  obtain ⟨event,stage,held⟩ := e
  cases stage <;> simp only [Channel.send, reduceCtorEq] at hs
  have hheld : held = payloadBytes event := (h.valid he).held
  have hrefused (error : EventSendError) :
      Accounted limits (s.put i ⟨event,.releasing error,held⟩) :=
    h.put he ⟨event,.releasing error,held⟩ ⟨hheld,by simp⟩ (le_refl _) rfl rfl s.queued rfl h.bound
  split at hs
  · split at hs
    · obtain rfl := Option.some.inj hs
      exact hrefused .full
    · obtain rfl := Option.some.inj hs
      exact h.accept he
  · obtain rfl := Option.some.inj hs
    exact hrefused .closed

theorem take (h : Accounted limits s) (hs : s.take = some s') : Accounted limits s' := by
  unfold Channel.take at hs
  split at hs
  · rename_i x rest htaken hchannel
    obtain rfl := Option.some.inj hs
    have htotal := h.total
    have hlive := h.live
    have horder := h.order
    simp only [Channel.live, Channel.channelBytes, Channel.takenBytes, htaken, hchannel,
      List.map_cons, List.sum_cons, Option.elim_none] at htotal hlive
    refine ⟨?_,h.bound,?_,?_,h.nodup,h.sent,h.emitters⟩
    · simp only [Channel.channelBytes, Channel.heldBytes, Channel.takenBytes, Option.elim_some]
        at htotal ⊢
      omega
    · simp only [Channel.live, Channel.channelBytes, Channel.takenBytes, Option.elim_some]
      omega
    · rw [horder,htaken,hchannel]
      simp
  · cases hs

theorem giveBack (h : Accounted limits s) (hs : s.giveBack = some s') : Accounted limits s' := by
  obtain ⟨x,htaken,rfl⟩ := Option.map_eq_some_iff.mp hs
  have htotal := h.total
  have hlive := h.live
  simp only [Channel.live, Channel.takenBytes, htaken, Option.elim_some] at htotal hlive
  refine ⟨?_,(Nat.sub_le _ _).trans h.bound,?_,?_,h.nodup,h.sent,h.emitters⟩
  · simp only [Channel.channelBytes, Channel.heldBytes, Channel.takenBytes, Option.elim_none]
      at htotal ⊢
    omega
  · simp only [Channel.live, Channel.channelBytes, Channel.takenBytes, Option.elim_none]
      at hlive ⊢
    omega
  · rw [h.order,htaken]
    simp

/-- What one step keeps while the receiver is alive. -/
theorem step (h : Accounted limits s) {l : Label} (hs : s.step limits capacity l = some s')
    (halive : s'.alive = true) : Accounted limits s' := by
  cases l with
  | emit event =>
    obtain rfl := Option.some.inj hs
    exact h.emit event
  | load i =>
    obtain ⟨e,he,hs⟩ := Option.bind_eq_some_iff.mp hs
    exact h.load he hs
  | exchange i spurious =>
    obtain ⟨e,he,hs⟩ := Option.bind_eq_some_iff.mp hs
    exact h.exchange he hs
  | send i =>
    obtain ⟨e,he,hs⟩ := Option.bind_eq_some_iff.mp hs
    exact h.send he hs
  | release i =>
    obtain ⟨e,he,hs⟩ := Option.bind_eq_some_iff.mp hs
    exact h.release he hs
  | take => exact h.take hs
  | giveBack => exact h.giveBack hs
  | close =>
    simp only [Channel.step, Channel.close] at hs
    split at hs
    · obtain rfl := Option.some.inj hs
      cases halive
    · cases hs

end Accounted

theorem accounted_of_run {limits : EventLimits} {capacity : ℕ} {t : List Label} {s : Channel}
    (h : (boundedChannel limits capacity).run t = some s) (halive : s.alive = true) :
    Accounted limits s := by
  refine Machine.invariant (M := boundedChannel limits capacity)
    (P := fun _ s => s.alive = true → Accounted limits s) ?_ ?_ h halive
  · intro _
    exact ⟨rfl,Nat.zero_le _,le_refl _,rfl,List.nodup_nil,by simp [boundedChannel],
      by simp [boundedChannel]⟩
  · intro _ s l s' _ hs hl halive
    exact (hs (alive_of_step hl halive)).step hl halive

/-- In every interleaving, while the receiver is alive: the counter is the payload in the channel,
what calls hold, and what the receiver took; it stays within its ceiling, every amount that is about
to be subtracted is covered by it, and every sum that is compared is no more than what was in memory
at once; once nobody is in the middle of a step it is the payload in the channel; a call that
returned an error holds nothing; and the events of the calls that returned success, once each and in
the order of their sends, are those delivered, then the one taken, then those in the channel. -/
theorem channel_accounted {limits : EventLimits} {capacity : ℕ} {t : List Label} {s : Channel}
    (h : (boundedChannel limits capacity).run t = some s) (halive : s.alive = true) :
    s.queued = s.channelBytes + s.heldBytes + s.takenBytes ∧
    s.queued ≤ limits.maxQueuedBytes ∧
    (∀ e ∈ s.emitters, ∀ error, e.stage = .releasing error → e.bytes ≤ s.queued) ∧
    (∀ x ∈ s.taken, x.bytes ≤ s.queued) ∧
    (∀ e ∈ s.emitters, ∀ current, e.stage = .exchanging current → current + e.bytes ≤ s.peak) ∧
    (s.Quiescent → s.queued = s.channelBytes) ∧
    (∀ e ∈ s.emitters, ∀ error, e.stage = .returned (.error error) → e.held = 0) ∧
    s.accepted = s.delivered ++ s.taken.toList ++ s.channel ∧
    (s.accepted.map Sent.emitter).Nodup ∧
    ∀ x, x ∈ s.accepted ↔ ∃ e, s.emitters[x.emitter]? = some e ∧ e.event = x.event ∧
      e.stage = .returned (.ok ()) := by
  have hs := accounted_of_run h halive
  have htotal := hs.total
  refine ⟨hs.total,hs.bound,fun e he error hstage => ?_,fun x hx => ?_,
    fun e he => (hs.emitters e he).current,?_,fun e he error hstage => ?_,hs.order,hs.nodup,
    fun x => ?_⟩
  · have hheld := (hs.emitters e he).held
    have hle : e.held ≤ s.heldBytes := le_sum_slot Emitter.held he
    simp only [Emitter.reserved, hstage] at hheld
    omega
  · have htaken : s.takenBytes = x.bytes := by
      rw [Channel.takenBytes,Option.mem_def.mp hx]
      rfl
    omega
  · rintro ⟨htaken,hreturned⟩
    have hheld : s.heldBytes = 0 := by
      refine List.sum_eq_zero fun b hb => ?_
      obtain ⟨e,he,rfl⟩ := List.mem_map.mp hb
      obtain ⟨result,hstage⟩ := hreturned e he
      rw [(hs.emitters e he).held]
      simp only [Emitter.reserved, hstage]
    have hnone : s.takenBytes = 0 := by
      rw [Channel.takenBytes,htaken]
      rfl
    omega
  · rw [(hs.emitters e he).held]
    simp only [Emitter.reserved, hstage]
  · rw [hs.sent,Option.bind_eq_some_iff]
    refine exists_congr fun e => and_congr_right fun _ => ?_
    exact sent_eq_some

/-- Two calls race for one slot while the receiver takes what was sent before: the first exchange of
one fails since the other reserved in between, and its send finds the channel full. -/
def raceLabels : List Label :=
  [.emit (.outputDelta "ab"),.load 0,.exchange 0 true,.exchange 0 false,.send 0,
    .emit (.status "c"),.emit (.warning "de"),.load 1,.load 2,.take,.exchange 2 false,
    .exchange 1 false,.send 2,.exchange 1 false,.send 1,.giveBack]

theorem channel_accounted_sample : ∃ s,
    (boundedChannel { maxQueuedBytes := 8 } 1).run raceLabels = some s ∧ s.alive = true ∧
    s.queued = 3 ∧ s.channelBytes = 2 ∧ s.queued ≤ 8 ∧
    s.accepted = s.delivered ++ s.taken.toList ++ s.channel := by
  obtain ⟨s,hs,halive,hqueued,hchannel⟩ : ∃ s,
      (boundedChannel { maxQueuedBytes := 8 } 1).run raceLabels = some s ∧ s.alive = true ∧
      s.queued = 3 ∧ s.channelBytes = 2 := ⟨_,rfl,rfl,rfl,rfl⟩
  obtain ⟨-,hbound,-,-,-,-,-,horder,-⟩ := channel_accounted hs halive
  exact ⟨s,hs,halive,hqueued,hchannel,hbound,horder⟩

end TowerAgent.Events
