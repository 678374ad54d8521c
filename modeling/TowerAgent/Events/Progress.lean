import TowerAgent.Lib.Machine
import TowerAgent.Lib.Slot
import TowerAgent.Mcp.Projection

/-! Progress of one request, reported by any number of clones of its observer: each call takes a
number and then enqueues its notification, and other calls run between the two. -/
namespace TowerAgent.Events.Progress
open Lib Kernel Adapter Mcp

/-- The value of the double nearest to a number, the even one of two: it is a whole number. -/
def asF64 (n : ℕ) : ℕ :=
  if n < 2^53 then n
  else
    let unit := 2^(n.log2-52)
    let lower := n / unit
    let rest := n % unit
    if unit < 2*rest ∨ (2*rest = unit ∧ lower % 2 = 1) then (lower+1)*unit else lower*unit

theorem asF64_exact {n : ℕ} (h : n ≤ 2^53) : asF64 n = n := by
  rcases Nat.lt_or_eq_of_le h with h | rfl
  · exact if_pos h
  · decide

/-- Beyond what a double counts exactly, two numbers in a row are reported as one. -/
example : asF64 (2^53+1) = asF64 (2^53) := by decide

/-- Where a call of `try_emit` stands: before it takes its number, before it reports, or returned. -/
inductive Stage where
  | counting
  | reporting (progress : UInt64)
  | returned (result : Except EventSendError Unit)

structure Reporter where
  event : AgentEvent
  stage : Stage

/-- The number a call has taken and not yet reported. -/
def Reporter.number (r : Reporter) : Option ℕ :=
  match r.stage with
  | .reporting progress => some progress.toNat
  | _ => none

/-- The sink, the calls so far, and what was delivered to the client. -/
structure Request where
  sink : ProgressEvents
  reporters : List Reporter := []
  delivered : List ProgressReport := []

/-- The atomic steps of the call with a number; the channel may drop a report. -/
inductive Label where
  | emit (event : AgentEvent)
  | count (k : ℕ)
  | report (k : ℕ) (delivered : Bool)

namespace Request
variable (s : Request)

def emit (event : AgentEvent) : Request :=
  let stage := if s.sink.progressToken then .counting else .returned (.error .closed)
  { s with reporters := s.reporters ++ [{ event, stage }] }

/-- `fetch_add(1) + 1`. -/
def count (k : ℕ) (r : Reporter) : Option Request :=
  match r.stage with
  | .counting =>
    let progress := s.sink.emitted + 1
    some { s with
      sink := { s.sink with emitted := progress }
      reporters := s.reporters.set k { r with stage := .reporting progress } }
  | _ => none

/-- `report_progress_sync` appends to the channel, or drops. -/
def report (k : ℕ) (delivered : Bool) (r : Reporter) : Option Request :=
  match r.stage with
  | .reporting progress =>
    let report : ProgressReport := ⟨progress,s.sink.message r.event⟩
    some { s with
      reporters := s.reporters.set k { r with stage := .returned (.ok ()) }
      delivered := s.delivered ++ (if delivered then [report] else []) }
  | _ => none

def step : Label → Option Request
  | .emit event => some (s.emit event)
  | .count k => s.reporters[k]?.bind (s.count k)
  | .report k delivered => s.reporters[k]?.bind (s.report k delivered)

/-- The progress values delivered so far, as the doubles they are sent as. -/
def values : List ℕ := s.delivered.map (fun report => asF64 report.progress.toNat)

/-- Each value delivered is above all before it. -/
def Increasing : Prop := s.values.Pairwise (· < ·)

/-- The number a call holds. -/
def numberAt (k : ℕ) : Option ℕ := s.reporters[k]?.bind Reporter.number

end Request

/-- The new sink of one request, shared by every clone of its observer. -/
def progress (sink : ProgressEvents) : Machine Request Label where
  start := { sink := { sink with emitted := 0 } }
  step := Request.step

/-- No report is enqueued while another call holds a number it took earlier, and numbers stay among
those a double counts exactly. -/
def Punctual (s : Request) : Label → Prop
  | .emit _ => True
  | .count _ => s.sink.emitted.toNat < 2^53
  | .report k delivered => delivered = true →
    ∀ n ∈ s.numberAt k, ∀ r ∈ s.reporters.eraseIdx k, ∀ m ∈ r.number, n < m

instance (s : Request) : DecidablePred (Punctual s)
  | .emit _ => .isTrue trivial
  | .count _ => inferInstanceAs (Decidable (_ < _))
  | .report k delivered => inferInstanceAs (Decidable (delivered = true →
      ∀ n ∈ s.numberAt k, ∀ r ∈ s.reporters.eraseIdx k, ∀ m ∈ r.number, n < m))

variable {s s' : Request} {sink : ProgressEvents} {k : ℕ} {event : AgentEvent}

/-- What a call that holds a number does. -/
lemma step_report {progress : UInt64} (h : s.reporters[k]? = some ⟨event,.reporting progress⟩)
    (delivered : Bool) : s.step (.report k delivered) = some { s with
      reporters := s.reporters.set k ⟨event,.returned (.ok ())⟩
      delivered := s.delivered ++
        (if delivered then [⟨progress,s.sink.message event⟩] else []) } := by
  rw [Request.step,h]
  rfl

lemma toNat_next {n : UInt64} (h : n.toNat < 2^53) : (n+1).toNat = n.toNat+1 := by
  rw [UInt64.toNat_add]
  exact Nat.mod_eq_of_lt (by simp; omega)

/-- The numbers taken are within range, and what was delivered was numbered in order, before every
number that a call still holds. -/
structure Ordered (s : Request) : Prop where
  counted : s.sink.emitted.toNat ≤ 2^53
  held : ∀ r ∈ s.reporters, ∀ m ∈ r.number, m ≤ s.sink.emitted.toNat
  reported : ∀ x ∈ s.delivered, x.progress.toNat ≤ s.sink.emitted.toNat
  before : ∀ x ∈ s.delivered, ∀ r ∈ s.reporters, ∀ m ∈ r.number, x.progress.toNat < m
  increasing : s.delivered.Pairwise (fun x y => x.progress.toNat < y.progress.toNat)

namespace Ordered

/-- In this range the doubles that are sent are the numbers. -/
theorem values_increasing (h : Ordered s) : s.Increasing := by
  unfold Request.Increasing Request.values
  rw [List.pairwise_map]
  refine h.increasing.imp_of_mem fun hx hy hlt => ?_
  rw [asF64_exact ((h.reported _ hx).trans h.counted),
    asF64_exact ((h.reported _ hy).trans h.counted)]
  exact hlt

theorem emit (h : Ordered s) (event : AgentEvent) : Ordered (s.emit event) := by
  have hnumber : ∀ r ∈ (s.emit event).reporters, ∀ m ∈ r.number, r ∈ s.reporters := by
    intro r hr m hm
    rcases List.mem_append.mp hr with hr | hr
    · exact hr
    · obtain rfl := List.mem_singleton.mp hr
      cases htoken : s.sink.progressToken <;> simp [Reporter.number, htoken] at hm
  exact ⟨h.counted,fun r hr m hm => h.held r (hnumber r hr m hm) m hm,h.reported,
    fun x hx r hr m hm => h.before x hx r (hnumber r hr m hm) m hm,h.increasing⟩

/-- A new number is above all that were taken. -/
theorem count (h : Ordered s) {r : Reporter} (hroom : s.sink.emitted.toNat < 2^53)
    (hs : s.count k r = some s') : Ordered s' := by
  obtain ⟨event,stage⟩ := r
  cases stage <;> simp only [Request.count, Option.some.injEq, reduceCtorEq] at hs
  subst hs
  have hnext := toNat_next hroom
  refine ⟨?_,?_,fun x hx => ?_,fun x hx => ?_,h.increasing⟩
  · simp only [hnext]
    omega
  · refine forall_mem_set (fun r hr m hm => ?_) fun m hm => ?_
    · have hle := h.held r hr m hm
      simp only [hnext]
      omega
    · exact (Option.some.inj hm).symm.le
  · have hle := h.reported x hx
    simp only [hnext]
    omega
  · refine forall_mem_set (h.before x hx) fun m hm => ?_
    obtain rfl := Option.some.inj hm
    have hle := h.reported x hx
    omega

/-- A report is in order when it is dropped, or no other call holds a number taken before. -/
theorem report (h : Ordered s) {r : Reporter} {delivered : Bool} (hr : s.reporters[k]? = some r)
    (hfirst : delivered = true →
      ∀ n ∈ s.numberAt k, ∀ r ∈ s.reporters.eraseIdx k, ∀ m ∈ r.number, n < m)
    (hs : s.report k delivered r = some s') : Ordered s' := by
  obtain ⟨event,stage⟩ := r
  cases stage <;> simp only [Request.report, Option.some.injEq, reduceCtorEq] at hs
  rename_i progress
  subst hs
  obtain ⟨front,back,he,hset,herase⟩ := exists_slot hr
  have hheld := h.held _ (List.mem_of_getElem? hr) progress.toNat rfl
  have hfirst : delivered = true → ∀ r ∈ front ++ back, ∀ m ∈ r.number, progress.toNat < m :=
    fun hd => herase ▸ hfirst hd progress.toNat (by rw [Request.numberAt,hr]; rfl)
  -- the calls that hold a number afterwards are the others
  have hothers : ∀ r ∈ s.reporters.set k ⟨event,.returned (.ok ())⟩, ∀ m ∈ r.number,
      r ∈ front ++ back := by
    rw [hset]
    intro r hr m hm
    rcases List.mem_append.mp hr with hr | hr
    · exact List.mem_append_left _ hr
    · rcases List.mem_cons.mp hr with rfl | hr
      · cases hm
      · exact List.mem_append_right _ hr
  have hmem : ∀ r ∈ front ++ back, r ∈ s.reporters := by
    intro r hr
    rw [he]
    rcases List.mem_append.mp hr with hr | hr
    · exact List.mem_append_left _ hr
    · exact List.mem_append_right _ (List.mem_cons_of_mem _ hr)
  refine ⟨h.counted,fun r hr m hm => h.held r (hmem r (hothers r hr m hm)) m hm,?_,?_,?_⟩
  · intro x hx
    rcases List.mem_append.mp hx with hx | hx
    · exact h.reported x hx
    · cases delivered with
      | false => cases hx
      | true =>
        rw [List.mem_singleton.mp hx]
        exact hheld
  · intro x hx r hr m hm
    have hother := hothers r hr m hm
    rcases List.mem_append.mp hx with hx | hx
    · exact h.before x hx r (hmem r hother) m hm
    · cases delivered with
      | false => cases hx
      | true =>
        rw [List.mem_singleton.mp hx]
        exact hfirst rfl r hother m hm
  · refine List.pairwise_append.mpr ⟨h.increasing,?_,fun x hx y hy => ?_⟩
    · cases delivered <;> simp
    · cases delivered with
      | false => cases hy
      | true =>
        rw [List.mem_singleton.mp hy]
        exact h.before x hx _ (List.mem_of_getElem? hr) progress.toNat rfl

/-- What one step that meets the condition keeps. -/
theorem step (h : Ordered s) {l : Label} (hl : Punctual s l) (hs : s.step l = some s') :
    Ordered s' := by
  cases l with
  | emit event =>
    obtain rfl := Option.some.inj hs
    exact h.emit event
  | count k =>
    obtain ⟨r,-,hs⟩ := Option.bind_eq_some_iff.mp hs
    exact h.count hl hs
  | report k delivered =>
    obtain ⟨r,hr,hs⟩ := Option.bind_eq_some_iff.mp hs
    exact h.report hr hl hs

end Ordered

theorem ordered_of_run {t : List Label} (h : (progress sink).run t = some s)
    (hg : (progress sink).Guarded Punctual t) : Ordered s := by
  refine Machine.invariant_guarded (P := fun _ s => Ordered s) ?_
    (fun _ _ _ _ _ hs hl hstep => hs.step hl hstep) h hg
  exact ⟨by simp [progress],by simp [progress],by simp [progress],by simp [progress],
    List.Pairwise.nil⟩

/-- Two reports enqueued against the order of their numbers are delivered against it. -/
theorem overtaken (h : Ordered s) {i j m n : ℕ} (hi : s.numberAt i = some m)
    (hj : s.numberAt j = some n) (hlt : m < n) :
    ∃ s', (progress sink).runFrom s [.report j true,.report i true] = some s' ∧
      ¬ s'.Increasing := by
  obtain ⟨⟨event,stage⟩,hri,hm⟩ := Option.bind_eq_some_iff.mp hi
  obtain ⟨⟨event',stage'⟩,hrj,hn⟩ := Option.bind_eq_some_iff.mp hj
  cases stage <;> simp only [Reporter.number, Option.some.injEq, reduceCtorEq] at hm
  cases stage' <;> simp only [Reporter.number, Option.some.injEq, reduceCtorEq] at hn
  rename_i earlier later
  have hne : j ≠ i := by
    rintro rfl
    obtain rfl := Option.some.inj (hi.symm.trans hj)
    exact lt_irrefl _ hlt
  have hheld := h.held _ (List.mem_of_getElem? hrj) later.toNat rfl
  have hcounted := h.counted
  have hstill : (s.reporters.set j ⟨event',.returned (.ok ())⟩)[i]? =
      some ⟨event,.reporting earlier⟩ := by rw [List.getElem?_set_ne hne,hri]
  simp only [Machine.runFrom, progress, step_report hrj, Option.bind_some]
  rw [step_report hstill]
  refine ⟨_,rfl,fun hincreasing => ?_⟩
  have hlast : asF64 later.toNat < asF64 earlier.toNat := by
    simp only [Request.Increasing, Request.values, if_true, List.append_assoc, List.map_append,
      List.pairwise_append] at hincreasing
    exact hincreasing.2.1.2.2 _ List.mem_cons_self _ List.mem_cons_self
  rw [asF64_exact (hheld.trans hcounted),asF64_exact (by omega)] at hlast
  omega

/-- In every interleaving in which no report is enqueued while another call holds a number it took
earlier, and fewer numbers are taken than a double counts exactly, the values delivered increase
strictly; and where a call holding a later number reports first, the earlier one's own report is
delivered after it and below it. -/
theorem progress_increases (sink : ProgressEvents) :
    (∀ t s, (progress sink).run t = some s → (progress sink).Guarded Punctual t →
      s.Increasing) ∧
    ∀ t s i j m n, (progress sink).run t = some s → (progress sink).Guarded Punctual t →
      s.numberAt i = some m → s.numberAt j = some n → m < n →
      ∃ s', (progress sink).run (t ++ [.report j true,.report i true]) = some s' ∧
        ¬ s'.Increasing := by
  refine ⟨fun t s h hg => (ordered_of_run h hg).values_increasing,?_⟩
  intro t s i j m n h hg hi hj hlt
  rw [Machine.run_append,h]
  exact overtaken (ordered_of_run h hg) hi hj hlt

/-- Two clones take a number each; the second of them reports first. -/
def overtakingLabels : List Label :=
  [.emit .started,.emit (.status "working"),.count 0,.count 1,.report 1 true,.report 0 true]

/-- The same calls, reporting in the order of their numbers. -/
def punctualLabels : List Label :=
  [.emit .started,.emit (.status "working"),.count 0,.count 1,.report 0 true,.report 1 true]

def askedSink : ProgressEvents := { progressToken := true }

theorem progress_increases_sample : ∃ s, (progress askedSink).run punctualLabels = some s ∧
    s.values = [1,2] ∧ s.Increasing := by
  have hg : (progress askedSink).Guarded Punctual punctualLabels := by decide +kernel
  exact ⟨_,rfl,rfl,(progress_increases askedSink).1 punctualLabels _ rfl hg⟩

/-- The client receives 2 and then 1. -/
theorem progress_overtaken : ¬ ∀ t s, (progress askedSink).run t = some s → s.Increasing := by
  intro hclaim
  have hvalues : [2,1].Pairwise (· < ·) := hclaim overtakingLabels _ rfl
  revert hvalues
  decide

end TowerAgent.Events.Progress
