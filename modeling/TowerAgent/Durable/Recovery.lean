import TowerAgent.Durable.Store
import TowerAgent.Lib.Bytes
import TowerAgent.Lib.Json
import TowerAgent.Lib.Machine
import TowerAgent.Lib.Text

/-! The log file of a durable store: appends, crashes that leave a part of the last write behind, and
what a later process reads back. -/
namespace TowerAgent.Durable
open Lib
open Std (ExtTreeMap)

def StepKey.toJson (key : StepKey) : Json :=
  .object [("run_id",.string key.runId),("step_id",.string key.stepId)]

def TerminalRecord.toJson : TerminalRecord → Json
  | .succeeded output => .object [("Succeeded",.object [("output",.string output)])]
  | .failed kind message =>
    .object [("Failed",.object [("kind",.string kind),("message",.string message)])]

def Reconciliation.toJson : Reconciliation → Json
  | .adoptCompleted output => .object [("adopt_completed",.object [("output",.string output)])]
  | .provedNoEffects => .string "proved_no_effects"
  | .abandoned note => .object [("abandoned",.object [("note",.string note)])]

namespace Record

def toJson : Record → Json
  | .frozen key workflowId workflowVersion fingerprint notAfterUtcMs =>
    .object [("record",.string "frozen"),("key",key.toJson),("workflow_id",.string workflowId),
      ("workflow_version",.string workflowVersion),("fingerprint",.string fingerprint),
      ("not_after_utc_ms",.ofOption .nat notAfterUtcMs)]
  | .claimed key epoch worker =>
    .object [("record",.string "claimed"),("key",key.toJson),("epoch",.nat epoch),
      ("worker",.string worker)]
  | .launched key epoch =>
    .object [("record",.string "launched"),("key",key.toJson),("epoch",.nat epoch)]
  | .settled key epoch result =>
    .object [("record",.string "settled"),("key",key.toJson),("epoch",.nat epoch),
      ("result",result.toJson)]
  | .uncertain key epoch reason =>
    .object [("record",.string "uncertain"),("key",key.toJson),("epoch",.nat epoch),
      ("reason",.string reason)]
  | .reconciled key decision decidedBy =>
    .object [("record",.string "reconciled"),("key",key.toJson),("decision",decision.toJson),
      ("by",.string decidedBy)]
  | .cancelRequested runId reason =>
    .object [("record",.string "cancel_requested"),("run_id",.string runId),
      ("reason",.string reason)]

/-- The text of a record, without its newline. -/
def text (record : Record) : String := record.toJson.text

def bytes (record : Record) : List UInt8 := Bytes.ofText record.text

/-- What an append writes. -/
def line (record : Record) : List UInt8 := record.bytes ++ [Bytes.newline]

end Record

section Log
variable (fromStr : String → Option Record)

/-- Fold the lines that are records in, up to one that is no text. -/
def readLines (store : DurableStore) : List (List UInt8) → Option DurableStore
  | [] => some store
  | bytes::rest => match Bytes.toText bytes with
    | none => none
    | some line =>
      if Text.isBlank line then readLines store rest
      else match fromStr line with
        | some record => readLines (store.apply record) rest
        | none => readLines store rest

/-- Open a store on what a file holds; a file that does not exist holds nothing. -/
def openStore (file : List UInt8) : Option DurableStore :=
  readLines fromStr {} (Bytes.lines file)

/-- A write to the file, and how many of its bytes reached it if it did not return. -/
structure Write where
  record : Record
  torn : Option ℕ

/-- The file, the stores of the processes that are up, and the writes so far, the oldest first. -/
structure Log where
  file : List UInt8 := []
  processes : List (Option DurableStore) := []
  writes : List Write := []

namespace Log

inductive Op where
  | openStore
  | append (i : ℕ) (record : Record)
  | crash (i : ℕ)
  | crashWriting (i : ℕ) (record : Record) (n : ℕ)

def Op.record : Op → Option Record
  | .append _ record | .crashWriting _ record _ => some record
  | .openStore | .crash _ => none

variable (log : Log)

def step : Op → Option Log
  | .openStore => some { log with processes := log.processes ++ [Durable.openStore fromStr log.file] }
  | .append i record => match log.processes[i]? with
    | some (some store) => some {
        file := log.file ++ record.line
        processes := log.processes.set i (some (store.apply record))
        writes := log.writes ++ [⟨record,none⟩] }
    | _ => none
  | .crash i => some { log with processes := log.processes.set i none }
  | .crashWriting i record n => match log.processes[i]? with
    | some (some _) => some {
        file := log.file ++ record.line.take n
        processes := log.processes.set i none
        writes := log.writes ++ [⟨record,some n⟩] }
    | _ => none

/-- An append finds the last line terminated, and an open finds a text after it. -/
def Careful : Op → Prop
  | .openStore => (Bytes.toText (Bytes.lastLine log.file)).isSome = true
  | .append _ _ => Bytes.lastLine log.file = []
  | .crash _ => True
  | .crashWriting _ _ n => n = 0 ∨ Bytes.lastLine log.file = []

instance : DecidablePred log.Careful
  | .openStore => inferInstanceAs (Decidable (_ = true))
  | .append _ _ => inferInstanceAs (Decidable (_ = _))
  | .crash _ => .isTrue trivial
  | .crashWriting _ _ _ => inferInstanceAs (Decidable (_ ∨ _))

end Log

/-- No file and no process. -/
def logOf : Machine Log Log.Op where
  start := {}
  step := Log.step fromStr

/-- The records of the writes that returned, in order, and possibly some of those that were
interrupted with the whole record on disk. -/
inductive Kept : List Write → List Record → Prop
  | nil : Kept [] []
  | returned {writes : List Write} {kept : List Record} (record : Record) (h : Kept writes kept) :
      Kept (writes ++ [⟨record,none⟩]) (kept ++ [record])
  | whole {writes : List Write} {kept : List Record} (record : Record) {n : ℕ}
      (hn : record.bytes.length ≤ n) (h : Kept writes kept) :
      Kept (writes ++ [⟨record,some n⟩]) (kept ++ [record])
  | lost {writes : List Write} {kept : List Record} (record : Record) (n : ℕ)
      (h : Kept writes kept) : Kept (writes ++ [⟨record,some n⟩]) kept

/-- Every open of a run gives the fold of the records kept. -/
def Recovers (t : List Log.Op) : Prop :=
  ∀ (p u : List Log.Op) (log : Log), t = p ++ .openStore::u → (logOf fromStr).run p = some log →
    ∃ kept, Kept log.writes kept ∧
      openStore fromStr log.file = some (kept.foldl DurableStore.apply {})

/-- The text of a record is read back, and no text that breaks off inside it is a record. -/
structure Reads (record : Record) : Prop where
  whole : fromStr record.text = some record
  torn : ∀ s, Bytes.ofText s <+: record.bytes → s ≠ record.text → fromStr s = none

end Log

namespace Record
variable (record : Record)

/-- A record is written on one line. -/
theorem text_oneLine : Json.OneLine record.text := by
  have hkey (key : StepKey) : Json.OneLine key.toJson.text :=
    Json.oneLine_object (by simp [Json.text])
  have hdeadline (deadline : Option ℕ) : Json.OneLine (Json.ofOption .nat deadline).text := by
    cases deadline with
    | none => decide
    | some t => exact Json.oneLine_nat t
  have hresult (result : TerminalRecord) : Json.OneLine result.toJson.text := by
    cases result <;> exact Json.oneLine_object
      (by simpa using Json.oneLine_object (by simp [Json.text]))
  have hdecision (decision : Reconciliation) : Json.OneLine decision.toJson.text := by
    cases decision with
    | provedNoEffects => decide
    | adoptCompleted output | abandoned note =>
      exact Json.oneLine_object (by simpa using Json.oneLine_object (by simp [Json.text]))
  cases record <;> exact Json.oneLine_object
    (by simp [Json.text, hkey, hdeadline, hresult, hdecision])

lemma bytes_flat : Bytes.Flat record.bytes :=
  Bytes.flat_ofText record.text_oneLine.1 record.text_oneLine.2

/-- A record is written as an object. -/
lemma text_head : ∃ rest, record.text.toList = '\x7b'::rest := by
  cases record <;> exact Json.object_head _

lemma text_shown : Text.isBlank record.text = false := by
  obtain ⟨rest,h⟩ := record.text_head
  exact Text.isBlank_of_mem (c := '\x7b') (h ▸ List.mem_cons_self) (by decide)

end Record

section Read
variable {fromStr : String → Option Record} {kept : List Record} {tail : List UInt8}
  {store : DurableStore}

lemma lines_kept : Bytes.lines (kept.flatMap Record.line ++ tail) =
    kept.map Record.bytes ++ Bytes.lines tail := by
  induction kept with
  | nil => rfl
  | cons record kept ih =>
    have hsplit : (record::kept).flatMap Record.line ++ tail =
        record.bytes ++ Bytes.newline::(kept.flatMap Record.line ++ tail) := by
      simp [Record.line]
    rw [hsplit,Bytes.lines_line record.bytes_flat,ih]
    rfl

lemma lastLine_kept (h : Bytes.newline ∉ tail) :
    Bytes.lastLine (kept.flatMap Record.line ++ tail) = tail := by
  rcases List.eq_nil_or_concat kept with rfl | ⟨kept,record,rfl⟩
  · exact Bytes.lastLine_self h
  · have hsplit : (kept.concat record).flatMap Record.line ++ tail =
        (kept.flatMap Record.line ++ record.bytes) ++ Bytes.newline::tail := by
      simp [Record.line]
    rw [hsplit,Bytes.lastLine_append h]

/-- The lines of records are folded in. -/
lemma readLines_kept {rest : List (List UInt8)} (h : ∀ r ∈ kept, Reads fromStr r) :
    readLines fromStr store (kept.map Record.bytes ++ rest) =
      readLines fromStr (kept.foldl DurableStore.apply store) rest := by
  induction kept generalizing store with
  | nil => rfl
  | cons record kept ih =>
    have hread := (h record List.mem_cons_self).whole
    rw [List.map_cons,List.cons_append,readLines,Record.bytes,Bytes.toText_ofText]
    simp only [record.text_shown, Bool.false_eq_true, if_false, hread]
    exact ih fun r hr => h r (List.mem_cons_of_mem _ hr)

end Read

/-- The file is the lines of the records kept, and at most the beginning of one more. -/
structure Log.Holds (fromStr : String → Option Record) (log : Log) (kept : List Record)
    (tail : List UInt8) : Prop where
  file : log.file = kept.flatMap Record.line ++ tail
  reads : ∀ r ∈ kept, Reads fromStr r
  written : Kept log.writes kept
  torn : tail ≠ [] → ∃ r, Reads fromStr r ∧ tail <+: r.bytes ∧
    (tail = r.bytes → Kept log.writes (kept ++ [r]))

section Run
variable {fromStr : String → Option Record} {log log' : Log} {kept : List Record}
  {tail : List UInt8}

lemma Log.Holds.noNewline (h : log.Holds fromStr kept tail) : Bytes.newline ∉ tail := by
  intro hm
  obtain ⟨r,-,hp,-⟩ := h.torn (List.ne_nil_of_mem hm)
  exact r.bytes_flat.1 (hp.subset hm)

lemma Log.Holds.lastLine (h : log.Holds fromStr kept tail) : Bytes.lastLine log.file = tail := by
  rw [h.file,lastLine_kept h.noNewline]

/-- What breaks off inside a record is skipped, and what does not is read. -/
theorem Log.Holds.opened (h : log.Holds fromStr kept tail)
    (ht : (Bytes.toText (Bytes.lastLine log.file)).isSome = true) : ∃ kept, Kept log.writes kept ∧
      openStore fromStr log.file = some (kept.foldl DurableStore.apply {}) := by
  rw [h.lastLine] at ht
  unfold openStore
  rw [h.file,lines_kept,readLines_kept h.reads]
  by_cases hne : tail = []
  · subst hne
    exact ⟨kept,h.written,rfl⟩
  · obtain ⟨r,hr,hp,hkept⟩ := h.torn hne
    obtain ⟨s,hs⟩ := Option.isSome_iff_exists.mp ht
    have hbytes := Bytes.ofText_of_toText hs
    rw [Bytes.lines_unterminated h.noNewline hne,readLines,hs]
    by_cases hwhole : s = r.text
    · subst hwhole
      refine ⟨kept ++ [r],hkept hbytes.symm,?_⟩
      simp [r.text_shown, hr.whole, readLines]
    · refine ⟨kept,h.written,?_⟩
      have hnone := hr.torn s (hbytes ▸ hp) hwhole
      dsimp only
      split
      · rfl
      · rw [hnone]
        rfl

/-- The condition is needed: what is appended to an unterminated line is lost with it, as long as the
two together are no record. -/
theorem Log.Holds.glued (h : log.Holds fromStr kept tail) (hne : tail ≠ []) {record : Record}
    (hg : ∀ s, Bytes.toText (tail ++ record.bytes) = some s → fromStr s = none) :
    openStore fromStr (log.file ++ record.line) = none ∨
      openStore fromStr (log.file ++ record.line) = some (kept.foldl DurableStore.apply {}) := by
  obtain ⟨r,-,hp,-⟩ := h.torn hne
  have hflat : Bytes.Flat (tail ++ record.bytes) := by
    refine ⟨fun hm => ?_,fun hm => ?_⟩
    · exact (List.mem_append.mp hm).elim h.noNewline record.bytes_flat.1
    · exact (List.mem_append.mp hm).elim (fun hm => r.bytes_flat.2 (hp.subset hm))
        record.bytes_flat.2
  have hfile : log.file ++ record.line =
      kept.flatMap Record.line ++ ((tail ++ record.bytes) ++ Bytes.newline::[]) := by
    simp [h.file, Record.line]
  unfold openStore
  rw [hfile,lines_kept,readLines_kept h.reads,Bytes.lines_line hflat,Bytes.lines,readLines]
  cases ht : Bytes.toText (tail ++ record.bytes) with
  | none => exact .inl rfl
  | some s =>
    refine .inr ?_
    dsimp only
    split
    · rfl
    · rw [hg s ht]
      rfl

/-- A line written in full is one more record kept. -/
lemma Log.Holds.concat (h : log.Holds fromStr kept []) {record : Record}
    (hr : Reads fromStr record) (hf : log'.file = log.file ++ record.line)
    (hw : Kept log'.writes (kept ++ [record])) : log'.Holds fromStr (kept ++ [record]) [] := by
  refine ⟨?_,fun r hm => ?_,hw,fun hne => absurd rfl hne⟩
  · simp [hf, h.file]
  · rcases List.mem_append.mp hm with hm | hm
    · exact h.reads r hm
    · exact List.mem_singleton.mp hm ▸ hr

theorem Log.Holds.step {op : Log.Op} (h : log.Holds fromStr kept tail)
    (hr : ∀ r ∈ op.record, Reads fromStr r) (hc : log.Careful op)
    (hs : log.step fromStr op = some log') : ∃ kept tail, log'.Holds fromStr kept tail := by
  cases op with
  | openStore | crash i =>
    obtain rfl := Option.some.inj hs
    exact ⟨kept,tail,h.file,h.reads,h.written,h.torn⟩
  | append i record =>
    simp only [Log.step] at hs
    split at hs
    · obtain rfl := Option.some.inj hs
      obtain rfl : tail = [] := h.lastLine.symm.trans hc
      exact ⟨_,_,h.concat (hr record rfl) rfl (h.written.returned record)⟩
    · cases hs
  | crashWriting i record n =>
    simp only [Log.step] at hs
    split at hs
    · obtain rfl := Option.some.inj hs
      rcases hc with rfl | hc
      · -- nothing was written
        refine ⟨kept,tail,?_,h.reads,h.written.lost record 0,fun hne => ?_⟩
        · simp [h.file]
        · obtain ⟨r,hr',hp,hkept⟩ := h.torn hne
          exact ⟨r,hr',hp,fun hw => (hkept hw).lost record 0⟩
      · obtain rfl : tail = [] := h.lastLine.symm.trans hc
        by_cases hn : n ≤ record.bytes.length
        · have htake : record.line.take n = record.bytes.take n := List.take_append_of_le_length hn
          refine ⟨kept,record.bytes.take n,?_,h.reads,h.written.lost record n,fun _ => ?_⟩
          · simp [h.file, htake]
          · refine ⟨record,hr record rfl,List.take_prefix _ _,fun hw => ?_⟩
            have hlen : n = record.bytes.length := by
              have := congrArg List.length hw
              rw [List.length_take] at this
              omega
            exact h.written.whole record hlen.ge
        · have htake : record.line.take n = record.line := by
            refine List.take_of_length_le ?_
            rw [Record.line,List.length_append,List.length_singleton]
            omega
          exact ⟨_,_,h.concat (hr record rfl) (congrArg _ htake)
            (h.written.whole record (by omega))⟩
    · cases hs

/-- In every careful run each open gives what was committed: every append that returned, and of the
interrupted ones only what reached the file whole. -/
theorem log_recovers {t : List Log.Op} (hr : ∀ op ∈ t, ∀ r ∈ op.record, Reads fromStr r)
    (hg : (logOf fromStr).Guarded Log.Careful t) : Recovers fromStr t := by
  rintro p u log rfl hp
  obtain ⟨hgp,hopen⟩ := hg.split hp
  have hreads : ∀ op ∈ p, ∀ r ∈ op.record, Reads fromStr r :=
    fun op hm => hr op (List.mem_append_left _ hm)
  have hinv : (∀ op ∈ p, ∀ r ∈ op.record, Reads fromStr r) →
      ∃ kept tail, log.Holds fromStr kept tail := by
    refine Machine.invariant_guarded (M := logOf fromStr) (G := Log.Careful) (P := fun t log =>
      (∀ op ∈ t, ∀ r ∈ op.record, Reads fromStr r) → ∃ kept tail, log.Holds fromStr kept tail)
      ?_ ?_ hp hgp
    · exact fun _ => ⟨[],[],rfl,fun r hm => absurd hm List.not_mem_nil,.nil,
        fun hne => absurd rfl hne⟩
    · intro t log op log' _ hk hc hs hr
      obtain ⟨kept,tail,h⟩ := hk fun op hm => hr op (List.mem_append_left _ hm)
      exact h.step (hr op (List.mem_append_right _ List.mem_cons_self)) hc hs
  obtain ⟨kept,tail,h⟩ := hinv hreads
  exact h.opened hopen

end Run

section Sample

def stopOf (runId : String) : Record := .cancelRequested runId "stop"

/-- Two texts and what they are read as. -/
def sampleTexts : List (String × Record) :=
  [("\x7b\"record\":\"cancel_requested\",\"run_id\":\"a\",\"reason\":\"stop\"\x7d",stopOf "a"),
    ("\x7b\"record\":\"cancel_requested\",\"run_id\":\"b\",\"reason\":\"stop\"\x7d",stopOf "b")]

def sampleFromStr (s : String) : Option Record := sampleTexts.lookup s

lemma sampleFromStr_reads : ∀ r ∈ sampleTexts.map Prod.snd, Reads sampleFromStr r := by
  have htext : ∀ e ∈ sampleTexts, e.2.text = e.1 := by decide +kernel
  have happart : ∀ e ∈ sampleTexts, ∀ e' ∈ sampleTexts,
      Bytes.ofText e.1 <+: Bytes.ofText e'.1 → e.1 = e'.1 := by
    decide +kernel
  have hfind : ∀ e ∈ sampleTexts, sampleFromStr e.1 = some e.2 := by decide +kernel
  intro r hr
  obtain ⟨e,he,rfl⟩ := List.mem_map.mp hr
  refine ⟨(htext e he).symm ▸ hfind e he,fun s hp hne => ?_⟩
  cases hx : sampleFromStr s with
  | none => rfl
  | some x =>
    obtain ⟨front,back,hsplit,-⟩ := List.lookup_eq_some_iff.mp hx
    have hm : (s,x) ∈ sampleTexts := hsplit ▸ List.mem_append_right _ List.mem_cons_self
    rw [Record.bytes,htext e he] at hp
    rw [htext e he] at hne
    exact absurd (happart (s,x) hm e he hp) hne

/-- A process appends and dies in its next write; another one opens what is left. -/
def crashTrace : List Log.Op :=
  [.openStore,.append 0 (stopOf "a"),.crashWriting 0 (stopOf "b") 20,.openStore]

theorem log_recovers_crash : Recovers sampleFromStr crashTrace :=
  log_recovers (fun op hop r hr => sampleFromStr_reads r (by
    revert r op
    decide)) (by decide +kernel)

/-- The last write, if it returned, gives the last record kept. -/
lemma Kept.last_returned (writes : List Write) {record : Record} {kept : List Record}
    (h : Kept (writes ++ [⟨record,none⟩]) kept) : ∃ front, kept = front ++ [record] := by
  generalize hw : writes ++ [⟨record,none⟩] = all at h
  cases h with
  | nil => exact absurd hw (List.append_ne_nil_of_right_ne_nil _ (List.cons_ne_nil _ _))
  | returned record' =>
    obtain ⟨-,hl⟩ := List.append_inj' hw rfl
    obtain rfl := congrArg Write.record (List.singleton_inj.mp hl)
    exact ⟨_,rfl⟩
  | whole record' | lost record' =>
    obtain ⟨-,hl⟩ := List.append_inj' hw rfl
    cases congrArg Write.torn (List.singleton_inj.mp hl)

/-- A process dies in its first write; another one opens the log and appends to it. -/
def gluedTrace : List Log.Op :=
  [.openStore,.crashWriting 0 (stopOf "a") 20,.openStore,.append 1 (stopOf "b"),.openStore]

/-- The last append returned, and the next open does not find it. -/
theorem log_forgets : ¬∀ (fromStr : String → Option Record) (t : List Log.Op),
    (∀ op ∈ t, ∀ r ∈ op.record, Reads fromStr r) → Recovers fromStr t := by
  intro hall
  have hread : ∀ op ∈ gluedTrace, ∀ r ∈ op.record, Reads sampleFromStr r :=
    fun op hop r hr => sampleFromStr_reads r (by
      revert r op
      decide)
  obtain ⟨kept,hk,ho⟩ := hall sampleFromStr gluedTrace hread (gluedTrace.take 4) [] _ rfl rfl
  obtain ⟨front,rfl⟩ := Kept.last_returned [⟨stopOf "a",some 20⟩] hk
  have hfound (store : DurableStore) :
      (store.apply (stopOf "b")).cancelledRuns["b"]? = some "stop" :=
    ExtTreeMap.getElem?_insert_self
  have hlost := congrArg (Option.map fun store => store.cancelledRuns["b"]?) ho
  rw [List.foldl_append,List.foldl_cons,List.foldl_nil,Option.map_some,hfound] at hlost
  exact absurd hlost (by decide +kernel)

end Sample

end TowerAgent.Durable
