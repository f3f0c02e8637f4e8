import Mathlib.Data.List.Basic
import Mathlib.Order.Basic
import NanoFabric.Found.Runs
import NanoFabric.Node.Oplog

/-!
# The oplog with its file

`Oplog` of `node/oplog.py` with its file, its pending flush and the `FlushWorker` of
`node/flush_worker.py`. A compaction puts a new file under the path while the handle is still on the
old one, so the files are kept apart, and each remembers what was written to it since its last fsync.

One turn of a worker's loop is one step of a run. The window that it waits and the metrics are left
out, as they decide when a turn comes and not what it does.

* `synced_throughout_of_always` — under the policy `always` nothing waits for an fsync.
* `represents_run` — what a run does to the records of the file is what it does to a list of records,
  which is what the storage engine has for its oplog.
-/

namespace NanoFabric.Node

/-! ## Files -/

/-- A line of the file, as `_parse_record` finds it after `strip`. -/
inductive OplogLine
  | blank
  | record (e : OplogEntry)
  | unreadable
deriving DecidableEq, Repr

/-- A file: its lines, the text after the last newline, and the records written to it since it was
last fsynced. -/
structure OplogFile where
  lines : List OplogLine
  rest : OplogLine
  unsynced : List OplogEntry
deriving DecidableEq, Repr

namespace OplogFile

/-- What reading the file line by line gives. -/
def read (f : OplogFile) : List OplogLine := f.lines ++ [f.rest]

/-- The line of a record is written after the text that follows the last newline. -/
def write (f : OplogFile) (e : OplogEntry) : OplogFile where
  -- a record after other text on its line is no JSON document
  lines := f.lines ++ [if f.rest = .blank then .record e else .unreadable]
  rest := .blank
  unsynced := f.unsynced ++ [e]

/-- `os.fsync` of the file. -/
def fsync (f : OplogFile) : OplogFile := { f with unsynced := [] }

/-- The file that `compact` writes, flushed and fsynced. -/
def ofRecords (kept : List OplogEntry) : OplogFile := ⟨kept.map .record, .blank, []⟩

end OplogFile

/-- The records before the first line that cannot be read.
Source: `node/oplog.py`, the loop of `_scan_high_water_mark`. -/
def scanned : List OplogLine → List OplogEntry
  | [] => []
  | .blank :: lines => scanned lines
  | .record e :: lines => e :: scanned lines
  | .unreadable :: _ => []

/-- All records, or none where a line raises `OplogCorruptionError`.
Source: `node/oplog.py`, `iter_entries`. -/
def iterEntries : List OplogLine → Option (List OplogEntry)
  | [] => some []
  | .blank :: lines => iterEntries lines
  | .record e :: lines => (iterEntries lines).map (e :: ·)
  | .unreadable :: _ => none

variable {lines : List OplogLine}

theorem iterEntries_eq_none : iterEntries lines = none ↔ .unreadable ∈ lines := by
  induction lines with
  | nil => simp [iterEntries]
  | cons line lines ih => cases line <;> simp [iterEntries, ih]

theorem iterEntries_append {lines' : List OplogLine} {file file' : List OplogEntry}
    (h : iterEntries lines = some file) (h' : iterEntries lines' = some file') :
    iterEntries (lines ++ lines') = some (file ++ file') := by
  induction lines generalizing file with
  | nil => exact Option.some.inj h ▸ h'
  | cons line lines ih =>
      cases line with
      | blank => exact ih h
      | record e =>
          obtain ⟨tail, htail, rfl⟩ := Option.map_eq_some_iff.mp h
          exact congrArg (Option.map (e :: ·)) (ih htail)
      | unreadable => cases h

theorem iterEntries_record (file : List OplogEntry) :
    iterEntries (file.map .record) = some file := by
  induction file with
  | nil => rfl
  | cons e file ih => simp [iterEntries, ih]

/-- Reading up to the first bad line gives all records if there is none. -/
theorem scanned_of_iterEntries {file : List OplogEntry} (h : iterEntries lines = some file) :
    scanned lines = file := by
  induction lines generalizing file with
  | nil => exact Option.some.inj h
  | cons line lines ih =>
      cases line with
      | blank => exact ih h
      | record e =>
          obtain ⟨file', hfile', rfl⟩ := Option.map_eq_some_iff.mp h
          exact congrArg (e :: ·) (ih hfile')
      | unreadable => cases h

/-! ## The worker -/

/-- The two events of a worker. -/
structure FlushWorker where
  event : Bool
  stopSet : Bool
deriving DecidableEq, Repr

namespace FlushWorker

/-- Source: `node/flush_worker.py`, `FlushWorker.__init__`. -/
def started : FlushWorker := ⟨false, false⟩

/-- Source: `node/flush_worker.py`, `notify`. -/
def notify (w : FlushWorker) : FlushWorker := { w with event := true }

/-- Source: `node/flush_worker.py`, `stop`. -/
def stop (w : FlushWorker) : FlushWorker := { w with stopSet := true, event := true }

/-- The worker after one turn of its loop, and whether the turn calls back.
Source: `node/flush_worker.py`, `_run`. -/
def turn (w : FlushWorker) : FlushWorker × Bool := ({ w with event := false }, !w.stopSet)

end FlushWorker

/-! ## The oplog -/

/-- `fsync_policy`: any text but two leaves the fsync to the system. -/
inductive FsyncPolicy
  | always
  | grouped
  | other (name : String)
deriving DecidableEq, Repr

/-- An oplog with its files and its workers. `path` is the place of the file that has the path,
`file` that of the file the handle is on, and `flushWorker` that of the worker to notify. -/
structure FileOplog extends Oplog where
  fsyncPolicy : FsyncPolicy
  files : List OplogFile
  path : ℕ
  file : ℕ
  closed : Bool
  pendingFlush : Bool
  workers : List FlushWorker
  flushWorker : Option ℕ
deriving DecidableEq, Repr

namespace FileOplog

/-- The oplog on the file with these lines, empty if there was none. What it holds counts as fsynced.
Source: `node/oplog.py`, `Oplog.__init__`. -/
def opened (nodeId : String) (lines : List OplogLine) (rest : OplogLine) (policy : FsyncPolicy) :
    FileOplog where
  toOplog := .ofFile nodeId (scanned (lines ++ [rest]))
  fsyncPolicy := policy
  files := [⟨lines, rest, []⟩]
  path := 0
  file := 0
  closed := false
  pendingFlush := false
  workers := if policy = .grouped then [.started] else []
  flushWorker := if policy = .grouped then some 0 else none

/-- Source: `node/oplog.py`, `_do_fsync`. -/
def doFsync (s : FileOplog) : FileOplog :=
  if s.pendingFlush then
    { s with files := s.files.modify s.file OplogFile.fsync, pendingFlush := false }
  else s

/-- The worker to notify is told that there is something to flush. -/
def notifyWorker (s : FileOplog) : FileOplog :=
  match s.flushWorker with
  | some i => { s with workers := s.workers.modify i FlushWorker.notify }
  | none => s

/-- The oplog with a record written to the file of its handle. -/
def written (s : FileOplog) (entry : OplogEntry) (log : Oplog) : FileOplog :=
  { s with
    toOplog := log
    files := s.files.modify s.file (·.write entry)
    pendingFlush := true }

/-- The record's LSN, or none where the handle is closed and `write` raises, and the oplog after it.
Source: `node/oplog.py`, `append`. -/
def append (s : FileOplog) (op : LoggedOp) (blockId : String) (version : ℤ) :
    Option ℤ × FileOplog :=
  if s.closed then (none, s)
  else
    let (entry, log) := s.toOplog.append op blockId version
    let s := s.written entry log
    (some entry.lsn, if s.fsyncPolicy = .always then s.doFsync else s.notifyWorker)

/-- The worker to notify is stopped and forgotten. -/
def stopWorker (s : FileOplog) : FileOplog :=
  match s.flushWorker with
  | some i => { s with workers := s.workers.modify i FlushWorker.stop, flushWorker := none }
  | none => s

/-- Source: `node/oplog.py`, `close`. -/
def close (s : FileOplog) : FileOplog :=
  let s := s.stopWorker
  let s := if s.fsyncPolicy = .grouped then s.doFsync else s
  { s with closed := true }

/-- The rest of `compact` when the new file is written: the oplog is closed, the file takes the path,
and the oplog is open on it. -/
def replaced (s : FileOplog) (tmp : OplogFile) : FileOplog :=
  let s := { s with files := s.files ++ [tmp] }.close
  let new := s.files.length - 1
  { s with
    toOplog := .ofFile s.nodeId (scanned tmp.read)
    path := new
    file := new
    closed := false }

/-- The number of records kept, or none where `iter_entries` raises, and the oplog after it.
Source: `node/oplog.py`, `compact`. -/
def compact (s : FileOplog) (throughLsn : ℤ) : Option ℕ × FileOplog :=
  match s.files[s.path]? with
  | none => (some 0, s)
  | some f =>
      match iterEntries f.read with
      | none => (none, s)
      | some entries =>
          let kept := Oplog.compact throughLsn entries
          (some kept.length, s.replaced (.ofRecords kept))

/-- One turn of the loop of the `i`-th worker, whose callback is `_do_fsync`. -/
def tick (s : FileOplog) (i : ℕ) : FileOplog :=
  match s.workers[i]? with
  | none => s
  | some w =>
      let s := { s with workers := s.workers.set i w.turn.1 }
      if w.turn.2 then s.doFsync else s

/-- What happens to an open oplog. -/
inductive Call
  | append (op : LoggedOp) (blockId : String) (version : ℤ)
  | compact (throughLsn : ℤ)
  | tick (worker : ℕ)
deriving DecidableEq, Repr

/-- The oplog after a call. One that raises leaves it as it was. -/
def next (s : FileOplog) : Call → FileOplog
  | .append op blockId version => (s.append op blockId version).2
  | .compact throughLsn => (s.compact throughLsn).2
  | .tick worker => s.tick worker

def step (s : FileOplog) (c : Call) : Option FileOplog := some (s.next c)

def Call.isAppend : Call → Bool
  | .append .. => true
  | _ => false

def Call.isCompact : Call → Bool
  | .compact _ => true
  | _ => false

/-! ## What a flush changes -/

variable {s s' : FileOplog} {f : OplogFile} {calls : List Call}

/-- The lines of a file, and the text after its last newline. -/
def contentOf (s : FileOplog) (k : ℕ) : Option (List OplogLine × OplogLine) :=
  s.files[k]?.map fun f => (f.lines, f.rest)

/-- What the file of the handle holds. -/
def content (s : FileOplog) : Option (List OplogLine × OplogLine) := s.contentOf s.file

/-- Nothing was written, and the same files have the path and the handle. -/
structure SameRecords (s s' : FileOplog) : Prop where
  log : s'.toOplog = s.toOplog
  closed : s'.closed = s.closed
  policy : s'.fsyncPolicy = s.fsyncPolicy
  path : s'.path = s.path
  file : s'.file = s.file
  length : s'.files.length = s.files.length
  contentOf : ∀ k, s'.contentOf k = s.contentOf k

theorem SameRecords.trans {s₁ s₂ s₃ : FileOplog} (h : s₁.SameRecords s₂) (h' : s₂.SameRecords s₃) :
    s₁.SameRecords s₃ where
  log := h'.log.trans h.log
  closed := h'.closed.trans h.closed
  policy := h'.policy.trans h.policy
  path := h'.path.trans h.path
  file := h'.file.trans h.file
  length := h'.length.trans h.length
  contentOf k := (h'.contentOf k).trans (h.contentOf k)

theorem SameRecords.content (h : s.SameRecords s') : s'.content = s.content := by
  unfold FileOplog.content
  rw [h.contentOf, h.file]

theorem contentOf_doFsync (s : FileOplog) (k : ℕ) : s.doFsync.contentOf k = s.contentOf k := by
  unfold doFsync
  split
  next =>
    unfold contentOf
    simp only [List.getElem?_modify, Option.map_eq_map, Option.map_map]
    apply congrFun
    congr 1
    funext f
    obtain heq | hne := eq_or_ne s.file k
    · simp [heq, OplogFile.fsync]
    · simp [hne]
  next => rfl

/-- An fsync changes no line. -/
theorem sameRecords_doFsync (s : FileOplog) : s.SameRecords s.doFsync where
  log := by unfold doFsync; split <;> rfl
  closed := by unfold doFsync; split <;> rfl
  policy := by unfold doFsync; split <;> rfl
  path := by unfold doFsync; split <;> rfl
  file := by unfold doFsync; split <;> rfl
  length := by unfold doFsync; split <;> simp
  contentOf := contentOf_doFsync s

theorem sameRecords_withWorkers (s : FileOplog) (workers : List FlushWorker) (n : Option ℕ) :
    s.SameRecords { s with workers := workers, flushWorker := n } :=
  ⟨rfl, rfl, rfl, rfl, rfl, rfl, fun _ => rfl⟩

theorem sameRecords_stopWorker (s : FileOplog) : s.SameRecords s.stopWorker := by
  unfold stopWorker
  split
  · exact s.sameRecords_withWorkers _ _
  · exact s.sameRecords_withWorkers s.workers s.flushWorker

theorem sameRecords_notifyWorker (s : FileOplog) : s.SameRecords s.notifyWorker := by
  unfold notifyWorker
  split
  · exact s.sameRecords_withWorkers _ s.flushWorker
  · exact s.sameRecords_withWorkers s.workers s.flushWorker

theorem sameRecords_tick (s : FileOplog) (i : ℕ) : s.SameRecords (s.tick i) := by
  unfold tick
  split
  next => exact s.sameRecords_withWorkers s.workers s.flushWorker
  next w hw =>
    have hworkers := s.sameRecords_withWorkers (s.workers.set i w.turn.1) s.flushWorker
    dsimp only
    split
    · exact hworkers.trans (sameRecords_doFsync _)
    · exact hworkers

theorem sameRecords_close (s : FileOplog) : { s with closed := true }.SameRecords s.close := by
  have hstop := s.sameRecords_stopWorker
  have hflushed := hstop.trans (sameRecords_doFsync s.stopWorker)
  unfold close
  dsimp only
  split
  · exact ⟨hflushed.log, rfl, hflushed.policy, hflushed.path, hflushed.file, hflushed.length,
      hflushed.contentOf⟩
  · exact ⟨hstop.log, rfl, hstop.policy, hstop.path, hstop.file, hstop.length, hstop.contentOf⟩

/-- The LSNs go on from what the new file has. -/
theorem toOplog_replaced (s : FileOplog) (tmp : OplogFile) :
    (s.replaced tmp).toOplog = .ofFile s.nodeId (scanned tmp.read) := by
  have hlog := (sameRecords_close { s with files := s.files ++ [tmp] }).log
  show Oplog.ofFile (close _).nodeId _ = _
  rw [hlog]

/-- The handle is on the new file. -/
theorem content_replaced (s : FileOplog) (tmp : OplogFile) :
    (s.replaced tmp).content = some (tmp.lines, tmp.rest) := by
  have hclose := sameRecords_close { s with files := s.files ++ [tmp] }
  show (close { s with files := s.files ++ [tmp] }).contentOf
    ((close { s with files := s.files ++ [tmp] }).files.length - 1) = _
  rw [hclose.contentOf, hclose.length]
  simp [contentOf]

/-! ## What waits for an fsync -/

/-- Nothing waits for an fsync. -/
def Synced (s : FileOplog) : Prop := ∀ f ∈ s.files, f.unsynced = []

/-- Only the file of the handle has records that are not fsynced, and while it has any a flush is
pending. -/
def FlushPending (s : FileOplog) : Prop :=
  ∀ (k : ℕ) (f : OplogFile), s.files[k]? = some f → f.unsynced ≠ [] →
    k = s.file ∧ s.pendingFlush = true

theorem Synced.unsynced (h : s.Synced) {k : ℕ} (hf : s.files[k]? = some f) : f.unsynced = [] :=
  h f (List.mem_of_getElem? hf)

theorem Synced.flushPending (h : s.Synced) : s.FlushPending :=
  fun _ _ hf hne => absurd (h.unsynced hf) hne

/-- A flush is of all that waits. -/
theorem FlushPending.synced_doFsync (h : s.FlushPending) : s.doFsync.Synced := by
  intro f hf
  obtain ⟨k, hk⟩ := List.mem_iff_getElem?.mp hf
  unfold doFsync at hk
  split at hk
  next =>
    rw [List.getElem?_modify, Option.map_eq_map, Option.map_eq_some_iff] at hk
    obtain ⟨f₀, hf₀, rfl⟩ := hk
    by_contra hne
    obtain rfl | hk := eq_or_ne s.file k
    · simp [OplogFile.fsync] at hne
    · rw [if_neg hk] at hne
      exact hk (h k f₀ hf₀ hne).1.symm
  next hpending =>
    by_contra hne
    exact hpending (h k f hk hne).2

theorem FlushPending.written (h : s.FlushPending) (entry : OplogEntry) (log : Oplog) :
    (s.written entry log).FlushPending := by
  refine fun k f hf hne => ⟨?_, rfl⟩
  by_contra hk
  have hk' : s.file ≠ k := fun heq => hk heq.symm
  have hold : s.files[k]? = some f := by
    simpa [FileOplog.written, List.getElem?_modify, hk'] using hf
  exact hk (h k f hold hne).1


theorem synced_opened (nodeId : String) (lines : List OplogLine) (rest : OplogLine)
    (policy : FsyncPolicy) : (opened nodeId lines rest policy).Synced := by
  intro f hf
  obtain rfl := List.mem_singleton.mp hf
  rfl

/-- Closing fsyncs what waits if the policy has it so, and leaves nothing waiting if nothing does. -/
theorem Synced.close (h : s.Synced) : s.close.Synced := by
  have hstop : s.stopWorker.Synced := by
    unfold FileOplog.stopWorker
    split <;> exact h
  unfold FileOplog.close
  dsimp only
  split
  · exact hstop.flushPending.synced_doFsync
  · exact hstop

theorem Synced.withFile (h : s.Synced) (hf : f.unsynced = []) :
    Synced { s with files := s.files ++ [f] } := by
  intro f' hf'
  obtain hf' | hf' := List.mem_append.mp hf'
  · exact h f' hf'
  · exact List.mem_singleton.mp hf' ▸ hf

/-! ## An fsync with every append -/

/-- Every append is fsynced at once, and nothing waits. -/
def Prompt (s : FileOplog) : Prop := s.fsyncPolicy = .always ∧ s.Synced

theorem Prompt.append (h : s.Prompt) (op : LoggedOp) (blockId : String) (version : ℤ) :
    (s.append op blockId version).2.Prompt := by
  unfold FileOplog.append
  split
  next => exact h
  next =>
    have hpolicy (entry : OplogEntry) (log : Oplog) : (s.written entry log).fsyncPolicy = .always :=
      h.1
    simp only [hpolicy, if_true]
    exact ⟨(sameRecords_doFsync _).policy.trans h.1, (h.2.flushPending.written _ _).synced_doFsync⟩

theorem Prompt.compact (h : s.Prompt) (throughLsn : ℤ) : (s.compact throughLsn).2.Prompt := by
  unfold FileOplog.compact
  split
  next => exact h
  next f hf =>
    split
    next => exact h
    next entries hentries => exact ⟨(sameRecords_close _).policy.trans h.1, (h.2.withFile rfl).close⟩

theorem Prompt.tick (h : s.Prompt) (i : ℕ) : (s.tick i).Prompt := by
  refine ⟨(s.sameRecords_tick i).policy.trans h.1, ?_⟩
  unfold FileOplog.tick
  split
  next => exact h.2
  next w hw =>
    have hsynced : Synced { s with workers := s.workers.set i w.turn.1 } := h.2
    dsimp only
    split
    · exact hsynced.flushPending.synced_doFsync
    · exact h.2

/-- Under the policy `always` no record waits for an fsync after any call. -/
theorem synced_throughout_of_always (nodeId : String) (lines : List OplogLine) (rest : OplogLine)
    (calls : List Call) : Found.Throughout step Synced (opened nodeId lines rest .always) calls := by
  have hprompt : Found.Throughout step Prompt (opened nodeId lines rest .always) calls := by
    refine Found.throughout_of_invariant (fun s c s' h hstep => ?_) ⟨rfl, synced_opened _ _ _ _⟩
    obtain rfl := Option.some.inj hstep
    cases c with
    | append op blockId version => exact h.append op blockId version
    | compact throughLsn => exact h.compact throughLsn
    | tick i => exact h.tick i
  exact hprompt.mono fun s h => h.2

/-! ## The records of the file -/

/-- What a call does to the oplog and to the records of its file, as the storage engine has it. -/
def recordsNext : Oplog × List OplogEntry → Call → Oplog × List OplogEntry
  | (log, file), .append op blockId version =>
      ((log.append op blockId version).2, file ++ [(log.append op blockId version).1])
  | (log, file), .compact throughLsn =>
      (.ofFile log.nodeId (Oplog.compact throughLsn file), Oplog.compact throughLsn file)
  | records, .tick _ => records

/-- The open file can be read, and these are its records. -/
structure Represents (s : FileOplog) (records : Oplog × List OplogEntry) : Prop where
  isOpen : s.closed = false
  onPath : s.path = s.file
  log : s.toOplog = records.1
  content : ∃ lines, s.content = some (lines, .blank) ∧ iterEntries lines = some records.2

variable {records : Oplog × List OplogEntry}

theorem Represents.of_same (h : s.Represents records) (hs : s.SameRecords s') :
    s'.Represents records where
  isOpen := hs.closed.trans h.isOpen
  onPath := hs.path.trans (h.onPath.trans hs.file.symm)
  log := hs.log.trans h.log
  content := hs.content.symm ▸ h.content

theorem Represents.written (h : s.Represents records) (entry : OplogEntry) (log : Oplog) :
    (s.written entry log).Represents (log, records.2 ++ [entry]) := by
  obtain ⟨lines, hc, hiter⟩ := h.content
  obtain ⟨f, hf, hf'⟩ := Option.map_eq_some_iff.mp hc
  obtain ⟨rfl, hrest⟩ := Prod.mk.inj hf'
  refine ⟨h.isOpen, h.onPath, rfl, f.lines ++ [.record entry], ?_, ?_⟩
  · simp [FileOplog.content, contentOf, FileOplog.written, hf, OplogFile.write, hrest]
  · exact iterEntries_append hiter rfl

theorem Represents.append (h : s.Represents records) (op : LoggedOp) (blockId : String)
    (version : ℤ) : (s.append op blockId version).2.Represents
      (recordsNext records (.append op blockId version)) := by
  have hwritten := h.written (s.toOplog.append op blockId version).1
    (s.toOplog.append op blockId version).2
  have hnext : recordsNext records (.append op blockId version) =
      ((s.toOplog.append op blockId version).2,
        records.2 ++ [(s.toOplog.append op blockId version).1]) := by
    rw [h.log]
    rfl
  rw [hnext]
  simp only [FileOplog.append, h.isOpen, Bool.false_eq_true, if_false]
  split
  · exact hwritten.of_same (sameRecords_doFsync _)
  · exact hwritten.of_same (sameRecords_notifyWorker _)

theorem Represents.tick (h : s.Represents records) (i : ℕ) : (s.tick i).Represents records :=
  h.of_same (s.sameRecords_tick i)

/-- The file that a compaction puts in place has the records that it keeps. -/
theorem Represents.compact (h : s.Represents records) (throughLsn : ℤ) :
    (s.compact throughLsn).2.Represents (recordsNext records (.compact throughLsn)) := by
  obtain ⟨lines, hc, hiter⟩ := h.content
  obtain ⟨f, hf, hf'⟩ := Option.map_eq_some_iff.mp hc
  obtain ⟨rfl, hrest⟩ := Prod.mk.inj hf'
  have hpath : s.files[s.path]? = some f := h.onPath ▸ hf
  have hblank {lines : List OplogLine} {file : List OplogEntry} (h : iterEntries lines = some file) :
      iterEntries (lines ++ [.blank]) = some file :=
    (iterEntries_append h rfl).trans (congrArg some (List.append_nil _))
  have hread : iterEntries f.read = some records.2 := by
    rw [OplogFile.read, hrest]
    exact hblank hiter
  have hkept : iterEntries (OplogFile.ofRecords (Oplog.compact throughLsn records.2)).read =
      some (Oplog.compact throughLsn records.2) := hblank (iterEntries_record _)
  simp only [FileOplog.compact, hpath, hread]
  refine ⟨rfl, rfl, ?_, _, content_replaced _ _, iterEntries_record _⟩
  rw [toOplog_replaced, scanned_of_iterEntries hkept, h.log]
  rfl

theorem represents_opened {file : List OplogEntry} (nodeId : String)
    (h : iterEntries lines = some file) (policy : FsyncPolicy) :
    (opened nodeId lines .blank policy).Represents (.ofFile nodeId file, file) := by
  have hread : iterEntries (lines ++ [.blank]) = some (file ++ []) := iterEntries_append h rfl
  refine ⟨rfl, rfl, ?_, lines, rfl, h⟩
  show Oplog.ofFile nodeId (scanned (lines ++ [.blank])) = _
  rw [scanned_of_iterEntries hread, List.append_nil]

/-- Under every policy, what the calls do to the records is what they do to a list of records. -/
theorem represents_run {s' : FileOplog} (h : s.Represents records)
    (hrun : Found.run step s calls = some s') :
    s'.Represents (calls.foldl recordsNext records) := by
  induction calls generalizing s records with
  | nil => exact Option.some.inj hrun ▸ h
  | cons c calls ih =>
      have hnext : (s.next c).Represents (recordsNext records c) := by
        cases c with
        | append op blockId version => exact h.append op blockId version
        | compact throughLsn => exact h.compact throughLsn
        | tick i => exact h.tick i
      exact ih hnext hrun

end FileOplog

end NanoFabric.Node
