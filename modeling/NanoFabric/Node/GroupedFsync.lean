import NanoFabric.Node.OplogFile

/-!
# Grouped fsync

Under the policy `grouped` a worker fsyncs what is appended. `close` stops it, and `compact`, which
closes the oplog to open it again on the file that replaces the old one, starts no other. So what is
appended after a compaction is fsynced by nobody until the next compaction or the last close.

* `NothingStranded` — every record that waits for an fsync has a running worker that gets to it.
* `Attended`, `Abandoned` — the oplog with its worker, and without it; each call keeps the first or
  leads to the second.
* `nothingStranded_iff_noAppendAfterRewrite` — the runs that strand nothing.
-/

namespace NanoFabric.Node

namespace FileOplog

/-- For every record that is not fsynced there is a running worker whose next turn fsyncs the file
that has it. -/
def NothingStranded (s : FileOplog) : Prop :=
  ∀ (k : ℕ) (f : OplogFile), s.files[k]? = some f → ∀ e ∈ f.unsynced,
    ∃ (i : ℕ) (w : FlushWorker), s.workers[i]? = some w ∧ w.stopSet = false ∧
      ∃ f', (s.tick i).files[k]? = some f' ∧ f'.unsynced = []

/-! ## With and without a worker -/

variable {s : FileOplog} {f : OplogFile} {calls : List Call} {lines : List OplogLine}
  {rest : OplogLine}

/-- The open handle is on the file that has the path, and what waits is pending. -/
structure Tracked (s : FileOplog) : Prop where
  grouped : s.fsyncPolicy = .grouped
  isOpen : s.closed = false
  onPath : s.path = s.file
  lt_length : s.file < s.files.length
  pending : s.FlushPending

theorem Tracked.doFsync (h : s.Tracked) : s.doFsync.Tracked where
  grouped := (sameRecords_doFsync s).policy.trans h.grouped
  isOpen := (sameRecords_doFsync s).closed.trans h.isOpen
  onPath := by
    rw [(sameRecords_doFsync s).path, (sameRecords_doFsync s).file]
    exact h.onPath
  lt_length := by
    rw [(sameRecords_doFsync s).file, (sameRecords_doFsync s).length]
    exact h.lt_length
  pending := h.pending.synced_doFsync.flushPending

theorem Tracked.withWorkers (h : s.Tracked) (workers : List FlushWorker) (n : Option ℕ) :
    { s with workers := workers, flushWorker := n }.Tracked :=
  ⟨h.grouped, h.isOpen, h.onPath, h.lt_length, h.pending⟩

/-- The worker is the only one, it is running, and it is the one to notify. -/
structure Attended (s : FileOplog) : Prop extends Tracked s where
  notified : s.flushWorker = some 0
  running : ∃ w, s.workers = [w] ∧ w.stopSet = false

/-- The worker was stopped and nobody is notified. -/
structure Abandoned (s : FileOplog) : Prop extends Tracked s where
  forgotten : s.flushWorker = none
  stopped : ∀ w ∈ s.workers, w.stopSet = true

/-! ## Turns of the worker -/

/-- A turn of the running worker is a flush. -/
theorem Attended.tick_zero (h : s.Attended) :
    ∃ w, w.stopSet = false ∧ s.tick 0 = { s with workers := [w] }.doFsync := by
  obtain ⟨w, hw, hrun⟩ := h.running
  refine ⟨{ w with event := false }, hrun, ?_⟩
  simp [tick, hw, FlushWorker.turn, hrun]

theorem Attended.tick_of_ne_zero (h : s.Attended) {i : ℕ} (hi : i ≠ 0) : s.tick i = s := by
  obtain ⟨w, hw, -⟩ := h.running
  have hnone : s.workers[i]? = none := by simp [hw, hi]
  simp [tick, hnone]

theorem workers_doFsync (s : FileOplog) : s.doFsync.workers = s.workers := by
  unfold doFsync
  split <;> rfl

theorem flushWorker_doFsync (s : FileOplog) : s.doFsync.flushWorker = s.flushWorker := by
  unfold doFsync
  split <;> rfl

theorem Attended.tick (h : s.Attended) (i : ℕ) : (s.tick i).Attended := by
  obtain rfl | hi := eq_or_ne i 0
  · obtain ⟨w, hw, htick⟩ := h.tick_zero
    rw [htick]
    refine ⟨(h.withWorkers [w] s.flushWorker).doFsync, ?_, w, ?_, hw⟩
    · exact (flushWorker_doFsync _).trans h.notified
    · exact workers_doFsync _
  · rwa [h.tick_of_ne_zero hi]

/-- While the worker is running, no record is stranded. -/
theorem Attended.nothingStranded (h : s.Attended) : s.NothingStranded := by
  intro k f hf e he
  obtain ⟨w, hw, hrun⟩ := h.running
  obtain ⟨w', -, htick⟩ := h.tick_zero
  have hlt : k < (s.tick 0).files.length := by
    rw [htick, (sameRecords_doFsync _).length]
    exact (List.getElem?_eq_some_iff.mp hf).1
  refine ⟨0, w, by simp [hw], hrun, _, List.getElem?_eq_getElem hlt, ?_⟩
  have hsynced : (s.tick 0).Synced := by
    rw [htick]
    exact (h.withWorkers [w'] s.flushWorker).pending.synced_doFsync
  exact hsynced _ (List.getElem_mem hlt)

/-- Turns of a stopped worker do nothing that matters. -/
theorem Abandoned.tick_eq (h : s.Abandoned) (i : ℕ) :
    ∃ workers, (∀ w ∈ workers, w.stopSet = true) ∧ s.tick i = { s with workers := workers } := by
  unfold FileOplog.tick
  split
  next => exact ⟨s.workers, h.stopped, rfl⟩
  next w hw =>
    have hstop := h.stopped w (List.mem_of_getElem? hw)
    refine ⟨s.workers.set i w.turn.1, fun w' hw' => ?_, ?_⟩
    · obtain hw' | rfl := List.mem_or_eq_of_mem_set hw'
      · exact h.stopped w' hw'
      · exact hstop
    · simp [FlushWorker.turn, hstop]

/-- A record that is not fsynced when no worker runs is stranded. -/
theorem Abandoned.not_nothingStranded (h : s.Abandoned) (hs : ¬ s.Synced) :
    ¬ s.NothingStranded := by
  intro hcov
  obtain ⟨f, hf, hne⟩ : ∃ f ∈ s.files, f.unsynced ≠ [] := by simpa [Synced] using hs
  obtain ⟨k, hk⟩ := List.mem_iff_getElem?.mp hf
  obtain ⟨e, he⟩ := List.exists_mem_of_ne_nil _ hne
  obtain ⟨i, w, hw, hrun, -⟩ := hcov k f hk e he
  have hstop := h.stopped w (List.mem_of_getElem? hw)
  rw [hrun] at hstop
  exact Bool.false_ne_true hstop

/-! ## Appends -/

theorem Tracked.append_eq (h : s.Tracked) (op : LoggedOp) (blockId : String) (version : ℤ) :
    ∃ entry log, (s.append op blockId version).2 = (s.written entry log).notifyWorker := by
  refine ⟨(s.toOplog.append op blockId version).1, (s.toOplog.append op blockId version).2, ?_⟩
  simp [append, written, h.isOpen, h.grouped]

theorem Tracked.written (h : s.Tracked) (entry : OplogEntry) (log : Oplog) :
    (s.written entry log).Tracked :=
  ⟨h.grouped, h.isOpen, h.onPath, h.lt_length.trans_eq (List.length_modify _ _ _).symm,
    h.pending.written entry log⟩

/-- What was written waits in the file of the handle. -/
theorem Tracked.not_synced_written (h : s.Tracked) (entry : OplogEntry) (log : Oplog) :
    ¬ (s.written entry log).Synced := by
  intro hs
  obtain ⟨f, hget⟩ : ∃ f, s.files[s.file]? = some f := ⟨_, List.getElem?_eq_getElem h.lt_length⟩
  have hf : (s.written entry log).files[s.file]? = some (f.write entry) := by
    simp [FileOplog.written, hget]
  have hnil := hs.unsynced hf
  simp [OplogFile.write] at hnil

theorem Attended.notifyWorker (h : s.Attended) : s.notifyWorker.Attended := by
  obtain ⟨w, hw, hrun⟩ := h.running
  unfold FileOplog.notifyWorker
  simp only [h.notified]
  exact ⟨h.withWorkers _ _, rfl, w.notify, by simp [hw], hrun⟩

theorem Attended.append (h : s.Attended) (op : LoggedOp) (blockId : String) (version : ℤ) :
    (s.append op blockId version).2.Attended := by
  obtain ⟨entry, log, happend⟩ := h.append_eq op blockId version
  rw [happend]
  have hwritten : (s.written entry log).Attended :=
    ⟨h.written entry log, h.notified, h.running⟩
  exact hwritten.notifyWorker

theorem notifyWorker_of_none (h : s.flushWorker = none) : s.notifyWorker = s := by
  simp [notifyWorker, h]

/-- With nobody to notify, the record stays as it was written. -/
theorem Abandoned.append (h : s.Abandoned) (op : LoggedOp) (blockId : String) (version : ℤ) :
    (s.append op blockId version).2.Abandoned ∧ ¬ (s.append op blockId version).2.Synced := by
  obtain ⟨entry, log, happend⟩ := h.append_eq op blockId version
  have hsame : (s.written entry log).notifyWorker = s.written entry log :=
    notifyWorker_of_none h.forgotten
  rw [happend, hsame]
  exact ⟨⟨h.written entry log, h.forgotten, h.stopped⟩, h.not_synced_written entry log⟩

/-! ## Compactions -/

theorem Tracked.stopWorker (h : s.Tracked) : s.stopWorker.Tracked := by
  unfold FileOplog.stopWorker
  split
  · exact h.withWorkers _ _
  · exact h

theorem flushWorker_close (s : FileOplog) : s.close.flushWorker = none := by
  have hstop : s.stopWorker.flushWorker = none := by
    unfold stopWorker
    split
    next => rfl
    next h => exact h
  unfold close
  dsimp only
  split
  · exact (flushWorker_doFsync _).trans hstop
  · exact hstop

theorem workers_close (s : FileOplog) : s.close.workers = s.stopWorker.workers := by
  unfold close
  dsimp only
  split
  · exact workers_doFsync _
  · rfl

/-- Closing flushes all that waits. -/
theorem Tracked.synced_close (h : s.Tracked) : s.close.Synced := by
  unfold close
  simp only [h.stopWorker.grouped, if_true]
  exact h.stopWorker.pending.synced_doFsync

/-- No worker of the oplog is running once the one to notify has been stopped. -/
def Stoppable (s : FileOplog) : Prop := ∀ w ∈ s.stopWorker.workers, w.stopSet = true

theorem Attended.stoppable (h : s.Attended) : s.Stoppable := by
  obtain ⟨w, hw, -⟩ := h.running
  simp [Stoppable, stopWorker, h.notified, hw, FlushWorker.stop]

theorem Abandoned.stoppable (h : s.Abandoned) : s.Stoppable := by
  intro w hw
  unfold stopWorker at hw
  simp only [h.forgotten] at hw
  exact h.stopped w hw

/-- Another file that is fsynced changes nothing. -/
theorem Tracked.withFile (h : s.Tracked) (hf : f.unsynced = []) :
    { s with files := s.files ++ [f] }.Tracked := by
  refine ⟨h.grouped, h.isOpen, h.onPath, ?_, fun k f' hf' hne => ?_⟩
  · have hlt := h.lt_length
    simp only [List.length_append, List.length_singleton]
    omega
  · obtain hk | hk := lt_or_ge k s.files.length
    · rw [List.getElem?_append_left hk] at hf'
      exact h.pending k f' hf' hne
    · rw [List.getElem?_append_right hk] at hf'
      obtain rfl := List.mem_singleton.mp (List.mem_of_getElem? hf')
      exact absurd hf hne

/-- On the new file nothing waits, and nobody is there to flush what will. -/
theorem Tracked.replaced (h : s.Tracked) (hstop : s.Stoppable) (hf : f.unsynced = []) :
    (s.replaced f).Abandoned ∧ (s.replaced f).Synced := by
  have hsynced : (s.replaced f).Synced := (h.withFile hf).synced_close
  have hclose := sameRecords_close { s with files := s.files ++ [f] }
  refine ⟨⟨⟨?_, rfl, rfl, ?_, hsynced.flushPending⟩, flushWorker_close _, fun w hw => hstop w ?_⟩,
    hsynced⟩
  · exact hclose.policy.trans h.grouped
  · show (close { s with files := s.files ++ [f] }).files.length - 1 <
      (close { s with files := s.files ++ [f] }).files.length
    rw [hclose.length]
    simp
  · have hworkers : (s.replaced f).workers = s.stopWorker.workers := by
      refine (workers_close { s with files := s.files ++ [f] }).trans ?_
      unfold FileOplog.stopWorker
      cases s.flushWorker <;> rfl
    exact hworkers ▸ hw

theorem Tracked.exists_content (h : s.Tracked) : ∃ lines rest, s.content = some (lines, rest) := by
  unfold content contentOf
  rw [List.getElem?_eq_getElem h.lt_length]
  exact ⟨_, _, rfl⟩

/-- The path names the file of the handle. -/
theorem Tracked.file_of_path (h : s.Tracked) (hc : s.content = some (lines, rest)) :
    ∃ f, s.files[s.path]? = some f ∧ f.read = lines ++ [rest] := by
  obtain ⟨f, hf, hf'⟩ := Option.map_eq_some_iff.mp hc
  obtain ⟨rfl, rfl⟩ := Prod.mk.inj hf'
  exact ⟨f, h.onPath ▸ hf, rfl⟩

/-- A compaction that reads all lines leaves nothing to fsync, and no worker. -/
theorem Tracked.compact_of_read (h : s.Tracked) (hstop : s.Stoppable) (throughLsn : ℤ)
    (hc : s.content = some (lines, rest)) (hread : .unreadable ∉ lines ++ [rest]) :
    (s.compact throughLsn).2.Abandoned ∧ (s.compact throughLsn).2.Synced := by
  obtain ⟨f, hf, hlines⟩ := h.file_of_path hc
  obtain ⟨entries, hiter⟩ := Option.ne_none_iff_exists'.mp (mt iterEntries_eq_none.mp hread)
  rw [← hlines] at hiter
  simp only [compact, hf, hiter]
  exact h.replaced hstop rfl

/-- A compaction that finds a line that it cannot read raises before it changes anything. -/
theorem Tracked.compact_of_not_read (h : s.Tracked) (throughLsn : ℤ)
    (hc : s.content = some (lines, rest)) (hread : .unreadable ∈ lines ++ [rest]) :
    (s.compact throughLsn).2 = s := by
  obtain ⟨f, hf, hlines⟩ := h.file_of_path hc
  have hiter := iterEntries_eq_none.mpr hread
  rw [← hlines] at hiter
  simp only [compact, hf, hiter]

/-! ## Runs -/

/-- The record's line, unreadable if it was begun by other text. -/
theorem Tracked.content_append (h : s.Tracked) (hc : s.content = some (lines, rest))
    (op : LoggedOp) (blockId : String) (version : ℤ) :
    ∃ entry, (s.append op blockId version).2.content =
      some (lines ++ [if rest = .blank then .record entry else .unreadable], .blank) := by
  obtain ⟨entry, log, happend⟩ := h.append_eq op blockId version
  refine ⟨entry, ?_⟩
  obtain ⟨f, hf, hf'⟩ := Option.map_eq_some_iff.mp hc
  obtain ⟨rfl, rfl⟩ := Prod.mk.inj hf'
  rw [happend, (sameRecords_notifyWorker _).content]
  simp [content, contentOf, FileOplog.written, hf, OplogFile.write]

theorem throughout_cons {c : Call} : Found.Throughout step NothingStranded s (c :: calls) ↔
    s.NothingStranded ∧ Found.Throughout step NothingStranded (s.next c) calls := by
  simp [Found.Throughout, step]

theorem Synced.nothingStranded (h : s.Synced) : s.NothingStranded := by
  intro k f hf e he
  rw [h.unsynced hf] at he
  cases he

/-- Without a worker, no record may come. -/
theorem Abandoned.throughout_iff (h : s.Abandoned) (hs : s.Synced) :
    Found.Throughout step NothingStranded s calls ↔ ∀ c ∈ calls, c.isAppend = false := by
  induction calls generalizing s with
  | nil => exact iff_of_true hs.nothingStranded (by simp)
  | cons c calls ih =>
      rw [throughout_cons, List.forall_mem_cons]
      cases c with
      | append op blockId version =>
          obtain ⟨hnext, hwaits⟩ := h.append op blockId version
          refine iff_of_false (fun hall => ?_) (by simp [Call.isAppend])
          exact hnext.not_nothingStranded hwaits hall.2.start
      | compact throughLsn =>
          have hnext : (s.next (.compact throughLsn)).Abandoned ∧
              (s.next (.compact throughLsn)).Synced := by
            obtain ⟨lines, rest, hc⟩ := h.exists_content
            by_cases hread : .unreadable ∈ lines ++ [rest]
            · rw [next, h.compact_of_not_read throughLsn hc hread]
              exact ⟨h, hs⟩
            · exact h.compact_of_read h.stoppable throughLsn hc hread
          exact and_congr (iff_of_true hs.nothingStranded rfl) (ih hnext.1 hnext.2)
      | tick i =>
          obtain ⟨workers, hstop, htick⟩ := h.tick_eq i
          have hnext : (s.next (.tick i)).Abandoned := by
            rw [next, htick]
            exact ⟨h.withWorkers workers s.flushWorker, h.forgotten, hstop⟩
          have hsnext : (s.next (.tick i)).Synced := by
            rw [next, htick]
            exact hs
          exact and_congr (iff_of_true hs.nothingStranded rfl) (ih hnext hsnext)

/-- No record is appended after a compaction that rewrites the file. A compaction raises instead when
a line cannot be read: one that was there, or one that an append made of the text after the last
newline. -/
def NoAppendAfterRewrite (lines : List OplogLine) (rest : OplogLine) (calls : List Call) : Prop :=
  .unreadable ∈ lines ++ [rest] ∨
    (rest ≠ .blank ∧ (calls.takeWhile fun c => !c.isCompact).any Call.isAppend = true) ∨
    calls.Pairwise fun c c' => c.isCompact = true → c'.isAppend = false

theorem noAppendAfterRewrite_tick {i : ℕ} : NoAppendAfterRewrite lines rest (.tick i :: calls) ↔
    NoAppendAfterRewrite lines rest calls := by
  simp [NoAppendAfterRewrite, Call.isCompact, Call.isAppend]

/-- The first append settles what the text after the last newline does. -/
theorem noAppendAfterRewrite_append {op : LoggedOp} {blockId : String} {version : ℤ}
    {e : OplogEntry} : NoAppendAfterRewrite lines rest (.append op blockId version :: calls) ↔
      NoAppendAfterRewrite (lines ++ [if rest = .blank then .record e else .unreadable]) .blank
        calls := by
  by_cases hrest : rest = .blank
  · simp [NoAppendAfterRewrite, Call.isCompact, hrest]
  · simp [NoAppendAfterRewrite, Call.isCompact, Call.isAppend, hrest]

/-- From a compaction of a file that can be read on, no append may come. -/
theorem noAppendAfterRewrite_compact {n : ℤ} (hread : .unreadable ∉ lines ++ [rest]) :
    NoAppendAfterRewrite lines rest (.compact n :: calls) ↔ ∀ c ∈ calls, c.isAppend = false := by
  unfold NoAppendAfterRewrite
  rw [or_iff_right hread, or_iff_right (by simp [Call.isCompact]), List.pairwise_cons]
  refine ⟨fun h c hc => h.1 c hc rfl, fun h => ⟨fun c hc _ => h c hc, ?_⟩⟩
  exact List.pairwise_of_forall_mem_list fun c _ c' hc' _ => h c' hc'

/-- While the worker is running, a run strands a record just when it appends one after a compaction
that rewrites the file. -/
theorem Attended.throughout_iff (h : s.Attended) (hc : s.content = some (lines, rest)) :
    Found.Throughout step NothingStranded s calls ↔ NoAppendAfterRewrite lines rest calls := by
  induction calls generalizing s lines rest with
  | nil => exact iff_of_true h.nothingStranded (.inr (.inr .nil))
  | cons c calls ih =>
      rw [throughout_cons, and_iff_right h.nothingStranded]
      cases c with
      | append op blockId version =>
          obtain ⟨entry, hcontent⟩ := h.content_append hc op blockId version
          rw [noAppendAfterRewrite_append (e := entry)]
          exact ih (h.append op blockId version) hcontent
      | compact throughLsn =>
          by_cases hread : .unreadable ∈ lines ++ [rest]
          · rw [next, h.compact_of_not_read throughLsn hc hread]
            exact (ih h hc).trans (iff_of_true (.inl hread) (.inl hread))
          · obtain ⟨hnext, hsynced⟩ := h.compact_of_read h.stoppable throughLsn hc hread
            rw [noAppendAfterRewrite_compact hread]
            exact hnext.throughout_iff hsynced
      | tick i =>
          rw [noAppendAfterRewrite_tick]
          exact ih (h.tick i) ((s.sameRecords_tick i).content.trans hc)

theorem attended_opened (nodeId : String) (lines : List OplogLine) (rest : OplogLine) :
    (opened nodeId lines rest .grouped).Attended where
  grouped := rfl
  isOpen := rfl
  onPath := rfl
  lt_length := Nat.zero_lt_one
  pending := (synced_opened nodeId lines rest .grouped).flushPending
  notified := rfl
  running := ⟨.started, rfl, rfl⟩

/-- Grouped fsync strands no record just when no record is appended after a compaction that rewrites
the file. -/
theorem nothingStranded_iff_noAppendAfterRewrite (nodeId : String) (lines : List OplogLine)
    (rest : OplogLine) (calls : List Call) :
    Found.Throughout step NothingStranded (opened nodeId lines rest .grouped) calls ↔
      NoAppendAfterRewrite lines rest calls :=
  (attended_opened nodeId lines rest).throughout_iff rfl

/-- A new oplog is compacted and then written to: no worker is left to fsync the record. -/
theorem nothingStranded_counterexample :
    ¬ Found.Throughout step NothingStranded (opened "node1" [] .blank .grouped)
      [.compact 0, .append (.write "data") "block1" 1] := by
  intro h
  have hlast : NothingStranded _ := (h.2 _ rfl).2 _ rfl
  obtain ⟨i, w, hw, hrun, -⟩ := hlast 1 _ rfl _ (List.mem_singleton_self _)
  have hstop : w = ⟨true, true⟩ := List.mem_singleton.mp (List.mem_of_getElem? hw)
  rw [hstop] at hrun
  cases hrun

end FileOplog

end NanoFabric.Node
