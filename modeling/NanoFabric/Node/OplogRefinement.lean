import NanoFabric.Node.TornTail

/-!
# The lines of the oplog file are what its bytes are read as

`FileOplog` has a file as a list of lines, each of them blank, a record or unreadable, and takes it that
a record after other text on its line is no JSON document. Here its runs are those of the bytes.

* `sameFile_opened` — an oplog that is opened on the bytes of a file starts as the one on its lines.
* `SameFile.append`, `SameFile.compact` — an append and a compaction keep the two in step, errors
  included.
* `bytes_refine_lines` — so does every run of calls.
-/

namespace NanoFabric.Node

open NanoFabric.Found NanoFabric.Found.Json

variable {sha256 : String → String} {floatRepr : List Char → List Char} {f : OplogText} {k : ℕ}

/-- The line of `OplogFile` that is read so. -/
def LineRead.line : LineRead → OplogLine
  | .blank => .blank
  | .payload r => .record r.entry
  | .unreadable => .unreadable

/-- The lines of a file, and the text after its last newline, as `OplogFile` has them. -/
def OplogText.lineView (f : OplogText) : List OplogLine × OplogLine :=
  (f.lines.map fun l => (lineRead l).line, (lineRead f.rest).line)

/-- The lines that are read. -/
def OplogText.read (f : OplogText) : List OplogLine := f.lineView.1 ++ [f.lineView.2]

theorem scanned_append_blank (lines : List OplogLine) :
    scanned (lines ++ [.blank]) = scanned lines := by
  induction lines with
  | nil => rfl
  | cons line lines ih =>
      cases line with
      | blank => exact ih
      | record e => exact congrArg (e :: ·) ih
      | unreadable => rfl

theorem scanned_items (items : List (List Char × LineRead)) :
    scanned (items.map fun item => item.2.line) =
      (recordsOf (readable items)).map WrittenRecord.entry := by
  induction items with
  | nil => rfl
  | cons item items ih =>
      obtain ⟨line, status⟩ := item
      cases status with
      | blank =>
          rw [readable_cons_of_readable rfl]
          exact ih
      | payload r =>
          rw [readable_cons_of_readable rfl]
          exact congrArg (r.entry :: ·) ih
      | unreadable => rfl

/-- What the lines of a whole file are read as. -/
theorem cutItems_line (hk : (f.chars sha256 floatRepr).length ≤ k) :
    (cutItems sha256 floatRepr k f.lines f.rest).map (fun item => item.2.line) =
      f.lineView.1 ++ (if f.rest = [] then [] else [f.lineView.2]) := by
  obtain ⟨lines, rest⟩ := f
  induction lines generalizing k with
  | nil =>
      rw [cutItems, tailItems_of_le hk]
      split_ifs <;> rfl
  | cons l lines ih =>
      rw [OplogText.chars_cons, List.length_append, List.length_cons] at hk
      have ih := ih (k := k - (lineText sha256 floatRepr l).length - 1) (by omega)
      rw [cutItems, if_pos (by omega), List.map_cons, ih]
      rfl

/-- The scan stops at the same line. -/
theorem scanned_read (hk : (f.chars sha256 floatRepr).length ≤ k) :
    scanned f.read = (survivors sha256 floatRepr k f.lines f.rest).records.map WrittenRecord.entry := by
  rw [← (readable_cutItems k f.lines f.rest).2, ← scanned_items, cutItems_line hk, OplogText.read]
  split_ifs with hnil
  · rw [OplogText.lineView, hnil, List.append_nil]
    exact scanned_append_blank _
  · rfl

theorem iterEntries_lineRead {l : List WrittenRecord} (hl : l.length ≤ 1) :
    iterEntries [(lineRead l).line] = some (l.map WrittenRecord.entry) := by
  obtain rfl | ⟨r, rfl⟩ := eq_nil_or_singleton hl <;> rfl

/-- All lines can be read if no two records stand on one. -/
theorem iterEntries_of_short (hshort : f.Short) :
    iterEntries f.read = some (f.records.map WrittenRecord.entry) := by
  obtain ⟨lines, rest⟩ := f
  have hlines : iterEntries (lines.map fun l => (lineRead l).line) =
      some (lines.flatten.map WrittenRecord.entry) := by
    have hall := hshort.lines
    clear hshort
    induction lines with
    | nil => rfl
    | cons l lines ih =>
        have hl := iterEntries_lineRead (hall l List.mem_cons_self)
        rw [List.map_cons, List.flatten_cons, List.map_append]
        exact iterEntries_append hl (ih fun x hx => hall x (List.mem_cons_of_mem _ hx))
  rw [OplogText.records, List.map_append]
  exact iterEntries_append hlines (iterEntries_lineRead hshort.rest)

/-- Otherwise `iter_entries` raises. -/
theorem iterEntries_of_not_short (hshort : ¬f.Short) : iterEntries f.read = none := by
  obtain ⟨lines, rest⟩ := f
  have hunreadable : ∀ l : List WrittenRecord, ¬l.length ≤ 1 → (lineRead l).line = .unreadable := by
    intro l hl
    have hread : (lineRead l).isReadable ≠ true := fun hread => hl (isReadable_lineRead.mp hread)
    revert hread
    cases lineRead l <;> simp [LineRead.isReadable, LineRead.line]
  rw [iterEntries_eq_none, OplogText.read, OplogText.lineView, List.mem_append, List.mem_map,
    List.mem_singleton]
  by_cases hlines : ∀ l ∈ lines, l.length ≤ 1
  · exact Or.inr (hunreadable rest fun hrest => hshort ⟨hlines, hrest⟩).symm
  · push Not at hlines
    obtain ⟨l, hmem, hl⟩ := hlines
    exact Or.inl ⟨l, hmem, hunreadable l (not_le.mpr hl)⟩

/-! ## The two oplogs -/

/-- The oplog on lines and the oplog on bytes are the same, and the file holds `f`. -/
structure SameFile (t : FileOplog) (s : ByteOplog) (f : OplogText) (sha256 : String → String)
    (floatRepr : List Char → List Char) : Prop where
  isOpen : t.closed = false
  onPath : t.path = t.file
  log : t.toOplog = s.oplog
  content : t.content = some f.lineView
  file : s.file = f.bytes sha256 floatRepr

variable {t t' : FileOplog} {s s' : ByteOplog}

theorem SameFile.of_same (h : SameFile t s f sha256 floatRepr) (hs : t.SameRecords t') :
    SameFile t' s f sha256 floatRepr where
  isOpen := hs.closed.trans h.isOpen
  onPath := hs.path.trans (h.onPath.trans hs.file.symm)
  log := hs.log.trans h.log
  content := hs.content.trans h.content
  file := h.file

/-- An oplog that is opened on the bytes of a file starts as the one on its lines. -/
theorem sameFile_opened (nodeId : String) (policy : FsyncPolicy) :
    ∃ s, ByteOplog.opened sha256 floatRepr nodeId (f.bytes sha256 floatRepr) = .ok s ∧
      SameFile (.opened nodeId f.lineView.1 f.lineView.2 policy) s f sha256 floatRepr := by
  have hscan := scanHighWaterMark_take sha256 floatRepr f (f.chars sha256 floatRepr).length
  rw [← bytes_eq_take, ← scanned_read le_rfl] at hscan
  refine ⟨⟨.ofFile nodeId (scanned f.read), f.bytes sha256 floatRepr⟩, ?_, ?_⟩
  · simp only [ByteOplog.opened, ByteOplog.scanned, hscan]
    rfl
  · exact ⟨rfl, rfl, rfl, rfl, rfl⟩

/-- What is appended to the bytes of a file is what is written to its lines. -/
theorem SameFile.append (h : SameFile t s f sha256 floatRepr) (tsMs : ℤ) (op : LoggedOp)
    (blockId : String) (version : ℤ) :
    SameFile (t.append op blockId version).2 (s.append sha256 floatRepr tsMs op blockId version).2
      (f.append ⟨(s.oplog.append op blockId version).1, tsMs⟩) sha256 floatRepr := by
  obtain ⟨g, hg, hview⟩ := Option.map_eq_some_iff.mp h.content
  have hwritten : SameFile (t.written (t.toOplog.append op blockId version).1
      (t.toOplog.append op blockId version).2)
      (s.append sha256 floatRepr tsMs op blockId version).2
        (f.append ⟨(s.oplog.append op blockId version).1, tsMs⟩) sha256 floatRepr := by
    refine ⟨h.isOpen, h.onPath, ?_, ?_, ?_⟩
    · show (t.toOplog.append op blockId version).2 = (s.oplog.append op blockId version).2
      rw [h.log]
    · have hline : (if g.rest = .blank then OplogLine.record (t.toOplog.append op blockId version).1
          else .unreadable) =
            (lineRead (f.rest ++ [⟨(s.oplog.append op blockId version).1, tsMs⟩])).line := by
        rw [show g.rest = f.lineView.2 from congrArg Prod.snd hview, h.log]
        obtain ⟨lines, rest⟩ := f
        match rest with
        | [] => rfl
        | [r] => rfl
        | r :: r' :: rest => rfl
      have hlines : g.lines = f.lines.map fun l => (lineRead l).line := congrArg Prod.fst hview
      simp only [FileOplog.content, FileOplog.contentOf, FileOplog.written] at hg ⊢
      rw [List.getElem?_modify, hg]
      simp [OplogFile.write, hline, hlines, OplogText.lineView, OplogText.append, lineRead,
        LineRead.line]
    · rw [OplogText.bytes_append, ← h.file]
      rfl
  simp only [FileOplog.append, h.isOpen, Bool.false_eq_true, if_false]
  split
  · exact hwritten.of_same (FileOplog.sameRecords_doFsync _)
  · exact hwritten.of_same (FileOplog.sameRecords_notifyWorker _)

theorem map_entry_keptRecords (throughLsn : ℤ) (records : List WrittenRecord) :
    (keptRecords throughLsn records).map WrittenRecord.entry =
      Oplog.compact throughLsn (records.map WrittenRecord.entry) := by
  rw [keptRecords, Oplog.compact, List.filter_map]
  rfl

variable (sha256 floatRepr) in
/-- The oplog after a call, with the time of an append. A compaction that raises leaves it as it was. -/
def ByteOplog.next (s : ByteOplog) (call : FileOplog.Call × ℤ) : ByteOplog :=
  match call.1 with
  | .append op blockId version => (s.append sha256 floatRepr call.2 op blockId version).2
  | .compact throughLsn =>
      match s.compact sha256 floatRepr throughLsn with
      | .ok (_, s') => s'
      | .error _ => s
  | .tick _ => s

/-- A compaction of the bytes is one of the lines, keeps as many records, and raises where that does. -/
theorem SameFile.compact (h : SameFile t s f sha256 floatRepr) (throughLsn tsMs : ℤ) :
    (t.compact throughLsn).1 = (s.compact sha256 floatRepr throughLsn).toOption.map Prod.fst ∧
      ∃ f', SameFile (t.compact throughLsn).2 (s.next sha256 floatRepr (.compact throughLsn, tsMs)) f'
        sha256 floatRepr := by
  obtain ⟨g, hg, hview⟩ := Option.map_eq_some_iff.mp h.content
  have hpath : t.files[t.path]? = some g := h.onPath ▸ hg
  have hread : g.read = f.read := by
    rw [OplogFile.read, OplogText.read, ← hview]
  by_cases hshort : f.Short
  · have hkept := map_entry_keptRecords throughLsn f.records
    have hview : (OplogText.ofRecords (keptRecords throughLsn f.records)).lineView =
        ((Oplog.compact throughLsn (f.records.map WrittenRecord.entry)).map .record, .blank) := by
      rw [← hkept, List.map_map]
      simp only [OplogText.lineView, OplogText.ofRecords, List.map_map]
      rfl
    have hscan : scanned (OplogFile.ofRecords
        (Oplog.compact throughLsn (f.records.map WrittenRecord.entry))).read =
          Oplog.compact throughLsn (f.records.map WrittenRecord.entry) := by
      rw [OplogFile.read, OplogFile.ofRecords, scanned_append_blank]
      exact scanned_of_iterEntries (iterEntries_record _)
    simp only [FileOplog.compact, hpath, hread, iterEntries_of_short hshort, ByteOplog.next,
      compact_bytes h.file hshort]
    refine ⟨?_, .ofRecords (keptRecords throughLsn f.records), rfl, rfl, ?_, ?_, rfl⟩
    · rw [← hkept, List.length_map]
      rfl
    · rw [FileOplog.toOplog_replaced, hscan, hkept, h.log]
    · rw [FileOplog.content_replaced, hview]
      rfl
  · obtain ⟨lineNo, herror⟩ := compact_of_not_short h.file hshort throughLsn
    simp only [FileOplog.compact, hpath, hread, iterEntries_of_not_short hshort, ByteOplog.next, herror]
    exact ⟨rfl, f, h⟩

theorem SameFile.next (h : SameFile t s f sha256 floatRepr) (call : FileOplog.Call × ℤ) :
    ∃ f', SameFile (t.next call.1) (s.next sha256 floatRepr call) f' sha256 floatRepr := by
  obtain ⟨c, tsMs⟩ := call
  cases c with
  | append op blockId version => exact ⟨_, h.append tsMs op blockId version⟩
  | compact throughLsn => exact (h.compact throughLsn tsMs).2
  | tick i => exact ⟨f, h.of_same (t.sameRecords_tick i)⟩

theorem sameFile_run (h : SameFile t s f sha256 floatRepr) (calls : List (FileOplog.Call × ℤ)) :
    ∃ t' f', Found.run FileOplog.step t (calls.map Prod.fst) = some t' ∧
      SameFile t' (calls.foldl (ByteOplog.next sha256 floatRepr) s) f' sha256 floatRepr := by
  induction calls generalizing t s f with
  | nil => exact ⟨t, f, rfl, h⟩
  | cons call calls ih =>
      obtain ⟨f', hf'⟩ := h.next call
      exact ih hf'

/-- An oplog that is opened on a file goes through the states of the oplog on the lines of that file,
whatever is called, and a compaction keeps as many records as that on the lines, or raises with it. -/
theorem bytes_refine_lines (nodeId : String) (policy : FsyncPolicy)
    (calls : List (FileOplog.Call × ℤ)) :
    ∃ s t' f', ByteOplog.opened sha256 floatRepr nodeId (f.bytes sha256 floatRepr) = .ok s ∧
      Found.run FileOplog.step (.opened nodeId f.lineView.1 f.lineView.2 policy) (calls.map Prod.fst) =
        some t' ∧
      SameFile t' (calls.foldl (ByteOplog.next sha256 floatRepr) s) f' sha256 floatRepr ∧
      ∀ throughLsn, (t'.compact throughLsn).1 =
        ((calls.foldl (ByteOplog.next sha256 floatRepr) s).compact sha256 floatRepr
          throughLsn).toOption.map Prod.fst := by
  obtain ⟨s, hopened, hs⟩ := sameFile_opened nodeId policy
  obtain ⟨t', f', hrun, hsame⟩ := sameFile_run hs calls
  exact ⟨s, t', f', hopened, hrun, hsame, fun throughLsn => (hsame.compact throughLsn 0).1⟩

end NanoFabric.Node
