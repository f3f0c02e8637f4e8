import NanoFabric.Node.OplogLines

/-!
# Crashes of the oplog

What a file holds after any number of appends, fsyncs, compactions and crashes, where a crash may cut
off any bytes that are not fsynced.

* `recover_torn_tail` — a file that was cut anywhere is recovered to its complete records.
* `SyncedOplog.synced_records_survive` — what was fsynced is read after any later run, as long as no
  append is made to a file whose last newline was cut off.
* `SyncedOplog.merged_records_lost` — after such an append, the next recovery drops all that was
  written from there on, fsynced or not.
-/

namespace NanoFabric.Node

open NanoFabric.Found NanoFabric.Found.Json

variable {sha256 : String → String} {floatRepr : List Char → List Char} {f : OplogText} {k : ℕ}

theorem take_bytes (f : OplogText) (k : ℕ) :
    (f.bytes sha256 floatRepr).take k = encodeUtf8 ((f.chars sha256 floatRepr).take k) :=
  take_encodeUtf8 (isAscii_chars f) k

variable (sha256 floatRepr) in
theorem isAscii_take (f : OplogText) (k : ℕ) : IsAscii ((f.chars sha256 floatRepr).take k) :=
  fun c hc => isAscii_chars f c (List.mem_of_mem_take hc)

variable (sha256 floatRepr) in
/-- The scan of a file that was cut. -/
theorem scanHighWaterMark_take (f : OplogText) (k : ℕ) :
    scanHighWaterMark sha256 floatRepr ((f.bytes sha256 floatRepr).take k) =
      .ok (Oplog.scanHighWaterMark
        ((survivors sha256 floatRepr k f.lines f.rest).records.map WrittenRecord.entry)) := by
  rw [scanHighWaterMark, take_bytes, decodeUtf8_encodeUtf8]
  simp only [textLines_take]
  rw [scanLines_items (reads_cutItems sha256 floatRepr k f.lines f.rest),
    (readable_cutItems k f.lines f.rest).2, Oplog.scanHighWaterMark, List.foldl_map]

/-- Where `recover` cuts a file that was cut. -/
theorem recoverLines_take (f : OplogText) (k : ℕ) :
    recoverLines sha256 floatRepr 0 (linesOf 10 ((f.bytes sha256 floatRepr).take k)) =
      .ok ((survivors sha256 floatRepr k f.lines f.rest).chars sha256 floatRepr).length := by
  have hlines : linesOf 10 ((f.bytes sha256 floatRepr).take k) =
      (cutItems sha256 floatRepr k f.lines f.rest).map fun item => encodeUtf8 item.1 := by
    rw [take_bytes, linesOf_encodeUtf8 (isAscii_take sha256 floatRepr f k), ← cutItems_fst, List.map_map]
    rfl
  have hascii : ∀ item ∈ cutItems sha256 floatRepr k f.lines f.rest, IsAscii item.1 := by
    intro item hitem c hc
    refine isAscii_take sha256 floatRepr f k c ?_
    rw [← cutItems_flatMap]
    exact List.mem_flatMap.mpr ⟨item, hitem, hc⟩
  rw [hlines, recoverLines_items (reads_cutItems sha256 floatRepr k f.lines f.rest) hascii, textLength,
    (readable_cutItems k f.lines f.rest).1, Nat.zero_add]

/-- What is left of a file that was cut is its beginning. -/
theorem survivors_bytes (f : OplogText) (k : ℕ) :
    ((f.bytes sha256 floatRepr).take k).take
        ((survivors sha256 floatRepr k f.lines f.rest).chars sha256 floatRepr).length =
      (survivors sha256 floatRepr k f.lines f.rest).bytes sha256 floatRepr := by
  have hbeginning : (survivors sha256 floatRepr k f.lines f.rest).chars sha256 floatRepr <+:
      (f.chars sha256 floatRepr).take k := by
    rw [← (readable_cutItems k f.lines f.rest).1, ← cutItems_flatMap]
    obtain ⟨later, hlater⟩ := List.takeWhile_prefix
      (fun item : List Char × LineRead => item.2.isReadable)
      (l := cutItems sha256 floatRepr k f.lines f.rest)
    exact ⟨later.flatMap Prod.fst, by rw [readable, ← List.flatMap_append, hlater]⟩
  rw [take_bytes, take_encodeUtf8 (isAscii_take sha256 floatRepr f k),
    ← List.prefix_iff_eq_take.mp hbeginning]
  rfl

/-! ## A file that is whole -/

theorem lineText_singleton (r : WrittenRecord) :
    lineText sha256 floatRepr [r] = r.text sha256 floatRepr :=
  List.flatMap_singleton _ r

/-- The last line of a file that was not cut is read as it is. -/
theorem tailItems_of_le {l : List WrittenRecord} (hk : (lineText sha256 floatRepr l).length ≤ k) :
    tailItems sha256 floatRepr k l =
      if l = [] then [] else [(lineText sha256 floatRepr l, lineRead l)] := by
  match l with
  | [] => simp [tailItems, lineText]
  | [r] =>
      obtain ⟨t, ht⟩ := r.text_eq sha256 floatRepr
      rw [lineText_singleton] at hk
      have hne : r.text sha256 floatRepr ≠ [] := ht ▸ List.cons_ne_nil _ _
      rw [tailItems, lineText_singleton, List.take_of_length_le hk, if_neg hne, lineSurvivors,
        if_pos (Or.inr ⟨rfl, hk⟩), if_neg (List.cons_ne_nil _ _)]
      rfl
  | r :: r' :: l =>
      obtain ⟨t, ht⟩ := r.text_eq sha256 floatRepr
      obtain ⟨t', ht'⟩ := r'.text_eq sha256 floatRepr
      have hne : lineText sha256 floatRepr (r :: r' :: l) ≠ [] := by
        simp [lineText, ht]
      -- the text of the second record is not empty, so that the line is longer than the first one
      have hlt : (r.text sha256 floatRepr).length < k := by
        refine lt_of_lt_of_le ?_ hk
        simp [lineText, ht, ht']
      rw [tailItems, List.take_of_length_le hk, if_neg hne, lineSurvivors, if_neg (by simp; omega),
        if_neg (List.cons_ne_nil _ _)]
      rfl

theorem survivors_of_le (hshort : f.Short) (hk : (f.chars sha256 floatRepr).length ≤ k) :
    survivors sha256 floatRepr k f.lines f.rest = f := by
  obtain ⟨lines, rest⟩ := f
  have hrest : rest.length ≤ 1 := hshort.rest
  induction lines generalizing k with
  | nil =>
      have htail : lineSurvivors sha256 floatRepr k rest = rest := by
        obtain rfl | ⟨r, rfl⟩ := eq_nil_or_singleton hrest
        · rfl
        · have hlen : (r.text sha256 floatRepr).length ≤ k := by
            simpa [OplogText.chars, lineText] using hk
          rw [lineSurvivors, if_pos (Or.inr ⟨rfl, hlen⟩)]
      rw [survivors, htail]
  | cons l lines ih =>
      have hl : l.length ≤ 1 := hshort.lines l List.mem_cons_self
      rw [OplogText.chars_cons, List.length_append, List.length_cons] at hk
      have ih := ih (k := k - (lineText sha256 floatRepr l).length - 1)
        ⟨fun l' hl' => hshort.lines l' (List.mem_cons_of_mem _ hl'), hrest⟩ (by omega)
      rw [survivors, if_pos (by omega), if_pos hl, ih]

/-- All lines of a file that was not cut can be read if no two records stand on one. -/
theorem isReadable_cutItems (hshort : f.Short) (hk : (f.chars sha256 floatRepr).length ≤ k) :
    ∀ item ∈ cutItems sha256 floatRepr k f.lines f.rest, item.2.isReadable = true := by
  obtain ⟨lines, rest⟩ := f
  have hrest : rest.length ≤ 1 := hshort.rest
  induction lines generalizing k with
  | nil =>
      intro item hitem
      rw [cutItems, tailItems_of_le hk] at hitem
      split_ifs at hitem with hnil
      · cases hitem
      obtain rfl := List.mem_singleton.mp hitem
      exact isReadable_lineRead.mpr hrest
  | cons l lines ih =>
      have hl : l.length ≤ 1 := hshort.lines l List.mem_cons_self
      rw [OplogText.chars_cons, List.length_append, List.length_cons] at hk
      have ih := ih (k := k - (lineText sha256 floatRepr l).length - 1)
        ⟨fun l' hl' => hshort.lines l' (List.mem_cons_of_mem _ hl'), hrest⟩ (by omega)
      rw [cutItems, if_pos (by omega)]
      intro item hitem
      rcases List.mem_cons.mp hitem with rfl | hitem
      · exact isReadable_lineRead.mpr hl
      · exact ih item hitem

theorem bytes_eq_take (f : OplogText) :
    f.bytes sha256 floatRepr =
      (f.bytes sha256 floatRepr).take (f.chars sha256 floatRepr).length := by
  rw [take_bytes, List.take_length]
  rfl

/-- The records of a whole file are those its lines are read as. -/
theorem recordsOf_cutItems (hshort : f.Short) (hk : (f.chars sha256 floatRepr).length ≤ k) :
    recordsOf (cutItems sha256 floatRepr k f.lines f.rest) = f.records := by
  have hall : readable (cutItems sha256 floatRepr k f.lines f.rest) =
      cutItems sha256 floatRepr k f.lines f.rest :=
    List.takeWhile_eq_self_iff.mpr (isReadable_cutItems hshort hk)
  rw [← hall, (readable_cutItems k f.lines f.rest).2, survivors_of_le hshort hk]

/-- Everything that was written is read, if no two records stand on one line. -/
theorem iterBytes_bytes (hshort : f.Short) :
    iterBytes sha256 floatRepr (f.bytes sha256 floatRepr) =
      .ok (f.records.map WrittenRecord.payload) := by
  rw [bytes_eq_take, iterBytes, take_bytes, decodeUtf8_encodeUtf8]
  simp only [textLines_take]
  rw [iterLines_items (reads_cutItems sha256 floatRepr _ f.lines f.rest)
    (isReadable_cutItems hshort le_rfl),
    recordsOf_cutItems hshort le_rfl]

variable (sha256 floatRepr) in
theorem scanHighWaterMark_bytes (hshort : f.Short) :
    scanHighWaterMark sha256 floatRepr (f.bytes sha256 floatRepr) =
      .ok (Oplog.scanHighWaterMark (f.records.map WrittenRecord.entry)) := by
  rw [bytes_eq_take, scanHighWaterMark_take, survivors_of_le hshort le_rfl]

/-- A storage engine starts on any file that was cut, with what is left of it. The scan of the
constructor, which reads text, and `recover`, which reads bytes, agree on the lines. -/
theorem reopened_take (nodeId : String) (f : OplogText) (k : ℕ) :
    ByteOplog.reopened sha256 floatRepr nodeId ((f.bytes sha256 floatRepr).take k) =
      .ok ⟨.ofFile nodeId ((survivors sha256 floatRepr k f.lines f.rest).records.map
          WrittenRecord.entry),
        (survivors sha256 floatRepr k f.lines f.rest).bytes sha256 floatRepr⟩ := by
  have hscan := scanHighWaterMark_bytes sha256 floatRepr
    (short_survivors sha256 floatRepr k f.lines f.rest)
  simp only [ByteOplog.reopened, ByteOplog.opened, ByteOplog.scanned, scanHighWaterMark_take,
    ByteOplog.recover, recoverLines_take, survivors_bytes, hscan]
  rfl

/-! ## A torn tail -/

/-- The file to which records were appended one by one. -/
def OplogText.ofRecords (records : List WrittenRecord) : OplogText := ⟨records.map fun r => [r], []⟩

variable (sha256 floatRepr) in
/-- The number of records whose texts lie within the first `k` bytes of their file. -/
def completeIn : ℕ → List WrittenRecord → ℕ
  | _, [] => 0
  | k, r :: records =>
      if (r.text sha256 floatRepr).length ≤ k then
        completeIn (k - (r.text sha256 floatRepr).length - 1) records + 1
      else 0

theorem chars_ofRecords_cons (r : WrittenRecord) (records : List WrittenRecord) :
    (OplogText.ofRecords (r :: records)).chars sha256 floatRepr =
      r.text sha256 floatRepr ++ '\n' :: (OplogText.ofRecords records).chars sha256 floatRepr := by
  rw [← lineText_singleton]
  exact OplogText.chars_cons [r] _ _

theorem completeIn_zero (records : List WrittenRecord) : completeIn sha256 floatRepr 0 records = 0 := by
  cases records with
  | nil => rfl
  | cons r records =>
      obtain ⟨t, ht⟩ := r.text_eq sha256 floatRepr
      rw [completeIn, if_neg (by simp [ht])]

variable (sha256 floatRepr) in
/-- What is left of the file is its complete records, less a newline that was cut off. -/
theorem survivors_ofRecords (k : ℕ) (records : List WrittenRecord) :
    (survivors sha256 floatRepr k (records.map fun r => [r]) []).records =
        records.take (completeIn sha256 floatRepr k records) ∧
      (survivors sha256 floatRepr k (records.map fun r => [r]) []).chars sha256 floatRepr =
        ((OplogText.ofRecords (records.take (completeIn sha256 floatRepr k records))).chars
          sha256 floatRepr).take k := by
  induction records generalizing k with
  | nil =>
      exact ⟨rfl, by simp [survivors, lineSurvivors, OplogText.ofRecords, OplogText.chars, completeIn,
        lineText]⟩
  | cons r records ih =>
      rw [List.map_cons, survivors, lineText_singleton, completeIn]
      rcases Nat.lt_trichotomy k (r.text sha256 floatRepr).length with hlt | heq | hgt
      · have hnone : lineSurvivors sha256 floatRepr k [r] = [] := by
          rw [lineSurvivors, if_neg]
          rintro (h | ⟨-, h⟩) <;> omega
        rw [if_neg (by omega), if_neg (by omega), hnone]
        exact ⟨rfl, by simp [OplogText.ofRecords, OplogText.chars, lineText]⟩
      · have hsome : lineSurvivors sha256 floatRepr k [r] = [r] := by
          rw [lineSurvivors, if_pos (Or.inl heq)]
        rw [if_neg (by omega), if_pos (by omega), hsome, heq, Nat.sub_self, Nat.zero_sub,
          completeIn_zero]
        refine ⟨rfl, ?_⟩
        rw [List.take_succ_cons, List.take_zero, chars_ofRecords_cons, List.take_left]
        exact lineText_singleton r
      · obtain ⟨j, rfl⟩ := Nat.exists_eq_add_of_lt hgt
        obtain ⟨hrecords, hchars⟩ := ih j
        have hj : (r.text sha256 floatRepr).length + j + 1 - (r.text sha256 floatRepr).length - 1 = j := by
          omega
        rw [if_pos (by omega), if_pos (by simp), if_pos (by omega), hj]
        refine ⟨by simp [OplogText.records, ← hrecords], ?_⟩
        rw [OplogText.chars_cons, hchars, List.take_succ_cons, chars_ofRecords_cons, Nat.add_assoc,
          List.take_length_add_append, List.take_succ_cons, lineText_singleton]

/-- A storage engine starts on whatever a crash leaves of the file, with just the records whose text
is complete. -/
theorem recover_torn_tail (nodeId : String) (records : List WrittenRecord) (k : ℕ) :
    ∃ s, ByteOplog.reopened sha256 floatRepr nodeId
          (((OplogText.ofRecords records).bytes sha256 floatRepr).take k) = .ok s ∧
      s.oplog = .ofFile nodeId
        ((records.take (completeIn sha256 floatRepr k records)).map WrittenRecord.entry) ∧
      s.file = ((OplogText.ofRecords (records.take (completeIn sha256 floatRepr k records))).bytes
        sha256 floatRepr).take k ∧
      iterBytes sha256 floatRepr s.file =
        .ok ((records.take (completeIn sha256 floatRepr k records)).map WrittenRecord.payload) := by
  obtain ⟨hrecords, hchars⟩ := survivors_ofRecords sha256 floatRepr k records
  refine ⟨_, reopened_take nodeId _ k, ?_, ?_, ?_⟩
  · exact congrArg (fun rs => Oplog.ofFile nodeId (rs.map WrittenRecord.entry)) hrecords
  · rw [take_bytes, ← hchars]
    rfl
  · rw [iterBytes_bytes (short_survivors sha256 floatRepr k _ _)]
    exact congrArg (fun rs => Except.ok (rs.map WrittenRecord.payload)) hrecords

/-! ## Runs with crashes -/

/-- What happens to an oplog and its file. -/
inductive FileEvent
  | append (tsMs : ℤ) (op : LoggedOp) (blockId : String) (version : ℤ)
  | fsync
  | compact (throughLsn : ℤ)
  | crash (kept : ℕ)
deriving DecidableEq, Repr

/-- An oplog on its file, and how many bytes of the file no crash takes away. -/
structure SyncedOplog where
  log : ByteOplog
  synced : ℕ
deriving DecidableEq, Repr

namespace SyncedOplog

/-- The oplog on a file that does not exist yet. -/
def fresh (nodeId : String) : SyncedOplog := ⟨⟨.ofFile nodeId [], []⟩, 0⟩

variable (sha256 floatRepr) in
/-- The oplog after an event. A crash leaves at least what was fsynced, and the storage engine is
started again on that. A compaction fsyncs the file that it writes, or raises and leaves the old one. -/
def step (s : SyncedOplog) : FileEvent → Option SyncedOplog
  | .append tsMs op blockId version =>
      some { s with log := (s.log.append sha256 floatRepr tsMs op blockId version).2 }
  | .fsync => some { s with synced := s.log.file.length }
  | .compact throughLsn =>
      match s.log.compact sha256 floatRepr throughLsn with
      | .ok (_, log) => some ⟨log, log.file.length⟩
      | .error _ => some s
  | .crash kept =>
      if s.synced ≤ kept then
        match ByteOplog.reopened sha256 floatRepr s.log.oplog.nodeId (s.log.file.take kept) with
        | .ok log => some ⟨log, log.file.length⟩
        | .error _ => none
      else none

end SyncedOplog

/-- The file is empty or ends with a newline. -/
def EndsLine (file : List UInt8) : Prop := file = [] ∨ file.getLast? = some 10

def FileEvent.isAppend : FileEvent → Bool
  | .append .. => true
  | _ => false

/-- What the compactions of a run keep of records. -/
def keptThrough (evs : List FileEvent) (records : List WrittenRecord) : List WrittenRecord :=
  evs.foldl (fun records ev =>
    match ev with
    | .compact throughLsn => keptRecords throughLsn records
    | _ => records) records

/-! ### One step on what the file holds -/

namespace OplogText

/-- The record is written after the text that follows the last newline. -/
def append (f : OplogText) (r : WrittenRecord) : OplogText := ⟨f.lines ++ [f.rest ++ [r]], []⟩

theorem chars_append (f : OplogText) (r : WrittenRecord) :
    (f.append r).chars sha256 floatRepr =
      f.chars sha256 floatRepr ++ (r.text sha256 floatRepr ++ ['\n']) := by
  simp [OplogText.append, chars, writtenLine, lineText]

variable (sha256 floatRepr) in
theorem bytes_append (f : OplogText) (r : WrittenRecord) :
    (f.append r).bytes sha256 floatRepr =
      f.bytes sha256 floatRepr ++ encodeUtf8 (r.text sha256 floatRepr ++ ['\n']) := by
  rw [bytes, chars_append, encodeUtf8_append]
  rfl

theorem length_bytes (f : OplogText) :
    (f.bytes sha256 floatRepr).length = (f.chars sha256 floatRepr).length :=
  length_encodeUtf8 (isAscii_chars f)

theorem bytes_eq_map (f : OplogText) :
    f.bytes sha256 floatRepr = (f.chars sha256 floatRepr).map fun c => UInt8.ofNat c.toNat :=
  encodeUtf8_of_ascii (isAscii_chars f)

variable (sha256 floatRepr) in
/-- The file ends with a newline unless its last record lost it. -/
theorem endsLine_bytes : EndsLine (f.bytes sha256 floatRepr) ↔ f.rest = [] := by
  obtain ⟨lines, rest⟩ := f
  rw [EndsLine, bytes_eq_map, List.map_eq_nil_iff, List.getLast?_map]
  rcases rest.eq_nil_or_concat with rfl | ⟨rest, r, rfl⟩
  · refine ⟨fun _ => rfl, fun _ => ?_⟩
    rcases lines.eq_nil_or_concat with rfl | ⟨lines, l, rfl⟩
    · exact Or.inl rfl
    · right
      simp [chars, writtenLine, lineText]
  · obtain ⟨t, ht⟩ := r.text_eq sha256 floatRepr
    have hchars : (⟨lines, rest.concat r⟩ : OplogText).chars sha256 floatRepr =
        (lines.flatMap (writtenLine sha256 floatRepr) ++ lineText sha256 floatRepr rest ++
          '{' :: t) ++ ['}'] := by
      simp [chars, lineText, ht]
    rw [hchars, List.getLast?_concat]
    simp

theorem Short.append (h : f.Short) (hrest : f.rest = []) (r : WrittenRecord) : (f.append r).Short := by
  refine ⟨?_, Nat.zero_le _⟩
  intro l hl
  rcases List.mem_append.mp hl with hl | hl
  · exact h.lines l hl
  · rw [List.mem_singleton.mp hl, hrest]
    exact le_rfl

theorem short_ofRecords (records : List WrittenRecord) : (ofRecords records).Short := by
  refine ⟨?_, Nat.zero_le _⟩
  intro l hl
  obtain ⟨r, -, rfl⟩ := List.mem_map.mp hl
  exact le_rfl

theorem records_ofRecords (records : List WrittenRecord) : (ofRecords records).records = records := by
  induction records with
  | nil => rfl
  | cons r records ih => exact congrArg (r :: ·) ih

end OplogText

/-- A crash after an append leaves all that was there before it, or what it had left without it. -/
theorem survivors_append (hshort : f.Short) (hrest : f.rest = []) (r : WrittenRecord) (k : ℕ) :
    f.records <+: (survivors sha256 floatRepr k (f.append r).lines (f.append r).rest).records ∨
      (survivors sha256 floatRepr k (f.append r).lines (f.append r).rest).records =
        (survivors sha256 floatRepr k f.lines f.rest).records := by
  obtain ⟨lines, rest⟩ := f
  obtain rfl : rest = [] := hrest
  induction lines generalizing k with
  | nil => exact Or.inl List.nil_prefix
  | cons l lines ih =>
      have hl : l.length ≤ 1 := hshort.lines l List.mem_cons_self
      have ih := ih (k - (lineText sha256 floatRepr l).length - 1)
        ⟨fun l' hl' => hshort.lines l' (List.mem_cons_of_mem _ hl'), hshort.rest⟩
      simp only [OplogText.append, List.cons_append, survivors]
      split_ifs with hk
      · rcases ih with hbefore | hsame
        · left
          simpa [OplogText.records, OplogText.append] using hbefore
        · right
          simpa [OplogText.records, OplogText.append] using hsame
      · exact Or.inr rfl

/-- What `compact` leaves of a file. -/
theorem compact_bytes {s : ByteOplog} (hfile : s.file = f.bytes sha256 floatRepr) (hshort : f.Short)
    (throughLsn : ℤ) :
    s.compact sha256 floatRepr throughLsn =
      .ok ((keptRecords throughLsn f.records).length,
        ⟨.ofFile s.oplog.nodeId ((keptRecords throughLsn f.records).map WrittenRecord.entry),
          (OplogText.ofRecords (keptRecords throughLsn f.records)).bytes sha256 floatRepr⟩) := by
  have hfile' : encodeUtf8 (((keptRecords throughLsn f.records).map WrittenRecord.payload).flatMap
      fun payload => recordText sha256 floatRepr payload ++ ['\n']) =
        (OplogText.ofRecords (keptRecords throughLsn f.records)).bytes sha256 floatRepr := by
    rw [OplogText.bytes, OplogText.chars]
    congr 1
    simp only [OplogText.ofRecords, List.flatMap_map, lineText, List.flatMap_nil, List.append_nil,
      writtenLine, List.flatMap_singleton]
    rfl
  have hscan := scanHighWaterMark_bytes sha256 floatRepr
    (OplogText.short_ofRecords (keptRecords throughLsn f.records))
  rw [OplogText.records_ofRecords] at hscan
  rw [ByteOplog.compact, hfile, bytes_eq_take, take_bytes, decodeUtf8_encodeUtf8]
  simp only [textLines_take]
  rw [compactLines_items (reads_cutItems sha256 floatRepr _ f.lines f.rest)
    (isReadable_cutItems hshort le_rfl),
    recordsOf_cutItems hshort le_rfl]
  simp only [hfile', ByteOplog.scanned, hscan, List.length_map]
  rfl

theorem isReadable_eq_false_of_not_short (hshort : ¬f.Short)
    (hk : (f.chars sha256 floatRepr).length ≤ k) :
    ∃ item ∈ cutItems sha256 floatRepr k f.lines f.rest, item.2.isReadable = false := by
  obtain ⟨lines, rest⟩ := f
  induction lines generalizing k with
  | nil =>
      have hrest : ¬rest.length ≤ 1 := fun hrest => hshort ⟨by simp, hrest⟩
      have hne : rest ≠ [] := by
        rintro rfl
        exact hrest (Nat.zero_le _)
      rw [cutItems, tailItems_of_le hk, if_neg hne]
      exact ⟨_, List.mem_cons_self, Bool.eq_false_iff.mpr (isReadable_lineRead.not.mpr hrest)⟩
  | cons l lines ih =>
      rw [OplogText.chars_cons, List.length_append, List.length_cons] at hk
      rw [cutItems, if_pos (by omega)]
      by_cases hl : l.length ≤ 1
      · have hrestShort : ¬(⟨lines, rest⟩ : OplogText).Short := by
          intro h
          refine hshort ⟨?_, h.rest⟩
          rintro l' (_ | ⟨_, hmem⟩)
          · exact hl
          · exact h.lines l' hmem
        obtain ⟨item, hitem, hfalse⟩ := ih hrestShort (k := k - (lineText sha256 floatRepr l).length - 1)
          (by omega)
        exact ⟨item, List.mem_cons_of_mem _ hitem, hfalse⟩
      · exact ⟨_, List.mem_cons_self, Bool.eq_false_iff.mpr (isReadable_lineRead.not.mpr hl)⟩

variable (sha256 floatRepr) in
/-- `iter_entries` raises where two records stand on one line. -/
theorem iterBytes_of_not_short (hshort : ¬f.Short) :
    ∃ lineNo, iterBytes sha256 floatRepr (f.bytes sha256 floatRepr) =
      .error (.corruption lineNo .json) := by
  obtain ⟨lineNo, herror⟩ := iterLines_unreadable (reads_cutItems sha256 floatRepr _ f.lines f.rest)
    (isReadable_eq_false_of_not_short hshort le_rfl) 1
  refine ⟨lineNo, ?_⟩
  rw [bytes_eq_take, iterBytes, take_bytes, decodeUtf8_encodeUtf8]
  simp only [textLines_take]
  exact herror

theorem compact_of_not_short {s : ByteOplog} (hfile : s.file = f.bytes sha256 floatRepr)
    (hshort : ¬f.Short) (throughLsn : ℤ) :
    ∃ lineNo, s.compact sha256 floatRepr throughLsn = .error (.corruption lineNo .json) := by
  obtain ⟨lineNo, herror⟩ := compactLines_unreadable (reads_cutItems sha256 floatRepr _ f.lines f.rest)
    (isReadable_eq_false_of_not_short hshort le_rfl) throughLsn 1
  refine ⟨lineNo, ?_⟩
  rw [ByteOplog.compact, hfile, bytes_eq_take, take_bytes, decodeUtf8_encodeUtf8]
  simp only [textLines_take, herror]

/-- A file in which a line has two records is cut before that line. -/
theorem survivors_merged {lines more : List (List WrittenRecord)} {l : List WrittenRecord}
    (hlines : ∀ x ∈ lines, x.length ≤ 1) (hl : ¬l.length ≤ 1)
    (hk : ((⟨lines ++ l :: more, []⟩ : OplogText).chars sha256 floatRepr).length ≤ k) :
    survivors sha256 floatRepr k (lines ++ l :: more) [] = ⟨lines, []⟩ := by
  induction lines generalizing k with
  | nil =>
      rw [List.nil_append, OplogText.chars_cons, List.length_append, List.length_cons] at hk
      rw [List.nil_append, survivors, if_pos (by omega), if_neg hl]
  | cons x lines ih =>
      rw [List.cons_append, OplogText.chars_cons, List.length_append, List.length_cons] at hk
      rw [List.cons_append, survivors, if_pos (by omega), if_pos (hlines x List.mem_cons_self),
        ih (fun y hy => hlines y (List.mem_cons_of_mem _ hy)) (by omega)]

/-! ### What the file holds -/

namespace SyncedOplog

variable {s s' : SyncedOplog} {kept records : List WrittenRecord}

variable (sha256 floatRepr) in
/-- What the file holds, whatever happened to it. -/
def Holds (s : SyncedOplog) (f : OplogText) : Prop :=
  s.log.file = f.bytes sha256 floatRepr ∧ f.rest.length ≤ 1

theorem Holds.append (h : s.Holds sha256 floatRepr f) (tsMs : ℤ) (op : LoggedOp) (blockId : String)
    (version : ℤ) :
    Holds sha256 floatRepr { s with log := (s.log.append sha256 floatRepr tsMs op blockId version).2 }
      (f.append ⟨(s.log.oplog.append op blockId version).1, tsMs⟩) := by
  refine ⟨?_, Nat.zero_le _⟩
  rw [OplogText.bytes_append, ← h.1]
  rfl

theorem Holds.step {ev : FileEvent} (h : s.Holds sha256 floatRepr f)
    (hstep : s.step sha256 floatRepr ev = some s') : ∃ f', s'.Holds sha256 floatRepr f' := by
  cases ev with
  | append tsMs op blockId version =>
      cases hstep
      exact ⟨_, h.append tsMs op blockId version⟩
  | fsync =>
      cases hstep
      exact ⟨f, h⟩
  | compact throughLsn =>
      by_cases hshort : f.Short
      · simp only [SyncedOplog.step, compact_bytes h.1 hshort] at hstep
        cases hstep
        exact ⟨_, rfl, Nat.zero_le _⟩
      · obtain ⟨lineNo, herror⟩ := compact_of_not_short h.1 hshort throughLsn
        simp only [SyncedOplog.step, herror] at hstep
        cases hstep
        exact ⟨f, h⟩
  | crash k =>
      simp only [SyncedOplog.step] at hstep
      split_ifs at hstep with hk
      rw [h.1, reopened_take] at hstep
      cases hstep
      exact ⟨_, rfl, (short_survivors sha256 floatRepr _ _ _).rest⟩

theorem Holds.run {evs : List FileEvent} (h : s.Holds sha256 floatRepr f)
    (hrun : Found.run (SyncedOplog.step sha256 floatRepr) s evs = some s') :
    ∃ f', s'.Holds sha256 floatRepr f' :=
  Found.runWhile_induction (I := fun s => ∃ f, s.Holds sha256 floatRepr f)
    (fun _ _ _ ⟨_, hf⟩ _ hstep => hf.step hstep) ⟨f, h⟩ hrun

/-- A crash leaves the file that is left of what the file held. -/
theorem Holds.crash {g : OplogText} {k : ℕ} (h : s.Holds sha256 floatRepr f)
    (hleft : survivors sha256 floatRepr k f.lines f.rest = g) (hk : s.synced ≤ k) :
    s.step sha256 floatRepr (.crash k) =
      some ⟨⟨.ofFile s.log.oplog.nodeId (g.records.map WrittenRecord.entry), g.bytes sha256 floatRepr⟩,
        (g.bytes sha256 floatRepr).length⟩ := by
  subst hleft
  simp only [SyncedOplog.step]
  rw [if_pos hk, h.1, reopened_take]

/-! ### What is fsynced stays -/

variable (sha256 floatRepr) in
/-- The file is `f`, no two records stand on one line, and whatever a crash leaves of it begins with
the records `kept`. -/
structure Safe (s : SyncedOplog) (f : OplogText) (kept : List WrittenRecord) : Prop where
  file : s.log.file = f.bytes sha256 floatRepr
  short : f.Short
  synced_le : s.synced ≤ (f.chars sha256 floatRepr).length
  survive : ∀ k, s.synced ≤ k → kept <+: (survivors sha256 floatRepr k f.lines f.rest).records

/-- The records that a crash cannot touch are there. -/
theorem Safe.records_begin (h : s.Safe sha256 floatRepr f kept) : kept <+: f.records := by
  have hwhole := h.survive (f.chars sha256 floatRepr).length h.synced_le
  rwa [survivors_of_le h.short le_rfl] at hwhole

/-- A file all of whose bytes are fsynced keeps all its records. -/
theorem safe_of_synced (hfile : s.log.file = f.bytes sha256 floatRepr) (hshort : f.Short)
    (hsynced : s.synced = s.log.file.length) (hkept : kept <+: f.records) :
    s.Safe sha256 floatRepr f kept := by
  rw [hfile, OplogText.length_bytes] at hsynced
  refine ⟨hfile, hshort, hsynced.le, fun k hk => ?_⟩
  rw [survivors_of_le hshort (hsynced ▸ hk)]
  exact hkept

theorem Safe.append (h : s.Safe sha256 floatRepr f kept) (hends : EndsLine s.log.file) (tsMs : ℤ)
    (op : LoggedOp) (blockId : String) (version : ℤ) :
    Safe sha256 floatRepr { s with log := (s.log.append sha256 floatRepr tsMs op blockId version).2 }
      (f.append ⟨(s.log.oplog.append op blockId version).1, tsMs⟩) kept := by
  rw [h.file] at hends
  have hrest : f.rest = [] := (OplogText.endsLine_bytes sha256 floatRepr).mp hends
  refine ⟨?_, h.short.append hrest _, ?_, fun k hk => ?_⟩
  · rw [OplogText.bytes_append, ← h.file]
    rfl
  · rw [OplogText.chars_append, List.length_append]
    exact h.synced_le.trans (Nat.le_add_right _ _)
  · rcases survivors_append h.short hrest ⟨(s.log.oplog.append op blockId version).1, tsMs⟩ k with
      hbefore | hsame
    · exact h.records_begin.trans hbefore
    · rw [hsame]
      exact h.survive k hk

/-- Each step keeps what no crash can touch, but for what a compaction drops. -/
theorem Safe.step {ev : FileEvent} (h : s.Safe sha256 floatRepr f kept)
    (hends : ev.isAppend = true → EndsLine s.log.file) (hstep : s.step sha256 floatRepr ev = some s') :
    ∃ f', s'.Safe sha256 floatRepr f' (keptThrough [ev] kept) := by
  cases ev with
  | append tsMs op blockId version =>
      cases hstep
      exact ⟨_, h.append (hends rfl) tsMs op blockId version⟩
  | fsync =>
      cases hstep
      exact ⟨f, safe_of_synced h.file h.short rfl h.records_begin⟩
  | compact throughLsn =>
      simp only [SyncedOplog.step, compact_bytes h.file h.short] at hstep
      cases hstep
      refine ⟨_, safe_of_synced rfl (OplogText.short_ofRecords _) rfl ?_⟩
      rw [OplogText.records_ofRecords]
      exact h.records_begin.filter _
  | crash k =>
      simp only [SyncedOplog.step] at hstep
      split_ifs at hstep with hk
      rw [h.file, reopened_take] at hstep
      cases hstep
      exact ⟨_, safe_of_synced rfl (short_survivors sha256 floatRepr _ _ _) rfl (h.survive k hk)⟩

/-- The records that were fsynced are there at the end of a run, but for those that its compactions
dropped, if every append found the file empty or ended by a newline. -/
theorem Safe.run {evs : List FileEvent} (h : s.Safe sha256 floatRepr f kept)
    (hends : Found.StepsMeet (SyncedOplog.step sha256 floatRepr)
      (fun s ev => ev.isAppend = true → EndsLine s.log.file) s evs)
    (hrun : Found.run (SyncedOplog.step sha256 floatRepr) s evs = some s') :
    ∃ f', s'.Safe sha256 floatRepr f' (keptThrough evs kept) := by
  induction evs generalizing s f kept with
  | nil => exact ⟨f, Option.some.inj hrun ▸ h⟩
  | cons ev evs ih =>
      obtain ⟨-, s₁, hs₁, hrun⟩ := Found.runWhile_cons.mp hrun
      obtain ⟨hev, hends⟩ := hends s₁ hs₁
      obtain ⟨f₁, h₁⟩ := h.step hev hs₁
      exact ih h₁ hends hrun

variable (sha256 floatRepr) in
theorem safe_fresh (nodeId : String) : (fresh nodeId).Safe sha256 floatRepr ⟨[], []⟩ [] :=
  ⟨rfl, ⟨by simp, Nat.zero_le _⟩, Nat.zero_le _, fun _ _ => List.nil_prefix⟩

/-- What is fsynced is never lost. -/
theorem synced_records_survive {nodeId : String} {pre post : List FileEvent}
    (hpre : Found.run (SyncedOplog.step sha256 floatRepr) (fresh nodeId) pre = some s)
    (hsynced : s.synced = s.log.file.length)
    (hpost : Found.run (SyncedOplog.step sha256 floatRepr) s post = some s')
    (hendsPre : Found.StepsMeet (SyncedOplog.step sha256 floatRepr)
      (fun s ev => ev.isAppend = true → EndsLine s.log.file) (fresh nodeId) pre)
    (hendsPost : Found.StepsMeet (SyncedOplog.step sha256 floatRepr)
      (fun s ev => ev.isAppend = true → EndsLine s.log.file) s post) :
    ∃ records records',
      iterBytes sha256 floatRepr s.log.file = .ok (records.map WrittenRecord.payload) ∧
        iterBytes sha256 floatRepr s'.log.file = .ok (records'.map WrittenRecord.payload) ∧
          keptThrough post records <+: records' := by
  obtain ⟨f, hf⟩ := (safe_fresh sha256 floatRepr nodeId).run hendsPre hpre
  have hall := safe_of_synced hf.file hf.short hsynced List.prefix_rfl
  obtain ⟨f', hf'⟩ := hall.run hendsPost hpost
  refine ⟨f.records, f'.records, ?_, ?_, hf'.records_begin⟩
  · rw [hf.file, iterBytes_bytes hf.short]
  · rw [hf'.file, iterBytes_bytes hf'.short]

/-- An fsynced record, and a torn one after it. -/
theorem synced_records_survive_two : ∃ s s' : SyncedOplog,
    Found.run (SyncedOplog.step (fun _ => "0") id) (fresh "n") [.append 0 .delete "a" 1, .fsync] =
        some s ∧
      Found.run (SyncedOplog.step (fun _ => "0") id) s
        [.append 1 .delete "b" 1, .crash (s.synced + 5)] = some s' ∧
      ∃ records records',
        iterBytes (fun _ => "0") id s.log.file = .ok (records.map WrittenRecord.payload) ∧
          iterBytes (fun _ => "0") id s'.log.file = .ok (records'.map WrittenRecord.payload) ∧
            keptThrough [.append 1 .delete "b" 1, .crash (s.synced + 5)] records <+: records' := by
  have hfresh := (safe_fresh (fun _ => "0") id "n").append (Or.inl rfl) 0 .delete "a" 1
  obtain ⟨s, hpre, hs, hsynced⟩ : ∃ s, Found.run (SyncedOplog.step (fun _ => "0") id) (fresh "n")
      [.append 0 .delete "a" 1, .fsync] = some s ∧ s.Safe (fun _ => "0") id
        (OplogText.append ⟨[], []⟩ ⟨⟨1, "n", .delete, "a", 1⟩, 0⟩) [] ∧
        s.synced = s.log.file.length :=
    ⟨_, rfl, safe_of_synced hfresh.file hfresh.short rfl List.nil_prefix, rfl⟩
  have hends : EndsLine s.log.file := by
    rw [hs.file, OplogText.endsLine_bytes _ _]
    rfl
  have happend := hs.append hends 1 .delete "b" 1
  have hholds : Holds (fun _ => "0") id s _ := ⟨hs.file, hs.short.rest⟩
  have hcrash := (hholds.append 1 .delete "b" 1).crash rfl (Nat.le_add_right s.synced 5)
  obtain ⟨s', hpost⟩ : ∃ s', Found.run (SyncedOplog.step (fun _ => "0") id) s
      [.append 1 .delete "b" 1, .crash (s.synced + 5)] = some s' :=
    ⟨_, Found.runWhile_cons.mpr ⟨rfl, _, rfl, Found.runWhile_cons.mpr ⟨rfl, _, hcrash, rfl⟩⟩⟩
  refine ⟨s, s', hpre, hpost, synced_records_survive hpre hsynced hpost ?_ ?_⟩
  · exact fun s₁ hs₁ => ⟨fun _ => Or.inl rfl, fun s₂ hs₂ => ⟨nofun, trivial⟩⟩
  · exact fun s₁ hs₁ => ⟨fun _ => hends, fun s₂ hs₂ => ⟨nofun, trivial⟩⟩

/-! ### What a lost newline costs -/

/-- Lines that are written after one that cannot be read. -/
theorem Holds.run_appends {evs : List FileEvent} {lines : List (List WrittenRecord)}
    (h : s.Holds sha256 floatRepr ⟨lines, []⟩)
    (hmore : ∀ ev ∈ evs, ev.isAppend = true ∨ ev = .fsync)
    (hrun : Found.run (SyncedOplog.step sha256 floatRepr) s evs = some s') :
    ∃ more, s'.Holds sha256 floatRepr ⟨lines ++ more, []⟩ := by
  induction evs generalizing s lines with
  | nil => exact ⟨[], by rw [List.append_nil]; exact Option.some.inj hrun ▸ h⟩
  | cons ev evs ih =>
      obtain ⟨-, s₁, hs₁, hrun⟩ := Found.runWhile_cons.mp hrun
      have hmore' : ∀ ev ∈ evs, ev.isAppend = true ∨ ev = .fsync :=
        fun ev hev => hmore ev (List.mem_cons_of_mem _ hev)
      cases ev with
      | append tsMs op blockId version =>
          cases hs₁
          obtain ⟨more, hmore⟩ := ih (h.append tsMs op blockId version) hmore' hrun
          exact ⟨_ :: more, by rw [List.append_assoc] at hmore; exact hmore⟩
      | fsync =>
          cases hs₁
          have hsynced : Holds sha256 floatRepr { s with synced := s.log.file.length } ⟨lines, []⟩ := h
          exact ih hsynced hmore' hrun
      | compact throughLsn => simpa [FileEvent.isAppend] using hmore _ List.mem_cons_self
      | crash k => simpa [FileEvent.isAppend] using hmore _ List.mem_cons_self

/-- A record that recovery kept without its newline is lost at the next crash with everything that was
appended after it, even if all of it was fsynced and nothing is torn. -/
theorem merged_records_lost {nodeId : String} {evs more : List FileEvent} {tsMs version : ℤ}
    {op : LoggedOp} {blockId : String} {k : ℕ} {entries : List Json} {s₁ s₂ : SyncedOplog}
    (hreach : Found.run (SyncedOplog.step sha256 floatRepr) (fresh nodeId) evs = some s)
    (hread : iterBytes sha256 floatRepr s.log.file = .ok entries) (hends : ¬EndsLine s.log.file)
    (hmore : ∀ ev ∈ more, ev.isAppend = true ∨ ev = .fsync)
    (hrun : Found.run (SyncedOplog.step sha256 floatRepr) s
      (.append tsMs op blockId version :: more) = some s₁)
    (hkept : s₁.log.file.length ≤ k) (hcrash : s₁.step sha256 floatRepr (.crash k) = some s₂) :
    iterBytes sha256 floatRepr s₂.log.file = .ok entries.dropLast := by
  obtain ⟨f, hf⟩ := (show (fresh nodeId).Holds sha256 floatRepr ⟨[], []⟩ from
    ⟨rfl, Nat.zero_le _⟩).run hreach
  have hshort : f.Short := by
    by_contra hnot
    obtain ⟨lineNo, herror⟩ := iterBytes_of_not_short sha256 floatRepr hnot
    rw [hf.1, herror] at hread
    cases hread
  rw [hf.1, iterBytes_bytes hshort] at hread
  rw [hf.1, OplogText.endsLine_bytes sha256 floatRepr] at hends
  obtain ⟨lines, rest⟩ := f
  obtain ⟨r, rfl⟩ : ∃ r, rest = [r] := by
    exact (eq_nil_or_singleton hf.2).resolve_left hends
  -- the appended record stands on the line of the one before it, and more lines follow
  obtain ⟨-, s₀, hs₀, hrun⟩ := Found.runWhile_cons.mp hrun
  cases hs₀
  have happended := hf.append tsMs op blockId version
  obtain ⟨after, hafter⟩ := happended.run_appends hmore hrun
  rw [List.append_assoc, List.singleton_append] at hafter
  -- recovery cuts the file before that line
  have hk := hkept
  rw [hafter.1, OplogText.length_bytes] at hk
  have hleft := survivors_merged hshort.lines (by simp) hk
  simp only [SyncedOplog.step] at hcrash
  split_ifs at hcrash with hsynced
  rw [hafter.1, reopened_take, hleft] at hcrash
  cases hcrash
  have hlines : (⟨lines, []⟩ : OplogText).Short := ⟨hshort.lines, Nat.zero_le _⟩
  have hentries : entries.dropLast = lines.flatten.map WrittenRecord.payload := by
    rw [← Except.ok.inj hread]
    simp [OplogText.records]
  rw [iterBytes_bytes hlines, hentries]
  simp [OplogText.records]


theorem survivors_newline (r : WrittenRecord) :
    survivors sha256 floatRepr (r.text sha256 floatRepr).length [[r]] [] = ⟨[], [r]⟩ := by
  rw [survivors, lineText_singleton, if_neg (lt_irrefl _), lineSurvivors, if_pos (Or.inl rfl)]

/-- A record that lost its newline, and one after it. -/
theorem merged_records_lost_two : ∃ s s₁ s₂ : SyncedOplog,
    Found.run (SyncedOplog.step (fun _ => "0") id) (fresh "n")
        [.append 0 .delete "a" 1,
          .crash (WrittenRecord.text (fun _ => "0") id ⟨⟨1, "n", .delete, "a", 1⟩, 0⟩).length] = some s ∧
      Found.run (SyncedOplog.step (fun _ => "0") id) s [.append 1 .delete "b" 1, .fsync] = some s₁ ∧
      s₁.step (fun _ => "0") id (.crash s₁.log.file.length) = some s₂ ∧
      iterBytes (fun _ => "0") id s₂.log.file = .ok [] := by
  have hfresh : (fresh "n").Holds (fun _ => "0") id ⟨[], []⟩ := ⟨rfl, Nat.zero_le _⟩
  have hcut := (hfresh.append 0 .delete "a" 1).crash
    (survivors_newline ⟨⟨1, "n", .delete, "a", 1⟩, 0⟩) (Nat.zero_le _)
  obtain ⟨s, hreach, hs⟩ : ∃ s, Found.run (SyncedOplog.step (fun _ => "0") id) (fresh "n")
      [.append 0 .delete "a" 1,
        .crash (WrittenRecord.text (fun _ => "0") id ⟨⟨1, "n", .delete, "a", 1⟩, 0⟩).length] = some s ∧
      s.Holds (fun _ => "0") id ⟨[], [⟨⟨1, "n", .delete, "a", 1⟩, 0⟩]⟩ :=
    ⟨_, Found.runWhile_cons.mpr ⟨rfl, _, rfl, Found.runWhile_cons.mpr ⟨rfl, _, hcut, rfl⟩⟩, rfl, le_rfl⟩
  have hread : iterBytes (fun _ => "0") id s.log.file =
      .ok [WrittenRecord.payload ⟨⟨1, "n", .delete, "a", 1⟩, 0⟩] := by
    rw [hs.1]
    exact iterBytes_bytes ⟨by simp, le_rfl⟩
  have hends : ¬EndsLine s.log.file := by
    rw [hs.1, OplogText.endsLine_bytes _ _]
    exact List.cons_ne_nil _ _
  obtain ⟨s₁, hrun, hs₁, hall⟩ : ∃ s₁, Found.run (SyncedOplog.step (fun _ => "0") id) s
      [.append 1 .delete "b" 1, .fsync] = some s₁ ∧ (∃ f, s₁.Holds (fun _ => "0") id f) ∧
        s₁.synced = s₁.log.file.length :=
    ⟨_, rfl, ⟨_, hs.append 1 .delete "b" 1⟩, rfl⟩
  obtain ⟨f, hf⟩ := hs₁
  have hcrash := hf.crash rfl hall.le
  have hmore : ∀ ev ∈ [FileEvent.fsync], ev.isAppend = true ∨ ev = .fsync := by simp
  exact ⟨s, s₁, _, hreach, hrun, hcrash, merged_records_lost hreach hread hends hmore hrun le_rfl hcrash⟩

end SyncedOplog

end NanoFabric.Node
