import NanoFabric.Node.OplogBytes

/-!
# What the lines of an oplog file are read as

A file as the program leaves it: on each line stand the records that were written to it, one if nothing
went wrong, none on a blank line, and more than one where a record was written after a record that had
lost its newline. `OplogText.bytes` are the bytes of such a file.

* `parseRecord_text` — a record's text is read back as its payload.
* `parseRecord_cut` — the beginning of a record's text is no JSON document.
* `parseRecord_merged` — nor is a record's text with the beginning of another record after it.
* `scanLines_items`, `iterLines_items`, `compactLines_items`, `recoverLines_items` — what the loops over
  a file make of its lines.
* `readable_cutItems` — the lines before the first unreadable one, in a file that was cut anywhere.
-/

namespace NanoFabric.Node

open NanoFabric.Found NanoFabric.Found.Json

/-- A record with the time of its `append`. -/
structure WrittenRecord where
  entry : OplogEntry
  tsMs : ℤ
deriving DecidableEq, Repr

namespace WrittenRecord

def payload (r : WrittenRecord) : Json := r.entry.payload r.tsMs

end WrittenRecord

theorem eq_nil_or_singleton {l : List WrittenRecord} (hl : l.length ≤ 1) : l = [] ∨ ∃ r, l = [r] :=
  (Nat.le_one_iff_eq_zero_or_eq_one.mp hl).imp List.length_eq_zero_iff.mp List.length_eq_one_iff.mp

variable {sha256 : String → String} {floatRepr : List Char → List Char}

/-! ## One record -/

theorem isValidChar_codes (s : String) : ∀ c ∈ codes s, c.isValidChar := by
  intro n hn
  obtain ⟨c, -, rfl⟩ := List.mem_map.mp hn
  exact c.valid

theorem plain_ofString (s : String) : (ofString s).Plain := isValidChar_codes s

theorem plain_payload (r : WrittenRecord) : r.payload.Plain := by
  obtain ⟨⟨lsn, nodeId, op, blockId, version⟩, tsMs⟩ := r
  have hkeys : ∀ key : String, key ∈ ["data", "through_lsn"] →
      [codes "lsn", codes "node_id", codes "ts_ms", codes "op", codes "block_id", codes "version",
        codes key].Nodup := by decide
  have hvalues : ∀ l : List (List ℕ × Json), Plain.plainMembers l →
      Plain.plainMembers ([(codes "lsn", .int lsn), (codes "node_id", ofString nodeId),
        (codes "ts_ms", .int tsMs), (codes "op", ofString op.name), (codes "block_id", ofString blockId),
        (codes "version", .int version)] ++ l) := by
    intro l hl
    and_intros <;> first | exact isValidChar_codes _ | exact plain_ofString _ | exact hl | trivial
  cases op with
  | write data =>
      exact ⟨hkeys "data" (by simp),
        hvalues [(codes "data", ofString data)] ⟨isValidChar_codes _, plain_ofString _, trivial⟩⟩
  | delete => exact ⟨(List.nodup_append.mp (hkeys "data" (by simp))).1, hvalues [] trivial⟩
  | checkpoint throughLsn =>
      exact ⟨hkeys "through_lsn" (by simp),
        hvalues [(codes "through_lsn", .int throughLsn)] ⟨isValidChar_codes _, trivial, trivial⟩⟩

theorem plain_recordOf (r : WrittenRecord) : (recordOf sha256 floatRepr r.payload).Plain :=
  ⟨show [codes "payload", codes "checksum"].Nodup by decide, isValidChar_codes _, plain_payload r,
    isValidChar_codes _, plain_ofString _, trivial⟩

namespace WrittenRecord

variable (sha256 floatRepr) in
/-- The text of the record's line, without its newline. -/
def text (r : WrittenRecord) : List Char := recordText sha256 floatRepr r.payload

variable {r r' : WrittenRecord}

theorem isPrintable_text : ∀ c ∈ r.text sha256 floatRepr, IsPrintable c :=
  isPrintable_dumps _ (plain_recordOf r)

variable (sha256 floatRepr) in
theorem text_eq (r : WrittenRecord) :
    ∃ t, r.text sha256 floatRepr = '{' :: (t ++ ['}']) :=
  ⟨_, rfl⟩

variable (sha256 floatRepr) in
theorem scanValue_text (r : WrittenRecord) :
    scanValue (r.text sha256 floatRepr).length (r.text sha256 floatRepr) =
      some (recordOf sha256 floatRepr r.payload, []) := by
  have h := scanValue_dumps (recordOf sha256 floatRepr r.payload) (plain_recordOf r)
    (r.text sha256 floatRepr).length [] le_rfl fun _ => stops_nil
  rwa [List.append_nil] at h

theorem loads_text (r : WrittenRecord) :
    loads (r.text sha256 floatRepr) = some (recordOf sha256 floatRepr r.payload) :=
  loads_dumps (plain_recordOf r)

end WrittenRecord

variable {r r' : WrittenRecord} {lineNo : ℕ}

variable (sha256 floatRepr) in
theorem get?_recordOf (payload : Json) :
    getItem (recordOf sha256 floatRepr payload) "payload" = some payload ∧
      getItem (recordOf sha256 floatRepr payload) "checksum" =
        some (.ofString (payloadChecksum sha256 floatRepr payload)) :=
  ⟨rfl, rfl⟩

/-- A record's text is read back as its payload. -/
theorem parseRecord_text :
    parseRecord sha256 floatRepr (r.text sha256 floatRepr) lineNo = .ok r.payload := by
  have hpayload : contains (recordOf sha256 floatRepr r.payload) "payload" = some true := rfl
  have hchecksum : contains (recordOf sha256 floatRepr r.payload) "checksum" = some true := rfl
  have hitems := get?_recordOf sha256 floatRepr r.payload
  rw [parseRecord, r.loads_text]
  simp only [hpayload, hchecksum]
  simp [checkedPayload, hitems.1, hitems.2, isText, ofString]

variable (sha256 floatRepr) in
theorem WrittenRecord.strip_text (r : WrittenRecord) {w : List Char} (hw : ∀ c ∈ w, isSpace c = true) :
    strip (r.text sha256 floatRepr ++ w) = r.text sha256 floatRepr := by
  obtain ⟨t, ht⟩ := r.text_eq sha256 floatRepr
  have hstrip := strip_append (w := []) (t := r.text sha256 floatRepr) (by simp) hw
  rw [List.nil_append] at hstrip
  rw [hstrip, ht]
  refine strip_eq_self ?_ ?_
  · rintro c hc
    cases hc
    rfl
  · intro c hc
    rw [← List.cons_append, List.getLast?_append] at hc
    cases hc
    rfl

/-- The beginning of a record's text is no JSON document. -/
theorem parseRecord_cut {p q : List Char} (h : r.text sha256 floatRepr = p ++ q) (hp : p ≠ [])
    (hq : q ≠ []) :
    strip p ≠ [] ∧
      ∀ lineNo, parseRecord sha256 floatRepr (strip p) lineNo = .error .jsonDecode := by
  obtain ⟨c, p, rfl⟩ := List.exists_cons_of_ne_nil hp
  obtain ⟨t, ht⟩ := r.text_eq sha256 floatRepr
  obtain rfl : c = '{' := (List.cons.inj (h.symm.trans ht)).1
  obtain ⟨u, hu, v, rfl⟩ := strip_of_head (show isSpace '{' = false by decide) p
  have hscan := r.scanValue_text sha256 floatRepr
  have hsplit : r.text sha256 floatRepr = '{' :: u ++ (v ++ q) := by simp [h]
  rw [hsplit] at hscan
  rw [hu]
  refine ⟨List.cons_ne_nil _ _, fun lineNo => ?_⟩
  rw [parseRecord, loads_eq_none_of_cut hscan rfl (by simp [hq])]

/-- A record's text with the beginning of another record after it is no JSON document. -/
theorem parseRecord_merged (u : List Char) :
    strip (r.text sha256 floatRepr ++ '{' :: u) ≠ [] ∧
      ∀ lineNo, parseRecord sha256 floatRepr (strip (r.text sha256 floatRepr ++ '{' :: u)) lineNo =
        .error .jsonDecode := by
  have hhead : ∀ d ∈ (r.text sha256 floatRepr).head?, isSpace d = false := by
    intro d hd
    cases hd
    rfl
  obtain ⟨u', hu⟩ := strip_append_cons hhead (show isSpace '{' = false by decide) u
  rw [hu]
  refine ⟨by simp, fun lineNo => ?_⟩
  rw [parseRecord, loads_append_eq_none r.loads_text rfl (by decide)]

/-! ## One line -/

variable (sha256 floatRepr) in
/-- The text of the records on one line. -/
def lineText (l : List WrittenRecord) : List Char := l.flatMap (WrittenRecord.text sha256 floatRepr)

theorem isPrintable_lineText (l : List WrittenRecord) :
    ∀ c ∈ lineText sha256 floatRepr l, IsPrintable c := by
  intro c hc
  obtain ⟨r, -, hr⟩ := List.mem_flatMap.mp hc
  exact r.isPrintable_text c hr

/-- What a line is read as: nothing, a payload, or no JSON document. -/
inductive LineRead
  | blank
  | payload (r : WrittenRecord)
  | unreadable

variable (sha256 floatRepr) in
/-- What the text of a line, or its beginning, is read as. -/
inductive Reads (line : List Char) : LineRead → Prop
  | blank (hstrip : strip line = []) : Reads line .blank
  | payload (r : WrittenRecord) (hstrip : strip line ≠ [])
      (hparse : ∀ lineNo, parseRecord sha256 floatRepr (strip line) lineNo = .ok r.payload) :
      Reads line (.payload r)
  | unreadable (hstrip : strip line ≠ [])
      (hparse : ∀ lineNo, parseRecord sha256 floatRepr (strip line) lineNo = .error .jsonDecode) :
      Reads line .unreadable

variable (sha256 floatRepr) in
/-- A record's line is read as the record. -/
theorem reads_text (r : WrittenRecord) {w : List Char} (hw : ∀ c ∈ w, isSpace c = true) :
    Reads sha256 floatRepr (r.text sha256 floatRepr ++ w) (.payload r) := by
  obtain ⟨t, ht⟩ := r.text_eq sha256 floatRepr
  have hstrip := r.strip_text sha256 floatRepr hw
  refine .payload r ?_ fun lineNo => ?_
  · rw [hstrip, ht]
    exact List.cons_ne_nil _ _
  · rw [hstrip, parseRecord_text]

/-- A line of records is read as its record if it has one. -/
def lineRead : List WrittenRecord → LineRead
  | [] => .blank
  | [r] => .payload r
  | _ :: _ :: _ => .unreadable

theorem reads_lineText (l : List WrittenRecord) {w : List Char} (hw : ∀ c ∈ w, isSpace c = true) :
    Reads sha256 floatRepr (lineText sha256 floatRepr l ++ w) (lineRead l) := by
  match l with
  | [] => exact .blank (strip_eq_nil.mpr hw)
  | [r] =>
      rw [lineText, List.flatMap_singleton]
      exact reads_text sha256 floatRepr r hw
  | r :: r' :: l =>
      obtain ⟨t, ht⟩ := r'.text_eq sha256 floatRepr
      have hsplit : lineText sha256 floatRepr (r :: r' :: l) ++ w =
          r.text sha256 floatRepr ++ '{' :: (t ++ ['}'] ++ lineText sha256 floatRepr l ++ w) := by
        simp [lineText, ht]
      rw [hsplit]
      exact .unreadable (parseRecord_merged _).1 (parseRecord_merged _).2

/-- What a line is read as gives no more records than the line has. -/
def LineRead.records : LineRead → List WrittenRecord
  | .blank => []
  | .payload r => [r]
  | .unreadable => []

def LineRead.isReadable : LineRead → Bool
  | .unreadable => false
  | _ => true

/-! ## The loops -/

/-- The lines up to the first one that cannot be read. -/
def readable (items : List (List Char × LineRead)) : List (List Char × LineRead) :=
  items.takeWhile fun item => item.2.isReadable

/-- The records of lines. -/
def recordsOf (items : List (List Char × LineRead)) : List WrittenRecord :=
  items.flatMap fun item => item.2.records

variable {items : List (List Char × LineRead)}

theorem readable_cons_of_readable {item : List Char × LineRead} (h : item.2.isReadable = true) :
    readable (item :: items) = item :: readable items :=
  List.takeWhile_cons_of_pos h

theorem readable_cons_of_unreadable {item : List Char × LineRead} (h : ¬item.2.isReadable = true) :
    readable (item :: items) = [] :=
  List.takeWhile_cons_of_neg h

theorem lsnOf_payload (r : WrittenRecord) : lsnOf r.payload = .ok r.entry.lsn := rfl

theorem scanLines_items (h : ∀ item ∈ items, Reads sha256 floatRepr item.1 item.2) (n : ℕ) (m : ℤ) :
    scanLines sha256 floatRepr n m (items.map Prod.fst) =
      .ok ((recordsOf (readable items)).foldl
        (fun m r => if m < r.entry.lsn then r.entry.lsn else m) m) := by
  induction items generalizing n m with
  | nil => rfl
  | cons item items ih =>
      obtain ⟨line, status⟩ := item
      have ih := ih fun item hitem => h item (List.mem_cons_of_mem _ hitem)
      rw [List.map_cons, scanLines]
      cases h _ List.mem_cons_self with
      | blank hstrip =>
          rw [if_pos hstrip, ih, readable_cons_of_readable rfl]
          rfl
      | payload r hstrip hparse =>
          rw [if_neg hstrip, hparse]
          simp only [lsnOf_payload]
          rw [ih, readable_cons_of_readable rfl]
          rfl
      | unreadable hstrip hparse =>
          rw [if_neg hstrip, hparse]
          rfl

theorem iterLines_items (h : ∀ item ∈ items, Reads sha256 floatRepr item.1 item.2)
    (hall : ∀ item ∈ items, item.2.isReadable = true) (n : ℕ) :
    iterLines sha256 floatRepr n (items.map Prod.fst) =
      .ok ((recordsOf items).map WrittenRecord.payload) := by
  induction items generalizing n with
  | nil => rfl
  | cons item items ih =>
      obtain ⟨line, status⟩ := item
      have ih := ih (fun item hitem => h item (List.mem_cons_of_mem _ hitem))
        fun item hitem => hall item (List.mem_cons_of_mem _ hitem)
      rw [List.map_cons, iterLines]
      cases h _ List.mem_cons_self with
      | blank hstrip =>
          rw [if_pos hstrip, ih]
          rfl
      | payload r hstrip hparse =>
          rw [if_neg hstrip, hparse]
          simp only [ih]
          rfl
      | unreadable hstrip hparse => cases hall _ List.mem_cons_self

theorem exists_unreadable_tail {item : List Char × LineRead}
    (hnot : ∃ x ∈ item :: items, x.2.isReadable = false) (hitem : item.2.isReadable = true) :
    ∃ x ∈ items, x.2.isReadable = false := by
  obtain ⟨x, hx, hfalse⟩ := hnot
  rcases List.mem_cons.mp hx with rfl | hx
  · rw [hitem] at hfalse
    cases hfalse
  · exact ⟨x, hx, hfalse⟩

/-- `iter_entries` raises where a line cannot be read. -/
theorem iterLines_unreadable (h : ∀ item ∈ items, Reads sha256 floatRepr item.1 item.2)
    (hnot : ∃ item ∈ items, item.2.isReadable = false) (n : ℕ) :
    ∃ lineNo, iterLines sha256 floatRepr n (items.map Prod.fst) = .error (.corruption lineNo .json) := by
  induction items generalizing n with
  | nil => simp at hnot
  | cons item items ih =>
      obtain ⟨line, status⟩ := item
      rw [List.map_cons, iterLines]
      have ih := fun hstatus => ih (fun item hitem => h item (List.mem_cons_of_mem _ hitem))
        (exists_unreadable_tail hnot hstatus) (n + 1)
      cases h _ List.mem_cons_self with
      | blank hstrip =>
          rw [if_pos hstrip]
          exact ih rfl
      | payload r hstrip hparse =>
          obtain ⟨lineNo, herror⟩ := ih rfl
          rw [if_neg hstrip, hparse]
          exact ⟨lineNo, by simp only [herror]⟩
      | unreadable hstrip hparse =>
          rw [if_neg hstrip, hparse]
          exact ⟨n, rfl⟩

theorem keeps_obj {members : List (List ℕ × Json)} {op : String} {lsn : ℤ} (throughLsn : ℤ)
    (hop : get? members "op" = some (ofString op)) (hlsn : get? members "lsn" = some (.int lsn)) :
    keeps throughLsn (.obj members) =
      .ok (!isText (ofString op) "checkpoint" && decide (throughLsn < lsn)) := by
  cases h : isText (ofString op) "checkpoint" <;> simp [keeps, hop, lsnOf, hlsn, h]

theorem keeps_payload (throughLsn : ℤ) (r : WrittenRecord) :
    keeps throughLsn r.payload =
      .ok (!r.entry.isCheckpoint && decide (throughLsn < r.entry.lsn)) := by
  have hop : isText (ofString r.entry.op.name) "checkpoint" = r.entry.isCheckpoint := by
    have hwrite : isText (ofString "write") "checkpoint" = false := by decide
    have hdelete : isText (ofString "delete") "checkpoint" = false := by decide
    have hcheckpoint : isText (ofString "checkpoint") "checkpoint" = true := by decide
    obtain ⟨⟨lsn, nodeId, op, blockId, version⟩, tsMs⟩ := r
    cases op with
    | write data => exact hwrite
    | delete => exact hdelete
    | checkpoint throughLsn => exact hcheckpoint
  rw [← hop]
  exact keeps_obj throughLsn rfl rfl

/-- The records that `compact` keeps. -/
def keptRecords (throughLsn : ℤ) (records : List WrittenRecord) : List WrittenRecord :=
  records.filter fun r => !r.entry.isCheckpoint && decide (throughLsn < r.entry.lsn)

theorem compactLines_items (h : ∀ item ∈ items, Reads sha256 floatRepr item.1 item.2)
    (hall : ∀ item ∈ items, item.2.isReadable = true) (throughLsn : ℤ) (n : ℕ) :
    compactLines sha256 floatRepr throughLsn n (items.map Prod.fst) =
      .ok ((keptRecords throughLsn (recordsOf items)).map WrittenRecord.payload) := by
  induction items generalizing n with
  | nil => rfl
  | cons item items ih =>
      obtain ⟨line, status⟩ := item
      have ih := ih (fun item hitem => h item (List.mem_cons_of_mem _ hitem))
        fun item hitem => hall item (List.mem_cons_of_mem _ hitem)
      rw [List.map_cons, compactLines]
      cases h _ List.mem_cons_self with
      | blank hstrip =>
          rw [if_pos hstrip, ih]
          rfl
      | payload r hstrip hparse =>
          have hrecords : recordsOf ((line, .payload r) :: items) = r :: recordsOf items := rfl
          rw [if_neg hstrip, hparse, hrecords, keptRecords, List.filter_cons]
          simp only [keeps_payload, ih]
          split <;> rfl
      | unreadable hstrip hparse => cases hall _ List.mem_cons_self

theorem compactLines_unreadable (h : ∀ item ∈ items, Reads sha256 floatRepr item.1 item.2)
    (hnot : ∃ item ∈ items, item.2.isReadable = false) (throughLsn : ℤ) (n : ℕ) :
    ∃ lineNo, compactLines sha256 floatRepr throughLsn n (items.map Prod.fst) =
      .error (.corruption lineNo .json) := by
  induction items generalizing n with
  | nil => simp at hnot
  | cons item items ih =>
      obtain ⟨line, status⟩ := item
      rw [List.map_cons, compactLines]
      have ih := fun hstatus => ih (fun item hitem => h item (List.mem_cons_of_mem _ hitem))
        (exists_unreadable_tail hnot hstatus) (n + 1)
      cases h _ List.mem_cons_self with
      | blank hstrip =>
          rw [if_pos hstrip]
          exact ih rfl
      | payload r hstrip hparse =>
          obtain ⟨lineNo, herror⟩ := ih rfl
          rw [if_neg hstrip, hparse]
          exact ⟨lineNo, by simp only [keeps_payload, herror]⟩
      | unreadable hstrip hparse =>
          rw [if_neg hstrip, hparse]
          exact ⟨n, rfl⟩

/-- The number of characters of lines. -/
def textLength (items : List (List Char × LineRead)) : ℕ := (items.flatMap Prod.fst).length

theorem recoverLines_items (h : ∀ item ∈ items, Reads sha256 floatRepr item.1 item.2)
    (hascii : ∀ item ∈ items, IsAscii item.1) (offset : ℕ) :
    recoverLines sha256 floatRepr offset (items.map fun item => encodeUtf8 item.1) =
      .ok (offset + textLength (readable items)) := by
  induction items generalizing offset with
  | nil => rfl
  | cons item items ih =>
      obtain ⟨line, status⟩ := item
      have ih := ih (fun item hitem => h item (List.mem_cons_of_mem _ hitem))
        fun item hitem => hascii item (List.mem_cons_of_mem _ hitem)
      have hlength : (encodeUtf8 line).length = line.length :=
        length_encodeUtf8 (hascii _ List.mem_cons_self)
      have hmore : ∀ status : LineRead, status.isReadable = true →
          offset + line.length + textLength (readable items) =
            offset + textLength (readable ((line, status) :: items)) := by
        intro status hstatus
        rw [readable_cons_of_readable hstatus, textLength, textLength, List.flatMap_cons,
          List.length_append, Nat.add_assoc]
      rw [List.map_cons, recoverLines, decodeUtf8_encodeUtf8]
      simp only [hlength]
      cases h _ List.mem_cons_self with
      | blank hstrip => rw [if_pos hstrip, ih, hmore .blank rfl]
      | payload r hstrip hparse =>
          rw [if_neg hstrip, hparse]
          simp only [ih]
          rw [hmore (.payload r) rfl]
      | unreadable hstrip hparse =>
          rw [if_neg hstrip, hparse]
          rfl

/-! ## One file -/

/-- What a file holds: the records on each line, and those after the last newline. -/
structure OplogText where
  lines : List (List WrittenRecord)
  rest : List WrittenRecord
deriving DecidableEq, Repr

section
variable (sha256 floatRepr)

/-- The line of its records, with its newline. -/
def writtenLine (l : List WrittenRecord) : List Char := lineText sha256 floatRepr l ++ ['\n']

namespace OplogText

/-- The characters of the file. -/
def chars (f : OplogText) : List Char :=
  f.lines.flatMap (writtenLine sha256 floatRepr) ++ lineText sha256 floatRepr f.rest

/-- The bytes of the file. -/
def bytes (f : OplogText) : List UInt8 := encodeUtf8 (f.chars sha256 floatRepr)

end OplogText

/-- The records of a line that was cut, if what is left can be read. -/
def lineSurvivors (k : ℕ) : List WrittenRecord → List WrittenRecord
  | [] => []
  | r :: l =>
      if k = (r.text sha256 floatRepr).length ∨
          (l = [] ∧ (r.text sha256 floatRepr).length ≤ k) then [r]
      else []

/-- The file that is left of a file when it is cut after `k` bytes and recovered. -/
def survivors : ℕ → List (List WrittenRecord) → List WrittenRecord → OplogText
  | k, [], rest => ⟨[], lineSurvivors sha256 floatRepr k rest⟩
  | k, l :: lines, rest =>
      if (lineText sha256 floatRepr l).length < k then
        -- the newline is there
        if l.length ≤ 1 then
          let f := survivors (k - (lineText sha256 floatRepr l).length - 1) lines rest
          ⟨l :: f.lines, f.rest⟩
        else ⟨[], []⟩
      else ⟨[], lineSurvivors sha256 floatRepr k l⟩

/-- What a line that was cut is read as. -/
def tailItems (k : ℕ) (l : List WrittenRecord) : List (List Char × LineRead) :=
  if (lineText sha256 floatRepr l).take k = [] then []
  else
    match lineSurvivors sha256 floatRepr k l with
    | r :: _ => [((lineText sha256 floatRepr l).take k, .payload r)]
    | [] => [((lineText sha256 floatRepr l).take k, .unreadable)]

/-- What the lines of a file that was cut are read as. -/
def cutItems : ℕ → List (List WrittenRecord) → List WrittenRecord → List (List Char × LineRead)
  | k, [], rest => tailItems sha256 floatRepr k rest
  | k, l :: lines, rest =>
      if (lineText sha256 floatRepr l).length < k then
        (writtenLine sha256 floatRepr l, lineRead l) ::
          cutItems (k - (lineText sha256 floatRepr l).length - 1) lines rest
      else tailItems sha256 floatRepr k l

end

variable (sha256 floatRepr) in
/-- A line that was cut is its first record, or nothing, or cannot be read. -/
theorem take_lineText (k : ℕ) (l : List WrittenRecord) :
    (∃ r, lineSurvivors sha256 floatRepr k l = [r] ∧
        (lineText sha256 floatRepr l).take k = r.text sha256 floatRepr) ∨
      (lineSurvivors sha256 floatRepr k l = [] ∧ ((lineText sha256 floatRepr l).take k = [] ∨
        Reads sha256 floatRepr ((lineText sha256 floatRepr l).take k) .unreadable)) := by
  cases l with
  | nil => exact Or.inr ⟨rfl, Or.inl (by simp [lineText])⟩
  | cons r l =>
      have hline : lineText sha256 floatRepr (r :: l) =
          r.text sha256 floatRepr ++ lineText sha256 floatRepr l := List.flatMap_cons
      by_cases hk : k = (r.text sha256 floatRepr).length ∨
          (l = [] ∧ (r.text sha256 floatRepr).length ≤ k)
      · refine Or.inl ⟨r, by rw [lineSurvivors, if_pos hk], ?_⟩
        rw [hline]
        rcases hk with rfl | ⟨rfl, hk⟩
        · exact List.take_left
        · rw [lineText, List.flatMap_nil, List.append_nil, List.take_of_length_le hk]
      refine Or.inr ⟨by rw [lineSurvivors, if_neg hk], ?_⟩
      obtain ⟨hne, hshort⟩ := not_or.mp hk
      rw [hline]
      rcases Nat.lt_or_gt_of_ne hne with hlt | hgt
      -- the cut is inside the first record
      · rw [List.take_append_of_le_length (Nat.le_of_lt hlt)]
        by_cases hnil : (r.text sha256 floatRepr).take k = []
        · exact Or.inl hnil
        · have hdrop : (r.text sha256 floatRepr).drop k ≠ [] := by
            rw [Ne, List.drop_eq_nil_iff, not_le]
            exact hlt
          have hcut := parseRecord_cut (List.take_append_drop k (r.text sha256 floatRepr)).symm hnil hdrop
          exact Or.inr (.unreadable hcut.1 hcut.2)
      -- the cut is after the beginning of the second record
      · obtain ⟨r', l, rfl⟩ := List.exists_cons_of_ne_nil fun hnil =>
          hshort ⟨hnil, Nat.le_of_lt hgt⟩
        obtain ⟨t, ht⟩ := r'.text_eq sha256 floatRepr
        obtain ⟨j, hj⟩ := Nat.exists_eq_add_of_lt hgt
        have htake : (r.text sha256 floatRepr ++ lineText sha256 floatRepr (r' :: l)).take k =
            r.text sha256 floatRepr ++ '{' :: (t ++ ['}'] ++ lineText sha256 floatRepr l).take j := by
          rw [hj, Nat.add_assoc, List.take_length_add_append, lineText, List.flatMap_cons, ht]
          rfl
        rw [htake]
        exact Or.inr (.unreadable (parseRecord_merged _).1 (parseRecord_merged _).2)

theorem reads_tailItems (k : ℕ) (l : List WrittenRecord) :
    ∀ item ∈ tailItems sha256 floatRepr k l, Reads sha256 floatRepr item.1 item.2 := by
  intro item hitem
  unfold tailItems at hitem
  split_ifs at hitem with hnil
  · cases hitem
  · rcases take_lineText sha256 floatRepr k l with
      ⟨r, hr, htext⟩ | ⟨hr, hunread⟩
    · rw [hr] at hitem
      obtain rfl := List.mem_singleton.mp hitem
      have hreads := reads_text sha256 floatRepr r (w := []) (by simp)
      rw [List.append_nil, ← htext] at hreads
      exact hreads
    · rw [hr] at hitem
      obtain rfl := List.mem_singleton.mp hitem
      exact hunread.resolve_left hnil

variable (sha256 floatRepr) in
theorem reads_cutItems (k : ℕ) (lines : List (List WrittenRecord)) (rest : List WrittenRecord) :
    ∀ item ∈ cutItems sha256 floatRepr k lines rest, Reads sha256 floatRepr item.1 item.2 := by
  induction lines generalizing k with
  | nil => exact reads_tailItems k rest
  | cons l lines ih =>
      rw [cutItems]
      split_ifs with hk
      · intro item hitem
        rcases List.mem_cons.mp hitem with rfl | hitem
        · exact reads_lineText l (by simp [isSpace])
        · exact ih _ item hitem
      · exact reads_tailItems k l

/-! ## A file that is cut -/

theorem isPrintable_newline_ne {c : Char} (h : IsPrintable c) : c ≠ '\n' ∧ c ≠ '\r' := by
  obtain ⟨h1, -⟩ := h
  constructor <;> rintro rfl <;> exact absurd h1 (by decide)

theorem newline_notMem_lineText (l : List WrittenRecord) : '\n' ∉ lineText sha256 floatRepr l :=
  fun h => (isPrintable_newline_ne (isPrintable_lineText l _ h)).1 rfl

theorem mem_chars {f : OplogText} {c : Char} (hc : c ∈ f.chars sha256 floatRepr) :
    IsPrintable c ∨ c = '\n' := by
  rcases List.mem_append.mp hc with hc | hc
  · obtain ⟨l, -, hl⟩ := List.mem_flatMap.mp hc
    rcases List.mem_append.mp hl with hl | hl
    · exact Or.inl (isPrintable_lineText l c hl)
    · exact Or.inr (List.mem_singleton.mp hl)
  · exact Or.inl (isPrintable_lineText f.rest c hc)

theorem OplogText.chars_cons (l : List WrittenRecord) (lines : List (List WrittenRecord))
    (rest : List WrittenRecord) : (⟨l :: lines, rest⟩ : OplogText).chars sha256 floatRepr =
      lineText sha256 floatRepr l ++ '\n' :: (⟨lines, rest⟩ : OplogText).chars sha256 floatRepr := by
  simp [OplogText.chars, writtenLine]

theorem isAscii_chars (f : OplogText) : IsAscii (f.chars sha256 floatRepr) := by
  intro c hc
  rcases mem_chars hc with ⟨-, h⟩ | rfl
  · omega
  · decide

variable {f : OplogText} {k : ℕ}

theorem tailItems_fst (k : ℕ) (l : List WrittenRecord) :
    (tailItems sha256 floatRepr k l).map Prod.fst =
      linesOf '\n' ((lineText sha256 floatRepr l).take k) := by
  have hnot : '\n' ∉ (lineText sha256 floatRepr l).take k := fun h =>
    newline_notMem_lineText l (List.mem_of_mem_take h)
  rw [linesOf_rest hnot, tailItems]
  split_ifs with hnil
  · rfl
  · split <;> rfl

/-- The lines of a file that was cut. -/
theorem cutItems_fst (k : ℕ) (lines : List (List WrittenRecord)) (rest : List WrittenRecord) :
    (cutItems sha256 floatRepr k lines rest).map Prod.fst =
      linesOf '\n' (((⟨lines, rest⟩ : OplogText).chars sha256 floatRepr).take k) := by
  induction lines generalizing k with
  | nil => exact tailItems_fst k rest
  | cons l lines ih =>
      rw [cutItems, OplogText.chars_cons]
      split_ifs with hk
      · obtain ⟨j, rfl⟩ := Nat.exists_eq_add_of_lt hk
        rw [Nat.add_assoc, List.take_length_add_append, List.take_succ_cons,
          linesOf_append_newline (newline_notMem_lineText l), List.map_cons, ih]
        congr 4
        omega
      · rw [List.take_append_of_le_length (not_lt.mp hk)]
        exact tailItems_fst k l

theorem textLines_take (f : OplogText) (k : ℕ) :
    textLines ((f.chars sha256 floatRepr).take k) =
      (cutItems sha256 floatRepr k f.lines f.rest).map Prod.fst := by
  have hreturn : '\r' ∉ (f.chars sha256 floatRepr).take k := by
    intro h
    rcases mem_chars (List.mem_of_mem_take h) with h | h
    · exact (isPrintable_newline_ne h).2 rfl
    · cases h
  rw [textLines, universalNewlines_eq_self hreturn, cutItems_fst]

/-- The characters of the lines are the file as far as it was not cut. -/
theorem cutItems_flatMap (f : OplogText) (k : ℕ) :
    (cutItems sha256 floatRepr k f.lines f.rest).flatMap Prod.fst =
      (f.chars sha256 floatRepr).take k := by
  rw [List.flatMap_def, cutItems_fst, flatten_linesOf]

namespace OplogText

/-- The records of the file. -/
def records (f : OplogText) : List WrittenRecord := f.lines.flatten ++ f.rest

/-- No two records stand on one line. -/
structure Short (f : OplogText) : Prop where
  lines : ∀ l ∈ f.lines, l.length ≤ 1
  rest : f.rest.length ≤ 1

end OplogText

theorem isReadable_lineRead {l : List WrittenRecord} :
    (lineRead l).isReadable = true ↔ l.length ≤ 1 := by
  match l with
  | [] => simp [lineRead, LineRead.isReadable]
  | [r] => simp [lineRead, LineRead.isReadable]
  | r :: r' :: l => simp [lineRead, LineRead.isReadable]

theorem records_lineRead {l : List WrittenRecord} (h : l.length ≤ 1) : (lineRead l).records = l := by
  match l with
  | [] => rfl
  | [r] => rfl
  | r :: r' :: l => simp at h

theorem length_lineSurvivors_le (k : ℕ) (l : List WrittenRecord) :
    (lineSurvivors sha256 floatRepr k l).length ≤ 1 := by
  cases l with
  | nil => simp [lineSurvivors]
  | cons r l =>
      rw [lineSurvivors]
      split_ifs <;> simp

variable (sha256 floatRepr) in
theorem short_survivors (k : ℕ) (lines : List (List WrittenRecord)) (rest : List WrittenRecord) :
    (survivors sha256 floatRepr k lines rest).Short := by
  induction lines generalizing k with
  | nil => exact ⟨by simp [survivors], length_lineSurvivors_le k rest⟩
  | cons l lines ih =>
      rw [survivors]
      split_ifs with hk hl
      · refine ⟨?_, (ih _).rest⟩
        rintro l' (_ | ⟨_, hmem⟩)
        · exact hl
        · exact (ih _).lines l' hmem
      · exact ⟨by simp, by simp⟩
      · exact ⟨by simp, length_lineSurvivors_le k l⟩

/-- What can be read of a line that was cut. -/
theorem readable_tailItems (k : ℕ) (l : List WrittenRecord) :
    (readable (tailItems sha256 floatRepr k l)).flatMap Prod.fst =
        lineText sha256 floatRepr (lineSurvivors sha256 floatRepr k l) ∧
      recordsOf (readable (tailItems sha256 floatRepr k l)) = lineSurvivors sha256 floatRepr k l := by
  rcases take_lineText sha256 floatRepr k l with
    ⟨r, hr, htext⟩ | ⟨hr, -⟩
  · obtain ⟨t, ht⟩ := r.text_eq sha256 floatRepr
    have hne : (lineText sha256 floatRepr l).take k ≠ [] := by
      rw [htext, ht]
      exact List.cons_ne_nil _ _
    rw [tailItems, if_neg hne, hr, htext]
    exact ⟨rfl, rfl⟩
  · rw [tailItems, hr]
    split_ifs <;> exact ⟨rfl, rfl⟩

/-- What can be read of a file that was cut is what is left of it. -/
theorem readable_cutItems (k : ℕ) (lines : List (List WrittenRecord)) (rest : List WrittenRecord) :
    (readable (cutItems sha256 floatRepr k lines rest)).flatMap Prod.fst =
        (survivors sha256 floatRepr k lines rest).chars sha256 floatRepr ∧
      recordsOf (readable (cutItems sha256 floatRepr k lines rest)) =
        (survivors sha256 floatRepr k lines rest).records := by
  induction lines generalizing k with
  | nil => exact readable_tailItems k rest
  | cons l lines ih =>
      rw [cutItems, survivors]
      split_ifs with hk hl
      · obtain ⟨hchars, hrecords⟩ := ih (k - (lineText sha256 floatRepr l).length - 1)
        rw [readable_cons_of_readable (isReadable_lineRead.mpr hl), List.flatMap_cons, hchars]
        refine ⟨by simp [OplogText.chars], ?_⟩
        rw [recordsOf, List.flatMap_cons, records_lineRead hl, ← recordsOf, hrecords]
        simp [OplogText.records]
      · rw [readable_cons_of_unreadable (isReadable_lineRead.not.mpr hl)]
        exact ⟨rfl, rfl⟩
      · exact readable_tailItems k l

end NanoFabric.Node
