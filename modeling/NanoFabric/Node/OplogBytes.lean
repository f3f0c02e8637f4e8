import NanoFabric.Found.JsonRoundTrip
import NanoFabric.Found.TextFile
import NanoFabric.Node.OplogFile

/-!
# The oplog, byte by byte

`Oplog` of `node/oplog.py` on the bytes of its file: how a record is written, which lines are records,
and the three loops that read the file. `_scan_high_water_mark`, `iter_entries` and `compact` read it
as text, `recover` in binary mode.

`sha256` is what `hashlib.sha256(...).hexdigest()` gives for a text, and `floatRepr` what a float is
written as.

A text file is decoded as a whole here and not block by block, which only matters where bytes that are
no UTF-8 come more than a block after a line that ends the scan. An `lsn` that is a float is taken for
one that cannot be compared. A file that does not exist is an empty one.
-/

namespace NanoFabric.Node

open NanoFabric.Found NanoFabric.Found.Json

/-- What is wrong with a line: the text of `OplogCorruptionError`, or a `JSONDecodeError`. -/
inductive Corruption
  | reason (text : String)
  | json
deriving DecidableEq, Repr

/-- The exceptions of reading an oplog. -/
inductive Raised
  | jsonDecode
  | unicodeDecode
  | corruption (lineNo : ℕ) (cause : Corruption)
  | typeError
  | attributeError
deriving DecidableEq, Repr

section
variable (sha256 : String → String) (floatRepr : List Char → List Char)

/-! ## Records -/

/-- Source: `node/oplog.py`, `_payload_checksum`. -/
def payloadChecksum (payload : Json) : String :=
  sha256 (String.ofList (dumps floatRepr (sortKeys payload)))

/-- `v == text`. -/
def isText (v : Json) (text : String) : Bool :=
  match v with
  | .str s => s = codes text
  | _ => false

/-- `key in v`, or none where `v` is no container. -/
def contains (v : Json) (key : String) : Option Bool :=
  match v with
  | .obj members => some (get? members key).isSome
  | .arr items => some (items.any (isText · key))
  | .str s => some (decide (codes key <:+: s))
  | _ => none

/-- `v[key]` for a text. -/
def getItem (v : Json) (key : String) : Option Json :=
  match v with
  | .obj members => get? members key
  | _ => none

/-- The payload of a line with a checksum. -/
def checkedPayload (record : Json) (lineNo : ℕ) : Except Raised Json :=
  match getItem record "payload", getItem record "checksum" with
  | some payload, some checksum =>
      let expected := payloadChecksum sha256 floatRepr payload
      if isText checksum expected then .ok payload
      else .error (.corruption lineNo (.reason s!"checksum mismatch (expected {expected})"))
  | _, _ => .error .typeError

/-- Source: `node/oplog.py`, `_parse_record`. -/
def parseRecord (line : List Char) (lineNo : ℕ) : Except Raised Json :=
  match loads line with
  | none => .error .jsonDecode
  | some record =>
      match contains record "payload", contains record "checksum", contains record "op" with
      | some true, some true, _ => checkedPayload sha256 floatRepr record lineNo
      | some _, some _, some true => .ok record
      | some _, some _, some false => .error (.corruption lineNo (.reason "unrecognized entry format"))
      | _, _, _ => .error .typeError

/-- `entry.get("lsn", 0)` as a number that can be compared. -/
def lsnOf (entry : Json) : Except Raised ℤ :=
  match entry with
  | .obj members =>
      match get? members "lsn" with
      | none => .ok 0
      | some (.int lsn) => .ok lsn
      | some (.bool b) => .ok b.toNat
      | some _ => .error .typeError
  | _ => .error .attributeError

/-- The name of an operation.
Source: `node/op_types.py`, `OpType`. -/
def LoggedOp.name : LoggedOp → String
  | .write _ => "write"
  | .delete => "delete"
  | .checkpoint _ => "checkpoint"

/-- The fields that only this operation has. -/
def LoggedOp.fields : LoggedOp → List (List ℕ × Json)
  | .write data => [(codes "data", .ofString data)]
  | .delete => []
  | .checkpoint throughLsn => [(codes "through_lsn", .int throughLsn)]

/-- The payload that `append` builds. -/
def OplogEntry.payload (e : OplogEntry) (tsMs : ℤ) : Json :=
  .obj ([(codes "lsn", .int e.lsn), (codes "node_id", .ofString e.nodeId), (codes "ts_ms", .int tsMs),
    (codes "op", .ofString e.op.name), (codes "block_id", .ofString e.blockId),
    (codes "version", .int e.version)] ++ e.op.fields)

/-- The record around a payload. -/
def recordOf (payload : Json) : Json :=
  .obj [(codes "payload", payload),
    (codes "checksum", .ofString (payloadChecksum sha256 floatRepr payload))]

/-- The text of a payload's record, without its newline. -/
def recordText (payload : Json) : List Char := dumps floatRepr (recordOf sha256 floatRepr payload)

/-! ## The three loops -/

/-- The loop of `_scan_high_water_mark`, from a line on. -/
def scanLines : ℕ → ℤ → List (List Char) → Except Raised ℤ
  | _, maxLsn, [] => .ok maxLsn
  | lineNo, maxLsn, line :: lines =>
      if strip line = [] then scanLines (lineNo + 1) maxLsn lines
      else
        match parseRecord sha256 floatRepr (strip line) lineNo with
        | .ok entry =>
            match lsnOf entry with
            | .ok lsn => scanLines (lineNo + 1) (if maxLsn < lsn then lsn else maxLsn) lines
            | .error e => .error e
        | .error .jsonDecode => .ok maxLsn
        | .error (.corruption _ _) => .ok maxLsn
        | .error e => .error e

/-- Source: `node/oplog.py`, `_scan_high_water_mark`. -/
def scanHighWaterMark (file : List UInt8) : Except Raised ℤ :=
  match decodeUtf8 file with
  | none => .error .unicodeDecode
  | some text => scanLines sha256 floatRepr 1 0 (textLines text)

/-- The loop of `recover`, from a line and its offset on: where the file is cut. -/
def recoverLines : ℕ → List (List UInt8) → Except Raised ℕ
  | offset, [] => .ok offset
  | offset, line :: lines =>
      match decodeUtf8 line with
      | none => .ok offset
      | some text =>
          if strip text = [] then recoverLines (offset + line.length) lines
          else
            match parseRecord sha256 floatRepr (strip text) 0 with
            | .ok _ => recoverLines (offset + line.length) lines
            | .error .jsonDecode => .ok offset
            | .error (.corruption _ _) => .ok offset
            | .error e => .error e

/-- The loop of `iter_entries`, from a line on. -/
def iterLines : ℕ → List (List Char) → Except Raised (List Json)
  | _, [] => .ok []
  | lineNo, line :: lines =>
      if strip line = [] then iterLines (lineNo + 1) lines
      else
        match parseRecord sha256 floatRepr (strip line) lineNo with
        | .ok entry =>
            match iterLines (lineNo + 1) lines with
            | .ok entries => .ok (entry :: entries)
            | .error e => .error e
        | .error .jsonDecode => .error (.corruption lineNo .json)
        | .error e => .error e

/-- All payloads of the file, or what `iter_entries` raises after those it has given.
Source: `node/oplog.py`, `iter_entries`. -/
def iterBytes (file : List UInt8) : Except Raised (List Json) :=
  match decodeUtf8 file with
  | none => .error .unicodeDecode
  | some text => iterLines sha256 floatRepr 1 (textLines text)

/-- Whether `compact` keeps an entry. -/
def keeps (throughLsn : ℤ) (entry : Json) : Except Raised Bool :=
  match entry with
  | .obj members =>
      if (get? members "op").any (isText · "checkpoint") then .ok false
      else
        match lsnOf entry with
        | .ok lsn => .ok (throughLsn < lsn)
        | .error e => .error e
  | _ => .error .attributeError

/-- The loop of `compact` over `iter_entries`, from a line on: the payloads that are kept. -/
def compactLines (throughLsn : ℤ) : ℕ → List (List Char) → Except Raised (List Json)
  | _, [] => .ok []
  | lineNo, line :: lines =>
      if strip line = [] then compactLines throughLsn (lineNo + 1) lines
      else
        match parseRecord sha256 floatRepr (strip line) lineNo with
        | .ok entry =>
            match keeps throughLsn entry with
            | .ok keep =>
                match compactLines throughLsn (lineNo + 1) lines with
                | .ok kept => .ok (if keep then entry :: kept else kept)
                | .error e => .error e
            | .error e => .error e
        | .error .jsonDecode => .error (.corruption lineNo .json)
        | .error e => .error e

/-! ## The oplog on its file -/

/-- An oplog with the bytes of its file. -/
structure ByteOplog where
  oplog : Oplog
  file : List UInt8
deriving DecidableEq, Repr

namespace ByteOplog

/-- The oplog with its counters read from its file. -/
def scanned (nodeId : String) (file : List UInt8) : Except Raised ByteOplog :=
  match scanHighWaterMark sha256 floatRepr file with
  | .ok maxLsn => .ok ⟨⟨nodeId, maxLsn, maxLsn + 1⟩, file⟩
  | .error e => .error e

/-- Source: `node/oplog.py`, `Oplog.__init__`. -/
def opened (nodeId : String) (file : List UInt8) : Except Raised ByteOplog :=
  scanned sha256 floatRepr nodeId file

/-- Where the file is cut, and the oplog after it.
Source: `node/oplog.py`, `recover`. -/
def recover (s : ByteOplog) : Except Raised (ℕ × ByteOplog) :=
  match recoverLines sha256 floatRepr 0 (linesOf 10 s.file) with
  | .ok lastGood =>
      match scanned sha256 floatRepr s.oplog.nodeId (s.file.take lastGood) with
      | .ok s' => .ok (lastGood, s')
      | .error e => .error e
  | .error e => .error e

/-- The oplog that a storage engine starts on: it is constructed and recovered.
Source: `node/storage_engine.py`, `StorageEngine.__init__`. -/
def reopened (nodeId : String) (file : List UInt8) : Except Raised ByteOplog :=
  match opened sha256 floatRepr nodeId file with
  | .ok s =>
      match s.recover sha256 floatRepr with
      | .ok (_, s') => .ok s'
      | .error e => .error e
  | .error e => .error e

/-- The LSN, and the oplog after the record's line is written at the end of the file.
Source: `node/oplog.py`, `append`. -/
def append (s : ByteOplog) (tsMs : ℤ) (op : LoggedOp) (blockId : String) (version : ℤ) :
    ℤ × ByteOplog :=
  let (entry, log) := s.oplog.append op blockId version
  (entry.lsn,
    ⟨log, s.file ++ encodeUtf8 (recordText sha256 floatRepr (entry.payload tsMs) ++ ['\n'])⟩)

/-- Source: `node/oplog.py`, `compact`. -/
def compact (s : ByteOplog) (throughLsn : ℤ) : Except Raised (ℕ × ByteOplog) :=
  match decodeUtf8 s.file with
  | none => .error .unicodeDecode
  | some text =>
      match compactLines sha256 floatRepr throughLsn 1 (textLines text) with
      | .error e => .error e
      | .ok kept =>
          let file := encodeUtf8 (kept.flatMap fun payload => recordText sha256 floatRepr payload ++ ['\n'])
          match scanned sha256 floatRepr s.oplog.nodeId file with
          | .ok s' => .ok (kept.length, s')
          | .error e => .error e

end ByteOplog

end

end NanoFabric.Node
