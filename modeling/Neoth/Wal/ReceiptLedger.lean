import Neoth.Lib.Slots
import Neoth.Wal.Compaction

/-!
# The ledger of context evidence receipts

The objects of `wal/context_evidence_receipts.rs` with the payload that they hold,
`ContextEvidenceReceipt` of `wal/events.rs`: 256 shards of up to 4096 records of a fixed size, the
manifest that names the shards of a generation, and the journal of a transaction.

* `insertRecord`, `finalizeShard`, `parseShard`: a shard is filled, sealed and read back;
* `nextManifest`, `finalizeManifest`, `parseManifest`: the same for a manifest;
* `serializePending`, `parsePending`: the journal;
* `commit`: what an append makes of all three.

The JSON of a receipt is a parameter.
-/

open Lib.Encoding Lib.Slots Lib.Transaction Neoth.MeshSync Neoth.Wal.Codec

namespace Neoth.Wal

/-! ## Receipts -/

def contextEvidenceReceiptSchemaVersion : UInt8 := 1
def maxContextEvidenceReceiptBytes : Nat := 256
def contextEvidenceReceiptHandleHexLen : Nat := 64

inductive ContextEvidenceReceiptKind
  | localImport
  deriving DecidableEq

structure ContextEvidenceReceipt where
  schemaVersion : UInt8
  receiptHandle : String
  receiptKind : ContextEvidenceReceiptKind
  policyRevision : UInt64
  lifecycleRevision : UInt64
  observedMinute : UInt64
  deriving DecidableEq

/-- `serde_json::from_slice`, with `deny_unknown_fields`. -/
class ReceiptJson where
  fromSlice : List UInt8 → Option ContextEvidenceReceipt

/-- The binary form of a handle. -/
abbrev Handle := Digest

def decodeLowerHexNibble (byte : UInt8) : Option UInt8 :=
  if 0x30 ≤ byte ∧ byte ≤ 0x39 then some (byte - 0x30)
  else if 0x61 ≤ byte ∧ byte ≤ 0x66 then some (byte - 0x61 + 10)
  else none

/-- `chunks_exact(2)`. -/
def pairsOf : List UInt8 → List (UInt8 × UInt8)
  | a :: b :: rest => (a, b) :: pairsOf rest
  | _ => []

/-- The first 32 bytes, zeros for those that are missing. -/
def Handle.ofBytes (bytes : List UInt8) : Handle := ⟨(bytes ++ .replicate 32 0).take 32, by simp⟩

namespace ContextEvidenceReceipt

def validate (receipt : ContextEvidenceReceipt) : Except String Unit := do
  require (receipt.schemaVersion == contextEvidenceReceiptSchemaVersion)
    s!"unsupported Context Evidence receipt schema version {receipt.schemaVersion}"
  require (byteLen receipt.receiptHandle == contextEvidenceReceiptHandleHexLen &&
      (utf8 receipt.receiptHandle).all fun byte => (decodeLowerHexNibble byte).isSome)
    (s!"Context Evidence receipt handle must be a {contextEvidenceReceiptHandleHexLen}-character lower-case SHA-256 " ++
      "hex digest")

def decode [ReceiptJson] (encoded : List UInt8) : Except String ContextEvidenceReceipt := do
  require (encoded.length ≤ maxContextEvidenceReceiptBytes)
    s!"Context Evidence receipt exceeds {maxContextEvidenceReceiptBytes} bytes"
  let receipt ← context (ReceiptJson.fromSlice encoded) "decode Context Evidence receipt"
  receipt.validate
  .ok receipt

def matchesOpaqueHandle (receipt : ContextEvidenceReceipt) (expected : Handle) : Bool :=
  let encoded := utf8 receipt.receiptHandle
  encoded.length == contextEvidenceReceiptHandleHexLen &&
    ((pairsOf encoded).zip expected.val).all fun (pair, byte) =>
      match decodeLowerHexNibble pair.1, decodeLowerHexNibble pair.2 with
      | some high, some low => (high <<< 4 ||| low) == byte
      | _, _ => false

def decodePair (pair : UInt8 × UInt8) : Except String UInt8 := do
  let high ← context (decodeLowerHexNibble pair.1)
    "validated Context Evidence receipt handle lost high hex nibble"
  let low ← context (decodeLowerHexNibble pair.2)
    "validated Context Evidence receipt handle lost low hex nibble"
  .ok (high <<< 4 ||| low)

def opaqueHandle (receipt : ContextEvidenceReceipt) : Except String Handle := do
  receipt.validate
  let decoded ← ((pairsOf (utf8 receipt.receiptHandle)).take 32).mapM decodePair
  .ok (.ofBytes decoded)

end ContextEvidenceReceipt

/-! ## Layouts -/

def shardCount : Nat := 256
def recordsPerShard : Nat := 4096
def lifetimeCapacity : Nat := shardCount * recordsPerShard
def frameMaxBytes : Nat := 360
def recordBytes : Nat := 368
def recordsBytes : Nat := recordsPerShard * recordBytes
def shardMagic : List UInt8 := utf8 "NTHCER01"
def manifestMagic : List UInt8 := utf8 "NTHCEM01"
def pendingMagic : List UInt8 := utf8 "NTHCEP01"
def formatVersion : Nat := 1
def tagBytes : Nat := 32
def shardHeaderBytes : Nat := 56
def shardBytes : Nat := shardHeaderBytes + recordsBytes + tagBytes
def manifestHeaderBytes : Nat := 68
def manifestEntryBytes : Nat := 44
def manifestBytes : Nat := manifestHeaderBytes + shardCount * manifestEntryBytes + tagBytes
def pendingPrefixBytes : Nat := 128
def pendingBytes : Nat := pendingPrefixBytes + manifestBytes + tagBytes
theorem length_zeros : (List.replicate 32 (0 : UInt8)).length = 32 := List.length_replicate

def zeroSha : Digest := ⟨.replicate 32 0, length_zeros⟩
def domainFile : List UInt8 := utf8 "neoth.context-evidence-receipts.file.v1" ++ [0]
def domainShard : List UInt8 := utf8 "neoth.context-evidence-receipts.shard.v1" ++ [0]
def eventTypeExtended : UInt8 := 0x00
def contextEvidenceReceiptSubtype : UInt8 := 0x27

/-- Handles are compared byte by byte. -/
def Handle.order (handle : Handle) : List Nat := handle.val.map UInt8.toNat

theorem Handle.order_injective : Function.Injective Handle.order := fun _ _ h =>
  Subtype.ext (List.map_injective_iff.mpr (fun _ _ => UInt8.toNat_inj.mp) h)

structure ManifestEntry where
  present : Bool
  slot : UInt8
  count : UInt16
  generation : UInt64
  shardSha256 : Digest

def ManifestEntry.empty : ManifestEntry := ⟨false, 0, 0, 0, zeroSha⟩

structure Manifest where
  generation : UInt64
  previousGeneration : UInt64
  previousSha256 : Digest
  totalRecords : UInt32
  /-- An array of 256. -/
  entries : UInt8 → ManifestEntry
  bytes : List UInt8

structure Shard where
  shard : UInt8
  slot : UInt8
  generation : UInt64
  count : Nat
  bytes : List UInt8
  handles : List Handle

structure Pending where
  oldManifestSha256 : Digest
  newGeneration : UInt64
  shard : UInt8
  slot : UInt8
  newShardSha256 : Digest
  newManifestSha256 : Digest
  manifest : Manifest

section
variable [Sha256]

def tag (key : Digest) (domain body : List UInt8) : List UInt8 :=
  hmacSha256 key.val (domain ++ body)

def verifyTag (key : Digest) (domain bytes : List UInt8) : Except String Unit := do
  require (tagBytes ≤ bytes.length) "receipt ledger authenticated object is too short"
  require (tag key domain (bytes.take (bytes.length - tagBytes)) ==
    bytes.drop (bytes.length - tagBytes)) "receipt ledger authentication tag mismatch"

def shardForHandle (key : Digest) (handle : Handle) : UInt8 :=
  (hmacSha256 key.val handle.val).getD 0 0

def sha256At (bytes : List UInt8) (start : Nat) : Digest :=
  ⟨(arrayAt bytes start 32).toList, Vector.length_toList⟩

def allZero (bytes : List UInt8) : Bool := bytes.all (· == 0)

/-! ## Shards -/

omit [Sha256] in
def emptyShard (shard : UInt8) (generation : UInt64) : Shard :=
  ⟨shard, 0, generation, 0, .replicate shardBytes 0, []⟩

omit [Sha256] in
def shardRecords (bytes : List UInt8) : List UInt8 := slice bytes shardHeaderBytes recordsBytes

omit [Sha256] in
def recordAt (bytes : List UInt8) (index : Nat) : Except String (List UInt8) := do
  require (index < recordsPerShard) "receipt ledger record index out of range"
  .ok (slice bytes (shardHeaderBytes + index * recordBytes) recordBytes)

omit [Sha256] in
def insertRecord (shard : Shard) (position : Nat) (handle : Handle) (frame : List UInt8) :
    Except String Shard := do
  require (shard.count < recordsPerShard) "receipt ledger shard capacity exhausted"
  require (frame.length ≤ frameMaxBytes) "receipt ledger frame exceeds fixed record capacity"
  let from_ := position * recordBytes
  let stop := shard.count * recordBytes
  let records := copyWithin (shardRecords shard.bytes) from_ stop (from_ + recordBytes)
  let record := writeAt (writeAt (.replicate recordBytes 0) 0 (leBytes 2 frame.length)) 8 frame
  .ok { shard with
    bytes := writeAt shard.bytes shardHeaderBytes (writeAt records from_ record)
    handles := shard.handles.insertIdx position handle
    count := shard.count + 1 }

section
variable [ReceiptJson]

omit [Sha256] in
def validateExactFrame (handle : Handle) (expected : ContextEvidenceReceipt) (frame : List UInt8) :
    Except String Unit := do
  require (frame.length ≤ frameMaxBytes) "receipt ledger exact frame is oversized"
  let decoded ← context (Codec.decodeFrame frame).toOption
      "receipt ledger exact frame does not decode"
  require (decoded.header.totalLen.toNat == frame.length)
    "receipt ledger exact frame has trailing bytes"
  require (decoded.header.eventType == eventTypeExtended) "receipt ledger frame is not extended"
  require (decoded.header.eventSubtype == contextEvidenceReceiptSubtype)
    "receipt ledger frame is not ContextEvidenceReceipt"
  let receipt ← context (ContextEvidenceReceipt.decode decoded.payload).toOption
    "receipt ledger receipt payload is not closed"
  require (receipt == expected && receipt.matchesOpaqueHandle handle)
    "receipt ledger frame does not bind expected opaque receipt"

omit [Sha256] in
def decodeRecord (record : List UInt8) : Except String (Handle × ContextEvidenceReceipt) := do
  require (record.length == recordBytes) "receipt ledger record size mismatch"
  let frameLen := (u16At record 0).toNat
  require (104 ≤ frameLen && frameLen ≤ frameMaxBytes) "receipt ledger record frame length invalid"
  require (allZero (slice record 2 6)) "receipt ledger record reserved bytes non-zero"
  require (allZero (record.drop (8 + frameLen))) "receipt ledger record frame padding non-zero"
  let decoded ← context (Codec.decodeFrame (slice record 8 frameLen)).toOption
    "receipt ledger record frame does not decode"
  require (decoded.header.totalLen.toNat == frameLen) "receipt ledger record frame trailing bytes"
  require (decoded.header.eventType == eventTypeExtended &&
    decoded.header.eventSubtype == contextEvidenceReceiptSubtype)
      "receipt ledger record is not ContextEvidenceReceipt"
  let receipt ← context (ContextEvidenceReceipt.decode decoded.payload).toOption
    "receipt ledger record receipt is not closed"
  let handle ← receipt.opaqueHandle
  .ok (handle, receipt)

end

def finalizeShard (shard : Shard) (key : Digest) : Except String Shard := do
  require (shard.count == shard.handles.length) "receipt ledger shard handle index mismatch"
  require (shard.count ≤ recordsPerShard) "receipt ledger shard count overflow"
  require (shard.bytes.length == shardBytes) "receipt ledger shard size mismatch"
  let records := shardRecords shard.bytes
  let body :=
    shardMagic ++
      (leBytes 2 formatVersion ++ ([shard.shard, shard.slot] ++ (leBytes 2 shard.count ++
    ([0, 0] ++ (leBytes 8 shard.generation.toNat ++ ((Sha256.digest records).val ++ records))))))
  .ok { shard with bytes := body ++ tag key domainShard body }

/-- A turn of the loop over the records, with the handles so far; the last of them is the previous
one. -/
def readRecord [ReceiptJson] (bytes : List UInt8) (expectedShard : UInt8) (key : Digest)
    (count : Nat) (handles : List Handle) (index : Nat) : Except String (List Handle) := do
  let record ← recordAt bytes index
  if index < count then
    let (handle, _) ← decodeRecord record
    require (shardForHandle key handle == expectedShard)
      "receipt ledger record has wrong keyed shard"
    require (handles.getLast?.all fun previous => decide (previous.order < handle.order))
      "receipt ledger records are not strictly sorted"
    .ok (handles ++ [handle])
  else
    require (allZero record) "receipt ledger unused record is non-zero"
    .ok handles

def parseShard [ReceiptJson] (bytes : List UInt8) (expectedShard : UInt8) (entry : ManifestEntry)
    (key : Digest) : Except String Shard := do
  require (bytes.length == shardBytes) "receipt ledger shard has non-fixed size"
  verifyTag key domainShard bytes
  require (slice bytes 0 8 == shardMagic) "receipt ledger shard magic mismatch"
  require ((u16At bytes 8).toNat == formatVersion) "receipt ledger shard version mismatch"
  require (bytes.getD 10 0 == expectedShard && bytes.getD 11 0 == entry.slot)
    "receipt ledger shard placement mismatch"
  let count := (u16At bytes 12).toNat
  require (count ≤ recordsPerShard && allZero (slice bytes 14 2))
    "receipt ledger shard count/reserved mismatch"
  require (u64At bytes 16 == entry.generation) "receipt ledger shard generation mismatch"
  require (slice bytes 24 32 == (Sha256.digest (shardRecords bytes)).val)
    "receipt ledger shard records digest mismatch"
  require (entry.count.toNat == count) "receipt ledger manifest/shard count mismatch"
  let handles ← (List.range recordsPerShard).foldlM (readRecord bytes expectedShard key count) []
  .ok ⟨expectedShard, entry.slot, entry.generation, count, bytes, handles⟩

/-! ## Manifests -/

omit [Sha256] in
/-- The indices of an array of 256. -/
def shardIndices : List UInt8 := (List.range shardCount).map UInt8.ofNat

omit [Sha256] in
def Manifest.sumOfCounts (entries : UInt8 → ManifestEntry) : Nat :=
  (shardIndices.map fun index => (entries index).count.toNat).sum

def nextManifest (prior : Option Manifest) (generation : UInt64) (shard slot : UInt8) (count : Nat)
    (shardSha256 : Digest) : Except String Manifest := do
  let previousGeneration := (prior.map (·.generation)).getD 0
  let previousSha256 := (prior.map fun manifest => Sha256.digest manifest.bytes).getD zeroSha
  let entries := (prior.map (·.entries)).getD fun _ => .empty
  let oldTotal := (prior.map (·.totalRecords.toNat)).getD 0
  require (previousGeneration < generation) "receipt ledger generation is not monotonic"
  require (count ≤ recordsPerShard) "receipt ledger shard count overflow"
  let oldCount := (entries shard).count.toNat
  require (oldCount ≤ oldTotal) "receipt ledger manifest total underflow"
  let totalRecords := oldTotal - oldCount + count
  require (totalRecords < 2 ^ 32) "receipt ledger manifest total overflow"
  require (totalRecords ≤ lifetimeCapacity) "receipt ledger lifetime capacity exhausted"
  .ok {
    generation := generation
    previousGeneration := previousGeneration
    previousSha256 := previousSha256
    totalRecords := .ofNat totalRecords
    entries := Function.update entries shard ⟨true, slot, .ofNat count, generation, shardSha256⟩
    bytes := .replicate manifestBytes 0 }

omit [Sha256] in
def ManifestEntry.toBytes (entry : ManifestEntry) : List UInt8 :=
  [entry.present.toUInt8, entry.slot] ++
    (leBytes 2 entry.count.toNat ++ (leBytes 8 entry.generation.toNat ++ entry.shardSha256.val))

def finalizeManifest (manifest : Manifest) (key : Digest) : Except String Manifest := do
  require (manifest.bytes.length == manifestBytes) "receipt ledger manifest size mismatch"
  let total := Manifest.sumOfCounts manifest.entries
  require (total == manifest.totalRecords.toNat && total ≤ lifetimeCapacity)
    "receipt ledger manifest total mismatch"
  let body :=
    manifestMagic ++ (leBytes 2 formatVersion ++ ([0, 0] ++ (leBytes 8 manifest.generation.toNat ++
    (leBytes 8 manifest.previousGeneration.toNat ++ (manifest.previousSha256.val ++
    (leBytes 4 manifest.totalRecords.toNat ++ (leBytes 4 lifetimeCapacity ++
    (shardIndices.map fun index => (manifest.entries index).toBytes).flatten)))))))
  .ok { manifest with bytes := body ++ tag key domainFile body }

omit [Sha256] in
/-- The entry of a shard, as its bytes say. -/
def entryAt (bytes : List UInt8) (index : UInt8) : ManifestEntry :=
  let offset := manifestHeaderBytes + index.toNat * manifestEntryBytes
  ⟨bytes.getD offset 0 == 1, bytes.getD (offset + 1) 0, u16At bytes (offset + 2),
    u64At bytes (offset + 4), sha256At bytes (offset + 12)⟩

omit [Sha256] in
def checkEntry (bytes : List UInt8) (generation : UInt64) (index : UInt8) : Except String Unit := do
  let present := bytes.getD (manifestHeaderBytes + index.toNat * manifestEntryBytes) 0
  require (present ≤ 1) "receipt ledger manifest present flag invalid"
  let entry := entryAt bytes index
  if present == 0 then
    require (entry.slot == 0 && entry.count == 0 && entry.generation == 0 &&
      entry.shardSha256 == zeroSha) "receipt ledger absent manifest entry is non-zero"
  else
    require (entry.slot < 2 && 0 < entry.count && entry.count.toNat ≤ recordsPerShard &&
      0 < entry.generation &&
      entry.generation ≤ generation &&
      entry.shardSha256 != zeroSha) "receipt ledger manifest entry invalid"

def parseManifest (bytes : List UInt8) (key : Digest) : Except String Manifest := do
  require (bytes.length == manifestBytes) "receipt ledger manifest has non-fixed size"
  verifyTag key domainFile bytes
  require (slice bytes 0 8 == manifestMagic) "receipt ledger manifest magic mismatch"
  require ((u16At bytes 8).toNat == formatVersion && allZero (slice bytes 10 2))
    "receipt ledger manifest version/reserved mismatch"
  let generation := u64At bytes 12
  let previousGeneration := u64At bytes 20
  let previousSha256 := sha256At bytes 28
  let totalRecords := u32At bytes 60
  require ((u32At bytes 64).toNat == lifetimeCapacity) "receipt ledger manifest capacity mismatch"
  require (previousGeneration < generation || (generation == 1 && previousGeneration == 0))
    "receipt ledger manifest generation is invalid"
  require (previousGeneration != 0 || previousSha256 == zeroSha)
    "receipt ledger genesis manifest has prior digest"
  shardIndices.forM (checkEntry bytes generation)
  let computed := Manifest.sumOfCounts (entryAt bytes)
  require (computed == totalRecords.toNat && computed ≤ lifetimeCapacity)
    "receipt ledger manifest total is invalid"
  .ok ⟨generation, previousGeneration, previousSha256, totalRecords, entryAt bytes, bytes⟩

/-! ## The journal -/

def serializePending (pending : Pending) (key : Digest) : Except String (List UInt8) := do
  require (pending.manifest.bytes.length == manifestBytes)
    "receipt ledger pending manifest size mismatch"
  require (Sha256.digest pending.manifest.bytes == pending.newManifestSha256)
    "receipt ledger pending manifest digest mismatch"
  let body :=
    pendingMagic ++ (leBytes 2 formatVersion ++ ([0, 0] ++ (pending.oldManifestSha256.val ++
    (leBytes 8 pending.newGeneration.toNat ++
      ([pending.shard, pending.slot] ++ ([0, 0, 0, 0, 0, 0] ++
    (pending.newShardSha256.val ++ (pending.newManifestSha256.val ++ (leBytes 4 manifestBytes ++
    pending.manifest.bytes)))))))))
  .ok (body ++ tag key domainFile body)

def parsePending (bytes : List UInt8) (key : Digest) : Except String Pending := do
  require (bytes.length == pendingBytes) "receipt ledger pending journal has non-fixed size"
  verifyTag key domainFile bytes
  require (slice bytes 0 8 == pendingMagic && (u16At bytes 8).toNat == formatVersion &&
    allZero (slice bytes 10 2)) "receipt ledger pending journal header invalid"
  require (allZero (slice bytes 54 6) && (u32At bytes 124).toNat == manifestBytes)
    "receipt ledger pending journal reserved/length invalid"
  let newGeneration := u64At bytes 44
  let shard := bytes.getD 52 0
  let slot := bytes.getD 53 0
  require (slot < 2) "receipt ledger pending slot invalid"
  let newShardSha256 := sha256At bytes 60
  let newManifestSha256 := sha256At bytes 92
  let manifest ← parseManifest (slice bytes pendingPrefixBytes manifestBytes) key
  require (manifest.generation == newGeneration &&
    Sha256.digest manifest.bytes == newManifestSha256)
    "receipt ledger pending embedded manifest mismatch"
  let entry := manifest.entries shard
  require (entry.present && entry.slot == slot && entry.generation == newGeneration &&
    entry.shardSha256 == newShardSha256) "receipt ledger pending shard binding mismatch"
  .ok ⟨sha256At bytes 12, newGeneration, shard, slot, newShardSha256, newManifestSha256, manifest⟩

end

/-! ## Appending -/

/-- `binary_search` of a sorted list. -/
def binarySearch (handles : List Handle) (handle : Handle) : Except Nat Nat :=
  match handles.findIdx? (· == handle) with
  | some position => .ok position
  | none => .error (handles.takeWhile fun other => decide (other.order < handle.order)).length

/-- A receipt with its frame, as a caller appends it. -/
structure Append where
  handle : Handle
  expected : ContextEvidenceReceipt
  frame : List UInt8

/-- The record is inserted where the search ends, unless it is there already. -/
def Shard.admitRecord (shard : Shard) (append : Append) : Except String Shard :=
  match binarySearch shard.handles append.handle with
  | .ok _ => .ok shard
  | .error position => insertRecord shard position append.handle append.frame

end Neoth.Wal
