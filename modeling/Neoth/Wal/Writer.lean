import Neoth.Lib.Effects
import Neoth.Lib.Json
import Neoth.Wal.Compaction

/-!
# The writer of the WAL

`run_writer` of `wal/writer.rs` for a writer with an HMAC key and without compression, one request
at a time: the barriers of the append-once requests, rotation, the frame and its marker, flush,
shutdown, and the start on a fresh or an existing segment.

What the operating system answers is a script, so that a run is a function of it: each write reaches
the file with all of its bytes or fails behind some of them, each sync and each lookup may fail, and
a crash leaves any part of the file that holds what was synced.  The file is one of `tokio::fs`: it
queues a frame in parts, and the error of a part is the answer to the next write.  The Context
Evidence receipts, which live in a ledger of their own, are left out.
-/

open Lib.Crc32c Lib.Effects Lib.Encoding Neoth.MeshSync

namespace Neoth.Wal.Writer

variable [Xxh3] [Sha256]

/-! ## Files -/

/-- What an attempt comes to; a failed one has got some way. -/
inductive Io
  | done
  | failed (reached : Nat)

/-- The bytes that the file queues at once. -/
def maxBufSize : Nat := 2 * 1024 * 1024

/-- What the queued parts of a frame come to: one before the last has failed, or the last one,
behind some of the bytes that were to be written. -/
inductive Written
  | done
  | partFailed (reached : Nat)
  | lastFailed (reached : Nat)

/-- The error, if there is one, is the answer to the same frame. -/
def Written.isTold : Written → Bool
  | lastFailed _ => false
  | _ => true

/-- An append that was answered with its offset. -/
structure Ack where
  offset : Nat
  event : Event

/-- A segment: what its file holds, how much of that is known to be on the disk, and the appends
that were acknowledged in it, in the order of the answers. -/
structure Segment where
  bytes : List UInt8
  synced : Nat
  acked : List Ack

def Segment.extend (s : Segment) (reached : List UInt8) : Segment :=
  { s with bytes := s.bytes ++ reached }
def Segment.sync (s : Segment) : Segment := { s with synced := s.bytes.length }
def Segment.truncate (s : Segment) (length : Nat) : Segment :=
  { s with bytes := s.bytes.take length, synced := min s.synced length }
def Segment.ack (s : Segment) (a : Ack) : Segment := { s with acked := s.acked ++ [a] }

/-- A file whose name has just been published. -/
def Segment.published (bytes : List UInt8) : Segment := ⟨bytes, bytes.length, []⟩

/-! ## Segment headers -/

def segmentFormatVersionV1 : Nat := 1

/-- The fields before the checksum. -/
def headerFields (generation : Nat) (seq firstEventId startTsNs : UInt64)
    (nodeId : Vector UInt8 16) : List UInt8 :=
  segmentMagic ++
    (leBytes 4 segmentFormatVersionV1 ++ (leBytes 4 generation ++ (leBytes 8 seq.toNat ++
    (leBytes 8 firstEventId.toNat ++ (leBytes 8 startTsNs.toNat ++ nodeId.toList)))))

/-- `new_segment_header_bytes` without compression. -/
def newSegmentHeaderBytes (seq openedAtNs : UInt64) : List UInt8 :=
  let fields := headerFields 0 seq 0 openedAtNs (.replicate 16 0)
  fields ++ leBytes 4 (crc32c fields)

/-! ## Policies and constants -/

structure RotationPolicy where
  maxBytes : Nat
  maxAgeNs : Nat

inductive SegmentPolicy
  | rotating (policy : RotationPolicy)
  | fixed (maxBytes : UInt64)

def SegmentPolicy.isFixed : SegmentPolicy → Bool
  | rotating _ => false
  | fixed _ => true

inductive RotationReason
  | sizeExceeded
  | ageExceeded

def RotationReason.asStr : RotationReason → String
  | sizeExceeded => "size"
  | ageExceeded => "age"

def maxCompactionMarkerFrameBytes : Nat := 512
def maxRotationSuccessorPrefixBytes : Nat := 16 * 1024
def legacyRotationTargetBytes : Nat := 16 * 1024 * 1024
def legacyMaxFrameBytes : Nat := 16 * 1024 * 1024 + 104
def legacySealEnvelopeBytes : Nat := 1024 * 1024
def legacySafeMaxSegmentPhysicalBytes : Nat :=
  legacyRotationTargetBytes + legacyMaxFrameBytes + legacySealEnvelopeBytes

/-- What a writer is started with. -/
structure Config where
  policy : SegmentPolicy
  key : List UInt8
  archivedKeys : List (List UInt8)
  /-- The number in the name of the first segment. -/
  seq : UInt64
  /-- The name of a segment of the chain, and its path. -/
  segmentName : UInt64 → String
  segmentPath : UInt64 → String
  /-- The system does not open a path above 4096 bytes. -/
  path_fits : ∀ seq, byteLen (segmentPath seq) ≤ 4096

/-- The active key comes first. -/
def Config.verificationKeys (cfg : Config) : List (List UInt8) := cfg.key :: cfg.archivedKeys

/-! ## Event types -/

def eventTypeExtended : UInt8 := 0x00
def eventTypeRawText : UInt8 := 0x01

/-- The event types that wait for the next sync. -/
def batchableEventTypes : List UInt8 :=
  [0x23, 0x80, 0x81, 0x82, 0x83, 0x8b, 0x8c, 0x2a, 0x2b, 0xed, 0xee, 0xef, 0x4a, 0x58, 0x59, 0x5b,
    0x5c, 0x5f]

def needsImmediateSync (eventType : UInt8) : Bool := !batchableEventTypes.contains eventType

/-- The append-once requests. -/
inductive OnceKind
  | transcriptMining
  | dreamAudit
  | redactionRewrite
  | counterpartyConsent
  | trustDecision
  | companionMutation
  | paperlessPostIntent
  | emailVault
  deriving DecidableEq

/-- The subtypes of `EXTENDED` events that only an append-once request may carry. -/
def OnceKind.subtypes : OnceKind → List UInt8
  | transcriptMining => [0x28, 0x29]
  | dreamAudit => [0x32]
  | redactionRewrite => [0x33]
  | counterpartyConsent => [0x2f, 0x30, 0x31]
  | trustDecision => [0x2a]
  | companionMutation => [0x3b]
  | paperlessPostIntent => [0x3c]
  | emailVault => [0x3e]

/-- What the authenticated scan finds under the request's key. -/
inductive Lookup
  | absentComplete
  | expiredAbsent
  | exact
  | completedExact
  | conflict
  | duplicate
  | capacity
  | indeterminate
  deriving DecidableEq

/-- The descriptor of an append-once request, with what the daemon makes of it outside the
writer. -/
structure Once where
  kind : OnceKind
  /-- The home and the descriptor are those of the request. -/
  matchesRequest : Bool
  authorityAcquired : Bool
  lookup : Lookup

/-- A request as the handle queues it: the frame is one that the builder has made, of a payload
within the limit. -/
structure Request where
  event : Event
  forceAuthenticationMarker : Bool
  once : Option Once
  /-- `is_durable_trust_admission_payload`; `none` if the payload cannot be read. -/
  durableTrust : Option Bool
  sized : event.Sized
  fits : event.payload.length ≤ maxPayloadBytes

namespace Request

def hasSubtype (req : Request) (subtypes : List UInt8) : Bool :=
  req.event.header.eventType == eventTypeExtended && subtypes.contains req.event.header.eventSubtype

def isContextEvidenceReceipt (req : Request) : Bool := req.hasSubtype [0x27]

def carries (req : Request) (kind : OnceKind) : Bool := req.once.any (·.kind == kind)

/-- Only a request of this kind may write the event. -/
def reservedFor (req : Request) (kind : OnceKind) : Bool :=
  req.hasSubtype kind.subtypes && (kind != .trustDecision || req.durableTrust == some true)

/-- The kinds whose events and requests belong together; a transcript may also be written as
`RAW_TEXT`. -/
def exactKinds : List OnceKind :=
  [.dreamAudit, .redactionRewrite, .counterpartyConsent, .trustDecision, .companionMutation,
    .paperlessPostIntent, .emailVault]

/-- The two checks at the head of the loop: the event is one that the request may write. -/
def isAdmissible (req : Request) : Bool :=
  !(req.hasSubtype OnceKind.trustDecision.subtypes && req.durableTrust.isNone) &&
    !req.isContextEvidenceReceipt &&
    exactKinds.all (fun kind => req.reservedFor kind == req.carries kind) &&
    (!req.reservedFor .transcriptMining || req.carries .transcriptMining) &&
    (!req.carries .transcriptMining || req.reservedFor .transcriptMining ||
      req.event.header.eventType == eventTypeRawText) &&
    (req.once.isNone || req.forceAuthenticationMarker)

end Request

/-! ## The state of the task -/

structure WriterState where
  offset : Nat
  seq : UInt64
  openedAtNs : UInt64
  compaction : CompactionState
  pendingUnsynced : Bool
  /-- The file has an error to report. -/
  lastWriteErr : Bool

/-- What the task meets with: the outcomes of its attempts and of its writes, the stamps of the
headers that it builds, the readings of the clock.  Where a list has come to its end everything goes
well. -/
structure Script where
  io : List Io
  writes : List Written
  stamps : List Hlc
  times : List UInt64

/-- A running writer with its files, the closed segments in their order. -/
structure Running where
  closed : List Segment
  active : Segment
  state : WriterState
  script : Script

/-- Why the task has ended. -/
inductive Stop
  | authority
  | io
  | preflight
  | panicked
  | markerTooLong (length : Nat)
  | exceeds (projected ceiling : Nat)
  | predecessor
  | successorTooLong (length : Nat)
  | segmentTooLong (length : Nat)
  | alreadyExists
  | sealedSegment
  | segmentHeader (e : WalError)
  | recovery (e : RecoveryError)

abbrev Task (A : Type) : Type := Prog Running Stop A

namespace Running

def setActive (r : Running) (active : Segment) : Running := { r with active := active }
def setState (r : Running) (state : WriterState) : Running := { r with state := state }
def setCompaction (r : Running) (c : CompactionState) : Running :=
  r.setState { r.state with compaction := c }
def setPending (r : Running) (pending : Bool) : Running :=
  r.setState { r.state with pendingUnsynced := pending }
def setLastWriteErr (r : Running) (err : Bool) : Running :=
  r.setState { r.state with lastWriteErr := err }
def advance (r : Running) (length : Nat) : Running :=
  r.setState { r.state with offset := r.state.offset + length }

end Running

/-! ## What is attempted -/

def nextIo : Task Io := fun r =>
  match r.script.io with
  | [] => (.ok .done, r)
  | outcome :: io => (.ok outcome, { r with script := { r.script with io := io } })

def nextWritten : Task Written := fun r =>
  match r.script.writes with
  | [] => (.ok .done, r)
  | written :: writes => (.ok written, { r with script := { r.script with writes := writes } })

def nextStamp : Task Hlc := fun r =>
  match r.script.stamps with
  | [] => (.ok .epoch, r)
  | stamp :: stamps => (.ok stamp, { r with script := { r.script with stamps := stamps } })

/-- `current_ns`. -/
def nextTime : Task UInt64 := fun r =>
  match r.script.times with
  | [] => (.ok 0, r)
  | time :: times => (.ok time, { r with script := { r.script with times := times } })

def tryIo (e : Stop) : Task Unit := do
  match ← nextIo with
  | .done => pure ()
  | .failed _ => Prog.throw e

/-- `validate_hmac_writer_authority`. -/
def validate : Task Unit := tryIo .authority

/-- Where the last part of the frame begins. -/
def lastPart (frame : List UInt8) : Nat := (frame.length - 1) / maxBufSize * maxBufSize

/-- `write_only`.  An error that the file has kept is reported, and nothing is written. -/
def writeOnly (frame : List UInt8) : Task Unit := do
  let r ← Prog.get
  if r.state.lastWriteErr then do
    Prog.modify fun r => r.setLastWriteErr false
    Prog.throw .io
  else
    match ← nextWritten with
    | .done => Prog.modify fun r => r.setActive (r.active.extend frame)
    | .partFailed reached =>
      -- only a frame of several parts has one before the last, and the next part reports its error
      if lastPart frame = 0 then Prog.modify fun r => r.setActive (r.active.extend frame)
      else do
        Prog.modify fun r =>
          r.setActive (r.active.extend (frame.take (min reached (lastPart frame))))
        Prog.throw .io
    | .lastFailed reached =>
      Prog.modify fun r =>
        (r.setActive (r.active.extend (frame.take (lastPart frame + reached)))).setLastWriteErr true

/-- `sync_data`, which waits for what is queued and leaves its error for the next write. -/
def syncData : Task Unit := do
  match ← nextIo with
  | .done => Prog.modify fun r => r.setActive r.active.sync
  | .failed _ => Prog.throw .io

def writeAndSync (frame : List UInt8) : Task Unit := do
  writeOnly frame
  syncData

def syntheticFlag : { bits : UInt8 // bits &&& 0xe0 = 0 } := ⟨0x04, rfl⟩

/-- An event of the writer's own. -/
def syntheticEvent (eventType : UInt8) (payload : List UInt8) (stamp : Hlc) : Event :=
  ⟨({ HeaderBuilder.new eventType payload with flags := syntheticFlag } : HeaderBuilder).build
    stamp, payload⟩

/-- The frame of a synthetic event; `encode_frame` panics when the lengths do not fit the header. -/
def syntheticFrame (eventType : UInt8) (payload : List UInt8) : Task (List UInt8) := do
  let stamp ← nextStamp
  let event := syntheticEvent eventType payload stamp
  if event.header.totalLen.toNat = preambleLen + headerBodyLen + event.payload.length + crcLen ∧
      event.header.payloadLen.toNat = event.payload.length then
    pure (encodeFrame event)
  else Prog.throw .panicked

/-! ## Room -/

def ceilingOf : SegmentPolicy → Nat
  | .rotating _ => legacySafeMaxSegmentPhysicalBytes
  | .fixed maxBytes => maxBytes.toNat

def ensureFrameFits (cfg : Config) (frameLen : Nat) : Task Unit := do
  let r ← Prog.get
  Prog.check (decide (r.state.offset + frameLen ≤ ceilingOf cfg.policy))
    (.exceeds (r.state.offset + frameLen) (ceilingOf cfg.policy))

def shouldRotate (policy : SegmentPolicy) (state : WriterState) (nowNs : UInt64)
    (nextFrameLen markerReserve : Nat) : Option RotationReason :=
  match policy with
  | .fixed _ => none
  | .rotating policy =>
    if policy.maxBytes ≤ state.offset ∨
        segmentHeaderLen < state.offset ∧
        policy.maxBytes < state.offset + nextFrameLen + markerReserve then
      some .sizeExceeded
    else if policy.maxAgeNs ≤ nowNs.toNat - state.openedAtNs.toNat then some .ageExceeded
    else none

/-- The room that is kept for a marker behind the frame. -/
def markerReserve (cfg : Config) (req : Request) (compaction : CompactionState) : Nat :=
  let frameLen := (encodeFrame req.event).length
  let frameTriggersMarker := maxFramesBetweenMarkers ≤ compaction.framesSinceMarker + 1 ||
    maxBytesBetweenMarkers ≤ compaction.bytesSinceMarker + frameLen
  if !cfg.policy.isFixed || frameTriggersMarker || req.forceAuthenticationMarker
    then maxCompactionMarkerFrameBytes
  else 0

/-! ## Markers and rotation -/

def emitCompactionMarker (cfg : Config) : Task Unit := do
  let r ← Prog.get
  if r.state.compaction.framesSinceMarker = 0 then pure ()
  else do
    let (marker, fresh) := r.state.compaction.finaliseMarker cfg.key r.state.offset
    Prog.modify fun r => r.setCompaction fresh
    let tsNs ← nextTime
    let frame ← syntheticFrame eventTypeCompactionMarker (marker.toVec tsNs.toNat)
    Prog.check (decide (frame.length ≤ maxCompactionMarkerFrameBytes)) (.markerTooLong frame.length)
    ensureFrameFits cfg frame.length
    writeAndSync frame
    Prog.modify fun r =>
      (r.advance frame.length).setCompaction (.new (r.state.offset + frame.length))

/-- The payload of `SEGMENT_ROLLOVER`. -/
structure SegmentLink where
  closedName : String
  closed : SegmentHeader
  closedBytes : Nat
  closedPhysicalBytes : Nat
  closedSha256 : List UInt8
  openedName : String
  openedSeq : UInt64
  openedStartTsNs : UInt64
  reason : RotationReason
  tsNs : UInt64

def SegmentLink.toVec (l : SegmentLink) : List UInt8 :=
  Lib.Json.object [
    Lib.Json.field "closed_bytes" (Lib.Json.nat l.closedBytes),
    Lib.Json.field "closed_generation" (Lib.Json.nat l.closed.generation.toNat),
    Lib.Json.field "closed_node_id" (Lib.Json.bytes l.closed.nodeId.toList),
    Lib.Json.field "closed_physical_bytes" (Lib.Json.nat l.closedPhysicalBytes),
    Lib.Json.field "closed_segment_name" (Lib.Json.string l.closedName),
    Lib.Json.field "closed_seq" (Lib.Json.nat l.closed.segmentSeq.toNat),
    Lib.Json.field "closed_sha256_hex" (Lib.Json.string (hexEncode l.closedSha256)),
    Lib.Json.field "closed_start_ts_ns" (Lib.Json.nat l.closed.segmentStartTsNs.toNat),
    Lib.Json.field "link_domain" (Lib.Json.string "neoth.wal.cross-segment.v1"),
    Lib.Json.field "link_version" (Lib.Json.nat 1),
    Lib.Json.field "opened_generation" (Lib.Json.nat 0),
    Lib.Json.field "opened_node_id" (Lib.Json.bytes (List.replicate 16 0)),
    Lib.Json.field "opened_segment_name" (Lib.Json.string l.openedName),
    Lib.Json.field "opened_seq" (Lib.Json.nat l.openedSeq.toNat),
    Lib.Json.field "opened_start_ts_ns" (Lib.Json.nat l.openedStartTsNs.toNat),
    Lib.Json.field "reason" (Lib.Json.string l.reason.asStr),
    Lib.Json.field "ts_ns" (Lib.Json.nat l.tsNs.toNat)]

/-- The header of the successor, the frame that links it to its predecessor, and the marker over
that frame. -/
def successorPrefix (cfg : Config) (link : SegmentLink) : Task (List UInt8) := do
  let newHeader := newSegmentHeaderBytes link.openedSeq link.openedStartTsNs
  let linkFrame ← syntheticFrame eventTypeSegmentRollover link.toVec
  let linkEnd := newHeader.length + linkFrame.length
  let marker :=
    (((CompactionState.new newHeader.length).update linkFrame).finaliseMarker cfg.key linkEnd).1
  let markerFrame ← syntheticFrame eventTypeCompactionMarker (marker.toVec link.tsNs.toNat)
  pure (newHeader ++ (linkFrame ++ markerFrame))

/-- `open_segment`, which commits the name of a complete file, or fails before or behind that. -/
def publish (bytes : List UInt8) : Task Unit := do
  match ← nextIo with
  | .done =>
    Prog.modify fun r => { r with closed := r.closed ++ [r.active], active := .published bytes }
  | .failed 0 => Prog.throw .io
  | .failed (_ + 1) => do
    Prog.modify fun r => { r with closed := r.closed ++ [r.active], active := .published bytes }
    Prog.throw .io

def rotate (cfg : Config) (reason : RotationReason) : Task Unit := do
  emitCompactionMarker cfg
  syncData
  -- the read of `closed_segment_binding`
  tryIo .predecessor
  let r ← Prog.get
  Prog.check (decide (r.active.bytes.length ≤ legacySafeMaxSegmentPhysicalBytes)) .predecessor
  match parseSegmentHeader r.active.bytes with
  | .error e => Prog.throw (.segmentHeader e)
  | .ok predecessor => do
    Prog.check (predecessor.base.segmentSeq == r.state.seq) .predecessor
    let nextSeq := r.state.seq + 1
    let nowNs ← nextTime
    let bytes ← successorPrefix cfg ⟨cfg.segmentName r.state.seq, predecessor.base,
      r.state.offset, r.active.bytes.length, (Sha256.digest r.active.bytes).val,
      cfg.segmentName nextSeq, nextSeq, nowNs, reason, nowNs⟩
    Prog.check (decide (bytes.length ≤ maxRotationSuccessorPrefixBytes))
      (.successorTooLong bytes.length)
    publish bytes
    Prog.modify fun r => r.setState { r.state with
      seq := nextSeq
      openedAtNs := nowNs
      offset := bytes.length
      compaction := .new bytes.length
      lastWriteErr := false }

/-! ## Requests -/

/-- The barriers that come before the validation of the loop. -/
def OnceKind.isEarly : OnceKind → Bool
  | transcriptMining | dreamAudit | redactionRewrite | counterpartyConsent => true
  | trustDecision | companionMutation | paperlessPostIntent | emailVault => false

/-- The barriers that validate the HMAC authority before their marker. -/
def OnceKind.validates : OnceKind → Bool
  | transcriptMining | dreamAudit | redactionRewrite | counterpartyConsent | trustDecision => true
  | companionMutation | paperlessPostIntent | emailVault => false

/-- The barriers that answer the request and go on when their marker has failed. -/
def OnceKind.goesOn : OnceKind → Bool
  | transcriptMining | dreamAudit | redactionRewrite | counterpartyConsent | trustDecision => false
  | companionMutation | paperlessPostIntent | emailVault => true

inductive Answer
  | appended (offset : Nat)
  | found (lookup : Lookup)
  | flushed
  | refused
  /-- The task has ended, or there is none. -/
  | closed
  deriving DecidableEq

/-- The answer that ends the request; only what is absent is appended. -/
def Lookup.answer : Lookup → Option Answer
  | .absentComplete => none
  | lookup => some (.found lookup)

/-- An append-once request up to its lookup. -/
def barrier (cfg : Config) (once : Once) : Task (Option Answer) :=
  if !once.matchesRequest || !once.authorityAcquired then pure (some .refused)
  else do
    Prog.when validate once.kind.validates
    let r ← Prog.get
    match ← (emitCompactionMarker cfg).attempt with
    | .error e => if once.kind.goesOn then pure (some .refused) else Prog.throw e
    | .ok () => do
      -- the barrier of a trust decision clears the flag only when it has written a marker, and
      -- validates again
      Prog.when (Prog.modify fun r => r.setPending false)
        (once.kind != .trustDecision || r.state.compaction.framesSinceMarker != 0)
      Prog.when validate (once.kind == .trustDecision)
      pure once.lookup.answer

def barrierOf (cfg : Config) (req : Request) (early : Bool) : Task (Option Answer) :=
  match req.once with
  | some once => if once.kind.isEarly = early then barrier cfg once else pure none
  | none => pure none

/-- What was written before is made durable, then the segment is closed. -/
def rotateFor (cfg : Config) : Option RotationReason → Task Unit
  | none => pure ()
  | some reason => do
    validate
    let r ← Prog.get
    Prog.when (do
      syncData
      Prog.modify fun r => r.setPending false) r.state.pendingUnsynced
    rotate cfg reason

/-- Rotation before a frame that does not fit, and the refusal of one that fits no segment. -/
def makeRoom (cfg : Config) (req : Request) : Task Unit := do
  let r ← Prog.get
  let frameLen := (encodeFrame req.event).length
  let reserve := markerReserve cfg req r.state.compaction
  let nowNs ← nextTime
  rotateFor cfg (shouldRotate cfg.policy r.state nowNs frameLen reserve)
  validate
  ensureFrameFits cfg (frameLen + reserve)

/-- All that comes before the frame is written. -/
def prepare (cfg : Config) (req : Request) : Task (Option Answer) :=
  if !req.isAdmissible then pure (some .refused)
  else do
    match ← barrierOf cfg req true with
    | some answer => pure (some answer)
    | none => do
      validate
      match ← barrierOf cfg req false with
      | some answer => pure (some answer)
      | none => do
        makeRoom cfg req
        pure none

def markerBehind (cfg : Config) : Task Unit := do
  validate
  emitCompactionMarker cfg
  Prog.modify fun r => r.setPending false

/-- The frame, its share of the tracker, and the marker that it triggers. -/
def writeFrame (cfg : Config) (req : Request) : Task Answer := do
  let frame := encodeFrame req.event
  let immediate := needsImmediateSync req.event.header.eventType
  match ← (if immediate then writeAndSync frame else writeOnly frame).attempt with
  -- a rotating writer answers the error and goes on; the offset stays where it was
  | .error e => if cfg.policy.isFixed then Prog.throw e else pure .refused
  | .ok () => do
    let before ← Prog.get
    let writtenAt := before.state.offset
    Prog.modify fun r =>
      ((r.advance frame.length).setCompaction (r.state.compaction.update frame)).setPending
        !immediate
    let r ← Prog.get
    Prog.when (markerBehind cfg) (r.state.compaction.shouldEmit || req.forceAuthenticationMarker)
    Prog.modify fun r => r.setActive (r.active.ack ⟨writtenAt, req.event⟩)
    pure (.appended writtenAt)

def serve (cfg : Config) (req : Request) : Task Answer := do
  match ← prepare cfg req with
  | some answer => pure answer
  | none => writeFrame cfg req

def flush (cfg : Config) : Task Answer := do
  validate
  match ← syncData.attempt with
  | .error e => if cfg.policy.isFixed then Prog.throw e else pure .refused
  | .ok () => do
    Prog.modify fun r => r.setPending false
    pure .flushed

/-- A rotating writer only warns of a failure. -/
def finalSync (cfg : Config) : Task Unit := do
  match ← syncData.attempt with
  | .error e => if cfg.policy.isFixed then Prog.throw e else pure ()
  | .ok () => pure ()

/-- What follows when the last handle is gone. -/
def shutdown (cfg : Config) : Task Unit := do
  Prog.when (markerBehind cfg) (!cfg.policy.isFixed)
  validate
  let r ← Prog.get
  Prog.when (finalSync cfg) r.state.pendingUnsynced
  validate

/-! ## Starting -/

/-- The payload of `RECOVERY_TRUNCATED`. -/
def recoveryPayload (path : String) (goodThrough tornAt bytesDropped : Nat) (tsUnix : UInt64) :
    List UInt8 :=
  Lib.Json.object [
    Lib.Json.field "bytes_dropped" (Lib.Json.nat bytesDropped),
    Lib.Json.field "good_through" (Lib.Json.nat goodThrough),
    Lib.Json.field "segment_path" (Lib.Json.string path),
    Lib.Json.field "torn_at" (Lib.Json.nat tornAt),
    Lib.Json.field "ts_unix" (Lib.Json.nat tsUnix.toNat)]

/-- The audit frame behind a tail that was cut off. -/
def auditTruncation (cfg : Config) (goodThrough tornAt bytesDropped : Nat) : Task Unit := do
  validate
  let tsUnix ← nextTime
  let r ← Prog.get
  let frame ← syntheticFrame eventTypeRecoveryTruncated
    (recoveryPayload (cfg.segmentPath r.state.seq) goodThrough tornAt bytesDropped tsUnix)
  writeAndSync frame
  Prog.modify fun r => (r.advance frame.length).setCompaction (r.state.compaction.update frame)

def auditDropped (cfg : Config) : Option (Nat × Nat × Nat) → Task Unit
  | none => pure ()
  | some (goodThrough, tornAt, bytesDropped) => auditTruncation cfg goodThrough tornAt bytesDropped

/-- Truncation to the last good frame; the result says what was dropped. -/
def truncateTail : Task (Option (Nat × Nat × Nat)) := do
  let r ← Prog.get
  match scanTailFile r.active.bytes with
  | .clean _ => pure none
  | .tornAt goodThrough tornAt => do
    tryIo .io
    Prog.modify fun r => r.setActive (r.active.truncate goodThrough)
    syncData
    pure (some (goodThrough, tornAt, r.active.bytes.length - goodThrough))

/-- A writer on an existing segment, up to its readiness. -/
def resume (cfg : Config) : Task Unit := do
  tryIo .preflight
  Prog.check (!cfg.policy.isFixed) .alreadyExists
  let r ← Prog.get
  Prog.check (decide (r.active.bytes.length ≤ legacySafeMaxSegmentPhysicalBytes))
    (.segmentTooLong r.active.bytes.length)
  match parseSegmentHeader r.active.bytes with
  | .error e => Prog.throw (.segmentHeader e)
  | .ok parsed => do
    Prog.check (!parsed.isCompressed && !parsed.isSealed) .sealedSegment
    let dropped ← truncateTail
    let r ← Prog.get
    match recoverCompactionState cfg.verificationKeys r.active.bytes with
    | .error e => Prog.throw (.recovery e)
    | .ok compaction => do
      Prog.modify fun r => r.setState {
        offset := r.active.bytes.length
        seq := parsed.base.segmentSeq
        openedAtNs := parsed.base.segmentStartTsNs
        compaction
        pendingUnsynced := false
        lastWriteErr := false }
      auditDropped cfg dropped
      validate
      emitCompactionMarker cfg

/-! ## Runs -/

/-- The files of the chain, and the task that writes them. -/
structure Home where
  closed : List Segment
  active : Option Segment
  task : Option WriterState

def Home.empty : Home := ⟨[], none, none⟩

inductive Input
  | start (script : Script)
  | request (req : Request) (script : Script)
  | flush (script : Script)
  | shutdown (script : Script)
  /-- The machine stops, and keeps of the active file at least what was synced. -/
  | crash (kept : Nat)

/-- The state before the task has set its own. -/
def WriterState.unset : WriterState := ⟨0, 0, 0, .new 0, false, false⟩

namespace Home

/-- The task has returned an answer and goes on, or it has ended. -/
def resumeWith {A : Type} (answer : A → Answer) (goesOn : Bool) : Except Stop A × Running →
    Home × Answer
  | (.ok a, r) => (⟨r.closed, some r.active, if goesOn then some r.state else none⟩, answer a)
  | (.error _, r) => (⟨r.closed, some r.active, none⟩, .closed)

/-- A request to a task that is running. -/
def runTask {A : Type} (h : Home) (x : Task A) (script : Script) (answer : A → Answer)
    (goesOn : Bool) : Home × Answer :=
  match h.active, h.task with
  | some active, some state => resumeWith answer goesOn (x ⟨h.closed, active, state, script⟩)
  | _, _ => (h, .closed)

def startFresh (cfg : Config) (h : Home) (script : Script) : Home × Answer :=
  let openedAtNs := script.times.headD 0
  let bytes := newSegmentHeaderBytes cfg.seq openedAtNs
  match script.io.headD .done with
  | .done => (⟨h.closed, some (.published bytes),
      some ⟨bytes.length, cfg.seq, openedAtNs, .new bytes.length, false, false⟩⟩, .flushed)
  | .failed 0 => (h, .closed)
  | .failed (_ + 1) => (⟨h.closed, some (.published bytes), none⟩, .closed)

def start (cfg : Config) (h : Home) (script : Script) : Home × Answer :=
  match h.active, h.task with
  | none, _ => h.startFresh cfg script
  | some active, none =>
    resumeWith (fun _ => .flushed) true (resume cfg ⟨h.closed, active, .unset, script⟩)
  | some _, some _ => (h, .closed)

def step (cfg : Config) (h : Home) : Input → Home × Answer
  | .start script => h.start cfg script
  | .request req script => h.runTask (serve cfg req) script id true
  | .flush script => h.runTask (Writer.flush cfg) script id true
  | .shutdown script => h.runTask (Writer.shutdown cfg) script (fun _ => .closed) false
  | .crash kept => (⟨h.closed, h.active.map fun s => s.truncate (max s.synced kept), none⟩, .closed)

/-- The home after some inputs. -/
def after (cfg : Config) (inputs : List Input) : Home :=
  (Lib.Machine.run (step cfg) .empty inputs).1

end Home

end Neoth.Wal.Writer
