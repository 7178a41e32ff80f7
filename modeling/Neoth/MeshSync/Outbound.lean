import Neoth.MeshSync.Frontier
import Neoth.MeshSync.Materialize
import Neoth.MeshSync.Scan

/-!
# Durable sync: the sending side

The rows `cluster/durable_sync.rs` keeps for one destination within one membership
incarnation: the acknowledged cursor, the one pending frame, and the sequence number
each content was given (`Outbox`).  Columns that hold JSON hold the value.  Every
function is one transaction; the WAL is scanned between two of them.

* `stageFrame_spec`: the frame a staging leaves pending, and the rows it writes;
* `allocateSequence_spec`: a content keeps its number, and a new one takes the next;
* `acknowledgeOutbound_spec`: only the exact pending frame is acknowledged.
-/

open Std Lib.Transaction Lib.TreeMap

namespace Neoth.MeshSync

/-! ## Rows -/

structure LocalEvent where
  contentSha256 : Digest
  envelope : SyncEnvelope
  deriving DecidableEq

structure OutboundRow where
  cursor : GossipWalCursor
  ackedOriginSeq : Nat
  ackedContentSha256 : Option Digest

/-- The row a destination starts with: nothing acknowledged, the WAL from its oldest segment. -/
def OutboundRow.fresh : OutboundRow := ⟨.start, 0, none⟩

structure PendingRow where
  originSeq : Nat
  contentSha256 : Digest
  wireFrame : GossipFrame
  nextCursor : GossipWalCursor

structure Outbox where
  outbound : Option OutboundRow
  pending : Option PendingRow
  localEvents : ExtTreeMap Nat LocalEvent

def Outbox.empty : Outbox := ⟨none, none, ∅⟩

/-- The acknowledged cursor. -/
def Outbox.cursor (outbox : Outbox) : GossipWalCursor := (outbox.outbound.getD .fresh).cursor

structure PreparedFrame where
  frame : GossipFrame
  replayedPending : Bool

inductive OutboundAckOutcome
  | applied
  | duplicate

/-! ## Loading -/

def validatePending [Sha256] (pending : PendingRow) (origin : PeerPubkey) :
    Except String GossipFrame := do
  let frame := pending.wireFrame
  require (frame.protocolVersion == syncProtocolVersion)
    s!"pending mesh protocol version {frame.protocolVersion} is not {syncProtocolVersion}"
  require (frame.origin == origin) "pending mesh origin mismatch"
  require (frame.eventSeq == pending.originSeq) "pending mesh sequence mismatch"
  require (frame.contentSha256 == pending.contentSha256) "pending mesh digest mismatch"
  require (frame.contentSha256 == frame.envelope.contentSha256)
    "pending mesh envelope digest mismatch"
  require (decide (0 < frame.vectorClock.counterOf origin))
    "pending mesh vector clock is missing its origin slot"
  require (decide (frame.vectorClock.size ≤ maxVectorClockPeers))
    "pending mesh vector clock exceeds the bounded peer limit"
  pure frame

def validateCursorTarget (wal : Wal) (segment : String) (offset : Nat) : Except String Unit := do
  let body ← context wal[segment]? s!"read durable mesh cursor segment {segment}"
  require (decide (offset ≤ body.length))
    s!"durable mesh cursor offset {offset} exceeds logical segment length {body.length}"

def validatePendingCursor (pending : PendingRow) (wal : Wal) : Except String Unit := do
  let segment ← context pending.nextCursor.segment "pending mesh frame has no next WAL segment"
  validateCursorTarget wal segment pending.nextCursor.offset

/-- An acknowledged number comes with its digest, and only then. -/
def OutboundRow.checkAcked (row : OutboundRow) : Except String Unit :=
  match row.ackedOriginSeq, row.ackedContentSha256 with
  | 0, none => .ok ()
  | 0, some _ => .error "corrupt mesh cursor has a digest without an ACK"
  | _ + 1, some _ => .ok ()
  | _ + 1, none => .error "corrupt mesh cursor is missing its ACK digest"

def OutboundRow.checkCursor (row : OutboundRow) (wal : Wal) : Except String Unit :=
  match row.cursor.segment with
  | some segment => validateCursorTarget wal segment row.cursor.offset
  | none => require (row.cursor.offset == 0) "mesh cursor without a segment has an offset"

def loadOutboundState (outbox : Outbox) (wal : Wal) : Except String GossipWalCursor :=
  match outbox.outbound with
  | none => .ok .start
  | some row => do
    row.checkAcked
    row.checkCursor wal
    pure row.cursor

/-- The first transaction of `prepare_peer_frame`: the pending frame, or where to scan from. -/
def loadState [Sha256] (outbox : Outbox) (wal : Wal) (origin : PeerPubkey) :
    Except String (Option GossipFrame × GossipWalCursor) :=
  match outbox.pending with
  | some pending => do
    let frame ← validatePending pending origin
    validatePendingCursor pending wal
    pure (some frame, .start)
  | none => do
    let cursor ← loadOutboundState outbox wal
    pure (none, cursor)

variable {origin : PeerPubkey} {frame : GossipFrame} {cursor : GossipWalCursor}

theorem loadState_of_pending [Sha256] {outbox : Outbox} {wal : Wal}
    (h : loadState outbox wal origin = .ok (some frame, cursor)) :
    ∃ pending, outbox.pending = some pending ∧ frame = pending.wireFrame := by
  unfold loadState at h
  cases hpending : outbox.pending with
  | none =>
    rw [hpending] at h
    simp only [bind_eq_ok_iff] at h
    obtain ⟨_, -, h⟩ := h
    cases h
  | some pending =>
    rw [hpending] at h
    simp only [bind_eq_ok_iff] at h
    obtain ⟨checked, hvalid, -, -, h⟩ := h
    cases h
    unfold validatePending at hvalid
    simp only [bind_eq_ok_iff] at hvalid
    obtain ⟨-, -, -, -, -, -, -, -, -, -, -, -, -, -, hvalid⟩ := hvalid
    cases hvalid
    exact ⟨pending, rfl, rfl⟩

theorem loadState_of_cursor [Sha256] {outbox : Outbox} {wal : Wal}
    (h : loadState outbox wal origin = .ok (none, cursor)) :
    outbox.pending = none ∧ cursor = outbox.cursor := by
  unfold loadState at h
  cases hpending : outbox.pending with
  | some pending =>
    rw [hpending] at h
    simp only [bind_eq_ok_iff] at h
    obtain ⟨_, -, -, -, h⟩ := h
    cases h
  | none =>
    rw [hpending] at h
    simp only [bind_eq_ok_iff] at h
    obtain ⟨loaded, hload, h⟩ := h
    cases h
    refine ⟨rfl, ?_⟩
    unfold loadOutboundState at hload
    unfold Outbox.cursor
    cases hrow : outbox.outbound with
    | none =>
      rw [hrow] at hload
      cases hload
      rfl
    | some row =>
      rw [hrow] at hload
      simp only [bind_eq_ok_iff] at hload
      obtain ⟨-, -, -, -, hload⟩ := hload
      cases hload
      rfl

/-! ## Sequence numbers -/

/-- The number a content goes by: the one it was given before, or the next. -/
def allocateSequence (localEvents : ExtTreeMap Nat LocalEvent) (digest : Digest)
    (envelope : SyncEnvelope) : Except String (Nat × ExtTreeMap Nat LocalEvent) :=
  match localEvents.toList.find? (fun entry => entry.2.contentSha256 == digest) with
  | some (seq, stored) => do
    require (stored.envelope == envelope) "local mesh digest maps to a different canonical envelope"
    require (decide (0 < seq)) "corrupt durable mesh value: local mesh origin_seq"
    pure (seq, localEvents)
  | none => do
    let next := lastKey localEvents + 1
    require (decide (next < 2 ^ 63)) "corrupt durable mesh value: next local mesh origin_seq"
    pure (next, localEvents.insert next ⟨digest, envelope⟩)

variable {envelope : SyncEnvelope}

theorem allocateSequence_spec {localEvents localEvents' : ExtTreeMap Nat LocalEvent}
    {digest : Digest}
    {seq : Nat} (h : allocateSequence localEvents digest envelope = .ok (seq, localEvents')) :
    (localEvents' = localEvents ∧ 0 < seq ∧
        localEvents[seq]? = some (LocalEvent.mk digest envelope)) ∨
      (seq = lastKey localEvents + 1 ∧ seq < 2 ^ 63 ∧
        localEvents' = localEvents.insert seq ⟨digest, envelope⟩ ∧
        ∀ (k : Nat) (event : LocalEvent), localEvents[k]? = some event →
          event.contentSha256 ≠ digest) := by
  unfold allocateSequence at h
  split at h
  · rename_i found stored hfind
    simp only [bind_eq_ok_iff, require_eq_ok_iff, beq_iff_eq, decide_eq_true_eq] at h
    obtain ⟨-, henvelope, -, hpos, h⟩ := h
    cases h
    have hmem := ExtTreeMap.mem_toList_iff_getElem?_eq_some.mp (List.mem_of_find?_eq_some hfind)
    have hmatch := List.find?_some hfind
    have hdigest : stored.contentSha256 = digest := eq_of_beq hmatch
    refine .inl ⟨rfl, hpos, ?_⟩
    rw [hmem, ← hdigest, ← henvelope]
  · rename_i hfind
    simp only [bind_eq_ok_iff, require_eq_ok_iff, decide_eq_true_eq] at h
    obtain ⟨-, hbound, h⟩ := h
    cases h
    refine .inr ⟨rfl, hbound, rfl, ?_⟩
    intro k event hk hdigest
    have hnone := List.find?_eq_none.mp hfind (k, event)
      (ExtTreeMap.mem_toList_iff_getElem?_eq_some.mpr hk)
    simp [hdigest] at hnone

/-- A number that was given out before is given again to its own content only. -/
theorem allocateSequence_reused {localEvents localEvents' : ExtTreeMap Nat LocalEvent} {n : Nat}
    (hn : keySet localEvents = Set.Icc 1 n) {digest : Digest} {seq : Nat}
    (h : allocateSequence localEvents digest envelope = .ok (seq, localEvents'))
    (hseq : seq ∈ localEvents) : localEvents[seq]? = some (LocalEvent.mk digest envelope) := by
  rcases allocateSequence_spec h with ⟨-, -, hget⟩ | ⟨hnew, -⟩
  · exact hget
  · rw [← mem_keySet, hn, Set.mem_Icc] at hseq
    rw [lastKey_eq hn] at hnew
    omega

/-! ## Staging -/

section Staging
variable [Sha256] [SerdeJson]

/-- `stage_frame`. -/
def stageFrame (origin : PeerPubkey) (outbox : Outbox) (frontier : VectorClock) (views : Views)
    (eventType eventSubtype : UInt8) (raw : List UInt8) (nextCursor : GossipWalCursor)
    (policy : GossipPolicy) : Except String ((Outbox × VectorClock) × PreparedFrame) :=
  match outbox.pending with
  | some pending => do
    let frame ← validatePending pending origin
    pure ((outbox, frontier), ⟨frame, true⟩)
  | none => do
    require (isReplicableExt eventType eventSubtype policy)
      "attempted to stage a forbidden mesh event"
    let timestampUnix ← context (gossipPayloadTimestampUnix raw)
      "stage durable mesh frame: malformed WAL timestamp"
    let envelope ← materializeEnvelope views eventType eventSubtype raw timestampUnix policy
    let digest := envelope.contentSha256
    let clock ← loadVectorFrontier frontier
    require (clock.contains origin || decide (clock.size < maxVectorClockPeers))
      s!"durable vector frontier is full; cannot admit local origin {origin}"
    let clock ← context (clock.tick origin) "node-global mesh vector counter exhausted"
    let (seq, localEvents) ← allocateSequence outbox.localEvents digest envelope
    let frontier ← persistVectorFrontier clock
    let frame : GossipFrame := {
      protocolVersion := syncProtocolVersion, vectorClock := clock, origin := origin,
      eventSeq := seq, contentSha256 := digest, timestampUnix := timestampUnix,
      tag := .replicate, payload := raw, envelope := envelope }
    require (decide (nextCursor.offset < 2 ^ 63)) "mesh cursor offset exceeds SQLite i64"
    pure ((⟨some (outbox.outbound.getD .fresh), some ⟨seq, digest, frame, nextCursor⟩, localEvents⟩,
      frontier), ⟨frame, false⟩)

/-- What a staging that finds nothing pending has computed. -/
structure Staging (origin : PeerPubkey) (outbox : Outbox) (frontier : VectorClock) (views : Views)
    (eventType eventSubtype : UInt8) (raw : List UInt8) (nextCursor : GossipWalCursor)
    (policy : GossipPolicy) (outbox' : Outbox) (frontier' : VectorClock) (frame : GossipFrame) :
    Prop where
  replicable : isReplicableExt eventType eventSubtype policy = true
  timestamp : gossipPayloadTimestampUnix raw = some frame.timestampUnix
  materialized : materializeEnvelope views eventType eventSubtype raw frame.timestampUnix policy =
    .ok frame.envelope
  allocated : allocateSequence outbox.localEvents frame.contentSha256 frame.envelope =
    .ok (frame.eventSeq, outbox'.localEvents)
  ticked : frontier' = frontier.insert origin (frontier.counterOf origin + 1)
  bounded : frontier'.size ≤ maxVectorClockPeers
  valid : frontier'.Valid
  frame_eq : frame = {
    protocolVersion := syncProtocolVersion, vectorClock := frontier', origin := origin,
    eventSeq := frame.eventSeq, contentSha256 := frame.envelope.contentSha256,
    timestampUnix := frame.timestampUnix, tag := .replicate, payload := raw,
    envelope := frame.envelope }
  outbound_eq : outbox'.outbound = some (outbox.outbound.getD .fresh)
  pending_eq : outbox'.pending = some ⟨frame.eventSeq, frame.contentSha256, frame, nextCursor⟩

variable {raw : List UInt8} {nextCursor : GossipWalCursor} {policy : GossipPolicy}

/-- The fields of the frame that a staging fixes. -/
theorem Staging.fields {outbox outbox' : Outbox} {frontier frontier' : VectorClock}
    {views : Views} {eventType eventSubtype : UInt8}

    (h : Staging origin outbox frontier views eventType eventSubtype raw nextCursor policy outbox'
      frontier' frame) :
    frame.protocolVersion = syncProtocolVersion ∧ frame.origin = origin ∧
      frame.vectorClock = frontier' ∧ frame.contentSha256 = frame.envelope.contentSha256 ∧
      frame.tag = .replicate ∧ frame.payload = raw ∧
      frame.vectorClock.counterOf origin = frontier.counterOf origin + 1 := by
  have hclock : frame.vectorClock = frontier' := by
    conv_lhs => rw [h.frame_eq]
  refine ⟨?_, ?_, hclock, ?_, ?_, ?_, ?_⟩
  · conv_lhs => rw [h.frame_eq]
  · conv_lhs => rw [h.frame_eq]
  · conv_lhs => rw [h.frame_eq]
  · conv_lhs => rw [h.frame_eq]
  · conv_lhs => rw [h.frame_eq]
  · rw [hclock, h.ticked, VectorClock.counterOf_insert_self]

theorem stageFrame_spec {outbox outbox' : Outbox}
    {frontier frontier' : VectorClock} {views : Views} {eventType eventSubtype : UInt8}

    {prepared : PreparedFrame}
    (h : stageFrame origin outbox frontier views eventType eventSubtype raw nextCursor policy =
      .ok ((outbox', frontier'), prepared)) :
    (∃ pending, outbox.pending = some pending ∧ outbox' = outbox ∧ frontier' = frontier ∧
      prepared = ⟨pending.wireFrame, true⟩) ∨
    (outbox.pending = none ∧ prepared.replayedPending = false ∧
      Staging origin outbox frontier views eventType eventSubtype raw nextCursor policy outbox'
        frontier' prepared.frame) := by
  unfold stageFrame at h
  cases hpending : outbox.pending with
  | some pending =>
    rw [hpending] at h
    simp only [bind_eq_ok_iff] at h
    obtain ⟨frame, hvalid, h⟩ := h
    cases h
    unfold validatePending at hvalid
    simp only [bind_eq_ok_iff] at hvalid
    obtain ⟨-, -, -, -, -, -, -, -, -, -, -, -, -, -, hvalid⟩ := hvalid
    cases hvalid
    exact .inl ⟨pending, rfl, rfl, rfl, rfl⟩
  | none =>
    rw [hpending] at h
    simp only [bind_eq_ok_iff, require_eq_ok_iff, context_eq_ok_iff] at h
    obtain ⟨-, hreplicable, timestamp, htimestamp, envelope, henvelope, loaded, hload, -, -, clock,
      htick, ⟨seq, localEvents⟩, hallocate, written, hpersist, -, -, h⟩ := h
    cases h
    obtain ⟨rfl, -⟩ := loadVectorFrontier_eq_ok hload
    obtain ⟨rfl, hsize, hvalid⟩ := persistVectorFrontier_eq_ok_iff.mp hpersist
    exact .inr ⟨rfl, rfl, hreplicable, htimestamp, henvelope, hallocate,
      VectorClock.tick_eq_some htick, hsize, hvalid, rfl, rfl, rfl⟩

end Staging

/-! ## Cursor and acknowledgement -/

/-- `persist_idle_cursor`. -/
def persistIdleCursor (outbox : Outbox) (cursor : GossipWalCursor) :
    Except String (Outbox × Unit) := do
  require outbox.pending.isNone "pending frame appeared while persisting idle cursor"
  require (decide (cursor.offset < 2 ^ 63)) "mesh cursor offset exceeds SQLite i64"
  pure ({ outbox with outbound := some { outbox.outbound.getD .fresh with cursor := cursor } }, ())

/-- `acknowledge_outbound`: the highest acknowledged number and its digest move together. -/
def acknowledgeOutbound (origin : PeerPubkey) (ack : GossipAck) (outbox : Outbox) :
    Except String (Outbox × OutboundAckOutcome) := do
  require (ack.protocolVersion == syncProtocolVersion) "old or unknown mesh ACK protocol"
  require (ack.origin == origin) "mesh ACK origin mismatch"
  match outbox.pending with
  | none => do
    let known ← context outbox.localEvents[ack.originSeq]?
        "mesh ACK has no pending or known exact event"
    require (known.contentSha256 == ack.contentSha256) "duplicate mesh ACK digest mismatch"
    pure (outbox, .duplicate)
  | some pending => do
    require (pending.originSeq == ack.originSeq) "mesh ACK sequence mismatch"
    require (pending.contentSha256 == ack.contentSha256) "mesh ACK content digest mismatch"
    let row ← context outbox.outbound "pending mesh ACK has no durable outbound cursor row"
    let row := {
      cursor := pending.nextCursor
      ackedOriginSeq := max row.ackedOriginSeq ack.originSeq
      ackedContentSha256 :=
        if row.ackedOriginSeq ≤ ack.originSeq then some ack.contentSha256
        else row.ackedContentSha256 }
    pure ({ outbox with outbound := some row, pending := none }, .applied)

theorem persistIdleCursor_spec {outbox outbox' : Outbox} {u : Unit}
    (h : persistIdleCursor outbox cursor = .ok (outbox', u)) :
    outbox.pending = none ∧
      outbox' =
        { outbox with outbound := some { outbox.outbound.getD .fresh with cursor := cursor } } := by
  unfold persistIdleCursor at h
  simp only [bind_eq_ok_iff, require_eq_ok_iff, Option.isNone_iff_eq_none] at h
  obtain ⟨-, hnone, -, -, h⟩ := h
  cases h
  exact ⟨hnone, rfl⟩

/-- The acknowledgement of the pending frame, and no other. -/
def GossipAck.Matches (ack : GossipAck) (origin : PeerPubkey) (pending : PendingRow) : Prop :=
  ack.origin = origin ∧ ack.originSeq = pending.originSeq ∧
  ack.contentSha256 = pending.contentSha256

theorem acknowledgeOutbound_spec {ack : GossipAck} {outbox outbox' : Outbox}
    {outcome : OutboundAckOutcome}
    (h : acknowledgeOutbound origin ack outbox = .ok (outbox', outcome)) :
    (outbox' = outbox ∧ outcome = .duplicate) ∨
      ∃ pending, outbox.pending = some pending ∧ ack.Matches origin pending ∧ outcome = .applied ∧
        outbox'.pending = none ∧ outbox'.localEvents = outbox.localEvents ∧
        outbox'.cursor = pending.nextCursor := by
  unfold acknowledgeOutbound at h
  simp only [bind_eq_ok_iff, require_eq_ok_iff, beq_iff_eq] at h
  obtain ⟨-, -, -, horigin, h⟩ := h
  cases hpending : outbox.pending with
  | none =>
    rw [hpending] at h
    simp only [bind_eq_ok_iff] at h
    obtain ⟨-, -, -, -, h⟩ := h
    cases h
    exact .inl ⟨rfl, rfl⟩
  | some pending =>
    rw [hpending] at h
    simp only [bind_eq_ok_iff, require_eq_ok_iff, beq_iff_eq] at h
    obtain ⟨-, hseq, -, hdigest, row, hrow, h⟩ := h
    cases h
    exact .inr ⟨pending, rfl, ⟨horigin, hseq.symm, hdigest.symm⟩, rfl, rfl, rfl, rfl⟩

end Neoth.MeshSync
