import Neoth.MeshSync.ContentShape
import Neoth.MeshSync.Frontier

/-!
# Durable sync: the receiving side

The rows `cluster/durable_sync.rs` keeps of one origin within one membership incarnation
(`Inbox`), and `persist_inbound`: stateless checks (`checkInbound`), then one transaction
(`commitInbound`) that refuses a gap, answers a duplicate from its receipt, or commits.

* `persistInbound_spec`: what a delivery that is no error leaves in the tables;
* `Inbox.WellFormed`: nothing is stored at or beyond the next expected sequence;
* `commitInbound_expected`: the expected sequence commits.
-/

open Std Lib.Encoding Lib.Transaction Lib.TreeMap

namespace Neoth.MeshSync

/-! ## Rows -/

structure Receipt where
  contentSha256 : Digest
  frameSha256 : Option Digest
  contentStored : Bool
  deriving DecidableEq

/-- A row of `idx_foreign_events`; `content_payload` holds the envelope. -/
structure ForeignEvent where
  eventType : UInt8
  payload : List UInt8
  contentSha256 : Digest
  envelope : SyncEnvelope
  deriving DecidableEq

structure Materialized where
  originSeq : Nat
  contentSha256 : Digest
  envelope : SyncEnvelope
  deriving DecidableEq

/-- What `materialize_inbound` reads of the content of another origin, or of another
incarnation of this one. -/
structure OtherMaterialized where
  contentId : String
  originPeerPk : PeerPubkey
  authEpoch : Nat
  contentSha256 : Digest

inductive ConflictPolicy
  | orderedOriginLww
  | crossOriginTypedConflict
  deriving DecidableEq

structure Conflict where
  contentId : String
  incumbentOrigin : PeerPubkey
  incumbentAuthEpoch : Nat
  incomingOrigin : PeerPubkey
  incomingAuthEpoch : Nat
  incumbentSha256 : Digest
  incomingSha256 : Digest
  policy : ConflictPolicy
  deriving DecidableEq

structure InboundRow where
  nextExpectedSeq : Nat
  lastContentSha256 : Option Digest
  deriving DecidableEq

structure Inbox where
  inbound : Option InboundRow
  receipts : ExtTreeMap Nat Receipt
  foreign : ExtTreeMap Nat ForeignEvent
  materialized : ExtTreeMap String Materialized
  conflicts : List Conflict
  deriving DecidableEq

def Inbox.empty : Inbox := ⟨none, ∅, ∅, ∅, []⟩

def Inbox.nextExpected (inbox : Inbox) : Nat :=
  match inbox.inbound with
  | none => 1
  | some row => row.nextExpectedSeq

structure ProfileRedaction where
  field : String
  revokedAt : Option Int
  neverRecreate : Bool

inductive InboundCommit
  | committed (ack : GossipAck)
  | duplicate (ack : GossipAck)
  | duplicateUnbound (ack : GossipAck)
  | gap (expected received : Nat)
  | dropped (acceptance : GossipAcceptance)
  deriving DecidableEq

def InboundCommit.ack : InboundCommit → Option GossipAck
  | .committed ack | .duplicate ack | .duplicateUnbound ack => some ack
  | .gap .. | .dropped _ => none

/-! ## Forgotten topics -/

/-- The Unicode operations of the Rust library that topics are matched with. -/
class UnicodeText where
  toLowercase : String → String
  fromUtf8Lossy : List UInt8 → String

/-- `topic_from_sentinel`. -/
def topicFromSentinel (field : String) : Option String :=
  if "_tombstone.".toList.isPrefixOf field.toList then
    some (String.ofList (field.toList.drop 11))
  else none

/-- `active_tombstone_topics`. -/
def activeTombstoneTopics (redactions : List ProfileRedaction) : List String :=
  ((redactions.filter fun row => row.revokedAt.isNone && row.neverRecreate).filterMap
    fun row => topicFromSentinel row.field).filter (· != "")

section Topics
variable [UnicodeText]

def textContainsTopic (text topic : String) : Bool :=
  let topic := trim topic
  topic != "" &&
    decide ((UnicodeText.toLowercase topic).toList <:+: (UnicodeText.toLowercase text).toList)

mutual

def jsonContainsTopic (topic : String) : JsonValue → Bool
  | .string text => textContainsTopic text topic
  | .array values => anyContainsTopic topic values
  | .object fields => anyFieldContainsTopic topic fields
  | .null | .bool _ | .number _ => false

def anyContainsTopic (topic : String) : List JsonValue → Bool
  | [] => false
  | value :: values => jsonContainsTopic topic value || anyContainsTopic topic values

def anyFieldContainsTopic (topic : String) : List (String × JsonValue) → Bool
  | [] => false
  | (key, value) :: fields =>
    textContainsTopic key topic || jsonContainsTopic topic value ||
    anyFieldContainsTopic topic fields

end

variable [SerdeJson]

def payloadContainsTopic (payload : List UInt8) (topic : String) : Bool :=
  match SerdeJson.value payload with
  | some value => jsonContainsTopic topic value
  | none => textContainsTopic (UnicodeText.fromUtf8Lossy payload) topic

def foreignFrameContainsTopic (frame : List UInt8) (eventType : UInt8) (topic : String) :
    Except String Bool :=
  match decodeFrame frame with
  | .error _ => .error "decode foreign WAL frame"
  | .ok decoded => do
    require (decoded.header.totalLen == frame.length) "foreign WAL frame has trailing bytes"
    require (decoded.header.eventType == eventType) "foreign WAL frame event type mismatch"
    pure (payloadContainsTopic decoded.payload topic)

def anyTopicMatches (eventType : UInt8) (payload : List UInt8) : List String → Except String Bool
  | [] => .ok false
  | topic :: topics => do
    let found ← foreignFrameContainsTopic payload eventType topic
    if found then pure true else anyTopicMatches eventType payload topics

def rawFrameMatchesForgetTombstone (redactions : List ProfileRedaction) (eventType : UInt8)
    (payload : List UInt8) : Except String Bool :=
  if classifyEventExt eventType 0 ≠ .rawIngressGated then .ok false
  else anyTopicMatches eventType payload (activeTombstoneTopics redactions)

/-- On a frame of the named type the search never fails. -/
theorem rawFrameMatchesForgetTombstone_ok (redactions : List ProfileRedaction)
    {payload : List UInt8} {d : DecodedFrame} (h : IsFrame payload d) :
    ∃ found, rawFrameMatchesForgetTombstone redactions d.header.eventType payload = .ok found := by
  have hone : ∀ topic, foreignFrameContainsTopic payload d.header.eventType topic =
      .ok (payloadContainsTopic d.payload topic) := by
    intro topic
    unfold foreignFrameContainsTopic
    rw [h.1]
    simp [require, h.2, bind, Except.bind, pure, Except.pure]
  have hall : ∀ topics, ∃ found, anyTopicMatches d.header.eventType payload topics = .ok found := by
    intro topics
    induction topics with
    | nil => exact ⟨false, rfl⟩
    | cons topic topics ih =>
      obtain ⟨found, hfound⟩ := ih
      unfold anyTopicMatches
      rw [hone topic]
      cases payloadContainsTopic d.payload topic with
      | true => exact ⟨true, rfl⟩
      | false => exact ⟨found, hfound⟩
  unfold rawFrameMatchesForgetTombstone
  split
  · exact ⟨false, rfl⟩
  · exact hall _

end Topics

/-! ## Materialised rows and conflicts -/

/-- The receiver's other tables: its forgotten topics and the content of other origins. -/
structure Surroundings where
  authEpoch : Nat
  redactions : List ProfileRedaction
  others : List OtherMaterialized

/-- `insert_conflict`: the two sides in order, and only once. -/
def insertConflict (conflicts : List Conflict) (contentId : String) (originA : PeerPubkey)
    (authEpochA : Nat) (originB : PeerPubkey) (authEpochB : Nat) (digestA digestB : Digest)
    (policy : ConflictPolicy) : List Conflict :=
  let row : Conflict :=
    if compare originA originB = .lt ∨ (originA = originB ∧ authEpochA ≤ authEpochB) then
      ⟨contentId, originA, authEpochA, originB, authEpochB, digestA, digestB, policy⟩
    else ⟨contentId, originB, authEpochB, originA, authEpochA, digestB, digestA, policy⟩
  if conflicts.any fun other => decide ({ other with policy := policy } = row) then conflicts
  else conflicts ++ [row]

/-- The check against this origin's own row of the same content, and the conflict it leaves. -/
def checkCurrent (around : Surroundings) (origin : PeerPubkey) (frame : GossipFrame)
    (inbox : Inbox) : Except String (List Conflict) :=
  match inbox.materialized[frame.envelope.contentId]? with
  | none => .ok inbox.conflicts
  | some current => do
    require (decide (0 < current.originSeq)) "corrupt durable mesh value: materialized origin_seq"
    require (decide (current.originSeq < frame.eventSeq) ||
        current.contentSha256 == frame.contentSha256)
      "non-monotonic same-origin materialized update"
    pure (if current.contentSha256 = frame.contentSha256 then inbox.conflicts
      else insertConflict inbox.conflicts frame.envelope.contentId origin around.authEpoch origin
        around.authEpoch current.contentSha256 frame.contentSha256 .orderedOriginLww)

def materializeInbound (around : Surroundings) (origin : PeerPubkey) (frame : GossipFrame)
    (inbox : Inbox) : Except String Inbox := do
  let conflicts ← checkCurrent around origin frame inbox
  let others := around.others.filter fun other =>
    other.contentId == frame.envelope.contentId && other.contentSha256 != frame.contentSha256
  let conflicts := others.foldl (fun conflicts other =>
    insertConflict conflicts frame.envelope.contentId other.originPeerPk other.authEpoch origin
      around.authEpoch other.contentSha256 frame.contentSha256 .crossOriginTypedConflict) conflicts
  pure { inbox with
    materialized := inbox.materialized.insert frame.envelope.contentId
      ⟨frame.eventSeq, frame.contentSha256, frame.envelope⟩
    conflicts := conflicts }

/-- The part of a commit that `store_content` guards. -/
def storeContent (around : Surroundings) (origin : PeerPubkey) (frame : GossipFrame)
    (eventType : UInt8) (inbox : Inbox) : Bool → Except String Inbox
  | false => .ok inbox
  | true => do
    require (!inbox.foreign.contains frame.eventSeq) "UNIQUE constraint failed: idx_foreign_events"
    materializeInbound around origin frame { inbox with
      foreign := inbox.foreign.insert frame.eventSeq
        ⟨eventType, frame.payload, frame.contentSha256, frame.envelope⟩ }

variable {around : Surroundings} {origin : PeerPubkey} {frame : GossipFrame} {eventType : UInt8}
  {inbox inbox' : Inbox}

theorem storeContent_spec {stored : Bool}
    (h : storeContent around origin frame eventType inbox stored = .ok inbox') :
    inbox'.receipts = inbox.receipts ∧
      (inbox'.foreign = inbox.foreign ∨ inbox'.foreign = inbox.foreign.insert frame.eventSeq
        ⟨eventType, frame.payload, frame.contentSha256, frame.envelope⟩) ∧
      (inbox'.materialized = inbox.materialized ∨
        inbox'.materialized = inbox.materialized.insert frame.envelope.contentId
          ⟨frame.eventSeq, frame.contentSha256, frame.envelope⟩) := by
  cases stored with
  | false =>
    cases h
    exact ⟨rfl, .inl rfl, .inl rfl⟩
  | true =>
    unfold storeContent materializeInbound at h
    simp only [bind_eq_ok_iff] at h
    obtain ⟨-, -, conflicts, -, h⟩ := h
    cases h
    exact ⟨rfl, .inr rfl, .inr rfl⟩

/-! ## The transaction -/

section Persist
variable [Sha256]

def canonicalFrameSha256 (frame : GossipFrame) : Digest := Sha256.digest frame.toJson

/-- The acknowledgement of a frame. -/
def GossipFrame.ack (frame : GossipFrame) : GossipAck :=
  ⟨syncProtocolVersion, frame.origin, frame.eventSeq, frame.contentSha256⟩

/-- A sequence below the expected one: answered from its receipt. -/
def answerDuplicate (origin : PeerPubkey) (frame : GossipFrame) (inbox : Inbox)
    (frontier : VectorClock) : Except String ((Inbox × VectorClock) × InboundCommit) := do
  let receipt ← context inbox.receipts[frame.eventSeq]? "old mesh sequence has no durable receipt"
  require (receipt.contentSha256 == frame.contentSha256)
    "replayed mesh sequence carries different content"
  match receipt.frameSha256 with
  | none => pure ((inbox, frontier), .duplicateUnbound frame.ack)
  | some stored => do
    require (stored == canonicalFrameSha256 frame)
      "replayed mesh sequence carries a different canonical frame"
    let frontier ← mergeVectorFrontier frontier origin frame.vectorClock
    pure ((inbox, frontier), .duplicate frame.ack)

variable [SerdeJson] [UnicodeText]

/-- The expected sequence: receipt, content, the next number and the frontier, or nothing. -/
def commitNext (around : Surroundings) (origin : PeerPubkey) (frame : GossipFrame)
    (eventType : UInt8) (inbox : Inbox) (frontier : VectorClock) :
    Except String ((Inbox × VectorClock) × InboundCommit) := do
  let forgotten ← rawFrameMatchesForgetTombstone around.redactions eventType frame.payload
  require (decide (frame.eventSeq < 2 ^ 63)) "out of range integral type conversion attempted"
  require (!inbox.receipts.contains frame.eventSeq)
    "UNIQUE constraint failed: mesh_sync_inbound_receipts"
  let inbox := { inbox with
    receipts := inbox.receipts.insert frame.eventSeq
      ⟨frame.contentSha256, some (canonicalFrameSha256 frame), !forgotten⟩ }
  let inbox ← storeContent around origin frame eventType inbox !forgotten
  require (decide (frame.eventSeq + 1 < 2 ^ 63)) "out of range integral type conversion attempted"
  let frontier ← mergeVectorFrontier frontier origin frame.vectorClock
  pure (({ inbox with inbound := some ⟨frame.eventSeq + 1, some frame.contentSha256⟩ }, frontier),
    .committed frame.ack)

def commitInbound (around : Surroundings) (origin : PeerPubkey) (frame : GossipFrame)
    (eventType : UInt8) (inbox : Inbox) (frontier : VectorClock) :
    Except String ((Inbox × VectorClock) × InboundCommit) := do
  require (decide (0 < inbox.nextExpected)) "corrupt durable mesh value: inbound next_expected_seq"
  if inbox.nextExpected < frame.eventSeq then
    pure ((inbox, frontier), .gap inbox.nextExpected frame.eventSeq)
  else if frame.eventSeq < inbox.nextExpected then answerDuplicate origin frame inbox frontier
  else commitNext around origin frame eventType inbox frontier

/-! ## The checks before it -/

/-- What the stateless checks come to: the frame is dropped, or it goes on with its event type. -/
inductive Checked
  | dropped (acceptance : GossipAcceptance)
  | passed (eventType : UInt8)

def checkInbound (origin : PeerPubkey) (frame : GossipFrame) (policy : GossipPolicy) (now : Int) :
    Except String Checked := do
  require (decide (frame.vectorClock.size ≤ maxVectorClockPeers))
    "inbound mesh vector clock exceeds the bounded peer limit"
  require (frame.origin == origin) "authenticated mesh origin mismatch"
  require (decide (0 < frame.eventSeq)) "inbound mesh sequence must be positive"
  require (decide (0 < frame.vectorClock.counterOf origin))
    "inbound mesh vector clock is missing its origin slot"
  let preliminary := frame.evaluateAcceptance (.fromPolicy policy) now false
  if preliminary ≠ .accept then pure (.dropped preliminary)
  else do
    let (eventType, eventSubtype) ← context (gossipPayloadEventMeta frame.payload)
      "inbound mesh payload is not one exact canonical WAL frame"
    require (gossipPayloadTimestampUnix frame.payload == some frame.timestampUnix)
      "inbound mesh timestamp does not match WAL source"
    if !isReplicableExt eventType eventSubtype policy then pure (.dropped .droppedDoNotGossipTag)
    else do
      validateContentShape frame eventType eventSubtype policy
      pure (.passed eventType)

/-- `persist_inbound`. -/
def persistInbound (around : Surroundings) (origin : PeerPubkey) (frame : GossipFrame)
    (policy : GossipPolicy) (now : Int) (inbox : Inbox) (frontier : VectorClock) :
    Except String ((Inbox × VectorClock) × InboundCommit) := do
  match ← checkInbound origin frame policy now with
  | .dropped acceptance => pure ((inbox, frontier), .dropped acceptance)
  | .passed eventType => commitInbound around origin frame eventType inbox frontier

/-! ## What a delivery does -/

variable {policy : GossipPolicy} {now : Int}

omit [SerdeJson] [UnicodeText] in
theorem checkInbound_eq_passed_iff :
    checkInbound origin frame policy now = .ok (.passed eventType) ↔
      frame.vectorClock.size ≤ maxVectorClockPeers ∧ frame.origin = origin ∧ 0 < frame.eventSeq ∧
      0 < frame.vectorClock.counterOf origin ∧
      frame.evaluateAcceptance (.fromPolicy policy) now false = .accept ∧
      ∃ eventSubtype, gossipPayloadEventMeta frame.payload = some (eventType, eventSubtype) ∧
        gossipPayloadTimestampUnix frame.payload = some frame.timestampUnix ∧
        isReplicableExt eventType eventSubtype policy = true ∧
        validateContentShape frame eventType eventSubtype policy = .ok () := by
  unfold checkInbound
  simp only [bind_eq_ok_iff, require_eq_ok_iff, decide_eq_true_eq, beq_iff_eq, exists_const]
  refine and_congr_right fun _ => and_congr_right fun _ => and_congr_right fun _ =>
    and_congr_right fun _ => ?_
  by_cases haccept : frame.evaluateAcceptance (.fromPolicy policy) now false = .accept
  · rw [if_neg (not_not.mpr haccept)]
    simp only [haccept, true_and, bind_eq_ok_iff, context_eq_ok_iff]
    constructor
    · rintro ⟨⟨found, eventSubtype⟩, hmeta, u, htime, h⟩
      simp only [require_eq_ok_iff, beq_iff_eq] at htime
      by_cases hreplicable : isReplicableExt found eventSubtype policy = true
      · rw [hreplicable] at h
        simp only [Bool.not_true, Bool.false_eq_true, if_false, bind_eq_ok_iff] at h
        obtain ⟨u, hshape, h⟩ := h
        cases h
        exact ⟨eventSubtype, hmeta, htime, hreplicable, hshape⟩
      · rw [Bool.not_eq_true] at hreplicable
        rw [hreplicable] at h
        cases h
    · rintro ⟨eventSubtype, hmeta, htime, hreplicable, hshape⟩
      refine ⟨(eventType, eventSubtype), hmeta, (), by simp [htime], ?_⟩
      simp only [hreplicable, Bool.not_true, Bool.false_eq_true, if_false, bind_eq_ok_iff]
      exact ⟨(), hshape, rfl⟩
  · rw [if_pos haccept]
    simp [haccept, pure, Except.pure]

/-- What the commit of a frame leaves in the tables. -/
structure Commits (frame : GossipFrame) (eventType : UInt8) (inbox inbox' : Inbox) : Prop where
  expected : frame.eventSeq = inbox.nextExpected
  next : inbox'.nextExpected = frame.eventSeq + 1
  receipts : ∃ stored, inbox'.receipts = inbox.receipts.insert frame.eventSeq
    ⟨frame.contentSha256, some (canonicalFrameSha256 frame), stored⟩
  foreign : inbox'.foreign = inbox.foreign ∨ inbox'.foreign = inbox.foreign.insert frame.eventSeq
    ⟨eventType, frame.payload, frame.contentSha256, frame.envelope⟩
  materialized : inbox'.materialized = inbox.materialized ∨
    inbox'.materialized = inbox.materialized.insert frame.envelope.contentId
      ⟨frame.eventSeq, frame.contentSha256, frame.envelope⟩

variable {frontier : VectorClock} {commit : InboundCommit}

theorem commitNext_spec
 {frontier frontier' : VectorClock}
 (hexpected : frame.eventSeq = inbox.nextExpected)
    (h : commitNext around origin frame eventType inbox frontier =
      .ok ((inbox', frontier'), commit)) :
    commit = .committed frame.ack ∧ Commits frame eventType inbox inbox' ∧
      mergeVectorFrontier frontier origin frame.vectorClock = .ok frontier' := by
  unfold commitNext at h
  simp only [bind_eq_ok_iff] at h
  obtain ⟨forgotten, -, -, -, -, -, stored, hstore, -, -, merged, hmerge, h⟩ := h
  cases h
  obtain ⟨hreceipts, hforeign, hmaterialized⟩ := storeContent_spec hstore
  exact ⟨rfl, ⟨hexpected, rfl, ⟨_, hreceipts⟩, hforeign, hmaterialized⟩, hmerge⟩

omit [SerdeJson] [UnicodeText] in
theorem answerDuplicate_spec {frontier frontier' : VectorClock}
    (h : answerDuplicate origin frame inbox frontier = .ok ((inbox', frontier'), commit)) :
    inbox' = inbox ∧ (commit = .duplicate frame.ack ∨ commit = .duplicateUnbound frame.ack) ∧
      (frontier' = frontier ∨
        mergeVectorFrontier frontier origin frame.vectorClock = .ok frontier') ∧
      ∃ receipt, inbox.receipts[frame.eventSeq]? = some receipt ∧
        receipt.contentSha256 = frame.contentSha256 ∧
        (receipt.frameSha256 = none ∨ receipt.frameSha256 = some (canonicalFrameSha256 frame)) := by
  unfold answerDuplicate at h
  simp only [bind_eq_ok_iff, context_eq_ok_iff, require_eq_ok_iff, beq_iff_eq] at h
  obtain ⟨receipt, hreceipt, -, hdigest, h⟩ := h
  cases hframe : receipt.frameSha256 with
  | none =>
    rw [hframe] at h
    cases h
    exact ⟨rfl, .inr rfl, .inl rfl, receipt, hreceipt, hdigest, .inl hframe⟩
  | some stored =>
    rw [hframe] at h
    simp only [bind_eq_ok_iff, require_eq_ok_iff] at h
    obtain ⟨-, hstored, merged, hmerge, h⟩ := h
    cases h
    refine ⟨rfl, .inl rfl, .inr hmerge, receipt, hreceipt, hdigest, .inr ?_⟩
    rw [hframe, eq_of_beq hstored]

/-- A delivery that is no error leaves the tables alone, and is acknowledged only if there is
a receipt of the same content; or it commits the expected sequence. -/
theorem persistInbound_spec
 {frontier frontier' : VectorClock}

    (h : persistInbound around origin frame policy now inbox frontier =
      .ok ((inbox', frontier'), commit)) :
    (frontier' = frontier ∨ mergeVectorFrontier frontier origin frame.vectorClock = .ok frontier') ∧
    ((inbox' = inbox ∧ (∀ ack, commit ≠ .committed ack) ∧
        ∀ ack, commit.ack = some ack → ack = frame.ack ∧
          ∃ receipt, inbox.receipts[frame.eventSeq]? = some receipt ∧
            receipt.contentSha256 = frame.contentSha256) ∨
      (commit = .committed frame.ack ∧ ∃ eventType, Commits frame eventType inbox inbox')) := by
  unfold persistInbound at h
  simp only [bind_eq_ok_iff] at h
  obtain ⟨checked, -, h⟩ := h
  cases checked with
  | dropped acceptance =>
    cases h
    exact ⟨.inl rfl, .inl ⟨rfl, by simp, by simp [InboundCommit.ack]⟩⟩
  | passed eventType =>
    unfold commitInbound at h
    simp only [bind_eq_ok_iff] at h
    obtain ⟨-, -, h⟩ := h
    split at h
    · cases h
      exact ⟨.inl rfl, .inl ⟨rfl, by simp, by simp [InboundCommit.ack]⟩⟩
    · split at h
      · obtain ⟨rfl, hcommit, hfrontier, receipt, hreceipt, hdigest, -⟩ := answerDuplicate_spec h
        refine ⟨hfrontier, .inl ⟨rfl, ?_, ?_⟩⟩
        · rcases hcommit with rfl | rfl <;> simp
        · rcases hcommit with rfl | rfl <;>
          · intro ack hack
            cases hack
            exact ⟨rfl, receipt, hreceipt, hdigest⟩
      · obtain ⟨rfl, hcommits, hmerge⟩ := commitNext_spec (by omega) h
        exact ⟨.inr hmerge, .inr ⟨rfl, eventType, hcommits⟩⟩

/-- The answer carries an acknowledgement. -/
def Acknowledges (answer : Except String ((Inbox × VectorClock) × InboundCommit)) : Prop :=
  ∃ next commit ack, answer = .ok (next, commit) ∧ commit.ack = some ack

omit [Sha256] [SerdeJson] [UnicodeText] in
theorem not_acknowledges_of_error {answer : Except String ((Inbox × VectorClock) × InboundCommit)}
    {e : String} (h : answer = .error e) : ¬ Acknowledges answer := by
  rintro ⟨next, commit, ack, hok, -⟩
  cases h.symm.trans hok

omit [Sha256] [SerdeJson] [UnicodeText] in
theorem not_acknowledges_of_commit {answer : Except String ((Inbox × VectorClock) × InboundCommit)}
    (h : answer.toOption.map (·.2) = some commit)
    (hnone : commit.ack = none) : ¬ Acknowledges answer := by
  rintro ⟨next, commit', ack, rfl, hack⟩
  cases h
  cases hnone.symm.trans hack

/-- Only a frame that passes the stateless checks is acknowledged, and then by the transaction. -/
theorem acknowledges_persistInbound_iff :
    Acknowledges (persistInbound around origin frame policy now inbox frontier) ↔
      ∃ eventType, checkInbound origin frame policy now = .ok (.passed eventType) ∧
        Acknowledges (commitInbound around origin frame eventType inbox frontier) := by
  unfold persistInbound
  cases hchecked : checkInbound origin frame policy now with
  | error e =>
    refine iff_of_false ?_ ?_
    · rintro ⟨_, _, _, h, -⟩
      cases h
    · rintro ⟨_, h, -⟩
      cases h
  | ok checked =>
    cases checked with
    | dropped acceptance =>
      refine iff_of_false ?_ ?_
      · rintro ⟨_, _, _, h, hack⟩
        cases h
        cases hack
      · rintro ⟨_, h, -⟩
        cases h
    | passed eventType =>
      constructor
      · intro h
        exact ⟨eventType, rfl, h⟩
      · rintro ⟨_, h, hcommit⟩
        cases h
        exact hcommit

/-! ## Well-formed inboxes -/

/-- Exactly the sequences below the next expected one have a receipt, and nothing else is
stored of any other. -/
structure Inbox.WellFormed (inbox : Inbox) : Prop where
  pos : 0 < inbox.nextExpected
  receipts : keySet inbox.receipts = Set.Ico 1 inbox.nextExpected
  foreign : ∀ k ∈ inbox.foreign, k < inbox.nextExpected
  materialized : ∀ (id : String) (row : Materialized), inbox.materialized[id]? = some row →
    0 < row.originSeq ∧ row.originSeq < inbox.nextExpected

omit [Sha256] [SerdeJson] [UnicodeText] in
theorem Inbox.WellFormed.mem_receipts (h : inbox.WellFormed) {k : Nat} :
    k ∈ inbox.receipts ↔ 1 ≤ k ∧ k < inbox.nextExpected := by
  rw [← mem_keySet, h.receipts, Set.mem_Ico]

omit [Sha256] [SerdeJson] [UnicodeText] in
theorem Inbox.WellFormed.empty : Inbox.empty.WellFormed := by
  refine ⟨by decide, ?_, ?_, ?_⟩
  · rw [Inbox.empty, keySet_empty, eq_comm]
    exact Set.Ico_self 1
  · intro k hk
    exact absurd hk ExtTreeMap.not_mem_empty
  · intro id row hrow
    cases ExtTreeMap.getElem?_empty.symm.trans hrow

omit [SerdeJson] [UnicodeText] in
theorem Commits.wellFormed (h : Commits frame eventType inbox inbox') (hwf : inbox.WellFormed) :
    inbox'.WellFormed := by
  have hnext := h.next
  rw [h.expected] at hnext
  have hpos := hwf.pos
  refine ⟨by omega, ?_, ?_, ?_⟩
  · obtain ⟨stored, hreceipts⟩ := h.receipts
    rw [hreceipts, keySet_insert, hwf.receipts, hnext, h.expected]
    ext k
    simp only [Set.mem_insert_iff, Set.mem_Ico]
    omega
  · intro k hk
    rcases h.foreign with hforeign | hforeign
    · rw [hforeign] at hk
      have := hwf.foreign k hk
      omega
    · rw [hforeign, ExtTreeMap.mem_insert] at hk
      rcases hk with hk | hk
      · have := LawfulEqOrd.eq_of_compare hk
        have := h.expected
        omega
      · have := hwf.foreign k hk
        omega
  · intro id row hrow
    have hold : inbox.materialized[id]? = some row → 0 < row.originSeq ∧
        row.originSeq < inbox'.nextExpected := by
      intro hrow
      obtain ⟨hrowPos, hlt⟩ := hwf.materialized id row hrow
      omega
    rcases h.materialized with hmaterialized | hmaterialized
    · exact hold (hmaterialized ▸ hrow)
    · rw [hmaterialized] at hrow
      by_cases e : frame.envelope.contentId = id
      · rw [e, ExtTreeMap.getElem?_insert_self] at hrow
        cases hrow
        have := h.expected
        dsimp only
        omega
      · rw [getElem?_insert_of_ne _ e] at hrow
        exact hold hrow

omit [Sha256] [SerdeJson] [UnicodeText] in
theorem storeContent_ok (around : Surroundings) (origin : PeerPubkey) (frame : GossipFrame)
    (eventType : UInt8) (inbox : Inbox) (stored : Bool) (hforeign : frame.eventSeq ∉ inbox.foreign)
    (hmaterialized : ∀ (id : String) (row : Materialized), inbox.materialized[id]? = some row →
      0 < row.originSeq ∧ row.originSeq < frame.eventSeq) :
    ∃ inbox', storeContent around origin frame eventType inbox stored = .ok inbox' := by
  cases stored with
  | false => exact ⟨inbox, rfl⟩
  | true =>
    have hfresh : inbox.foreign.contains frame.eventSeq = false := by
      rw [← Bool.not_eq_true, ← ExtTreeMap.mem_iff_contains]
      exact hforeign
    unfold storeContent materializeInbound checkCurrent
    simp only [bind_eq_ok_iff, require_eq_ok_iff, hfresh, Bool.not_false, true_and, exists_const]
    cases hcurrent : inbox.materialized[frame.envelope.contentId]? with
    | none => exact ⟨_, _, rfl, rfl⟩
    | some current =>
      obtain ⟨hpos, hlt⟩ := hmaterialized _ _ hcurrent
      simp only [bind_eq_ok_iff, require_eq_ok_iff, hpos, hlt, decide_true, Bool.true_or, true_and,
        exists_const]
      exact ⟨_, _, rfl, rfl⟩

/-- The expected sequence commits, unless the number after it is beyond SQLite's integers. -/
theorem commitInbound_expected (around : Surroundings) {d : DecodedFrame} (hwf : inbox.WellFormed)
    (hexpected : frame.eventSeq = inbox.nextExpected) (hframe : IsFrame frame.payload d)
    (hmerge : ∃ merged, mergeVectorFrontier frontier origin frame.vectorClock = .ok merged) :
    Acknowledges (commitInbound around origin frame d.header.eventType inbox frontier) ↔
      frame.eventSeq + 1 < 2 ^ 63 := by
  obtain ⟨merged, hmerge⟩ := hmerge
  obtain ⟨forgotten, hforgotten⟩ := rawFrameMatchesForgetTombstone_ok around.redactions hframe
  have hfresh : inbox.receipts.contains frame.eventSeq = false := by
    rw [← Bool.not_eq_true, ← ExtTreeMap.mem_iff_contains, hwf.mem_receipts]
    omega
  obtain ⟨stored, hstored⟩ := storeContent_ok around origin frame d.header.eventType
    { inbox with
      receipts := inbox.receipts.insert frame.eventSeq
        ⟨frame.contentSha256, some (canonicalFrameSha256 frame), !forgotten⟩ }
    (!forgotten) (fun h => absurd (hwf.foreign _ h) (by omega))
      (by rw [hexpected]; exact hwf.materialized)
  unfold Acknowledges commitInbound
  rw [if_neg (by omega), if_neg (by omega)]
  unfold commitNext
  simp only [bind_eq_ok_iff, require_eq_ok_iff, decide_eq_true_eq, hwf.pos, true_and, exists_const]
  constructor
  · rintro ⟨next, commit, ack, ⟨-, -, -, -, -, -, hbound, -⟩, -⟩
    exact hbound
  · intro hbound
    exact ⟨_, _, _, ⟨forgotten, hforgotten, by omega, by rw [hfresh]; rfl, stored, hstored, hbound,
      merged, hmerge, rfl⟩, rfl⟩

end Persist

end Neoth.MeshSync
