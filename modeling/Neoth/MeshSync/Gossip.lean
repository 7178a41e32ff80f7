import Neoth.Lib.Json
import Neoth.Lib.Sha256
import Neoth.Lib.TreeMap

/-!
# Gossip: policy, wire types and acceptance

`cluster/gossip.rs`, `cluster/gossip_wire.rs` and the event ACL of
`cluster/wal_sync.rs`.  A `GossipFrame` carries one WAL frame, the materialised
content it stands for (`SyncEnvelope`), the digest of that content and the sender's
vector clock; digests are of the `serde_json` text.

* `isReplicableExt`: which events may leave the node under a policy;
* `GossipFrame.evaluateAcceptance`: the stateless checks of the receiver;
* `toJson_vectorClock_inj`: the text of a frame binds its vector clock.
-/

open Std Lib.Json Lib.TreeMap

namespace Neoth.MeshSync

/-! ## Policy -/

structure GossipPolicy where
  replicateRawIngress : Bool
  replayBudgetDays : Nat
  deriving DecidableEq

def defaultClusterReplayBudgetDays : Nat := 30
def maxReplayBudgetDays : Nat := 90

structure ReplayBudget where
  days : Nat
  capAgeSecs : Int

/-- `ReplayBudget::from_policy`: zero stands for the default, and the ceiling holds. -/
def ReplayBudget.fromPolicy (policy : GossipPolicy) : ReplayBudget :=
  let days :=
    if policy.replayBudgetDays = 0 then defaultClusterReplayBudgetDays else policy.replayBudgetDays
  let days := if maxReplayBudgetDays < days then maxReplayBudgetDays else days
  ⟨days, days * 86400⟩

/-- `i64::saturating_sub`. -/
def saturatingSub (a b : Int) : Int := max (-2 ^ 63) (min (2 ^ 63 - 1) (a - b))

/-- `is_within_budget`: an event dated in the future counts as one of now. -/
def ReplayBudget.isWithinBudget (budget : ReplayBudget) (eventTsUnix nowTsUnix : Int) : Bool :=
  max (saturatingSub nowTsUnix eventTsUnix) 0 ≤ budget.capAgeSecs

/-! ## The event ACL -/

inductive ReplicationClass
  | replicate
  | rawIngressGated
  | doNotGossip
  deriving DecidableEq

/-- `wal::events::is_raw_ingress_event`. -/
def isRawIngressEvent (eventType : UInt8) : Bool :=
  [0x01, 0x20, 0x21, 0x32, 0x33, 0x35, 0x36, 0x37, 0x38].contains eventType

def classifyEvent (eventType : UInt8) : ReplicationClass :=
  if [0x90, 0x91, 0x92, 0x94].contains eventType then .replicate
  else if eventType = 0x98 then .replicate
  else if eventType = 0x13 then .replicate
  else if isRawIngressEvent eventType then .rawIngressGated
  else .doNotGossip

def swarmSnapshotSubtype : UInt8 := 0x03

def classifyEventExt (eventType eventSubtype : UInt8) : ReplicationClass :=
  if eventType = 0x00 then
    if eventSubtype = swarmSnapshotSubtype then .replicate else .doNotGossip
  else classifyEvent eventType

def isReplicableExt (eventType eventSubtype : UInt8) (policy : GossipPolicy) : Bool :=
  match classifyEventExt eventType eventSubtype with
  | .replicate => true
  | .rawIngressGated => policy.replicateRawIngress
  | .doNotGossip => false

/-! ## Content -/

abbrev PeerPubkey := String

structure MemorySnapshot where
  stableId : String
  text : String
  textHash : String
  tier : String
  tsNs : Int
  importanceMicros : Nat
  lastAccessTs : Int
  accessCount : Nat
  deriving DecidableEq

structure GroundTruthSnapshot where
  stableId : String
  statement : String
  source : String
  scope : String
  assertedAt : Int
  revokedAt : Option Int
  factState : String
  sourceWeight : ExtTreeMap String Nat
  confidenceMicros : Nat
  evidenceContentIds : List String
  maturity : String
  confirmedCount : Nat
  deriving DecidableEq

inductive SyncContent
  | memory (snapshot : MemorySnapshot)
  | groundTruth (snapshot : GroundTruthSnapshot)
  | metadata (eventType eventSubtype : UInt8) (walFrame : List UInt8)
  | rawPrivate (eventType : UInt8) (walFrame : List UInt8)
  deriving DecidableEq

def SyncContent.kind : SyncContent → String
  | .memory _ => "memory"
  | .groundTruth _ => "ground_truth"
  | .metadata .. => "metadata"
  | .rawPrivate .. => "raw_private"

structure SyncEnvelope where
  version : Nat
  contentId : String
  updatedAtUnix : Int
  content : SyncContent
  deriving DecidableEq

def syncProtocolVersion : Nat := 9
def syncEnvelopeVersion : Nat := 1

def SyncContent.toJson (content : SyncContent) : List UInt8 :=
  object (field "kind" (string content.kind) :: match content with
    | .memory s => [
        field "stable_id" (string s.stableId), field "text" (string s.text),
        field "text_hash" (string s.textHash), field "tier" (string s.tier),
        field "ts_ns" (int s.tsNs), field "importance_micros" (nat s.importanceMicros),
        field "last_access_ts" (int s.lastAccessTs), field "access_count" (nat s.accessCount)]
    | .groundTruth s => [
        field "stable_id" (string s.stableId), field "statement" (string s.statement),
        field "source" (string s.source), field "scope" (string s.scope),
        field "asserted_at" (int s.assertedAt), field "revoked_at" (option int s.revokedAt),
        field "fact_state" (string s.factState),
        field "source_weight" (object (s.sourceWeight.toList.map counter)),
        field "confidence_micros" (nat s.confidenceMicros),
        field "evidence_content_ids" (array (s.evidenceContentIds.map string)),
        field "maturity" (string s.maturity), field "confirmed_count" (nat s.confirmedCount)]
    | .metadata eventType eventSubtype walFrame => [
        field "event_type" (nat eventType.toNat), field "event_subtype" (nat eventSubtype.toNat),
        field "wal_frame" (bytes walFrame)]
    | .rawPrivate eventType walFrame => [
        field "event_type" (nat eventType.toNat), field "wal_frame" (bytes walFrame)])

def SyncEnvelope.toJson (envelope : SyncEnvelope) : List UInt8 :=
  object [field "version" (nat envelope.version), field "content_id" (string envelope.contentId),
    field "updated_at_unix" (int envelope.updatedAtUnix), field "content" envelope.content.toJson]

def SyncEnvelope.contentSha256 [Sha256] (envelope : SyncEnvelope) : Digest :=
  Sha256.digest envelope.toJson

/-! ## Vector clocks -/

abbrev VectorClock := ExtTreeMap PeerPubkey Nat

def maxVectorClockPeers : Nat := 256

namespace VectorClock

/-- `VectorClock::get`: a peer that is not known stands at zero. -/
def counterOf (clock : VectorClock) (peer : PeerPubkey) : Nat := clock[peer]?.getD 0

theorem counterOf_of_getElem? {clock : VectorClock} {peer : PeerPubkey} {n : Nat}
    (h : clock[peer]? = some n) : clock.counterOf peer = n := by
  unfold counterOf
  rw [h]
  rfl

/-- `VectorClock::tick`: `none` when the counter is exhausted or there is no free slot. -/
def tick (clock : VectorClock) (self : PeerPubkey) : Option VectorClock :=
  if !clock.contains self && decide (maxVectorClockPeers ≤ clock.size) then none
  else if clock.counterOf self + 1 < 2 ^ 64 then
    some (clock.insert self (clock.counterOf self + 1))
  else none

theorem counterOf_insert_self (clock : VectorClock) (peer : PeerPubkey) (n : Nat) :
    counterOf (clock.insert peer n) peer = n := by
  unfold counterOf
  rw [ExtTreeMap.getElem?_insert_self]
  rfl

theorem counterOf_insert_of_ne (clock : VectorClock) {peer other : PeerPubkey} (n : Nat)
    (h : peer ≠ other) : counterOf (clock.insert peer n) other = counterOf clock other := by
  unfold counterOf
  rw [getElem?_insert_of_ne n h]

theorem tick_eq_some {clock ticked : VectorClock} {self : PeerPubkey}
    (h : tick clock self = some ticked) :
      ticked = clock.insert self (clock.counterOf self + 1) := by
  unfold tick at h
  split at h
  · cases h
  · split at h
    · exact (Option.some.inj h).symm
    · cases h

end VectorClock

/-! ## Frames and acknowledgements -/

inductive GossipTag
  | replicate
  | doNotGossip
  deriving DecidableEq

def GossipTag.asStr : GossipTag → String
  | .replicate => "replicate"
  | .doNotGossip => "do_not_gossip"

def GossipTag.isReplicable : GossipTag → Bool
  | .replicate => true
  | .doNotGossip => false

structure GossipFrame where
  protocolVersion : Nat
  vectorClock : VectorClock
  origin : PeerPubkey
  eventSeq : Nat
  contentSha256 : Digest
  timestampUnix : Int
  tag : GossipTag
  payload : List UInt8
  envelope : SyncEnvelope

def GossipFrame.toJson (frame : GossipFrame) : List UInt8 :=
  object [field "protocol_version" (nat frame.protocolVersion),
    field "vector_clock" (object (frame.vectorClock.toList.map counter)),
    field "origin" (string frame.origin), field "event_seq" (nat frame.eventSeq),
    field "content_sha256" (bytes frame.contentSha256.val),
    field "timestamp_unix" (int frame.timestampUnix), field "tag" (string frame.tag.asStr),
    field "payload" (bytes frame.payload), field "envelope" frame.envelope.toJson]

structure GossipAck where
  protocolVersion : Nat
  origin : PeerPubkey
  originSeq : Nat
  contentSha256 : Digest
  deriving DecidableEq

/-- Two frames with one text have one vector clock. -/
theorem toJson_vectorClock_inj {f g : GossipFrame} (h : f.toJson = g.toJson) :
    f.vectorClock = g.vectorClock := by
  have hstrip : ∀ frame : GossipFrame, ∃ rest, frame.toJson =
      0x7b :: (string "protocol_version" ++ 0x3a :: (nat frame.protocolVersion ++
        0x2c :: (string "vector_clock" ++ 0x3a ::
          (object (frame.vectorClock.toList.map counter) ++ rest)))) := by
    intro frame
    refine ⟨0x2c :: (commaSep [field "origin" (string frame.origin),
      field "event_seq" (nat frame.eventSeq),
      field "content_sha256" (bytes frame.contentSha256.val),
      field "timestamp_unix" (int frame.timestampUnix), field "tag" (string frame.tag.asStr),
      field "payload" (bytes frame.payload), field "envelope" frame.envelope.toJson] ++ [0x7d]), ?_⟩
    simp only [GossipFrame.toJson, object, field, commaSep, List.append_assoc, List.cons_append]
  obtain ⟨x, hf⟩ := hstrip f
  obtain ⟨y, hg⟩ := hstrip g
  rw [hf, hg] at h
  have h := (string_append_inj (List.tail_eq_of_cons_eq h)).2
  have h := (nat_append_inj (stops_cons (by decide) _) (stops_cons (by decide) _)
    (List.tail_eq_of_cons_eq h)).2
  have h := (string_append_inj (List.tail_eq_of_cons_eq h)).2
  exact ExtTreeMap.toList_inj.mp (object_append_inj (List.tail_eq_of_cons_eq h)).1

/-! ## Acceptance -/

inductive GossipAcceptance
  | accept
  | droppedDoNotGossipTag
  | droppedOutsideReplayBudget
  | droppedDuplicate (eventSeq : Nat)
  | droppedProtocolVersion (received : Nat)
  | droppedContentDigest
  | droppedGap (expected received : Nat)
  deriving DecidableEq

def GossipFrame.evaluateAcceptance [Sha256] (frame : GossipFrame) (budget : ReplayBudget)
    (nowTsUnix : Int) (alreadySeen : Bool) : GossipAcceptance :=
  if frame.protocolVersion ≠ syncProtocolVersion ∨
      frame.envelope.version ≠ syncEnvelopeVersion then
    .droppedProtocolVersion frame.protocolVersion
  else if frame.contentSha256 ≠ frame.envelope.contentSha256 then .droppedContentDigest
  else if !frame.tag.isReplicable then .droppedDoNotGossipTag
  else if !budget.isWithinBudget frame.timestampUnix nowTsUnix then .droppedOutsideReplayBudget
  else if alreadySeen then .droppedDuplicate frame.eventSeq
  else .accept

theorem evaluateAcceptance_eq_accept_iff [Sha256] {frame : GossipFrame} {budget : ReplayBudget}
    {now : Int} :
    frame.evaluateAcceptance budget now false = .accept ↔
      frame.protocolVersion = syncProtocolVersion ∧ frame.envelope.version = syncEnvelopeVersion ∧
      frame.contentSha256 = frame.envelope.contentSha256 ∧ frame.tag = .replicate ∧
      budget.isWithinBudget frame.timestampUnix now = true := by
  have htag : frame.tag.isReplicable = true ↔ frame.tag = .replicate := by
    cases frame.tag <;> simp [GossipTag.isReplicable]
  unfold GossipFrame.evaluateAcceptance
  split
  · simp; tauto
  · split
    · simp; tauto
    · split
      · simp_all
      · split <;> simp_all

end Neoth.MeshSync
