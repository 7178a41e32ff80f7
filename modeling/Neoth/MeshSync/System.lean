import Neoth.Lib.Machine
import Neoth.MeshSync.Inbound
import Neoth.MeshSync.Outbound

/-!
# Two nodes

One direction of the durable sync between a sender and a receiver in one membership
incarnation.  A step is one committed transaction, one read of the WAL, or one thing
the surroundings do.  `prepare_peer_frame` is four steps, and any number of carriers
may be between two of them: `load` opens the tables, `openScan` lists the segments,
`scan` reads one of them, `settle` stages what was found or writes the idle cursor.

Frames and acknowledgements once sent stay in `wire` and `acks`, and each may be
delivered at any time, again, or never.  `history` is what was staged and when; no step
reads it.  The other direction shows in the shared vector frontiers, as
`senderReceives` and `receiverStages`.
-/

open Std Lib.Transaction Lib.TreeMap

namespace Neoth.MeshSync

/-! ## State -/

/-- A run of `prepare_peer_frame` between two of its steps. -/
inductive Carrier
  | loaded (policy : GossipPolicy) (cursor : GossipWalCursor)
  | scanning (policy : GossipPolicy) (path : String) (rest : List String) (offset : Nat)
  | scanned (policy : GossipPolicy) (found : Option Found) (next : GossipWalCursor)
  deriving DecidableEq

structure Sender where
  outbox : Outbox
  frontier : VectorClock
  wal : Wal
  views : Views
  carriers : ExtTreeMap Nat Carrier

structure Receiver where
  inbox : Inbox
  frontier : VectorClock
  around : Surroundings

/-- A frame that was staged, with the event and the rows it was made from. -/
structure Staged where
  found : Found
  policy : GossipPolicy
  views : Views
  frame : GossipFrame

structure Mesh where
  sender : Sender
  receiver : Receiver
  wire : List GossipFrame
  acks : List GossipAck
  history : List Staged

/-- Nothing sent or received yet. -/
def Mesh.start (wal : Wal) (views : Views) (around : Surroundings) : Mesh :=
  ⟨⟨.empty, ∅, wal, views, ∅⟩, ⟨.empty, ∅, around⟩, [], [], []⟩

inductive Action
  | write (segment : String) (bytes : List UInt8)
  | setViews (views : Views)
  | load (carrier : Nat) (policy : GossipPolicy)
  | openScan (carrier : Nat)
  | scan (carrier : Nat)
  | settle (carrier : Nat)
  | crash
  | deliver (index : Nat) (policy : GossipPolicy) (now : Int)
  | acknowledge (index : Nat)
  | senderReceives (clock : VectorClock)
  | receiverStages
  | setSurroundings (around : Surroundings)
  | forget (seq : Nat)

inductive Answer
  | quiet
  | prepared (frame : PreparedFrame)
  | inbound (commit : InboundCommit)
  | acknowledged (outcome : OutboundAckOutcome)
  | failed (error : String)

/-! ## Steps -/

def Mesh.setCarrier (s : Mesh) (carrier : Nat) (c : Carrier) : Mesh :=
  { s with sender.carriers := s.sender.carriers.insert carrier c }

def Mesh.dropCarrier (s : Mesh) (carrier : Nat) : Mesh :=
  { s with sender.carriers := s.sender.carriers.erase carrier }

/-- A writer appends to a segment, or starts one. -/
def Wal.write (wal : Wal) (segment : String) (bytes : List UInt8) : Wal :=
  wal.insert segment (wal[segment]?.getD [] ++ bytes)

section Steps
variable [Sha256] [SerdeJson] [UnicodeText] (origin peer : PeerPubkey)

/-- The first transaction of a carrier: replay what is pending, or take the cursor. -/
def Mesh.load (s : Mesh) (carrier : Nat) (policy : GossipPolicy) : Mesh × Answer :=
  match loadState s.sender.outbox s.sender.wal origin with
  | .error e => (s, .failed e)
  | .ok (some frame, _) => ({ s with wire := frame :: s.wire }, .prepared ⟨frame, true⟩)
  | .ok (none, cursor) => (s.setCarrier carrier (.loaded policy cursor), .quiet)

def Mesh.openScan (s : Mesh) (carrier : Nat) : Mesh × Answer :=
  match s.sender.carriers[carrier]? with
  | some (.loaded policy cursor) =>
    match openSegments s.sender.wal cursor with
    | .error e => (s.dropCarrier carrier, .failed e)
    | .ok none => (s.setCarrier carrier (.scanned policy none .start), .quiet)
    | .ok (some (path, rest, offset)) =>
      (s.setCarrier carrier (.scanning policy path rest offset), .quiet)
  | _ => (s, .quiet)

def Mesh.scan (s : Mesh) (carrier : Nat) : Mesh × Answer :=
  match s.sender.carriers[carrier]? with
  | some (.scanning policy path rest offset) =>
    match s.sender.wal[path]? with
    | none => (s.dropCarrier carrier, .failed s!"read gossip WAL segment {path}")
    | some body =>
      match scanSegment policy body path rest offset with
      | .done found next => (s.setCarrier carrier (.scanned policy found next), .quiet)
      | .more path rest => (s.setCarrier carrier (.scanning policy path rest 0), .quiet)
  | _ => (s, .quiet)

/-- The end of a carrier that found nothing. -/
def Mesh.idle (s : Mesh) (next : GossipWalCursor) : Mesh × Answer :=
  match persistIdleCursor s.sender.outbox next with
  | .error e => (s, .failed e)
  | .ok (outbox, _) => ({ s with sender.outbox := outbox }, .quiet)

/-- The end of a carrier that found a frame. -/
def Mesh.stage (s : Mesh) (policy : GossipPolicy) (found : Found) (next : GossipWalCursor) :
    Mesh × Answer :=
  match gossipPayloadEventMeta found.raw with
  | none => (s, .failed "durable mesh scanner returned a malformed WAL frame")
  | some (_, eventSubtype) =>
    if !isReplicableExt found.eventType eventSubtype policy then
      (s, .failed "durable mesh scanner crossed the replication ACL")
    else match stageFrame origin s.sender.outbox s.sender.frontier s.sender.views found.eventType
        eventSubtype found.raw next policy with
      | .error e => (s, .failed e)
      | .ok ((outbox, frontier), prepared) =>
        ({ s with
          sender := { s.sender with outbox := outbox, frontier := frontier }
          wire := prepared.frame :: s.wire
          history := if prepared.replayedPending then s.history
            else ⟨found, policy, s.sender.views, prepared.frame⟩ :: s.history },
          .prepared prepared)

def Mesh.settle (s : Mesh) (carrier : Nat) : Mesh × Answer :=
  match s.sender.carriers[carrier]? with
  | some (.scanned _ none next) => (s.dropCarrier carrier).idle next
  | some (.scanned policy (some found) next) =>
    (s.dropCarrier carrier).stage origin policy found next
  | _ => (s, .quiet)

def Mesh.deliver (s : Mesh) (index : Nat) (policy : GossipPolicy) (now : Int) : Mesh × Answer :=
  match s.wire[index]? with
  | none => (s, .quiet)
  | some frame =>
    match persistInbound s.receiver.around origin frame policy now s.receiver.inbox
        s.receiver.frontier with
    | .error e => (s, .failed e)
    | .ok ((inbox, frontier), commit) =>
      ({ s with
        receiver := { s.receiver with inbox := inbox, frontier := frontier }
        acks := commit.ack.toList ++ s.acks }, .inbound commit)

def Mesh.acknowledge (s : Mesh) (index : Nat) : Mesh × Answer :=
  match s.acks[index]? with
  | none => (s, .quiet)
  | some ack =>
    match acknowledgeOutbound origin ack s.sender.outbox with
    | .error e => (s, .failed e)
    | .ok (outbox, outcome) => ({ s with sender.outbox := outbox }, .acknowledged outcome)

/-- The sender commits a frame of the receiver, which merges the shared frontier. -/
def Mesh.senderReceives (s : Mesh) (clock : VectorClock) : Mesh × Answer :=
  match mergeVectorFrontier s.sender.frontier peer clock with
  | .error e => (s, .failed e)
  | .ok frontier => ({ s with sender.frontier := frontier }, .quiet)

/-- The receiver stages a frame of its own, which ticks the shared frontier. -/
def Mesh.receiverStages (s : Mesh) : Mesh × Answer :=
  match s.receiver.frontier.tick peer with
  | none => (s, .failed "node-global mesh vector counter exhausted")
  | some clock =>
    match persistVectorFrontier clock with
    | .error e => (s, .failed e)
    | .ok frontier => ({ s with receiver.frontier := frontier }, .quiet)

def Mesh.step (s : Mesh) : Action → Mesh × Answer
  | .write segment bytes => ({ s with sender.wal := s.sender.wal.write segment bytes }, .quiet)
  | .setViews views => ({ s with sender.views := views }, .quiet)
  | .load carrier policy => s.load origin carrier policy
  | .openScan carrier => s.openScan carrier
  | .scan carrier => s.scan carrier
  | .settle carrier => s.settle origin carrier
  | .crash => ({ s with sender.carriers := ∅ }, .quiet)
  | .deliver index policy now => s.deliver origin index policy now
  | .acknowledge index => s.acknowledge origin index
  | .senderReceives clock => s.senderReceives peer clock
  | .receiverStages => s.receiverStages peer
  | .setSurroundings around => ({ s with receiver.around := around }, .quiet)
  | .forget seq => ({ s with receiver.inbox.foreign := s.receiver.inbox.foreign.erase seq }, .quiet)

end Steps

end Neoth.MeshSync
