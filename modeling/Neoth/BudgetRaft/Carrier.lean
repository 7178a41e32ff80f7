import Neoth.BudgetRaft.Types
import Neoth.Lib.Machine

/-!
# The carrier of the budget authority

`cluster/budget_raft/carrier.rs`, with the envelope of `cluster/heartbeat.rs` and the sessions of
`cluster/peer_streams.rs`.  A request takes an identifier, enters a slot in the map of pending
requests and waits; a response takes the slot that it matches and is sent to the request behind it.

* `acceptResponse`: what happens to the map under its lock;
* `CarrierSystem.step`: one access to what the requests, the responses and `stop` share.

The registry, the grants' revalidation, the queues and the timers are inputs of the steps.  Requests
from peers are admitted here and answered by the service behind it.
-/

open Std Lib.Encoding Lib.Machine

namespace Neoth.BudgetRaft

/-! ## Envelopes -/

inductive BudgetRaftMessageKind
  | commandRequest
  | commandResponse
  | appendEntriesRequest
  | appendEntriesResponse
  | voteRequest
  | voteResponse
  | installSnapshotRequest
  | installSnapshotResponse
  deriving DecidableEq

def BudgetRaftMessageKind.isResponse : BudgetRaftMessageKind → Bool
  | .commandResponse | .appendEntriesResponse | .voteResponse | .installSnapshotResponse => true
  | _ => false

structure BudgetRaftEnvelope where
  version : UInt16
  requestId : UInt64
  clusterId : String
  membershipEpoch : UInt64
  scopeHash : String
  assertedSender : String
  kind : BudgetRaftMessageKind
  payload : List UInt8

def budgetRaftEnvelopeVersion : UInt16 := 1
def maxBudgetRaftPayloadBytes : Nat := 512 * 1024
def maxBudgetRaftClusterIdBytes : Nat := 128
def maxBudgetRaftSenderBytes : Nat := 128

def validateBudgetRaftEnvelope (envelope : BudgetRaftEnvelope) : Except String Unit :=
  if envelope.version ≠ budgetRaftEnvelopeVersion then
    .error ("budget raft envelope version " ++ toString envelope.version ++
      " does not match expected " ++ toString budgetRaftEnvelopeVersion)
  else if envelope.requestId = 0 then .error "budget raft request id is zero"
  else if envelope.clusterId.isEmpty ||
  decide (maxBudgetRaftClusterIdBytes < byteLen envelope.clusterId) then
    .error "budget raft cluster id is empty or exceeds cap"
  else if envelope.assertedSender.isEmpty ||
  decide (maxBudgetRaftSenderBytes < byteLen envelope.assertedSender) then
    .error "budget raft asserted sender is empty or exceeds cap"
  else if byteLen envelope.scopeHash ≠ 64 || !(utf8 envelope.scopeHash).all isAsciiHexdigit then
    .error "budget raft scope hash is not canonical SHA-256 hex"
  else if maxBudgetRaftPayloadBytes < envelope.payload.length then
    .error ("budget raft payload " ++ toString envelope.payload.length ++ " exceeds cap " ++
      toString maxBudgetRaftPayloadBytes)
  else .ok ()

/-! ## Sessions -/

inductive CarrierKind
  | peeroxide
  | iroh
  deriving DecidableEq

structure MembershipGrant where
  stableNodeId : StableNodeId
  carrier : CarrierKind
  transportIdentity : TransportIdentity
  authEpoch : UInt64
  membershipEpoch : UInt64

structure BudgetPeerRoute where
  nodeId : UInt64
  stableNodeId : StableNodeId
  transportIdentity : TransportIdentity

structure LiveSender where
  generation : UInt64
  stableNodeId : Option StableNodeId
  membershipGrant : Option MembershipGrant

abbrev PeerStreamRegistry := ExtTreeMap String LiveSender

structure BudgetSession where
  transportIdentity : String
  generation : UInt64
  stableNodeId : StableNodeId
  grant : MembershipGrant

inductive SendError
  | unknownPeer
  | queueFull
  | closed
  | membershipRevoked

/-- `PeerStreamRegistry::budget_session`; `valid` says whether the grant is revalidated. -/
def PeerStreamRegistry.budgetSession (registry : PeerStreamRegistry) (route : BudgetPeerRoute)
    (config : BudgetClusterConfig) (valid : Bool) : Except SendError BudgetSession :=
  match registry[route.transportIdentity.val]? with
  | none => .error .unknownPeer
  | some ⟨generation, some stableNodeId, some grant⟩ =>
    if grant.carrier ≠ .peeroxide || grant.stableNodeId ≠ route.stableNodeId ||
    stableNodeId ≠ route.stableNodeId ||
        grant.transportIdentity ≠ route.transportIdentity ||
        grant.membershipEpoch ≠ config.membershipEpoch ||
        config.voters[route.stableNodeId]? ≠ some route.transportIdentity || !valid
          then .error .membershipRevoked
    else .ok ⟨route.transportIdentity.val, generation, stableNodeId, grant⟩
  | some _ => .error .membershipRevoked

/-- `PeerStreamRegistry::send_budget_on_session`; `queue` is what the effect permit and the queue
answer. -/
def PeerStreamRegistry.sendBudgetOnSession (registry : PeerStreamRegistry) (session : BudgetSession)
    (valid : Bool) (queue : Except SendError Unit) : Except SendError Unit :=
  match registry[session.transportIdentity]? with
  | none => .error .unknownPeer
  | some ⟨generation, stableNodeId, grant⟩ =>
    let sameGrant := grant.any fun current =>
      current.stableNodeId = session.grant.stableNodeId &&
        current.transportIdentity = session.grant.transportIdentity &&
        current.authEpoch = session.grant.authEpoch &&
        current.membershipEpoch = session.grant.membershipEpoch &&
        current.carrier = session.grant.carrier
    if generation ≠ session.generation || stableNodeId ≠ some session.stableNodeId || !sameGrant ||
    !valid then
      .error .membershipRevoked
    else queue

/-! ## The carrier -/

def maxPending : Nat := 64
def maxInboundRequests : Nat := 16

/-- A slot; `reply` is the call at the other end of its channel. -/
structure PendingReply where
  transportIdentity : String
  stableNodeId : StableNodeId
  generation : UInt64
  expectedKind : BudgetRaftMessageKind
  reply : Nat

/-- `inbound` counts the permits that are taken. -/
structure BudgetPeerCarrier where
  config : BudgetClusterConfig
  localSender : StableNodeId
  nextRequestId : UInt64
  pending : ExtTreeMap UInt64 PendingReply
  stopping : Bool
  inbound : Nat

def BudgetPeerCarrier.new (config : BudgetClusterConfig) (localSender : StableNodeId) :
    BudgetPeerCarrier :=
  ⟨config, localSender, 1, ∅, false, 0⟩

def BudgetPeerCarrier.envelope (carrier : BudgetPeerCarrier) (requestId : UInt64)
    (kind : BudgetRaftMessageKind) (payload : List UInt8) : BudgetRaftEnvelope :=
  ⟨budgetRaftEnvelopeVersion, requestId, carrier.config.clusterId, carrier.config.membershipEpoch,
    carrier.config.scopeHash.val, carrier.localSender.val, kind, payload⟩

def BudgetPeerCarrier.matchesSessionConfig (carrier : BudgetPeerCarrier) (session : BudgetSession)
    (envelope : BudgetRaftEnvelope) (valid : Bool) : Bool :=
  envelope.clusterId = carrier.config.clusterId &&
  envelope.membershipEpoch = carrier.config.membershipEpoch &&
    envelope.scopeHash = carrier.config.scopeHash.val &&
    envelope.assertedSender = session.stableNodeId.val &&
    session.grant.membershipEpoch = carrier.config.membershipEpoch &&
    carrier.config.voters[session.stableNodeId]? = some session.grant.transportIdentity && valid

/-- The tuple under which a response may take the slot. -/
def PendingReply.admits (candidate : PendingReply) (session : BudgetSession)
    (envelope : BudgetRaftEnvelope) : Bool :=
  candidate.transportIdentity = session.grant.transportIdentity.val &&
    candidate.stableNodeId = session.stableNodeId && candidate.generation = session.generation &&
      candidate.expectedKind = envelope.kind

/-- `accept_response` under the lock: the map as it is left, and the slot that was taken. -/
def acceptResponse (pending : ExtTreeMap UInt64 PendingReply) (session : BudgetSession)
    (envelope : BudgetRaftEnvelope) : ExtTreeMap UInt64 PendingReply × Option PendingReply :=
  match pending[envelope.requestId]? with
  | none => (pending, none)
  | some candidate =>
    if candidate.admits session envelope then (pending.erase envelope.requestId, some candidate)
    else (pending, none)

/-! ## Calls and responses -/

/-- What a call returns; one whose future is dropped returns nothing. -/
inductive CallResult
  | ok (envelope : BudgetRaftEnvelope)
  | unavailable (message : String)
  | dropped

/-- Where a call is between two accesses to what is shared.  At `closing` the guard that empties its
slot is due, and `receiving` says whether the receiving end of its channel is still there. -/
inductive CallPhase
  | drawing
  | entering
  | sending
  | subscribing
  | waiting
  | closing (result : CallResult) (receiving : Bool)
  | over (result : CallResult)

/-- A call of `request`; `reply` is what its channel holds, with the number of the response. -/
structure CarrierCall where
  route : BudgetPeerRoute
  kind : BudgetRaftMessageKind
  expectedKind : BudgetRaftMessageKind
  payload : List UInt8
  session : BudgetSession
  requestId : UInt64
  phase : CallPhase
  reply : Option (Nat × BudgetRaftEnvelope)

/-- A response behind the checks of `accept_envelope`: before the lock, with the slot it took, sent,
or dropped. -/
inductive ArrivalPhase
  | checked
  | taken (entry : PendingReply)
  | sent (entry : PendingReply)
  | refused

structure Arrival where
  session : BudgetSession
  envelope : BudgetRaftEnvelope
  phase : ArrivalPhase

/-- `clearing` counts the calls of `stop` that have raised the flag and not cleared the map. -/
structure CarrierSystem where
  carrier : BudgetPeerCarrier
  clearing : Nat
  calls : List CarrierCall
  arrivals : List Arrival
  outbox : List (BudgetSession × BudgetRaftEnvelope)

/-- What happens to one call. -/
inductive CallEvent
  /-- One `fetch_add`. -/
  | draw
  | enter
  | send (registry : PeerStreamRegistry) (valid : Bool) (queue : Except SendError Unit)
  | subscribe
  | poll
  | timeout
  | sessionCancelled
  | stopSeen
  | drop
  | cleanup

inductive CarrierEvent
  /-- A call up to its identifier; the registry may be gone. -/
  | request (route : BudgetPeerRoute) (kind expectedKind : BudgetRaftMessageKind)
      (payload : List UInt8) (registry : Option PeerStreamRegistry) (valid : Bool)
  | call (i : Nat) (event : CallEvent)
  /-- `accept_envelope`. -/
  | receive (session : BudgetSession) (envelope : BudgetRaftEnvelope) (valid : Bool)
  /-- The lock of `accept_response`. -/
  | respond (k : Nat)
  /-- The send behind the lock. -/
  | forward (k : Nat)
  /-- A task that served a request ends. -/
  | served
  | stop
  | clear

namespace CallPhase

/-- The receiving end of the channel is there. -/
def receiving : CallPhase → Bool
  | .sending | .subscribing | .waiting => true
  | .closing _ receiving => receiving
  | _ => false

/-- The call has entered its slot, and the guard has not run. -/
def registered : CallPhase → Bool
  | .sending | .subscribing | .waiting | .closing _ _ => true
  | _ => false

/-- The call is past its entry. -/
def begun : CallPhase → Bool
  | .drawing | .entering => false
  | _ => true

def result : CallPhase → Option CallResult
  | .closing result _ | .over result => some result
  | _ => none

end CallPhase

namespace Arrival

/-- The slot that the response took. -/
def entry (arrival : Arrival) : Option PendingReply :=
  match arrival.phase with
  | .taken entry | .sent entry => some entry
  | _ => none

end Arrival

namespace CarrierSystem

def fresh (config : BudgetClusterConfig) (localSender : StableNodeId) : CarrierSystem :=
  ⟨.new config localSender, 0, [], [], []⟩

def setPending (s : CarrierSystem) (pending : ExtTreeMap UInt64 PendingReply) : CarrierSystem :=
  { s with carrier := { s.carrier with pending } }

def setCall (s : CarrierSystem) (i : Nat) (call : CarrierCall) : CarrierSystem :=
  { s with calls := s.calls.set i call }

def setPhase (s : CarrierSystem) (i : Nat) (call : CarrierCall) (phase : CallPhase) :
    CarrierSystem :=
  s.setCall i { call with phase }

/-- The sending end of a channel is in the slot, or with a response that has taken it. -/
def senderAlive (s : CarrierSystem) (i : Nat) : Bool :=
  s.carrier.pending.toList.any (fun slot => slot.2.reply = i) ||
    s.arrivals.any fun arrival =>
      match arrival.phase with
      | .taken entry => entry.reply = i
      | _ => false

/-- What a receiver is told, if it is told anything. -/
def pollReceiver (s : CarrierSystem) (i : Nat) (call : CarrierCall) : Option CallResult :=
  match call.reply with
  | some (_, envelope) => some (.ok envelope)
  | none => if s.senderAlive i then none else
    some (.unavailable "budget reply channel was cancelled")

/-- The first part of `request`. -/
def request (s : CarrierSystem) (route : BudgetPeerRoute)
    (kind expectedKind : BudgetRaftMessageKind)
    (payload : List UInt8) (registry : Option PeerStreamRegistry) (valid : Bool) :
    CarrierSystem × Option CallResult :=
  if s.carrier.stopping then (s, some (.unavailable "budget carrier is stopping"))
  else if route.stableNodeId = s.carrier.localSender then
    (s, some (.unavailable "budget raft carrier refuses a self route"))
  else
    match registry with
    | none => (s, some (.unavailable "budget peer registry is gone"))
    | some registry =>
      match registry.budgetSession route s.carrier.config valid with
      | .error _ => (s, some (.unavailable "no current authenticated budget session"))
      | .ok session =>
        ({ s with
          calls := s.calls ++ [⟨route, kind, expectedKind, payload, session, 0, .drawing, none⟩] },
          none)

/-- `next_id`: zero is drawn again. -/
def draw (s : CarrierSystem) (i : Nat) (call : CarrierCall) : CarrierSystem :=
  let id := s.carrier.nextRequestId
  let s := { s with carrier := { s.carrier with nextRequestId := id + 1 } }
  if id ≠ 0 then s.setCall i { call with requestId := id, phase := .entering } else s

def enter (s : CarrierSystem) (i : Nat) (call : CarrierCall) : CarrierSystem × Option CallResult :=
  if maxPending ≤ s.carrier.pending.size then
    let result := .unavailable "budget carrier pending reply limit reached"
    (s.setPhase i call (.over result), some result)
  else
    let entry : PendingReply :=
      ⟨call.route.transportIdentity.val, call.route.stableNodeId, call.session.generation,
        call.expectedKind, i⟩
    ((s.setPending (s.carrier.pending.insert call.requestId entry)).setPhase i call .sending, none)

def send (s : CarrierSystem) (i : Nat) (call : CarrierCall) (registry : PeerStreamRegistry)
    (valid : Bool) (queue : Except SendError Unit) : CarrierSystem :=
  match registry.sendBudgetOnSession call.session valid queue with
  | .error _ =>
    s.setPhase i call
      (.closing (.unavailable "budget request could not enter current authenticated session") true)
  | .ok () =>
    { s.setPhase i call .subscribing with
      outbox :=
        s.outbox ++ [(call.session, s.carrier.envelope call.requestId call.kind call.payload)] }

def subscribe (s : CarrierSystem) (i : Nat) (call : CarrierCall) : CarrierSystem :=
  s.setPhase i call (if s.carrier.stopping then
    .closing (.unavailable "budget carrier stopped") true else .waiting)

def poll (s : CarrierSystem) (i : Nat) (call : CarrierCall) : CarrierSystem :=
  match s.pollReceiver i call with
  | some result => s.setPhase i call (.closing result false)
  | none => s

/-- The timer is looked at behind the channel. -/
def timeout (s : CarrierSystem) (i : Nat) (call : CarrierCall) : CarrierSystem :=
  s.setPhase i call
    (.closing ((s.pollReceiver i call).getD (.unavailable "budget raft request timed out")) false)

/-- `remove_pending`, by the guard. -/
def cleanup (s : CarrierSystem) (i : Nat) (call : CarrierCall) (result : CallResult) :
    CarrierSystem × Option CallResult :=
  ((s.setPending (s.carrier.pending.erase call.requestId)).setPhase i call (.over result),
    some result)

def acceptEnvelope (s : CarrierSystem) (session : BudgetSession) (envelope : BudgetRaftEnvelope)
    (valid : Bool) : CarrierSystem :=
  if s.carrier.stopping || (validateBudgetRaftEnvelope envelope).toOption.isNone ||
      !s.carrier.matchesSessionConfig session envelope valid then s
  else if envelope.kind.isResponse then
    { s with arrivals := s.arrivals ++ [⟨session, envelope, .checked⟩] }
  else if maxInboundRequests ≤ s.carrier.inbound then s
  else { s with carrier := { s.carrier with inbound := s.carrier.inbound + 1 } }

def setArrival (s : CarrierSystem) (k : Nat) (arrival : Arrival) (phase : ArrivalPhase) :
    CarrierSystem :=
  { s with arrivals := s.arrivals.set k { arrival with phase } }

def respond (s : CarrierSystem) (k : Nat) (arrival : Arrival) : CarrierSystem :=
  match acceptResponse s.carrier.pending arrival.session arrival.envelope with
  | (_, none) => s.setArrival k arrival .refused
  | (pending, some entry) => (s.setPending pending).setArrival k arrival (.taken entry)

/-- `reply.send`: a channel without a receiver drops the response. -/
def forward (s : CarrierSystem) (k : Nat) (arrival : Arrival) (entry : PendingReply) :
    CarrierSystem :=
  let s := s.setArrival k arrival (.sent entry)
  match s.calls[entry.reply]? with
  | some call =>
    if call.phase.receiving then
      s.setCall entry.reply { call with reply := some (k, arrival.envelope) } else s
  | none => s

/-- An event finds the call where it expects it, or does nothing. -/
def callStep (s : CarrierSystem) (i : Nat) (call : CarrierCall) (event : CallEvent) :
    CarrierSystem × Option CallResult :=
  match event, call.phase with
  | .draw, .drawing => (s.draw i call, none)
  | .enter, .entering => s.enter i call
  | .send registry valid queue, .sending => (s.send i call registry valid queue, none)
  | .subscribe, .subscribing => (s.subscribe i call, none)
  | .poll, .waiting => (s.poll i call, none)
  | .timeout, .waiting => (s.timeout i call, none)
  | .sessionCancelled, .waiting =>
    (s.setPhase i call (.closing (.unavailable "authenticated budget session was cancelled") false),
      none)
  | .stopSeen, .waiting =>
    if s.carrier.stopping then
      (s.setPhase i call (.closing (.unavailable "budget carrier stopped") false), none)
    else (s, none)
  | .drop, .waiting => (s.setPhase i call (.closing .dropped false), none)
  | .cleanup, .closing result _ => s.cleanup i call result
  | _, _ => (s, none)

def respondStep (s : CarrierSystem) (k : Nat) : CarrierSystem :=
  match s.arrivals[k]? with
  | some ⟨session, envelope, .checked⟩ => s.respond k ⟨session, envelope, .checked⟩
  | _ => s

def forwardStep (s : CarrierSystem) (k : Nat) : CarrierSystem :=
  match s.arrivals[k]? with
  | some ⟨session, envelope, .taken entry⟩ => s.forward k ⟨session, envelope, .taken entry⟩ entry
  | _ => s

/-- One access to the shared state; the answer is what `request` returns, when it returns. -/
def step (s : CarrierSystem) : CarrierEvent → CarrierSystem × Option CallResult
  | .request route kind expectedKind payload registry valid =>
    s.request route kind expectedKind payload registry valid
  | .call i event =>
    match s.calls[i]? with
    | some call => s.callStep i call event
    | none => (s, none)
  | .receive session envelope valid => (s.acceptEnvelope session envelope valid, none)
  | .respond k => (s.respondStep k, none)
  | .forward k => (s.forwardStep k, none)
  | .served => ({ s with carrier := { s.carrier with inbound := s.carrier.inbound - 1 } }, none)
  | .stop => ({ s with carrier := { s.carrier with stopping := true }, clearing := s.clearing + 1 },
    none)
  | .clear => if 0 < s.clearing then ({ s.setPending ∅ with clearing := s.clearing - 1 }, none)
    else (s, none)

def after (config : BudgetClusterConfig) (localSender : StableNodeId) (events : List CarrierEvent) :
    CarrierSystem :=
  (run step (fresh config localSender) events).1

end CarrierSystem

end Neoth.BudgetRaft
