import Neoth.Authority.FailClosed

/-!
# The daemon that replays the outbox

The authority together with what a revocation takes down: the sync tables of `views.db`
(`cluster/durable_sync.rs`), the live sessions of the carriers, and the WAL the audit goes to.
`drain_outbox` is modelled one effect, one record and one delivery mark at a time, so that any other
event, and a crash, may come between them.

* `quarantineRevokedMembership`, `teardown`: what a revocation removes, by stable node id;
* `activateMembershipFence`: what a new generation removes, by stable node id and auth epoch;
* `Daemon.step`: the events.
-/

open Lib Lib.Transaction

namespace Neoth.Authority

open AuthorityDb

/-! ## The sync tables -/

inductive SyncTable
  | localEvents
  | outbound
  | outboundPending
  | requests
  | inbound
  | inboundReceipts
  | vectorFrontier
  deriving DecidableEq

/-- A row, with the columns of the membership fence; `content` is what the others hold. -/
structure SyncRow where
  table : SyncTable
  peer : String
  stableNodeId : StableNodeId
  authEpoch : Nat
  membershipEpoch : Nat
  /-- `fence_state='active'`. -/
  active : Bool
  content : List UInt8
  deriving DecidableEq

/-- The rows `activate_membership_fence` looks at: those of the peer, and in the frontier those of
the node. -/
def SyncRow.ofNode (row : SyncRow) (stableNodeId : StableNodeId) : Bool :=
  match row.table with
  | .vectorFrontier => row.stableNodeId == stableNodeId
  | _ => row.peer == stableNodeId

/-- The row is one of the generation of the grant. -/
def SyncRow.fenced (row : SyncRow) (grant : MembershipGrant) : Bool :=
  row.active && row.stableNodeId == grant.stableNodeId && row.authEpoch == grant.authEpoch

def activateMembershipFence (views : List SyncRow) (grant : MembershipGrant) : List SyncRow :=
  (views.filter fun row => !row.ofNode grant.stableNodeId || row.fenced grant).map fun row =>
    if row.ofNode grant.stableNodeId && row.fenced grant
    then { row with membershipEpoch := grant.membershipEpoch } else row

def quarantineRevokedMembership (views : List SyncRow) (stableNodeId : StableNodeId) :
    List SyncRow :=
  views.filter fun row => row.table == .localEvents || row.stableNodeId != stableNodeId

/-- What a mutation leaves in a table. -/
structure FencedRow where
  table : SyncTable
  peer : String
  content : List UInt8

def FencedRow.stamp (row : FencedRow) (grant : MembershipGrant) : SyncRow :=
  ⟨row.table, row.peer, grant.stableNodeId, grant.authEpoch, grant.membershipEpoch, true,
    row.content⟩

/-- A mutation under a membership fence: it inserts, changes and deletes rows of its generation. -/
def mutateFenced (views : List SyncRow) (grant : MembershipGrant) (rows : List FencedRow) :
    List SyncRow :=
  ((activateMembershipFence views grant).filter fun row => !row.fenced grant) ++
    rows.map (FencedRow.stamp · grant)

/-- A sweep over all peers: rows are deleted, or their content changes (a request expires). -/
def sweepRows (f : SyncRow → Option (List UInt8)) (views : List SyncRow) : List SyncRow :=
  views.filterMap fun row => (f row).map fun content => { row with content := content }

/-! ## Live sessions -/

/-- `LiveSessionRegistry::teardown`: each carrier closes the sessions of the node. -/
def teardown (sessions : List MembershipGrant) (stableNodeId : StableNodeId) :
    List MembershipGrant :=
  sessions.filter fun session => session.stableNodeId != stableNodeId

def TeardownDetails.receipts (details : TeardownDetails) : List CarrierTeardownReceipt :=
  details.peeroxide.toList ++ details.iroh.toList

/-- The status of a teardown from what the carriers have answered. -/
def TeardownDetails.status (details : TeardownDetails) : String :=
  if details.receipts.any fun receipt => ["partial", "pending"].contains receipt.status
  then "partial" else "complete"

/-! ## Draining the outbox -/

/-- What is left to do for an event. -/
inductive DrainStep
  | perform (event : OutboxRow)
  | record (event : OutboxRow) (details : TeardownDetails)
  | deliver (event : OutboxRow)

def DrainStep.event : DrainStep → OutboxRow
  | .perform event | .record event _ | .deliver event => event

structure Daemon where
  authority : AuthorityDb
  views : List SyncRow
  /-- The grants that admission has handed out. -/
  granted : List MembershipGrant
  sessions : List MembershipGrant
  /-- The audit frames in the WAL. -/
  wal : List OutboxPayload
  /-- The rest of the drain that is running. -/
  drain : List DrainStep

def Daemon.fresh : Daemon := ⟨.fresh, [], [], [], [], []⟩

/-- Safety effects are replayed before proof delivery. -/
def OutboxKind.rank : OutboxKind → Nat
  | .teardown => 0
  | .membershipRevoked => 1
  | .audit => 2

/-- The events of a drain in its order: the sort is stable. -/
def AuthorityDb.drainOrder (db : AuthorityDb) : List OutboxRow :=
  db.pendingOutbox.insertionSort fun a b => a.kind.rank ≤ b.kind.rank

/-- The effect of an event outside the authority.  Without a writer an audit is passed over. -/
def Daemon.perform (d : Daemon) (hasWriter : Bool) (event : OutboxRow) (details : TeardownDetails)
    (rest : List DrainStep) : Daemon :=
  match event.kind with
  | .teardown =>
    { d with
      sessions := teardown d.sessions event.stableNodeId
      drain := .record event details :: rest }
  | .membershipRevoked =>
    { d with
      views := quarantineRevokedMembership d.views event.stableNodeId
      drain := .record event details :: rest }
  | .audit =>
    if hasWriter then
      { d with wal := d.wal ++ [event.payload], drain := .record event details :: rest }
    else { d with drain := rest }

/-- What the authority records of an effect. -/
def AuthorityDb.recordEffect (db : AuthorityDb) (event : OutboxRow) (details : TeardownDetails) :
    Except String AuthorityDb :=
  match event.kind with
  | .teardown => db.updateTeardown event.payload.receiptId details.status details
  | .audit => .ok (db.appendMembershipAudit event)
  | .membershipRevoked => .ok (db.applyMembershipProjection event)

/-- A call and what is left when it fails. -/
def settle (body : Except String Daemon) (failed : Daemon) : Daemon × Except String Unit :=
  match body with
  | .ok d => (d, .ok ())
  | .error e => (failed, .error e)

/-- The next step of the drain; the drain ends with the first that fails. -/
def Daemon.advance (d : Daemon) (hasWriter : Bool) (details : TeardownDetails) (now : Int) :
    Daemon × Except String Unit :=
  match d.drain with
  | [] => (d, .error "no drain is running")
  | .perform event :: rest => (d.perform hasWriter event details rest, .ok ())
  | .record event details :: rest =>
    settle ((d.authority.recordEffect event details).map fun db =>
      { d with authority := db, drain := .deliver event :: rest }) { d with drain := [] }
  | .deliver event :: rest =>
    settle ((d.authority.markOutboxDelivered event.id now).map fun db =>
      { d with authority := db, drain := rest }) { d with drain := [] }

/-! ## Events -/

inductive Event
  /-- A call of the store that is not one of a drain. -/
  | call (action : Action) (h : action.ofDrain = false)
  | admission (carrier : CarrierKind) (transport : TransportIdentity) (now : Int)
  /-- A carrier takes up a session under a grant. -/
  | register (grant : MembershipGrant)
  | disconnect (grant : MembershipGrant)
  /-- A mutation of the sync tables, under the lock of the authority. -/
  | mutate (registry : GenerationEffectState) (lease : Option Nat) (grant : MembershipGrant)
      (now : Int) (rows : List FencedRow)
  | sweep (f : SyncRow → Option (List UInt8))
  | drainOutbox
  | advance (details : TeardownDetails) (now : Int)
  /-- An effect fails, and the drain with it. -/
  | abort
  | crash

def Daemon.step [Sha256] [Ed25519] (path : String) (hasWriter : Bool) (d : Daemon) :
    Event → Daemon × Except String Unit
  | .call action _ =>
    let r := d.authority.step path action
    ({ d with authority := r.1 }, r.2.map fun _ => ())
  | .admission carrier transport now =>
    settle ((d.authority.admitTransport carrier transport now).map fun grant =>
      { d with granted := grant :: d.granted }) d
  | .register grant =>
    settle ((require (d.granted.contains grant) "session without a membership grant").map fun _ =>
      { d with sessions := grant :: d.sessions }) d
  | .disconnect grant => ({ d with sessions := d.sessions.erase grant }, .ok ())
  | .mutate registry lease grant now rows =>
    settle ((d.authority.validateAttached registry lease grant now).map fun _ =>
      { d with views := mutateFenced d.views grant rows }) d
  | .sweep f => ({ d with views := sweepRows f d.views }, .ok ())
  | .drainOutbox => ({ d with drain := d.authority.drainOrder.map .perform }, .ok ())
  | .advance details now => d.advance hasWriter details now
  | .abort => ({ d with drain := [] }, .ok ())
  | .crash => ({ d with sessions := [], granted := [], drain := [] }, .ok ())

/-- The daemon after a sequence of events on a fresh home. -/
def Daemon.after [Sha256] [Ed25519] (path : String) (hasWriter : Bool) (events : List Event) :
    Daemon :=
  (Lib.Machine.run (Daemon.step path hasWriter) .fresh events).1

theorem Daemon.after_append [Sha256] [Ed25519] (path : String) (hasWriter : Bool)
    (before later : List Event) : after path hasWriter (before ++ later) =
      (Lib.Machine.run (Daemon.step path hasWriter) (after path hasWriter before) later).1 := by
  simp only [Daemon.after, Lib.Machine.run_append]

@[simp] theorem settle_ok (d failed : Daemon) : settle (.ok d) failed = (d, .ok ()) := rfl

/-- A call has succeeded, or left what it leaves when it fails. -/
theorem settle_cases (body : Except String Daemon) (failed : Daemon) :
    (∃ d, body = .ok d ∧ (settle body failed).1 = d) ∨ (settle body failed).1 = failed := by
  cases body with
  | ok d => exact .inl ⟨d, rfl, rfl⟩
  | error e => exact .inr rfl

end Neoth.Authority
