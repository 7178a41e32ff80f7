import Neoth.Authority.Actions

/-!
# The queue of sync requests

The table `mesh_sync_requests` of `cluster/durable_sync.rs`, one row for each peer, and its calls. 
A call is made under an effect guard of the membership registry; its transaction validates the guard
against the attached authority and activates the membership fence before anything else.

* `requestSync`, `claimDueSyncRequests`, `markSyncRequestSending`, `resolveSyncRequestClaim`: the
  calls;
* `SyncQueue.step`: the events.

Clock readings are positive where they are used, so the subtractions do not saturate.
-/

open Lib Lib.Transaction

namespace Neoth.SyncRequests

open Neoth.Authority

/-! ## Rows -/

def syncRequestTtlSecs : Int := 15 * 60

def syncRequestRetrySecs : Int := 2

def syncRequestPollLimit : Nat := 32

def syncRequestRetentionSecs : Int := 24 * 60 * 60

/-- The cap of the trigger `mesh_sync_requests_cap`. -/
def syncRequestCap : Nat := 256

def meshSyncRequestOperation : String := "cluster.request-sync"

inductive RequestState
  | queued
  | active
  | waitingPeer
  | complete
  | expired
  deriving DecidableEq

/-- `state IN ('queued','active','waiting_peer')`. -/
def RequestState.isOpen : RequestState → Bool
  | .queued | .active | .waitingPeer => true
  | .complete | .expired => false

structure SyncRequestRow where
  peerPk : String
  stableNodeId : StableNodeId
  authEpoch : Nat
  membershipEpoch : Nat
  /-- `fence_state='active'`. -/
  fenceActive : Bool
  requestedAt : Int
  expiresAt : Int
  state : RequestState
  updatedAt : Int
  lastAttemptAt : Option Int
  sendAttempts : Nat
  lastError : Option String

abbrev RequestTable := Table SyncRequestRow.peerPk

/-- A receipt for the operator, or the claim of a carrier. -/
structure MeshSyncRequest where
  operation : String
  peerPk : String
  stableNodeId : StableNodeId
  authEpoch : Nat
  membershipEpoch : Nat
  state : RequestState
  requestedAt : Int
  expiresAt : Int
  updatedAt : Int
  lastAttemptAt : Option Int
  sendAttempts : Nat
  lastError : Option String
  deriving DecidableEq

def SyncRequestRow.request (row : SyncRequestRow) : MeshSyncRequest :=
  { operation := meshSyncRequestOperation, peerPk := row.peerPk, stableNodeId := row.stableNodeId
    authEpoch := row.authEpoch, membershipEpoch := row.membershipEpoch, state := row.state
    requestedAt := row.requestedAt, expiresAt := row.expiresAt, updatedAt := row.updatedAt
    lastAttemptAt := row.lastAttemptAt, sendAttempts := row.sendAttempts,
    lastError := row.lastError }

def mapSyncRequestRow (row : SyncRequestRow) : Except String MeshSyncRequest := do
  require (0 < row.authEpoch) "mesh sync request auth_epoch"
  require (0 < row.membershipEpoch) "mesh sync request membership_epoch"
  .ok row.request

/-- `i64::checked_add`. -/
def checkedSecs (value : Int) (error : String) : Except String Int :=
  if value < 2 ^ 63 then .ok value else .error error

/-! ## Effects -/

/-- A guard of an effect, with the registry its lease is looked up in. -/
structure SyncEffect where
  registry : GenerationEffectState
  lease : Option Nat
  grant : MembershipGrant

structure SyncQueue where
  authority : AuthorityDb
  requests : RequestTable

def SyncQueue.fresh : SyncQueue := ⟨.fresh, ∅⟩

/-- `activate_membership_fence`, as far as it touches the requests. -/
def activateMembershipFence (requests : RequestTable) (grant : MembershipGrant) : RequestTable :=
  (requests.delete fun row => row.peerPk == grant.stableNodeId &&
      (!row.fenceActive || row.stableNodeId != grant.stableNodeId ||
        row.authEpoch != grant.authEpoch)).update
    (fun row => row.peerPk == grant.stableNodeId && row.stableNodeId == grant.stableNodeId &&
      row.authEpoch == grant.authEpoch && row.fenceActive)
    ({ · with membershipEpoch := grant.membershipEpoch }) fun _ => rfl

namespace SyncQueue

def validateAndActivate (q : SyncQueue) (effect : SyncEffect) (authorityNow : Int) :
    Except String RequestTable := do
  q.authority.validateAttached effect.registry effect.lease effect.grant authorityNow
  .ok (activateMembershipFence q.requests effect.grant)

/-! ## Requesting -/

/-- Terminal receipts go a day after their last update. -/
def retainRecent (requests : RequestTable) (now : Int) : RequestTable :=
  requests.delete fun row => (row.state == .complete || row.state == .expired) &&
    row.updatedAt < now - syncRequestRetentionSecs

/-- `requested_at` grows with every request that finds a row. -/
def nextGeneration (previous : Option SyncRequestRow) (now : Int) : Except String Int :=
  match previous with
  | none => .ok now
  | some row =>
    if row.requestedAt < now then .ok now
    else checkedSecs (row.requestedAt + 1) "mesh sync request generation overflow"

/-- The row that a request leaves. -/
def requestRow (grant : MembershipGrant) (requestedAt expiresAt : Int) : SyncRequestRow :=
  { peerPk := grant.stableNodeId, stableNodeId := grant.stableNodeId, authEpoch := grant.authEpoch
    membershipEpoch := grant.membershipEpoch, fenceActive := true, requestedAt := requestedAt
    expiresAt := expiresAt, state := .queued, updatedAt := requestedAt, lastAttemptAt := none
    sendAttempts := 0, lastError := none }

def requestSync (q : SyncQueue) (effect : SyncEffect) (now authorityNow : Int) :
    Except String (SyncQueue × MeshSyncRequest) := do
  require (0 < now) "mesh sync request timestamp must be positive"
  let requests ← q.validateAndActivate effect authorityNow
  let requests := retainRecent requests now
  let previous := requests.find effect.grant.stableNodeId
  let requestedAt ← nextGeneration previous now
  let expiresAt ← checkedSecs (requestedAt + syncRequestTtlSecs) "mesh sync request expiry overflow"
  require (previous.isSome || requests.count (fun _ => true) < syncRequestCap)
    "mesh sync request queue exceeds 256 peers"
  let requests := requests.put (requestRow effect.grant requestedAt expiresAt)
  let row ← context (requests.find effect.grant.stableNodeId)
      "mesh sync request vanished before commit"
  let receipt ← mapSyncRequestRow row
  .ok ({ q with requests := requests }, receipt)

/-! ## Claiming -/

def expireLegacy (requests : RequestTable) : RequestTable :=
  requests.update (fun row => !row.fenceActive && row.state != .expired)
    ({ · with state := .expired, lastError := some "legacy request has no membership fence" })
      fun _ => rfl

def expireDue (requests : RequestTable) (now : Int) : RequestTable :=
  requests.update (fun row => row.state.isOpen && row.expiresAt ≤ now)
    ({ · with
      state := .expired, updatedAt := now
      lastError := some "request expired before the peer caught up" }) fun _ => rfl

def isDue (now : Int) (row : SyncRequestRow) : Bool :=
  row.state.isOpen && now < row.expiresAt && row.lastAttemptAt.all (· ≤ now - syncRequestRetrySecs)

/-- `ORDER BY COALESCE(last_attempt_at,0) ASC, requested_at ASC, peer_pk ASC`. -/
def dueBefore (a b : SyncRequestRow) : Prop :=
  a.lastAttemptAt.getD 0 < b.lastAttemptAt.getD 0 ∨
  (a.lastAttemptAt.getD 0 = b.lastAttemptAt.getD 0 ∧
    (a.requestedAt < b.requestedAt ∨ (a.requestedAt = b.requestedAt ∧ a.peerPk ≤ b.peerPk)))

instance (a b : SyncRequestRow) : Decidable (dueBefore a b) := inferInstanceAs (Decidable (_ ∨ _))

def listDueSyncRequests (requests : RequestTable) (now : Int) :
    Except String (List MeshSyncRequest) :=
  ((requests.rows.filter (isDue now)).insertionSort dueBefore).mapM mapSyncRequestRow

/-- What the update of a claim selects. -/
def claimable (peerPk : String) (now at_ : Int) (row : SyncRequestRow) : Bool :=
  row.peerPk == peerPk && row.state.isOpen && at_ < row.expiresAt &&
    row.lastAttemptAt.all (· ≤ now - syncRequestRetrySecs)

/-- A due request of a peer that this carrier does not reach. -/
def passOver (requests : RequestTable) (request : MeshSyncRequest) (now : Int) :
    Except String RequestTable := do
  let unavailableAt := max now request.requestedAt
  let selects := fun row : SyncRequestRow =>
    claimable request.peerPk now unavailableAt row && row.requestedAt == request.requestedAt
  require (requests.count selects ≤ 1)
    s!"mesh sync primary-key invariant violated for unavailable peer {request.peerPk}"
  .ok (requests.update selects
    (fun row => { row with
      state := .waitingPeer, updatedAt := max row.updatedAt unavailableAt
      lastError := some "paired peer is not reachable through this carrier" }) fun _ => rfl)

def claimOne (requests : RequestTable) (request : MeshSyncRequest) (now : Int) :
    Except String (RequestTable × MeshSyncRequest) := do
  let claimedAt := max now request.requestedAt
  let selects := claimable request.peerPk now claimedAt
  require (requests.count selects == 1)
    s!"mesh sync request claim lost its serialized transaction for peer {request.peerPk}"
  let requests := requests.update selects
    ({ · with
      state := .active
      updatedAt := claimedAt
      lastAttemptAt := some claimedAt
      lastError := none })
    fun _ => rfl
  let row ← context (requests.find request.peerPk)
      "claimed mesh sync request vanished before commit"
  let claim ← mapSyncRequestRow row
  .ok (requests, claim)

def claimLoop (eligible : List String) (now : Int) :
    List MeshSyncRequest → RequestTable → List MeshSyncRequest →
    Except String (RequestTable × List MeshSyncRequest)
  | [], requests, claims => .ok (requests, claims)
  | request :: due, requests, claims =>
    if syncRequestPollLimit ≤ claims.length then .ok (requests, claims)
    else if !eligible.contains request.peerPk then do
      let requests ← passOver requests request now
      claimLoop eligible now due requests claims
    else do
      let (requests, claim) ← claimOne requests request now
      claimLoop eligible now due requests (claims ++ [claim])

/-- The table on which a claim looks for due requests. -/
def beforeClaims (q : SyncQueue) (effects : List SyncEffect) (now : Int) : RequestTable :=
  expireDue
    (expireLegacy
      (effects.foldl (fun requests effect => activateMembershipFence requests effect.grant)
    q.requests)) now

def claimDueSyncRequests (q : SyncQueue) (effects : List SyncEffect) (now authorityNow : Int) :
    Except String (SyncQueue × List MeshSyncRequest) :=
  if effects.isEmpty then .ok (q, [])
  else do
    require (0 < now) "mesh sync request poll timestamp must be positive"
    let _ ← effects.mapM fun effect =>
      q.authority.validateAttached effect.registry effect.lease effect.grant authorityNow
    let requests := q.beforeClaims effects now
    let due ← listDueSyncRequests requests now
    let (requests, claims) ← claimLoop (effects.map (·.grant.stableNodeId)) now due requests []
    .ok ({ q with requests := requests }, claims)

/-! ## Progress of a claim -/

def ensureClaimMatchesEffect (claim : MeshSyncRequest) (grant : MembershipGrant) :
    Except String Unit :=
  require (claim.stableNodeId == grant.stableNodeId && claim.authEpoch == grant.authEpoch &&
    claim.membershipEpoch == grant.membershipEpoch)
      "mesh sync claim belongs to a stale membership incarnation"

def validateActiveSyncClaim (claim : MeshSyncRequest) : Except String Int := do
  require (claim.operation == meshSyncRequestOperation && claim.state == .active)
    "mesh sync progress requires an active typed claim"
  require (claim.stableNodeId == claim.peerPk && 0 < claim.authEpoch && 0 < claim.membershipEpoch)
    "mesh sync claim membership fence is invalid"
  context claim.lastAttemptAt "active mesh sync claim has no lease timestamp"

/-- The row is still leased to the claim. -/
def leasedTo (claim : MeshSyncRequest) (claimedAt at_ : Int) (row : SyncRequestRow) : Bool :=
  row.peerPk == claim.peerPk && row.requestedAt == claim.requestedAt && row.state == .active &&
    row.lastAttemptAt == some claimedAt && at_ < row.expiresAt && row.fenceActive &&
    row.stableNodeId == claim.peerPk && row.authEpoch == claim.authEpoch &&
    row.membershipEpoch == claim.membershipEpoch

/-- Update the rows the predicate selects, and answer whether there was one. -/
def updateLease (q : SyncQueue) (requests : RequestTable) (peerPk : String)
    (selects : SyncRequestRow → Bool)
    (f : SyncRequestRow → SyncRequestRow) (hf : ∀ row, (f row).peerPk = row.peerPk) :
    Except String (SyncQueue × Bool) := do
  require (requests.count selects ≤ 1)
    s!"mesh sync primary-key invariant violated for peer {peerPk}"
  .ok ({ q with requests := requests.update selects f hf }, requests.count selects == 1)

def markSyncRequestSending (q : SyncQueue) (effect : SyncEffect) (claim : MeshSyncRequest)
    (now authorityNow : Int) : Except String (SyncQueue × Bool) := do
  ensureClaimMatchesEffect claim effect.grant
  require (0 < now) "mesh sync send timestamp must be positive"
  let claimedAt ← validateActiveSyncClaim claim
  let priorSendAttempts ← sqlInteger claim.sendAttempts
  let sendAt := max now claimedAt
  let requests ← q.validateAndActivate effect authorityNow
  q.updateLease requests claim.peerPk
    (fun row => leasedTo claim claimedAt sendAt row && row.sendAttempts == priorSendAttempts)
    (fun row => { row with
      updatedAt := max row.updatedAt sendAt, sendAttempts := row.sendAttempts + 1,
      lastError := none }) fun _ => rfl

/-- How a claim is resolved: `waiting_peer` with an error, or `complete`. -/
inductive Resolution
  | waiting (error : String)
  | complete

def Resolution.state : Resolution → RequestState
  | .waiting _ => .waitingPeer
  | .complete => .complete

/-- The error, cut to 240 characters. -/
def Resolution.error : Resolution → Option String
  | .waiting error => some (String.ofList (error.toList.take 240))
  | .complete => none

def resolveSyncRequestClaim (q : SyncQueue) (effect : SyncEffect) (claim : MeshSyncRequest)
    (resolution : Resolution) (now authorityNow : Int) : Except String (SyncQueue × Bool) := do
  ensureClaimMatchesEffect claim effect.grant
  require (0 < now) "mesh sync request update timestamp must be positive"
  let claimedAt ← validateActiveSyncClaim claim
  let resolvedAt := max now claimedAt
  let requests ← q.validateAndActivate effect authorityNow
  q.updateLease requests claim.peerPk (leasedTo claim claimedAt resolvedAt)
    ({ · with
      state := resolution.state, updatedAt := resolvedAt, lastAttemptAt := some resolvedAt
      lastError := resolution.error }) fun _ => rfl

def markSyncRequestWaiting (q : SyncQueue) (effect : SyncEffect) (claim : MeshSyncRequest)
    (error : String) (now authorityNow : Int) : Except String (SyncQueue × Bool) :=
  q.resolveSyncRequestClaim effect claim (.waiting error) now authorityNow

def markSyncRequestComplete (q : SyncQueue) (effect : SyncEffect) (claim : MeshSyncRequest)
    (now authorityNow : Int) : Except String (SyncQueue × Bool) :=
  q.resolveSyncRequestClaim effect claim .complete now authorityNow

end SyncQueue

/-! ## Events -/

inductive SyncEvent
  /-- A call of the membership authority. -/
  | call (action : Action)
  /-- `quarantine_revoked_membership`. -/
  | quarantine (stableNodeId : StableNodeId)
  | requestSync (effect : SyncEffect) (now authorityNow : Int)
  | claimDue (effects : List SyncEffect) (now authorityNow : Int)
  | markSending (effect : SyncEffect) (claim : MeshSyncRequest) (now authorityNow : Int)
  | markWaiting (effect : SyncEffect) (claim : MeshSyncRequest) (error : String)
    (now authorityNow : Int)
  | markComplete (effect : SyncEffect) (claim : MeshSyncRequest) (now authorityNow : Int)

inductive SyncAnswer
  | quiet
  | requested (receipt : MeshSyncRequest)
  | claimed (claims : List MeshSyncRequest)
  /-- `mark_sync_request_sending` has returned `true`. -/
  | sent (claim : MeshSyncRequest)
  /-- `mark_sync_request_waiting` or `mark_sync_request_complete` has returned `true`. -/
  | resolved (claim : MeshSyncRequest)
  /-- One of the three has returned `false`. -/
  | stale (claim : MeshSyncRequest)
  | failed (error : String)
  deriving DecidableEq

def SyncAnswer.claims : SyncAnswer → List MeshSyncRequest
  | .claimed claims => claims
  | _ => []

/-- Commit what a transaction returns, or keep what was stored. -/
def SyncQueue.commit {A : Type} (q : SyncQueue) (body : Except String (SyncQueue × A))
    (answer : A → SyncAnswer) : SyncQueue × SyncAnswer :=
  match body with
  | .ok (q', a) => (q', answer a)
  | .error e => (q, .failed e)

def SyncQueue.step [Sha256] [Ed25519] (path : String) (q : SyncQueue) :
    SyncEvent → SyncQueue × SyncAnswer
  | .call action => ({ q with authority := (q.authority.step path action).1 }, .quiet)
  | .quarantine stableNodeId =>
    ({ q with requests := q.requests.delete (·.stableNodeId == stableNodeId) }, .quiet)
  | .requestSync effect now authorityNow =>
    q.commit (q.requestSync effect now authorityNow) .requested
  | .claimDue effects now authorityNow =>
    q.commit (q.claimDueSyncRequests effects now authorityNow) .claimed
  | .markSending effect claim now authorityNow =>
    q.commit (q.markSyncRequestSending effect claim now authorityNow) fun changed =>
      if changed then .sent claim else .stale claim
  | .markWaiting effect claim error now authorityNow =>
    q.commit (q.markSyncRequestWaiting effect claim error now authorityNow) fun changed =>
      if changed then .resolved claim else .stale claim
  | .markComplete effect claim now authorityNow =>
    q.commit (q.markSyncRequestComplete effect claim now authorityNow) fun changed =>
      if changed then .resolved claim else .stale claim

/-- The queue after a sequence of events on a fresh home. -/
def SyncQueue.after [Sha256] [Ed25519] (path : String) (events : List SyncEvent) : SyncQueue :=
  (Lib.Machine.run (SyncQueue.step path) .fresh events).1

/-- What the events were answered with. -/
def SyncQueue.answers [Sha256] [Ed25519] (path : String) (events : List SyncEvent) :
    List SyncAnswer :=
  (Lib.Machine.run (SyncQueue.step path) .fresh events).2

end Neoth.SyncRequests
