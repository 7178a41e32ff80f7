import Neoth.Authority.Effects
import Neoth.Authority.Snapshot

/-!
# The membership store

The transactions of `MembershipStore` and the reads that admit a peer.  A function that
writes takes the database and returns what it commits, or an error and then commits
nothing; identifiers drawn at random (`Uuid::new_v4`, `Uuid::now_v7`) are arguments.
-/

open Lib Lib.Encoding Lib.Transaction

namespace Neoth.Authority

namespace AuthorityDb

/-! ## Enrollment -/

/-- A revoked node enrolls one generation further on. -/
def inviteAuthEpoch : Option Member → Except String Nat
  | none => .ok 1
  | some m => if m.state = .revoked then AuthEpoch.next m.authEpoch else .ok m.authEpoch

def hasRevocationHistory (db : AuthorityDb) (stableNodeId : StableNodeId) : Bool :=
  db.tombstones.any (·.stableNodeId == stableNodeId)

/-- The node is bound to this carrier identity, or was once invited with it. -/
def historicallyUsed (db : AuthorityDb) (stableNodeId : StableNodeId) (carrier : CarrierKind)
    (transport : TransportIdentity) : Bool :=
  db.bindings.any (fun b => b.stableNodeId == stableNodeId && b.carrier == carrier &&
      b.transportIdentity == transport) ||
    db.invites.any fun i => i.stableNodeId == stableNodeId && i.carrier == carrier &&
      i.transportIdentity == transport

/-- The two inserts of `create_invite`; `invitation_digest` is `UNIQUE`. -/
def insertInvite (db : AuthorityDb) (row : EnrollmentInviteRow) : Except String AuthorityDb := do
  require (!db.invites.any (·.invitationDigest == row.invitationDigest))
    "UNIQUE constraint failed: enrollment_invites.invitation_digest"
  let invites ← context (db.invites.insert row)
    "UNIQUE constraint failed: enrollment_invites.invite_id"
  .ok { db with
    members := db.members.put
      ⟨row.stableNodeId, row.label, .pending, row.authEpoch, row.membershipEpoch⟩
    invites := invites }

def createInvite [Sha256] [Ed25519] (db : AuthorityDb) (inviteId : String)
    (stableNodeId : StableNodeId)
    (signingPublicKey : PublicKey) (carrier : CarrierKind) (transport : TransportIdentity)
    (endpoint label : String) (now expiresAt : Int) :
    Except String (AuthorityDb × EnrollmentInviteRow) := do
  require (trim endpoint != "") "invite endpoint is empty"
  require (trim label != "") "invite label is empty"
  require (byteLen endpoint ≤ 1024) "invite endpoint is too long"
  require (byteLen label ≤ 128) "invite label is too long"
  require (now < expiresAt) "invite expiry must be in the future"
  require (Ed25519.decodes signingPublicKey) "invalid invite signing key"
  require (stableNodeId == StableNodeId.fromVerifyingKey signingPublicKey)
    "invite stable node id does not match signing key"
  let existing := db.members.find stableNodeId
  require (existing.all (·.state != .active))
    "active stable node cannot receive an enrollment invite"
  let authEpoch ← inviteAuthEpoch existing
  require (!db.hasRevocationHistory stableNodeId ||
    !db.historicallyUsed stableNodeId carrier transport)
    "revoked stable node must re-enroll with a carrier transport identity never used before"
  let issuedAt ← MembershipEpoch.next db.membershipEpoch
  let authEpoch ← sqlInteger authEpoch
  let issuedAt ← sqlInteger issuedAt
  let row : EnrollmentInviteRow :=
    { inviteId := inviteId
      invitationDigest := invitationDigest inviteId stableNodeId signingPublicKey carrier transport
        endpoint label authEpoch issuedAt expiresAt
      stableNodeId := stableNodeId, signingPublicKey := signingPublicKey, carrier := carrier
      transportIdentity := transport, endpoint := endpoint, label := label, authEpoch := authEpoch
      membershipEpoch := issuedAt, expiresAt := expiresAt, consumedAt := none }
  let db ← db.insertInvite row
  .ok (db, row)

def isActive (db : AuthorityDb) (stableNodeId : StableNodeId) : Bool :=
  db.members.any fun m => m.stableNodeId == stableNodeId && m.state == .active

/-- Move the authority to `epoch`, with the active members and their bindings. -/
def restamp (db : AuthorityDb) (epoch : Nat) : AuthorityDb :=
  { db with
    membershipEpoch := epoch
    members := db.members.update (·.state == .active) ({ · with membershipEpoch := epoch }) fun _ =>
      rfl
    bindings := db.bindings.update (fun b => db.isActive b.stableNodeId)
      ({ · with membershipEpoch := epoch }) fun _ => rfl }

/-- The epoch a confirmation commits: the one the invite was issued for, or, when the authority
has moved past it, the next one. -/
def committedEpoch (db : AuthorityDb) (issuedAt : Nat) : Except String Nat :=
  if db.membershipEpoch ≤ issuedAt then .ok issuedAt else MembershipEpoch.next db.membershipEpoch

def insertBinding (db : AuthorityDb) (b : TransportBinding) : Except String AuthorityDb := do
  require (!db.bindings.any fun other => other.carrier == b.carrier &&
      other.transportIdentity == b.transportIdentity && other.stableNodeId != b.stableNodeId)
    "UNIQUE constraint failed: transport_bindings.carrier, transport_bindings.transport_identity"
  .ok { db with bindings := db.bindings.put b }

/-- What an attestation must agree on with the invite it answers. -/
def checkInvite (invite : EnrollmentInviteRow) (attestation : EndpointAttestation)
    (carrier : CarrierKind) (transport : TransportIdentity) (endpoint : String) (now : Int) :
    Except String Unit := do
  require invite.consumedAt.isNone "enrollment invite already consumed"
  require (now < invite.expiresAt) "enrollment invite expired"
  require (attestation.expiresAtUnix ≤ invite.expiresAt)
    "endpoint attestation exceeds authority invite expiry"
  require (attestation.invitationDigest == some invite.invitationDigest)
    "endpoint attestation invitation digest mismatch"
  require (invite.carrier == carrier) "enrollment invite carrier mismatch"
  require (invite.transportIdentity == transport) "enrollment invite transport identity mismatch"
  require (invite.endpoint == endpoint) "enrollment invite endpoint mismatch"
  require (invite.stableNodeId == attestation.stableNodeId) "enrollment invite stable node mismatch"
  require (invite.signingPublicKey == attestation.signingPublicKey)
    "enrollment invite signing key mismatch"
  require (attestation.authEpoch == invite.authEpoch)
    "endpoint attestation auth epoch does not match enrollment invite"
  require (attestation.proofMembershipEpoch == invite.membershipEpoch)
    "endpoint attestation proof membership epoch does not match enrollment invite issue epoch"

/-- `UPDATE members SET state='active',.. WHERE stable_node_id=?1 AND auth_epoch=?2 AND state IN
('pending','active')`. -/
def activate (db : AuthorityDb) (stableNodeId : StableNodeId) (authEpoch epoch : Nat) :
    Except String AuthorityDb := do
  require (db.members.any fun m => m.stableNodeId == stableNodeId && m.authEpoch == authEpoch &&
      (m.state == .pending || m.state == .active))
    "enrollment invite has no matching pending or active member generation"
  .ok { db with
    members := db.members.update
      (fun m => m.stableNodeId == stableNodeId && m.authEpoch == authEpoch &&
        (m.state == .pending || m.state == .active))
      ({ · with state := .active, membershipEpoch := epoch }) fun _ => rfl }

def confirmInvite [Ed25519] (db : AuthorityDb) (inviteId : String)
    (attestation : EndpointAttestation)
    (carrier : CarrierKind) (transport : TransportIdentity) (endpoint : String) (now : Int) :
    Except String (AuthorityDb × EnrollmentInviteRow) := do
  attestation.verifyExact carrier transport endpoint now
  let invite ← context (db.invites.find inviteId) "unknown enrollment invite"
  checkInvite invite attestation carrier transport endpoint now
  let committed ← db.committedEpoch invite.membershipEpoch
  let committed ← sqlInteger committed
  let db := if db.membershipEpoch < committed then db.restamp committed else db
  let db ← db.activate invite.stableNodeId invite.authEpoch committed
  let db ← db.insertBinding
    { stableNodeId := invite.stableNodeId, carrier := carrier, transportIdentity := transport
      endpoint := endpoint, assurance := .signedAttestation, authEpoch := invite.authEpoch
      membershipEpoch := committed, expiresAt := some attestation.expiresAtUnix }
  .ok ({ db with
    invites := db.invites.update (·.inviteId == inviteId)
      ({ · with consumedAt := some now }) fun _ => rfl }, invite)

def recordLegacyPending [Sha256] (db : AuthorityDb) (carrier : CarrierKind)
    (transport : TransportIdentity) (endpoint label : String) :
    Except String (AuthorityDb × StableNodeId) :=
  match db.bindings.rows.find? fun b => b.carrier == carrier &&
  b.transportIdentity == transport with
  | some b => .ok (db, b.stableNodeId)
  | none => do
    let stableNodeId := StableNodeId.fromLegacyTransport transport
    let members ← context (db.members.insert ⟨stableNodeId, label, .pending, 1, db.membershipEpoch⟩)
      "UNIQUE constraint failed: members.stable_node_id"
    let bindings ← context (db.bindings.insert
        ⟨stableNodeId, carrier, transport, endpoint, .legacyUnattested, 1,
          db.membershipEpoch, none⟩)
      "UNIQUE constraint failed: transport_bindings.stable_node_id, transport_bindings.carrier"
    .ok ({ db with members := members, bindings := bindings }, stableNodeId)

/-! ## Opening the store -/

/-- A peer of the legacy registry file. -/
structure LegacyPeer where
  pubKeyHex : String
  instanceLabel : String
  addr : String

/-- One turn of the loop of `import_legacy_once`, both inserts `OR IGNORE`. -/
def importPeer [Sha256] (db : AuthorityDb) (peer : LegacyPeer) : Except String AuthorityDb := do
  let transport ← TransportIdentity.parse peer.pubKeyHex
  let stableNodeId := StableNodeId.fromLegacyTransport transport
  let members := db.members.insertOrIgnore ⟨stableNodeId, peer.instanceLabel, .pending, 1, 1⟩
  let taken := db.bindings.any fun b => b.carrier == .peeroxide && b.transportIdentity == transport
  let bindings := if taken then db.bindings else
    db.bindings.insertOrIgnore ⟨stableNodeId, .peeroxide, transport, peer.addr,
      .legacyUnattested, 1, 1, none⟩
  .ok { db with members := members, bindings := bindings }

/-- `MembershipStore::open` on an existing file: the import runs once in the life of a store. -/
def importLegacyOnce [Sha256] (db : AuthorityDb) (peers : List LegacyPeer) :
    Except String AuthorityDb :=
  if 0 < db.legacyImportGeneration then .ok db
  else do
    let db ← peers.foldlM importPeer db
    .ok { db with legacyImportGeneration := 1 }

/-! ## Admission -/

/-- An unresolved intent names the member's current generation. -/
def revocationPending (db : AuthorityDb) (m : Member) : Bool :=
  db.intents.any fun r => r.stableNodeId == m.stableNodeId && r.memberAuthEpoch == m.authEpoch &&
    r.memberMembershipEpoch == m.membershipEpoch && r.unresolved

/-- The join of `admit`. -/
def admissible (db : AuthorityDb) (carrier : CarrierKind) (transport : TransportIdentity)
    (b : TransportBinding) : Option (TransportBinding × Member) :=
  (db.members.find b.stableNodeId).bind fun m =>
    if b.carrier == carrier && b.transportIdentity == transport && b.authEpoch == m.authEpoch &&
        b.membershipEpoch == m.membershipEpoch && m.membershipEpoch == db.membershipEpoch &&
        db.revocationFloor ≤ m.membershipEpoch && !db.revocationPending m
    then some (b, m) else none

/-- `admit`. -/
def admitTransport (db : AuthorityDb) (carrier : CarrierKind) (transport : TransportIdentity)
    (now : Int) : Except String MembershipGrant := do
  let row ← context (db.bindings.rows.findSome? (db.admissible carrier transport))
    "authenticated transport has no current membership binding"
  let (b, m) := row
  require (m.state == .active) "membership is not active"
  require (!db.tombstoned m) "membership is permanently revoked"
  require (unexpired b.expiresAt now) "membership binding expired"
  .ok { stableNodeId := m.stableNodeId, carrier := carrier, transportIdentity := transport
        authEpoch := m.authEpoch, membershipEpoch := m.membershipEpoch,
        expiresAtUnix := b.expiresAt }

/-- The row `revalidate_grant_on` selects. -/
def grantRow (db : AuthorityDb) (grant : MembershipGrant) : Option (TransportBinding × Member) :=
  db.bindings.rows.findSome? fun b => (db.members.find b.stableNodeId).bind fun m =>
    if m.stableNodeId == grant.stableNodeId && b.carrier == grant.carrier &&
        b.transportIdentity == grant.transportIdentity && b.authEpoch == m.authEpoch &&
        b.membershipEpoch == m.membershipEpoch
    then some (b, m) else none

def revalidateGrantOn (db : AuthorityDb) (grant : MembershipGrant) (now : Int) :
    Except String Unit := do
  require (unexpired grant.expiresAtUnix now) "membership grant expired"
  let row ← context (db.grantRow grant) "membership grant binding no longer exists"
  let (b, m) := row
  require (m.state == .active) "membership grant is no longer active"
  require (!db.tombstoned m) "membership grant is revoked"
  require (!db.revocationPending m) "membership grant has a pending revocation intent"
  require (m.authEpoch == grant.authEpoch && m.membershipEpoch == grant.membershipEpoch)
    "membership grant epoch is stale"
  require (m.membershipEpoch == db.membershipEpoch && db.revocationFloor ≤ m.membershipEpoch)
    "membership grant is below the authority revocation floor"
  require (unexpired b.expiresAt now) "membership grant binding expired"

/-- `MembershipEffectGuard::validate_attached`: the guard's lease in the registry, then the
authority.  The cancellation the second check reads is the one `validate` has just read. -/
def validateAttached (db : AuthorityDb) (registry : GenerationEffectState) (lease : Option Nat)
    (grant : MembershipGrant) (now : Int) : Except String Unit := do
  let id ← context lease "membership effect lease already finished"
  registry.validate id
  require (unexpired grant.expiresAtUnix now) "membership effect grant expired"
  require (db.members.any fun m => m.stableNodeId == grant.stableNodeId && m.state == .active &&
      m.authEpoch == grant.authEpoch && m.membershipEpoch == grant.membershipEpoch &&
      m.membershipEpoch == db.membershipEpoch && db.revocationFloor ≤ m.membershipEpoch &&
      !db.tombstoned m && !db.revocationPending m &&
      db.bindings.any fun b => b.stableNodeId == m.stableNodeId && b.carrier == grant.carrier &&
        b.transportIdentity == grant.transportIdentity && b.authEpoch == m.authEpoch &&
        b.membershipEpoch == m.membershipEpoch && unexpired b.expiresAt now)
    "membership authority rejected durable commit"

/-! ## Naming a member -/

def asciiLower (c : Char) : Char := if 'A' ≤ c ∧ c ≤ 'Z' then Char.ofNat (c.toNat + 32) else c

/-- SQL `text LIKE pattern`: `%` any text, `_` any character, letters without case. -/
def like : List Char → List Char → Bool
  | [], text => text.isEmpty
  | c :: pattern, text =>
    if c = '%' then text.tails.any (like pattern)
    else match text with
      | [] => false
      | d :: text => (c = '_' || asciiLower c = asciiLower d) && like pattern text

def resolveMember (db : AuthorityDb) (identifier : String) :
    Except String (Option StableNodeId) := do
  let identifier := trim identifier
  require (identifier != "") "membership identifier is empty"
  let matching := db.members.rows.filter fun m => m.stableNodeId == identifier ||
    like (identifier.toList ++ ['%']) m.stableNodeId.toList || m.label == identifier ||
    db.bindings.any fun b => b.stableNodeId == m.stableNodeId && b.transportIdentity == identifier
  match matching with
  | [] => .ok none
  | [m] => .ok (some m.stableNodeId)
  | _ => .error s!"membership identifier {identifier} is ambiguous"

/-! ## Revocation -/

/-- What `build_revoke_binding` makes of the member it has found in the snapshot. -/
def revokeBindingOf [Sha256] (snapshot : MembershipSnapshot) (member : MemberSnapshot)
    (reason source requestId : String) : Except String (Option MembershipRevokeBinding) :=
  if member.state = .revoked then .ok none
  else do
    require (member.state == .active && !member.tombstoned)
      "only an active membership can be revoked"
    let binding : MembershipRevokeBinding :=
      { requestId := requestId, stableNodeId := member.stableNodeId, reason := reason,
        source := source
        snapshotVersion := snapshot.version, snapshotDigest := snapshot.canonicalDigest
        authorityEpoch := snapshot.authorityEpoch, memberAuthEpoch := member.authEpoch
        memberMembershipEpoch := member.membershipEpoch }
    binding.validate
    .ok (some binding)

def buildRevokeBinding [Sha256] (db : AuthorityDb)
    (path identifier reason source requestId : String) :
    Except String (Option MembershipRevokeBinding) := do
  let resolved ← db.resolveMember identifier
  match resolved with
  | none => .ok none
  | some stableNodeId => do
    let snapshot ← db.fullSnapshotOn path
    let member ← context (snapshot.members.find? (·.stableNodeId == stableNodeId))
      "resolved membership vanished from authority snapshot"
    revokeBindingOf snapshot member reason source requestId

/-- A request id that is already known must come with the binding it was first used with. -/
def sameBinding (existing : RevocationIntent) (binding : MembershipRevokeBinding)
    (requestDigest : String) : Bool :=
  existing.requestDigest == requestDigest && existing.stableNodeId == binding.stableNodeId &&
    existing.snapshotVersion == binding.snapshotVersion &&
    existing.snapshotDigest == binding.snapshotDigest &&
    existing.authorityEpoch == binding.authorityEpoch &&
    existing.memberAuthEpoch == binding.memberAuthEpoch &&
    existing.memberMembershipEpoch == binding.memberMembershipEpoch

/-- `start_revocation_intent` for a request id that is new. -/
def insertIntent [Sha256] (db : AuthorityDb) (path : String) (binding : MembershipRevokeBinding)
    (requestDigest : String) (externalEffectsUnclassified : Bool) :
    Except String (AuthorityDb × RevocationIntent) := do
  let snapshot ← db.fullSnapshotOn path
  require (snapshot.version == binding.snapshotVersion &&
      snapshot.canonicalDigest == binding.snapshotDigest &&
      snapshot.authorityEpoch == binding.authorityEpoch)
    "revocation confirmation snapshot is stale"
  let member ← context (snapshot.members.find? (·.stableNodeId == binding.stableNodeId))
    "revocation target is absent from the confirmed snapshot"
  require (member.state == .active && !member.tombstoned &&
      member.authEpoch == binding.memberAuthEpoch &&
      member.membershipEpoch == binding.memberMembershipEpoch)
    "revocation target generation no longer matches the confirmed snapshot"
  require (!db.intents.any fun r => r.stableNodeId == binding.stableNodeId && r.unresolved)
    "membership already has an unresolved revocation request"
  let row : RevocationIntent :=
    { requestId := binding.requestId, requestDigest := requestDigest
      stableNodeId := binding.stableNodeId, reason := binding.reason, source := binding.source
      snapshotVersion := binding.snapshotVersion, snapshotDigest := binding.snapshotDigest
      authorityEpoch := binding.authorityEpoch, memberAuthEpoch := binding.memberAuthEpoch
      memberMembershipEpoch := binding.memberMembershipEpoch, state := .pending
      externalEffectsUnclassified := externalEffectsUnclassified, tombstoneCommitted := false
      receiptId := none, indeterminateReason := none }
  let intents ← context (db.intents.insert row)
    "UNIQUE constraint failed: revocation_intents.request_id"
  .ok ({ db with intents := intents }, row)

def startRevocationIntent [Sha256] (db : AuthorityDb) (path : String)
    (binding : MembershipRevokeBinding) (externalEffectsUnclassified : Bool) :
    Except String (AuthorityDb × RevocationIntent) := do
  binding.validate
  let requestDigest ← binding.requestDigest
  match db.intents.find binding.requestId with
  | some existing => do
    require (sameBinding existing binding requestDigest)
      "revocation request id was reused with a different immutable binding"
    .ok (db, existing)
  | none => db.insertIntent path binding requestDigest externalEffectsUnclassified

/-- `Uuid::parse_str`, then `to_string`: the simple, hyphenated, braced and URN forms. -/
def parseUuid (value : String) : Option String :=
  let chars := (toAsciiLowercase value).toList
  let simple := chars.length == 32 && chars.all fun c => ('0' ≤ c && c ≤ '9') ||
    ('a' ≤ c && c ≤ 'f')
  if simple then
    some (String.ofList (chars.take 8 ++ '-' :: (chars.drop 8).take 4 ++ '-' ::
      (chars.drop 12).take 4 ++ '-' :: (chars.drop 16).take 4 ++ '-' :: chars.drop 20))
  else
    let inner :=
      if chars.length = 38 && chars.head? == some '\x7b' && chars.getLast? == some '\x7d' then
        (chars.drop 1).dropLast
      else if chars.length = 45 && value.toList.take 9 == "urn:uuid:".toList then chars.drop 9
      else chars
    if isHyphenatedUuid (String.ofList inner) then some (String.ofList inner) else none

/-- `UPDATE revocation_intents SET state='indeterminate',.. WHERE request_id=?1 AND state IN
('pending','indeterminate')`. -/
def markRevocationIndeterminate (db : AuthorityDb) (requestId reason : String) :
    Except String AuthorityDb := do
  require (isPlainText 512 reason) "indeterminate revocation reason is invalid"
  let requestId ← context (parseUuid requestId) "revocation request id is not a UUID"
  require (db.intents.any fun r => r.requestId == requestId && r.unresolved)
    "revocation intent is not unresolved or does not exist"
  .ok { db with
    intents := db.intents.update (fun r => r.requestId == requestId && r.unresolved)
      (fun r => { r with
        state := .indeterminate
        indeterminateReason := r.indeterminateReason.or (some reason)
        externalEffectsUnclassified := false }) fun _ => rfl }

/-- The outbox rows of one revocation, in the order of their insertion. -/
def appendOutbox (db : AuthorityDb) (payload : OutboxPayload) :
    List OutboxKind → Except String AuthorityDb
  | [] => .ok db
  | kind :: rest => do
    let outbox ← context (db.outbox.insert
        ⟨db.nextOutboxId, kind, payload.stableNodeId, payload.authEpoch, payload.membershipEpoch,
          payload, none⟩)
      "UNIQUE constraint failed: membership_outbox.id"
    appendOutbox { db with outbox := outbox, nextOutboxId := db.nextOutboxId + 1 } payload rest

/-- The member turns revoked, in the generation after the one it was revoked in. -/
def revokeMember (db : AuthorityDb) (stableNodeId : StableNodeId)
    (authEpoch nextAuthEpoch epoch : Nat) : Except String AuthorityDb := do
  require (db.members.any fun m => m.stableNodeId == stableNodeId && m.state == .active &&
      m.authEpoch == authEpoch) "revocation target lost its serialized generation"
  .ok { db with
    members := db.members.update
      (fun m => m.stableNodeId == stableNodeId && m.state == .active && m.authEpoch == authEpoch)
      ({ · with state := .revoked, authEpoch := nextAuthEpoch, membershipEpoch := epoch }) fun _ =>
        rfl }

/-- The rows a revocation leaves beside its outbox. -/
def insertTombstone (db : AuthorityDb) (tombstone : RevocationTombstone) (liveTeardown : String)
    (details : TeardownDetails) : Except String AuthorityDb := do
  require (!db.tombstones.any (·.receiptId == tombstone.receiptId))
    "UNIQUE constraint failed: revocation_tombstones.receipt_id"
  let tombstones ← context (db.tombstones.insert tombstone)
    "UNIQUE constraint failed: revocation_tombstones.stable_node_id, revocation_tombstones.auth_epoch"
  let receipts ← context (db.teardownReceipts.insert
      ⟨tombstone.receiptId, tombstone.stableNodeId, liveTeardown, details⟩)
    "UNIQUE constraint failed: teardown_receipts.receipt_id"
  .ok { db with tombstones := tombstones, teardownReceipts := receipts }

/-- `finalize_revocation_intent` for an intent whose tombstone is not yet committed. -/
def commitRevocation (db : AuthorityDb) (binding : MembershipRevokeBinding)
    (status : RevocationIntent) (receiptId liveTeardown : String) (details : TeardownDetails) :
    Except String (AuthorityDb × RevocationTombstone) := do
  require status.unresolved "revocation intent is not finalizable"
  require (!status.externalEffectsUnclassified)
    "revocation external effects remain durably unclassified"
  let current ← context (db.members.find binding.stableNodeId) "Query returned no rows"
  require (current.state == .active && current.authEpoch == binding.memberAuthEpoch &&
      current.membershipEpoch == binding.memberMembershipEpoch &&
      db.membershipEpoch == binding.authorityEpoch)
    "revocation target changed after intent admission"
  let authEpoch ← AuthEpoch.next binding.memberAuthEpoch
  let committed ← MembershipEpoch.next binding.authorityEpoch
  let committed ← sqlInteger committed
  let authEpoch ← sqlInteger authEpoch
  let db := { db.restamp committed with revocationFloor := max db.revocationFloor committed }
  let db ← db.revokeMember binding.stableNodeId binding.memberAuthEpoch authEpoch committed
  let tombstone : RevocationTombstone := ⟨binding.stableNodeId, authEpoch, committed, receiptId⟩
  let db ← db.insertTombstone tombstone liveTeardown details
  let db ← db.appendOutbox
    { requestId := binding.requestId, receiptId := receiptId, stableNodeId := binding.stableNodeId
      authEpoch := authEpoch, membershipEpoch := committed, reason := binding.reason
      intentState := status.state } [.membershipRevoked, .audit, .teardown]
  .ok ({ db with
    intents := db.intents.update (fun r => r.requestId == binding.requestId && r.unresolved)
      (fun r => { r with
        state := if r.state = .pending then .completed else r.state
        tombstoneCommitted := true
        receiptId := some receiptId }) fun _ => rfl }, tombstone)

/-- The tombstone `revoke_receipt` reads: the newest of the node. -/
def latestTombstone (db : AuthorityDb) (stableNodeId : StableNodeId) : Option RevocationTombstone :=
  (db.tombstones.rows.filter fun t => t.stableNodeId == stableNodeId &&
    db.teardownReceipts.any (·.receiptId == t.receiptId)).argmax (·.authEpoch)

/-- The receipt is completed with a snapshot taken after the commit, so an unreadable snapshot
is answered with an error (the inner `Except`) while the revocation stands. -/
def finalizeRevocationIntent [Sha256] (db : AuthorityDb) (path : String)
    (binding : MembershipRevokeBinding) (receiptId liveTeardown : String)
    (details : TeardownDetails) :
    Except String (AuthorityDb × Except String RevocationTombstone) := do
  binding.validate
  let requestDigest ← binding.requestDigest
  let status ← context (db.intents.find binding.requestId) "revocation intent does not exist"
  require (status.requestDigest == requestDigest && status.stableNodeId == binding.stableNodeId &&
      status.snapshotDigest == binding.snapshotDigest)
    "revocation intent immutable binding mismatch"
  if status.tombstoneCommitted then do
    let tombstone ← context (db.latestTombstone binding.stableNodeId)
      "completed revocation intent omitted its tombstone receipt"
    .ok (db, (db.fullSnapshotOn path).map fun _ => tombstone)
  else do
    let (db, tombstone) ← db.commitRevocation binding status receiptId liveTeardown details
    .ok (db, (db.fullSnapshotOn path).map fun _ => tombstone)

/-! ## The outbox -/

def markOutboxDelivered (db : AuthorityDb) (id : Nat) (deliveredAt : Int) :
    Except String AuthorityDb := do
  require (db.outbox.any fun row => row.id == id && row.deliveredAt.isNone)
    s!"membership outbox event {id} was concurrently delivered or disappeared"
  .ok { db with
    outbox := db.outbox.update (fun row => row.id == id && row.deliveredAt.isNone)
      ({ · with deliveredAt := some deliveredAt }) fun _ => rfl }

/-- Undelivered events in the order of their ids; an event's receipt is in its payload. -/
def pendingOutbox (db : AuthorityDb) : List OutboxRow :=
  (db.outbox.rows.filter (·.deliveredAt.isNone)).insertionSort (·.id ≤ ·.id)

/-- A carrier's receipt never loses what was once observed of its teardown. -/
def mergeTeardown (receipt update : CarrierTeardownReceipt) : CarrierTeardownReceipt :=
  { closedSessions := max receipt.closedSessions update.closedSessions
    routesEvicted := max receipt.routesEvicted update.routesEvicted
    queuedEffectsDropped := max receipt.queuedEffectsDropped update.queuedEffectsDropped
    status :=
      if ["", "not_running", "no_live_sessions"].contains receipt.status ||
          ["partial", "pending"].contains update.status
      then update.status else receipt.status }

/-- `merged.entry(carrier).or_default()`, then the update. -/
def mergeCarrier (merged : Option CarrierTeardownReceipt) :
    Option CarrierTeardownReceipt → Option CarrierTeardownReceipt
  | none => merged
  | some update => some (mergeTeardown (merged.getD .empty) update)

def mergeDetails (merged details : TeardownDetails) : TeardownDetails :=
  ⟨mergeCarrier merged.peeroxide details.peeroxide, mergeCarrier merged.iroh details.iroh⟩

def updateTeardown (db : AuthorityDb) (receiptId status : String) (details : TeardownDetails) :
    Except String AuthorityDb := do
  require (db.teardownReceipts.any (·.receiptId == receiptId))
    s!"teardown receipt {receiptId} does not exist"
  .ok { db with
    teardownReceipts := db.teardownReceipts.update (·.receiptId == receiptId)
      (fun row => { row with
        status := if row.status = "partial" then "partial" else status
        details := mergeDetails row.details details }) fun _ => rfl }

def OutboxRow.auditRow (event : OutboxRow) : AuditRow :=
  ⟨event.payload.receiptId, event.kind, event.stableNodeId, event.authEpoch, event.membershipEpoch,
    event.payload⟩

def appendMembershipAudit (db : AuthorityDb) (event : OutboxRow) : AuthorityDb :=
  { db with audit := db.audit.insertOrIgnore (OutboxRow.auditRow event) }

def applyMembershipProjection (db : AuthorityDb) (event : OutboxRow) : AuthorityDb :=
  { db with projectionLog := db.projectionLog.insertOrIgnore (OutboxRow.auditRow event) }

end AuthorityDb

end Neoth.Authority
