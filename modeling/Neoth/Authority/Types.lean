import Neoth.Lib.Json
import Neoth.Lib.Sha256
import Neoth.Lib.Table
import Neoth.Lib.Transaction

/-!
# The membership authority: data

The types of `cluster/membership.rs` and the rows of its database.  A stable node id
and a transport identity are the strings the requests carry: the store compares an id
with a key or derives it, and parses an identity only when it reads it back.  Epochs
are `u64`, stored in the signed 64-bit integers of SQLite (`sqlInteger`).

Times of creation and update, and the digest of an attestation, are written and never
read by the functions modelled here; the tables leave them out.
-/

open Lib Lib.Encoding Lib.Transaction

namespace Neoth.Authority

/-! ## Identities and epochs -/

abbrev StableNodeId := String

abbrev TransportIdentity := String

abbrev PublicKey := { bytes : List UInt8 // bytes.length = 32 }

inductive CarrierKind
  | peeroxide
  | iroh
  deriving DecidableEq

def CarrierKind.asStr : CarrierKind → String
  | .peeroxide => "peeroxide"
  | .iroh => "iroh"

inductive MembershipState
  | discovered
  | pending
  | active
  | revoked
  deriving DecidableEq

def MembershipState.asStr : MembershipState → String
  | .discovered => "discovered"
  | .pending => "pending"
  | .active => "active"
  | .revoked => "revoked"

inductive RevocationIntentState
  | pending
  | indeterminate
  | completed
  | notFound
  deriving DecidableEq

inductive Assurance
  | signedAttestation
  | legacyUnattested
  deriving DecidableEq

def Assurance.asStr : Assurance → String
  | .signedAttestation => "signed_attestation"
  | .legacyUnattested => "legacy_unattested"

def StableNodeId.fromVerifyingKey (key : PublicKey) : StableNodeId := hexEncode key.val

/-- `StableNodeId::parse` accepts. -/
def StableNodeId.parses (value : StableNodeId) : Bool := isLowerHex64 value

def StableNodeId.fromLegacyTransport [Sha256] (transport : TransportIdentity) : StableNodeId :=
  hexEncode (Sha256.digest (utf8 "neoth-legacy-unattested-v1" ++ 0 :: utf8 transport)).val

def TransportIdentity.parse (value : String) : Except String TransportIdentity := do
  require (value != "") "transport identity is empty"
  require (byteLen value ≤ 512) "transport identity exceeds 512-byte limit"
  require (trim value == value) "transport identity contains surrounding whitespace"
  require (!value.toList.any isControl) "transport identity contains control characters"
  .ok value

/-- `AuthEpoch::next`. -/
def AuthEpoch.next (epoch : Nat) : Except String Nat :=
  if epoch + 1 < 2 ^ 64 then .ok (epoch + 1) else .error "auth epoch exhausted"

/-- `MembershipEpoch::next`. -/
def MembershipEpoch.next (epoch : Nat) : Except String Nat :=
  if epoch + 1 < 2 ^ 64 then .ok (epoch + 1) else .error "membership epoch exhausted"

/-- A `u64` bound as a statement parameter: SQLite stores `i64`. -/
def sqlInteger (value : Nat) : Except String Nat :=
  if value < 2 ^ 63 then .ok value else .error "out of range integral type conversion attempted"

theorem authEpochNext_eq_ok_iff {n m : Nat} : AuthEpoch.next n = .ok m ↔
    m = n + 1 ∧ n + 1 < 2 ^ 64 :=
  ite_eq_ok_iff

theorem membershipEpochNext_eq_ok_iff {n m : Nat} :
    MembershipEpoch.next n = .ok m ↔ m = n + 1 ∧ n + 1 < 2 ^ 64 :=
  ite_eq_ok_iff

theorem sqlInteger_eq_ok_iff {n m : Nat} : sqlInteger n = .ok m ↔ m = n ∧ n < 2 ^ 63 :=
  ite_eq_ok_iff

/-! ## Rows -/

structure Member where
  stableNodeId : StableNodeId
  label : String
  state : MembershipState
  authEpoch : Nat
  membershipEpoch : Nat
  deriving DecidableEq

structure TransportBinding where
  stableNodeId : StableNodeId
  carrier : CarrierKind
  transportIdentity : TransportIdentity
  endpoint : String
  assurance : Assurance
  authEpoch : Nat
  membershipEpoch : Nat
  expiresAt : Option Int
  deriving DecidableEq

/-- `PRIMARY KEY(stable_node_id,carrier)`. -/
abbrev TransportBinding.key (b : TransportBinding) : StableNodeId × CarrierKind :=
  (b.stableNodeId, b.carrier)

structure RevocationTombstone where
  stableNodeId : StableNodeId
  authEpoch : Nat
  membershipEpoch : Nat
  receiptId : String
  deriving DecidableEq

/-- `PRIMARY KEY(stable_node_id,auth_epoch)`. -/
abbrev RevocationTombstone.key (t : RevocationTombstone) : StableNodeId × Nat :=
  (t.stableNodeId, t.authEpoch)

structure EnrollmentInviteRow where
  inviteId : String
  invitationDigest : String
  stableNodeId : StableNodeId
  signingPublicKey : PublicKey
  carrier : CarrierKind
  transportIdentity : TransportIdentity
  endpoint : String
  label : String
  authEpoch : Nat
  membershipEpoch : Nat
  expiresAt : Int
  consumedAt : Option Int
  deriving DecidableEq

structure RevocationIntent where
  requestId : String
  requestDigest : String
  stableNodeId : StableNodeId
  reason : String
  source : String
  snapshotVersion : Nat
  snapshotDigest : String
  authorityEpoch : Nat
  memberAuthEpoch : Nat
  memberMembershipEpoch : Nat
  state : RevocationIntentState
  externalEffectsUnclassified : Bool
  tombstoneCommitted : Bool
  receiptId : Option String
  indeterminateReason : Option String
  deriving DecidableEq

/-- `state IN ('pending','indeterminate')`. -/
def RevocationIntent.unresolved (r : RevocationIntent) : Bool :=
  r.state == .pending || r.state == .indeterminate

inductive OutboxKind
  | membershipRevoked
  | audit
  | teardown
  deriving DecidableEq

/-- The JSON object a revocation leaves in each of its outbox rows. -/
structure OutboxPayload where
  requestId : String
  receiptId : String
  stableNodeId : StableNodeId
  authEpoch : Nat
  membershipEpoch : Nat
  reason : String
  intentState : RevocationIntentState
  deriving DecidableEq

structure OutboxRow where
  id : Nat
  kind : OutboxKind
  stableNodeId : StableNodeId
  authEpoch : Nat
  membershipEpoch : Nat
  payload : OutboxPayload
  deliveredAt : Option Int
  deriving DecidableEq

structure CarrierTeardownReceipt where
  closedSessions : Nat
  routesEvicted : Nat
  queuedEffectsDropped : Nat
  status : String
  deriving DecidableEq

/-- `CarrierTeardownReceipt::default()`. -/
def CarrierTeardownReceipt.empty : CarrierTeardownReceipt := ⟨0, 0, 0, ""⟩

/-- The `BTreeMap` from the names of the carriers. -/
structure TeardownDetails where
  peeroxide : Option CarrierTeardownReceipt
  iroh : Option CarrierTeardownReceipt
  deriving DecidableEq

/-- `BTreeMap::new()`. -/
def TeardownDetails.empty : TeardownDetails := ⟨none, none⟩

structure TeardownRow where
  receiptId : String
  stableNodeId : StableNodeId
  status : String
  details : TeardownDetails
  deriving DecidableEq

structure AuditRow where
  receiptId : String
  kind : OutboxKind
  stableNodeId : StableNodeId
  authEpoch : Nat
  membershipEpoch : Nat
  payload : OutboxPayload
  deriving DecidableEq

/-! ## The database -/

/-- The membership authority database. -/
structure AuthorityDb where
  membershipEpoch : Nat
  revocationFloor : Nat
  legacyImportGeneration : Nat
  members : Table Member.stableNodeId
  bindings : Table TransportBinding.key
  tombstones : Table RevocationTombstone.key
  invites : Table EnrollmentInviteRow.inviteId
  intents : Table RevocationIntent.requestId
  /-- `AUTOINCREMENT`: the id of the next outbox row. -/
  nextOutboxId : Nat
  outbox : Table OutboxRow.id
  teardownReceipts : Table TeardownRow.receiptId
  audit : Table fun row : AuditRow => (row.receiptId, row.kind)
  projectionLog : Table AuditRow.receiptId
  deriving DecidableEq

/-- What `migrate` creates. -/
def AuthorityDb.fresh : AuthorityDb :=
  { membershipEpoch := 1, revocationFloor := 1, legacyImportGeneration := 0, members := ∅,
    bindings := ∅, tombstones := ∅, invites := ∅, intents := ∅, nextOutboxId := 1, outbox := ∅,
    teardownReceipts := ∅, audit := ∅, projectionLog := ∅ }

/-! ## Attestations and invitations -/

/-- Ed25519 as `ed25519-dalek` has it: which byte strings decode to a key, and which
signatures verify. -/
class Ed25519 where
  decodes : PublicKey → Bool
  verify : PublicKey → List UInt8 → List UInt8 → Bool

structure EndpointAttestation where
  protocolVersion : Nat
  stableNodeId : StableNodeId
  signingPublicKey : PublicKey
  carrier : CarrierKind
  transportIdentity : TransportIdentity
  bootId : String
  runtimeId : String
  endpoint : String
  authEpoch : Nat
  proofMembershipEpoch : Nat
  invitationDigest : Option String
  expiresAtUnix : Int
  signature : List UInt8

/-- The JSON that is signed. -/
def EndpointAttestation.signableBytes (a : EndpointAttestation) : List UInt8 :=
  Json.object [
    Json.field "protocol_version" (Json.nat a.protocolVersion),
    Json.field "stable_node_id" (Json.string a.stableNodeId),
    Json.field "signing_public_key" (Json.bytes a.signingPublicKey.val),
    Json.field "carrier" (Json.string a.carrier.asStr),
    Json.field "transport_identity" (Json.string a.transportIdentity),
    Json.field "boot_id" (Json.string a.bootId),
    Json.field "runtime_id" (Json.string a.runtimeId),
    Json.field "endpoint" (Json.string a.endpoint),
    Json.field "auth_epoch" (Json.nat a.authEpoch),
    Json.field "proof_membership_epoch" (Json.nat a.proofMembershipEpoch),
    Json.field "invitation_digest" (Json.option Json.string a.invitationDigest),
    Json.field "expires_at_unix" (Json.int a.expiresAtUnix)]

def EndpointAttestation.verifyExact [Ed25519] (a : EndpointAttestation) (carrier : CarrierKind)
    (authenticatedTransport : TransportIdentity) (endpoint : String) (now : Int) :
    Except String Unit := do
  require (a.protocolVersion == 2) "unsupported endpoint attestation protocol version"
  require (now < a.expiresAtUnix) "endpoint attestation expired"
  require (a.carrier == carrier) "endpoint attestation carrier mismatch"
  require (a.transportIdentity == authenticatedTransport)
    "endpoint attestation transport identity mismatch"
  require (a.endpoint == endpoint) "endpoint attestation endpoint mismatch"
  require (Ed25519.decodes a.signingPublicKey) "invalid attestation signing key"
  require (a.stableNodeId == StableNodeId.fromVerifyingKey a.signingPublicKey)
    "attestation stable node id does not match signing key"
  require (a.signature.length == 64) "attestation signature must be 64 bytes"
  require (Ed25519.verify a.signingPublicKey a.signableBytes a.signature)
    "endpoint attestation signature invalid"

/-- A length-prefixed field of `invitation_digest`. -/
def digestField (value : String) : List UInt8 := leBytes 8 (byteLen value) ++ utf8 value

def invitationDigest [Sha256] (inviteId : String) (stableNodeId : StableNodeId)
    (signingPublicKey : PublicKey) (carrier : CarrierKind) (transportIdentity : TransportIdentity)
    (endpoint label : String) (authEpoch issuedAtMembershipEpoch : Nat) (expiresAt : Int) :
      String :=
  hexEncode (Sha256.digest (utf8 "neoth-membership-invite-v1" ++ 0 ::
    ([inviteId, stableNodeId, carrier.asStr, transportIdentity, endpoint,
      label].flatMap digestField ++
      signingPublicKey.val ++ leBytes 8 authEpoch ++ leBytes 8 issuedAtMembershipEpoch ++
      leBytes 8 (expiresAt % 2 ^ 64).toNat))).val

/-! ## Revocation requests -/

/-- The hyphenated form: 36 bytes, hyphens at 8, 13, 18 and 23, hexadecimal digits elsewhere. -/
def isHyphenatedUuid (value : String) : Bool :=
  let bytes := utf8 value
  bytes.length == 36 && bytes.zipIdx.all fun (byte, index) =>
    if index = 8 ∨ index = 13 ∨ index = 18 ∨ index = 23 then byte == 0x2d else isAsciiHexdigit byte

/-- `validate_revocation_request_id`: the canonical form of a version 7 UUID. -/
def validateRevocationRequestId (value : String) : Except String Unit := do
  require (isHyphenatedUuid value) "revocation request id is not a UUID"
  require (toAsciiLowercase value == value) "revocation request id is not canonical"
  require ((utf8 value).getD 14 0 == 0x37) "revocation request id is not UUIDv7"

/-- Not blank, no surrounding whitespace, no control characters, at most `limit` bytes. -/
def isPlainText (limit : Nat) (value : String) : Bool :=
  trim value != "" && trim value == value && byteLen value ≤ limit && !value.toList.any isControl

def isSourceByte (b : UInt8) : Bool :=
  isAsciiDigit b || (0x61 ≤ b && b ≤ 0x7a) || (0x41 ≤ b && b ≤ 0x5a) ||
    b == 0x5f || b == 0x2d || b == 0x2e

def isLowerSha256 : String → Bool := isLowerHex64

structure MembershipRevokeBinding where
  requestId : String
  stableNodeId : StableNodeId
  reason : String
  source : String
  snapshotVersion : Nat
  snapshotDigest : String
  authorityEpoch : Nat
  memberAuthEpoch : Nat
  memberMembershipEpoch : Nat
  deriving DecidableEq

namespace MembershipRevokeBinding

def validate (b : MembershipRevokeBinding) : Except String Unit := do
  validateRevocationRequestId b.requestId
  require b.stableNodeId.parses "stable node id must be 32-byte lowercase hex"
  require (isPlainText 240 b.reason) "revocation reason is invalid"
  require (trim b.source != "" && trim b.source == b.source && byteLen b.source ≤ 64 &&
    (utf8 b.source).all isSourceByte) "revocation source is invalid"
  require (b.snapshotVersion == 1) "revocation snapshot version is unsupported"
  require (isLowerSha256 b.snapshotDigest) "revocation snapshot digest is not lowercase SHA-256"
  require (0 < b.authorityEpoch) "membership epoch must be positive"
  require (0 < b.memberAuthEpoch) "auth epoch must be positive"
  require (0 < b.memberMembershipEpoch) "membership epoch must be positive"
  require (b.memberMembershipEpoch == b.authorityEpoch)
    "revocation member generation is not at the authority epoch"

def toJson (b : MembershipRevokeBinding) : List UInt8 :=
  Json.object [
    Json.field "request_id" (Json.string b.requestId),
    Json.field "stable_node_id" (Json.string b.stableNodeId),
    Json.field "reason" (Json.string b.reason),
    Json.field "source" (Json.string b.source),
    Json.field "snapshot_version" (Json.nat b.snapshotVersion),
    Json.field "snapshot_digest" (Json.string b.snapshotDigest),
    Json.field "authority_epoch" (Json.nat b.authorityEpoch),
    Json.field "member_auth_epoch" (Json.nat b.memberAuthEpoch),
    Json.field "member_membership_epoch" (Json.nat b.memberMembershipEpoch)]

def requestDigest [Sha256] (b : MembershipRevokeBinding) : Except String String := do
  b.validate
  .ok (hexEncode (Sha256.digest b.toJson).val)

end MembershipRevokeBinding

/-! ## Grants -/

structure MembershipGrant where
  stableNodeId : StableNodeId
  carrier : CarrierKind
  transportIdentity : TransportIdentity
  authEpoch : Nat
  membershipEpoch : Nat
  expiresAtUnix : Option Int
  deriving DecidableEq

/-- `expires_at.is_none_or(|expiry| expiry > now)`. -/
def unexpired (expiresAt : Option Int) (now : Int) : Bool := expiresAt.all (now < ·)

end Neoth.Authority
