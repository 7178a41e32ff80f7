import Neoth.Authority.Types

/-!
# Snapshots of the authority

`full_snapshot_on` reads the members and their carrier bindings out of the database;
`MembershipSnapshot::validate` states what a snapshot on the wire must satisfy, and an
envelope carries it with its digest.
-/

open Lib Lib.Encoding Lib.Transaction

namespace Neoth.Authority

structure CarrierBindingSnapshot where
  carrier : CarrierKind
  transportIdentity : TransportIdentity
  endpoint : String
  assurance : Assurance
  authEpoch : Nat
  membershipEpoch : Nat
  expiresAtUnix : Option Int

structure MemberSnapshot where
  stableNodeId : StableNodeId
  label : String
  state : MembershipState
  authEpoch : Nat
  membershipEpoch : Nat
  tombstoned : Bool
  bindings : List CarrierBindingSnapshot

structure MembershipSnapshot where
  version : Nat
  authorityPath : String
  authorityEpoch : Nat
  revocationFloor : Nat
  pendingOutbox : Nat
  members : List MemberSnapshot

structure MembershipSnapshotEnvelope where
  wireVersion : Nat
  operation : String
  snapshotVersion : Nat
  snapshotDigest : String
  snapshot : MembershipSnapshot

/-! ## The text of a snapshot -/

def CarrierBindingSnapshot.toJson (b : CarrierBindingSnapshot) : List UInt8 :=
  Json.object [
    Json.field "carrier" (Json.string b.carrier.asStr),
    Json.field "transport_identity" (Json.string b.transportIdentity),
    Json.field "endpoint" (Json.string b.endpoint),
    Json.field "assurance" (Json.string b.assurance.asStr),
    Json.field "auth_epoch" (Json.nat b.authEpoch),
    Json.field "membership_epoch" (Json.nat b.membershipEpoch),
    Json.field "expires_at_unix" (Json.option Json.int b.expiresAtUnix)]

def MemberSnapshot.toJson (m : MemberSnapshot) : List UInt8 :=
  Json.object [
    Json.field "stable_node_id" (Json.string m.stableNodeId),
    Json.field "label" (Json.string m.label),
    Json.field "state" (Json.string m.state.asStr),
    Json.field "auth_epoch" (Json.nat m.authEpoch),
    Json.field "membership_epoch" (Json.nat m.membershipEpoch),
    Json.field "tombstoned" (utf8 (if m.tombstoned then "true" else "false")),
    Json.field "bindings" (Json.array (m.bindings.map CarrierBindingSnapshot.toJson))]

def MembershipSnapshot.toJson (s : MembershipSnapshot) : List UInt8 :=
  Json.object [
    Json.field "version" (Json.nat s.version),
    Json.field "authority_path" (Json.string s.authorityPath),
    Json.field "authority_epoch" (Json.nat s.authorityEpoch),
    Json.field "revocation_floor" (Json.nat s.revocationFloor),
    Json.field "pending_outbox" (Json.nat s.pendingOutbox),
    Json.field "members" (Json.array (s.members.map MemberSnapshot.toJson))]

def MembershipSnapshot.canonicalDigest [Sha256] (s : MembershipSnapshot) : String :=
  hexEncode (Sha256.digest s.toJson).val

def MembershipSnapshotEnvelope.toJson (e : MembershipSnapshotEnvelope) : List UInt8 :=
  Json.object [
    Json.field "wire_version" (Json.nat e.wireVersion),
    Json.field "operation" (Json.string e.operation),
    Json.field "snapshot_version" (Json.nat e.snapshotVersion),
    Json.field "snapshot_digest" (Json.string e.snapshotDigest),
    Json.field "snapshot" e.snapshot.toJson]

/-! ## Reading the database -/

def AuthorityDb.tombstoned (db : AuthorityDb) (m : Member) : Bool :=
  db.tombstones.any fun t => t.stableNodeId == m.stableNodeId && t.authEpoch == m.authEpoch

def TransportBinding.snapshot (b : TransportBinding) : Except String CarrierBindingSnapshot := do
  let transportIdentity ← TransportIdentity.parse b.transportIdentity
  require (0 < b.authEpoch) "auth epoch must be positive"
  require (0 < b.membershipEpoch) "membership epoch must be positive"
  .ok { carrier := b.carrier, transportIdentity := transportIdentity, endpoint := b.endpoint,
        assurance := b.assurance, authEpoch := b.authEpoch, membershipEpoch := b.membershipEpoch,
        expiresAtUnix := b.expiresAt }

/-- `SELECT .. FROM transport_bindings WHERE stable_node_id=?1 ORDER BY carrier`. -/
def AuthorityDb.bindingsOf (db : AuthorityDb) (stableNodeId : StableNodeId) :
    List TransportBinding :=
  (db.bindings.rows.filter (·.stableNodeId == stableNodeId)).insertionSort
    fun a b => a.carrier.asStr ≤ b.carrier.asStr

def AuthorityDb.memberSnapshot (db : AuthorityDb) (m : Member) : Except String MemberSnapshot := do
  require m.stableNodeId.parses "stable node id must be 32-byte lowercase hex"
  let bindings ← (db.bindingsOf m.stableNodeId).mapM TransportBinding.snapshot
  require (0 < m.authEpoch) "auth epoch must be positive"
  require (0 < m.membershipEpoch) "membership epoch must be positive"
  .ok { stableNodeId := m.stableNodeId, label := m.label, state := m.state,
        authEpoch := m.authEpoch,
        membershipEpoch := m.membershipEpoch, tombstoned := db.tombstoned m, bindings := bindings }

/-- `SELECT COUNT(*) FROM membership_outbox WHERE delivered_at IS NULL`. -/
def AuthorityDb.pendingOutboxCount (db : AuthorityDb) : Nat :=
  db.outbox.rows.countP (·.deliveredAt.isNone)

/-- `SELECT .. FROM members ORDER BY stable_node_id`. -/
def AuthorityDb.sortedMembers (db : AuthorityDb) : List Member :=
  db.members.rows.insertionSort fun a b => a.stableNodeId ≤ b.stableNodeId

def AuthorityDb.fullSnapshotOn (db : AuthorityDb) (authorityPath : String) :
    Except String MembershipSnapshot := do
  let members ← db.sortedMembers.mapM db.memberSnapshot
  require (0 < db.membershipEpoch) "membership epoch must be positive"
  require (0 < db.revocationFloor) "membership epoch must be positive"
  .ok { version := 1, authorityPath := authorityPath, authorityEpoch := db.membershipEpoch,
        revocationFloor := db.revocationFloor, pendingOutbox := db.pendingOutboxCount,
        members := members }

/-! ## What is read

A snapshot is read or not; if it is, it is a fixed function of the database. -/

/-- `TransportIdentity::parse` accepts. -/
def TransportIdentity.parses (value : String) : Bool :=
  value != "" && byteLen value ≤ 512 && trim value == value && !value.toList.any isControl

theorem transportIdentityParse_eq_ok_iff {value transport : String} :
    TransportIdentity.parse value = .ok transport ↔
      TransportIdentity.parses value = true ∧ transport = value := by
  simp only [TransportIdentity.parse, TransportIdentity.parses, bind_eq_ok_iff, require_eq_ok_iff,
    Except.ok.injEq, Bool.and_eq_true]
  constructor
  · rintro ⟨_, hempty, _, hlong, _, htrim, _, hcontrol, rfl⟩
    exact ⟨⟨⟨⟨hempty, hlong⟩, htrim⟩, hcontrol⟩, rfl⟩
  · rintro ⟨⟨⟨⟨hempty, hlong⟩, htrim⟩, hcontrol⟩, rfl⟩
    exact ⟨(), hempty, (), hlong, (), htrim, (), hcontrol, rfl⟩

def TransportBinding.readable (b : TransportBinding) : Bool :=
  TransportIdentity.parses b.transportIdentity && 0 < b.authEpoch && 0 < b.membershipEpoch

def TransportBinding.toSnapshot (b : TransportBinding) : CarrierBindingSnapshot :=
  { carrier := b.carrier, transportIdentity := b.transportIdentity, endpoint := b.endpoint,
    assurance := b.assurance, authEpoch := b.authEpoch, membershipEpoch := b.membershipEpoch,
    expiresAtUnix := b.expiresAt }

theorem bindingSnapshot_eq_ok_iff (b : TransportBinding) (s : CarrierBindingSnapshot) :
    b.snapshot = .ok s ↔ b.readable = true ∧ s = b.toSnapshot := by
  simp only [TransportBinding.snapshot, TransportBinding.readable, bind_eq_ok_iff,
    require_eq_ok_iff, transportIdentityParse_eq_ok_iff, Except.ok.injEq, Bool.and_eq_true]
  constructor
  · rintro ⟨_, ⟨hparses, rfl⟩, _, hauth, _, hepoch, rfl⟩
    exact ⟨⟨⟨hparses, hauth⟩, hepoch⟩, rfl⟩
  · rintro ⟨⟨⟨hparses, hauth⟩, hepoch⟩, rfl⟩
    exact ⟨_, ⟨hparses, rfl⟩, (), hauth, (), hepoch, rfl⟩

theorem AuthorityDb.mem_bindingsOf {db : AuthorityDb} {stableNodeId : StableNodeId}
    {b : TransportBinding} :
    b ∈ db.bindingsOf stableNodeId ↔ b ∈ db.bindings ∧ b.stableNodeId = stableNodeId := by
  simp [bindingsOf, Table.mem_rows]

/-- The member and its bindings are readable. -/
structure AuthorityDb.MemberReadable (db : AuthorityDb) (m : Member) : Prop where
  parses : m.stableNodeId.parses = true
  bindings : ∀ b ∈ db.bindings, b.stableNodeId = m.stableNodeId → b.readable = true
  auth_pos : 0 < m.authEpoch
  epoch_pos : 0 < m.membershipEpoch

def AuthorityDb.memberToSnapshot (db : AuthorityDb) (m : Member) : MemberSnapshot :=
  { stableNodeId := m.stableNodeId, label := m.label, state := m.state, authEpoch := m.authEpoch,
    membershipEpoch := m.membershipEpoch, tombstoned := db.tombstoned m,
    bindings := (db.bindingsOf m.stableNodeId).map TransportBinding.toSnapshot }

theorem AuthorityDb.memberSnapshot_eq_ok_iff (db : AuthorityDb) (m : Member) (s : MemberSnapshot) :
    db.memberSnapshot m = .ok s ↔ db.MemberReadable m ∧ s = db.memberToSnapshot m := by
  simp only [memberSnapshot, bind_eq_ok_iff, require_eq_ok_iff, decide_eq_true_eq,
    mapM_eq_ok_iff bindingSnapshot_eq_ok_iff, mem_bindingsOf, and_imp, Except.ok.injEq]
  constructor
  · rintro ⟨_, hparses, _, ⟨hbindings, rfl⟩, _, hauth, _, hepoch, rfl⟩
    exact ⟨⟨hparses, hbindings, hauth, hepoch⟩, rfl⟩
  · rintro ⟨⟨hparses, hbindings, hauth, hepoch⟩, rfl⟩
    exact ⟨(), hparses, _, ⟨hbindings, rfl⟩, (), hauth, (), hepoch, rfl⟩

structure AuthorityDb.Readable (db : AuthorityDb) : Prop where
  members : ∀ m ∈ db.members, db.MemberReadable m
  epoch_pos : 0 < db.membershipEpoch
  floor_pos : 0 < db.revocationFloor

theorem AuthorityDb.mem_sortedMembers {db : AuthorityDb} {m : Member} :
    m ∈ db.sortedMembers ↔ m ∈ db.members := by
  simp [sortedMembers, Table.mem_rows]

def AuthorityDb.toSnapshot (db : AuthorityDb) (authorityPath : String) : MembershipSnapshot :=
  { version := 1, authorityPath := authorityPath, authorityEpoch := db.membershipEpoch,
    revocationFloor := db.revocationFloor, pendingOutbox := db.pendingOutboxCount,
    members := db.sortedMembers.map db.memberToSnapshot }

theorem AuthorityDb.fullSnapshotOn_eq_ok_iff {db : AuthorityDb} {authorityPath : String}
    {s : MembershipSnapshot} :
    db.fullSnapshotOn authorityPath = .ok s ↔ db.Readable ∧ s = db.toSnapshot authorityPath := by
  simp only [fullSnapshotOn, bind_eq_ok_iff, require_eq_ok_iff, decide_eq_true_eq,
    mapM_eq_ok_iff db.memberSnapshot_eq_ok_iff, mem_sortedMembers, Except.ok.injEq]
  constructor
  · rintro ⟨_, ⟨hmembers, rfl⟩, _, hepoch, _, hfloor, rfl⟩
    exact ⟨⟨hmembers, hepoch, hfloor⟩, rfl⟩
  · rintro ⟨⟨hmembers, hepoch, hfloor⟩, rfl⟩
    exact ⟨_, ⟨hmembers, rfl⟩, (), hepoch, (), hfloor, rfl⟩

theorem AuthorityDb.find?_toSnapshot {db : AuthorityDb} {authorityPath : String}
    {stableNodeId : StableNodeId} {s : MemberSnapshot}
    (h : (db.toSnapshot authorityPath).members.find? (·.stableNodeId == stableNodeId) = some s) :
    ∃ m ∈ db.members, m.stableNodeId = stableNodeId ∧ s = db.memberToSnapshot m := by
  have hmem := List.mem_of_find?_eq_some h
  have hid : s.stableNodeId = stableNodeId := by simpa using List.find?_some h
  obtain ⟨m, hm, rfl⟩ := List.mem_map.mp hmem
  exact ⟨m, mem_sortedMembers.mp hm, hid, rfl⟩

/-! ## Validation -/

def validEndpoint (endpoint : String) : Bool :=
  trim endpoint != "" && trim endpoint == endpoint && !endpoint.toList.any isControl

/-- The body of the inner loop of `validate`; `carriers` are those already seen.  That the
assurance is one of the two known ones is in its type. -/
def CarrierBindingSnapshot.validate (b : CarrierBindingSnapshot) (m : MemberSnapshot)
    (carriers : List CarrierKind) : Except String Unit := do
  let _ ← TransportIdentity.parse b.transportIdentity
  require (0 < b.authEpoch) "membership snapshot binding auth epoch is invalid"
  require (0 < b.membershipEpoch) "membership snapshot binding membership epoch is invalid"
  require (!carriers.contains b.carrier) "membership snapshot contains duplicate carrier binding"
  require (validEndpoint b.endpoint) "membership snapshot binding endpoint is invalid"
  if m.state = .active then
    require (b.assurance == .signedAttestation && b.authEpoch == m.authEpoch &&
      b.membershipEpoch == m.membershipEpoch)
      "active membership snapshot binding is not authority-exact"
  else
    require (b.authEpoch ≤ m.authEpoch && b.membershipEpoch ≤ m.membershipEpoch)
      "inactive membership snapshot binding exceeds member generation"

def MemberSnapshot.validateBindings (m : MemberSnapshot) :
    List CarrierKind → List CarrierBindingSnapshot → Except String Unit
  | _, [] => .ok ()
  | carriers, b :: rest => do
    b.validate m carriers
    m.validateBindings (b.carrier :: carriers) rest

/-- The body of the outer loop of `validate`; `ids` are the members already seen. -/
def MemberSnapshot.validate (m : MemberSnapshot) (authorityEpoch : Nat) (ids : List StableNodeId) :
    Except String Unit := do
  require m.stableNodeId.parses "membership snapshot stable node id is invalid"
  require (0 < m.authEpoch) "membership snapshot member auth epoch is invalid"
  require (0 < m.membershipEpoch) "membership snapshot member membership epoch is invalid"
  require (trim m.label != "") "membership snapshot member label is empty"
  require (m.membershipEpoch ≤ authorityEpoch)
    "membership snapshot member epoch exceeds authority epoch"
  require (m.tombstoned == (m.state == .revoked)) "membership snapshot tombstone/state mismatch"
  require (m.state != .active || !m.bindings.isEmpty)
    "active membership snapshot has no carrier binding"
  require (!ids.contains m.stableNodeId) "membership snapshot contains duplicate stable node id"
  m.validateBindings [] m.bindings

def validateMembers (authorityEpoch : Nat) :
    List StableNodeId → List MemberSnapshot → Except String Unit
  | _, [] => .ok ()
  | ids, m :: rest => do
    m.validate authorityEpoch ids
    validateMembers authorityEpoch (m.stableNodeId :: ids) rest

def MembershipSnapshot.validate (s : MembershipSnapshot) : Except String Unit := do
  require (s.version == 1) "unsupported membership snapshot version"
  require (s.authorityPath != "") "membership snapshot authority path is empty"
  require (0 < s.authorityEpoch) "membership snapshot authority epoch is invalid"
  require (0 < s.revocationFloor) "membership snapshot revocation floor is invalid"
  require (s.revocationFloor ≤ s.authorityEpoch)
    "membership snapshot revocation floor exceeds authority epoch"
  validateMembers s.authorityEpoch [] s.members

def MembershipSnapshot.intoEnvelope [Sha256] (s : MembershipSnapshot) :
    Except String MembershipSnapshotEnvelope := do
  s.validate
  .ok { wireVersion := 1, operation := "cluster.membership.snapshot", snapshotVersion := s.version,
        snapshotDigest := s.canonicalDigest, snapshot := s }

def MembershipSnapshotEnvelope.validate [Sha256] (e : MembershipSnapshotEnvelope) :
    Except String Unit := do
  require (e.wireVersion == 1) "unsupported membership wire version"
  require (e.operation == "cluster.membership.snapshot") "unsupported membership snapshot operation"
  require (e.snapshotVersion == e.snapshot.version) "membership snapshot version envelope mismatch"
  require (isLowerSha256 e.snapshotDigest) "membership snapshot digest is not lowercase SHA-256"
  e.snapshot.validate
  require (e.snapshotDigest == e.snapshot.canonicalDigest) "membership snapshot digest mismatch"

/-- `serde_json::from_str` of an envelope. -/
class EnvelopeReader where
  read : List UInt8 → Option MembershipSnapshotEnvelope

def MembershipSnapshotEnvelope.fromJson [Sha256] [EnvelopeReader] (json : List UInt8) :
    Except String MembershipSnapshotEnvelope := do
  let envelope ← context (EnvelopeReader.read json) "parse membership snapshot envelope JSON"
  envelope.validate
  .ok envelope

end Neoth.Authority
