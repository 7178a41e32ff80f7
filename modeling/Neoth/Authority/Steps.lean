import Neoth.Authority.Store

/-!
# What a transaction of the store can do

What each transaction that commits has checked and written: `Invited`, `Confirmed`, `LegacyAdded`,
`Intended`, `Marked` and `Revoked` describe the database after it, row by row.

* `raiseMember`, `raiseBinding`: the effect of moving the authority to a new epoch;
* `createInvite_spec`, `confirmInvite_spec`, `recordLegacyPending_spec`, `importPeer_spec`,
  `startRevocationIntent_spec`, `markRevocationIndeterminate_spec`, `finalizeRevocationIntent_spec`.
-/

open Lib Lib.Encoding Lib.Transaction

namespace Neoth.Authority

open AuthorityDb

/-- The tables of delivered and undelivered revocation events are the same. -/
structure SameEvents (db db' : AuthorityDb) : Prop where
  nextOutboxId : db'.nextOutboxId = db.nextOutboxId
  outbox : db'.outbox = db.outbox
  teardownReceipts : db'.teardownReceipts = db.teardownReceipts

/-! ## Invitations -/

/-- `create_invite` has committed `row`. -/
structure Invited (db db' : AuthorityDb) (row : EnrollmentInviteRow) : Prop where
  key : row.stableNodeId = StableNodeId.fromVerifyingKey row.signingPublicKey
  label : trim row.label ≠ ""
  inactive : ∀ m ∈ db.members, m.stableNodeId = row.stableNodeId → m.state ≠ .active
  authEpoch : inviteAuthEpoch (db.members.find row.stableNodeId) = .ok row.authEpoch
  unused : db.hasRevocationHistory row.stableNodeId = true →
    db.historicallyUsed row.stableNodeId row.carrier row.transportIdentity = false
  issued : row.membershipEpoch = db.membershipEpoch + 1
  unconsumed : row.consumedAt = none
  inserted : db.invites.insert row = some db'.invites
  eq : db' = { db with
    members := db.members.put ⟨row.stableNodeId, row.label, .pending, row.authEpoch,
      row.membershipEpoch⟩
    invites := db'.invites }

variable {row : EnrollmentInviteRow}

theorem insertInvite_spec {db db' : AuthorityDb} (h : db.insertInvite row = .ok db') :
    db.invites.insert row = some db'.invites ∧ db' = { db with
      members := db.members.put
        ⟨row.stableNodeId, row.label, .pending, row.authEpoch, row.membershipEpoch⟩
      invites := db'.invites } := by
  simp only [insertInvite, bind_eq_ok_iff, context_eq_ok_iff] at h
  obtain ⟨_, -, invites, hinsert, h⟩ := h
  cases h
  exact ⟨hinsert, rfl⟩

variable {stableNodeId : StableNodeId} {carrier : CarrierKind} {transport : TransportIdentity}

theorem createInvite_spec [Sha256] [Ed25519] {db db' : AuthorityDb} {inviteId : String}
 {key : PublicKey}
 {endpoint label : String} {now expiresAt : Int}

    (h : db.createInvite inviteId stableNodeId key carrier transport endpoint label now expiresAt =
      .ok (db', row)) : Invited db db' row := by
  simp only [createInvite, bind_eq_ok_iff, require_eq_ok_iff, sqlInteger_eq_ok_iff,
    membershipEpochNext_eq_ok_iff] at h
  obtain ⟨_, -, _, hlabel, _, -, _, -, _, -, _, -, _, hkey, _, hinactive, authEpoch, hauth, _,
      hunused,
    issuedAt, ⟨rfl, -⟩, _, ⟨rfl, -⟩, _, ⟨rfl, -⟩, next, hinsert, h⟩ := h
  cases h
  obtain ⟨hinserted, heq⟩ := insertInvite_spec hinsert
  refine ⟨by simpa using hkey, by simpa using hlabel, ?_, hauth, ?_, rfl, rfl, hinserted, heq⟩
  · intro m hm hid
    have hfind : db.members.find stableNodeId = some m := Table.find_eq_some_iff.mpr ⟨hm, hid⟩
    rw [hfind] at hinactive
    simpa using hinactive
  · intro hhistory
    simpa [hhistory] using hunused

/-! ## Moving the authority -/

/-- `db.restamp epoch`, unless the authority is there already. -/
def AuthorityDb.raise (db : AuthorityDb) (epoch : Nat) : AuthorityDb :=
  if db.membershipEpoch < epoch then db.restamp epoch else db

/-- What `raise` makes of a member. -/
def AuthorityDb.raiseMember (db : AuthorityDb) (epoch : Nat) (m : Member) : Member :=
  if db.membershipEpoch < epoch ∧ m.state = .active then { m with membershipEpoch := epoch } else m

/-- What `raise` makes of a binding. -/
def AuthorityDb.raiseBinding (db : AuthorityDb) (epoch : Nat) (b : TransportBinding) :
    TransportBinding :=
  if db.membershipEpoch < epoch ∧ db.isActive b.stableNodeId = true
  then { b with membershipEpoch := epoch } else b

section raise
variable {db : AuthorityDb} {epoch : Nat}

theorem mem_raise_members {m' : Member} :
    m' ∈ (db.raise epoch).members ↔ ∃ m ∈ db.members, m' = db.raiseMember epoch m := by
  unfold raise raiseMember
  split
  · rename_i h
    change m' ∈ db.members.update _ ({ · with membershipEpoch := epoch }) (fun _ => rfl) ↔ _
    rw [Table.mem_update]
    simp [h]
  · rename_i h
    simp [h]

theorem mem_raise_bindings {b' : TransportBinding} :
    b' ∈ (db.raise epoch).bindings ↔ ∃ b ∈ db.bindings, b' = db.raiseBinding epoch b := by
  unfold raise raiseBinding
  split
  · rename_i h
    change b' ∈ db.bindings.update _ ({ · with membershipEpoch := epoch }) (fun _ => rfl) ↔ _
    rw [Table.mem_update]
    simp [h]
  · rename_i h
    simp [h]

theorem raise_membershipEpoch (h : db.membershipEpoch ≤ epoch) :
    (db.raise epoch).membershipEpoch = epoch := by
  unfold raise
  split
  · rfl
  · omega

theorem raise_frame (db : AuthorityDb) (epoch : Nat) :
    (db.raise epoch).revocationFloor = db.revocationFloor ∧
    (db.raise epoch).tombstones = db.tombstones ∧ (db.raise epoch).invites = db.invites ∧
    (db.raise epoch).intents = db.intents ∧ SameEvents db (db.raise epoch) := by
  unfold raise
  split <;> exact ⟨rfl, rfl, rfl, rfl, rfl, rfl, rfl⟩

@[simp] theorem raiseMember_stableNodeId (m : Member) :
    (db.raiseMember epoch m).stableNodeId = m.stableNodeId := by
  unfold raiseMember
  split <;> rfl

@[simp] theorem raiseMember_label (m : Member) : (db.raiseMember epoch m).label = m.label := by
  unfold raiseMember
  split <;> rfl

@[simp] theorem raiseMember_state (m : Member) : (db.raiseMember epoch m).state = m.state := by
  unfold raiseMember
  split <;> rfl

@[simp] theorem raiseMember_authEpoch (m : Member) :
    (db.raiseMember epoch m).authEpoch = m.authEpoch := by
  unfold raiseMember
  split <;> rfl

variable {m : Member}

theorem raiseMember_of_not_active (h : m.state ≠ .active) : db.raiseMember epoch m = m :=
  if_neg fun hactive => h hactive.2

/-- Where the active members carry the authority's epoch, they carry the new one. -/
theorem raiseMember_membershipEpoch (hle : db.membershipEpoch ≤ epoch) (hactive : m.state = .active)
    (hstamp : m.membershipEpoch = db.membershipEpoch) :
      (db.raiseMember epoch m).membershipEpoch = epoch := by
  unfold raiseMember
  split
  · rfl
  · rename_i h
    have hge : ¬ db.membershipEpoch < epoch := fun hlt => h ⟨hlt, hactive⟩
    omega

@[simp] theorem raiseBinding_key (b : TransportBinding) :
    (db.raiseBinding epoch b).key = b.key := by
  unfold raiseBinding
  split <;> rfl

@[simp] theorem raiseBinding_stableNodeId (b : TransportBinding) :
    (db.raiseBinding epoch b).stableNodeId = b.stableNodeId := by
  unfold raiseBinding
  split <;> rfl

@[simp] theorem raiseBinding_carrier (b : TransportBinding) :
    (db.raiseBinding epoch b).carrier = b.carrier := by
  unfold raiseBinding
  split <;> rfl

@[simp] theorem raiseBinding_transportIdentity (b : TransportBinding) :
    (db.raiseBinding epoch b).transportIdentity = b.transportIdentity := by
  unfold raiseBinding
  split <;> rfl

@[simp] theorem raiseBinding_endpoint (b : TransportBinding) :
    (db.raiseBinding epoch b).endpoint = b.endpoint := by
  unfold raiseBinding
  split <;> rfl

@[simp] theorem raiseBinding_assurance (b : TransportBinding) :
    (db.raiseBinding epoch b).assurance = b.assurance := by
  unfold raiseBinding
  split <;> rfl

@[simp] theorem raiseBinding_authEpoch (b : TransportBinding) :
    (db.raiseBinding epoch b).authEpoch = b.authEpoch := by
  unfold raiseBinding
  split <;> rfl

theorem raiseBinding_membershipEpoch (db : AuthorityDb) (epoch : Nat) (b : TransportBinding) :
    (db.raiseBinding epoch b).membershipEpoch = b.membershipEpoch ∨
      (db.raiseBinding epoch b).membershipEpoch = epoch := by
  unfold raiseBinding
  split
  · exact .inr rfl
  · exact .inl rfl

end raise

/-! ## Confirmations -/

/-- The epoch a confirmation of `invite` commits, where there is one. -/
def AuthorityDb.nextCommitted (db : AuthorityDb) (invite : EnrollmentInviteRow) : Nat :=
  if db.membershipEpoch ≤ invite.membershipEpoch then invite.membershipEpoch
  else db.membershipEpoch + 1

theorem le_nextCommitted (db : AuthorityDb) (invite : EnrollmentInviteRow) :
    db.membershipEpoch ≤ db.nextCommitted invite := by
  unfold nextCommitted
  split <;> omega

/-- The update of `confirm_invite` applies to this member. -/
def Member.enrolledBy (m : Member) (invite : EnrollmentInviteRow) : Bool :=
  m.stableNodeId == invite.stableNodeId && m.authEpoch == invite.authEpoch &&
    (m.state == .pending || m.state == .active)

variable {m : Member} {invite : EnrollmentInviteRow}

theorem enrolledBy_iff :
    m.enrolledBy invite = true ↔ m.stableNodeId = invite.stableNodeId ∧
    m.authEpoch = invite.authEpoch ∧
      (m.state = .pending ∨ m.state = .active) := by
  simp [Member.enrolledBy, and_assoc]

/-- The binding a confirmation of `invite` makes. -/
def EnrollmentInviteRow.binding (invite : EnrollmentInviteRow) (committed : Nat) (expiresAt : Int) :
    TransportBinding :=
  { stableNodeId := invite.stableNodeId, carrier := invite.carrier
    transportIdentity := invite.transportIdentity, endpoint := invite.endpoint
    assurance := .signedAttestation, authEpoch := invite.authEpoch, membershipEpoch := committed
    expiresAt := some expiresAt }

/-- What a confirmation makes of a member. -/
def AuthorityDb.confirmMember (db : AuthorityDb) (invite : EnrollmentInviteRow) (m : Member) :
    Member :=
  if m.enrolledBy invite then
    { m with state := .active, membershipEpoch := db.nextCommitted invite }
  else db.raiseMember (db.nextCommitted invite) m

/-- `confirm_invite` has committed `invite`. -/
structure Confirmed (db db' : AuthorityDb) (invite : EnrollmentInviteRow) (now expiresAt : Int) :
    Prop where
  mem : invite ∈ db.invites
  unconsumed : invite.consumedAt = none
  member : ∃ m ∈ db.members, m.enrolledBy invite = true
  epoch : db'.membershipEpoch = db.nextCommitted invite
  floor : db'.revocationFloor = db.revocationFloor
  members : ∀ m', m' ∈ db'.members ↔ ∃ m ∈ db.members, m' = db.confirmMember invite m
  bindings : ∀ b', b' ∈ db'.bindings ↔ b' = invite.binding (db.nextCommitted invite) expiresAt ∨
    b'.key ≠ (invite.stableNodeId, invite.carrier) ∧
      ∃ b ∈ db.bindings, b' = db.raiseBinding (db.nextCommitted invite) b
  tombstones : db'.tombstones = db.tombstones
  invites : db'.invites = db.invites.update (·.inviteId == invite.inviteId)
    ({ · with consumedAt := some now }) fun _ => rfl
  intents : db'.intents = db.intents
  events : SameEvents db db'

theorem committedEpoch_eq_ok {db : AuthorityDb} {committed : Nat}
    (h : db.committedEpoch invite.membershipEpoch = .ok committed) :
      committed = db.nextCommitted invite := by
  unfold committedEpoch at h
  unfold nextCommitted
  split at h
  · rename_i hle
    cases h
    rw [if_pos hle]
  · rename_i hlt
    rw [if_neg hlt]
    exact (membershipEpochNext_eq_ok_iff.mp h).1

theorem activate_spec {db db' : AuthorityDb} {epoch : Nat}
    (h : db.activate invite.stableNodeId invite.authEpoch epoch = .ok db') :
    (∃ m ∈ db.members, m.enrolledBy invite = true) ∧ db' = { db with
      members := db.members.update (·.enrolledBy invite)
        ({ · with state := .active, membershipEpoch := epoch }) fun _ => rfl } := by
  simp only [activate, bind_eq_ok_iff, require_eq_ok_iff, Table.any_eq_true] at h
  obtain ⟨_, hmember, h⟩ := h
  cases h
  exact ⟨hmember, rfl⟩

theorem insertBinding_spec {db db' : AuthorityDb} {b : TransportBinding}
    (h : db.insertBinding b = .ok db') : db' = { db with bindings := db.bindings.put b } := by
  simp only [insertBinding, bind_eq_ok_iff] at h
  obtain ⟨_, -, h⟩ := h
  cases h
  rfl

variable {attestation : EndpointAttestation}

theorem checkInvite_spec {endpoint : String} {now : Int}
    (h : checkInvite invite attestation carrier transport endpoint now = .ok ()) :
    invite.consumedAt = none ∧ invite.carrier = carrier ∧ invite.transportIdentity = transport ∧
      invite.endpoint = endpoint ∧ invite.stableNodeId = attestation.stableNodeId := by
  simp only [checkInvite, bind_eq_ok_iff, require_eq_ok_iff, beq_iff_eq,
    Option.isNone_iff_eq_none] at h
  obtain ⟨_, hunconsumed, _, -, _, -, _, -, _, hcarrier, _, htransport, _, hendpoint, _,
      hstable, -⟩ := h
  exact ⟨hunconsumed, hcarrier, htransport, hendpoint, hstable⟩

theorem confirmInvite_spec [Ed25519] {db db' : AuthorityDb} {inviteId : String} {endpoint : String}
    {now : Int}
    (h : db.confirmInvite inviteId attestation carrier transport endpoint now = .ok (db', invite)) :
    Confirmed db db' invite now attestation.expiresAtUnix ∧ invite.inviteId = inviteId ∧
      invite.stableNodeId = attestation.stableNodeId := by
  simp only [confirmInvite, bind_eq_ok_iff, context_eq_ok_iff, Table.find_eq_some_iff,
    sqlInteger_eq_ok_iff] at h
  obtain ⟨_, -, found, ⟨hmem, hid⟩, _, hcheck, committed, hcommitted, _, ⟨rfl, -⟩, db1, hactivate,
    db2, hbinding, h⟩ := h
  cases h
  have hcommitted := committedEpoch_eq_ok hcommitted
  subst hcommitted hid
  change (db.raise (db.nextCommitted invite)).activate _ _ _ = .ok db1 at hactivate
  obtain ⟨hunconsumed, rfl, rfl, rfl, hstable⟩ := checkInvite_spec hcheck
  obtain ⟨⟨m, hm, henrolled⟩, rfl⟩ := activate_spec hactivate
  have hdb2 := insertBinding_spec hbinding
  subst hdb2
  obtain ⟨hfloor, htombstones, hinvites, hintents, hevents⟩ :=
    raise_frame db (db.nextCommitted invite)
  refine ⟨⟨hmem, hunconsumed, ?_, raise_membershipEpoch (le_nextCommitted db invite),
    hfloor, ?_, ?_, htombstones, ?_, hintents, hevents.nextOutboxId, hevents.outbox,
    hevents.teardownReceipts⟩, rfl, hstable⟩
  · -- raising the authority leaves the state and the auth epoch of a member alone
    obtain ⟨m₀, hm₀, rfl⟩ := mem_raise_members.mp hm
    exact ⟨m₀, hm₀, by simpa [enrolledBy_iff] using henrolled⟩
  · intro m'
    have henrolled : ∀ m, (db.raiseMember (db.nextCommitted invite) m).enrolledBy invite =
        m.enrolledBy invite := by
      intro m
      simp [Member.enrolledBy]
    simp only [Table.mem_update, mem_raise_members]
    constructor
    · rintro ⟨_, ⟨m, hm, rfl⟩, rfl⟩
      refine ⟨m, hm, ?_⟩
      rw [henrolled, confirmMember]
      split <;> simp
    · rintro ⟨m, hm, rfl⟩
      refine ⟨_, ⟨m, hm, rfl⟩, ?_⟩
      rw [henrolled, confirmMember]
      split <;> simp
  · intro b'
    refine Table.mem_put.trans ?_
    simp only [mem_raise_bindings]
    exact or_congr_right and_comm
  · rw [← hinvites]

/-! ## Legacy peers -/

/-- `record_legacy_pending`, or one turn of the loop of `import_legacy_once`, has committed. -/
structure LegacyAdded [Sha256] (db db' : AuthorityDb) (transport : TransportIdentity) : Prop where
  members : db'.members = db.members ∨ ∃ label epoch, (epoch = 1 ∨ epoch = db.membershipEpoch) ∧
    db.members.insert ⟨StableNodeId.fromLegacyTransport transport, label, .pending, 1, epoch⟩ =
      some db'.members
  bindings : db'.bindings = db.bindings ∨ ∃ carrier endpoint epoch,
    (epoch = 1 ∨ epoch = db.membershipEpoch) ∧
    (∃ m ∈ db'.members, m.stableNodeId = StableNodeId.fromLegacyTransport transport ∧
      (epoch = 1 ∨ m.membershipEpoch = epoch)) ∧
    db.bindings.insert ⟨StableNodeId.fromLegacyTransport transport, carrier, transport, endpoint,
      .legacyUnattested, 1, epoch, none⟩ = some db'.bindings
  eq : db' = { db with members := db'.members, bindings := db'.bindings }

theorem recordLegacyPending_spec [Sha256] {db db' : AuthorityDb} {endpoint label : String}
    (h : db.recordLegacyPending carrier transport endpoint label = .ok (db', stableNodeId)) :
    LegacyAdded db db' transport := by
  unfold recordLegacyPending at h
  split at h
  · cases h
    exact ⟨.inl rfl, .inl rfl, rfl⟩
  · simp only [bind_eq_ok_iff, context_eq_ok_iff] at h
    obtain ⟨members, hmembers, bindings, hbindings, h⟩ := h
    cases h
    refine ⟨.inr ⟨label, _, .inr rfl, hmembers⟩,
      .inr ⟨carrier, endpoint, _, .inr rfl, ?_, hbindings⟩, rfl⟩
    exact ⟨_, (Table.mem_insert hmembers).mpr (.inr rfl), rfl, .inr rfl⟩

theorem importPeer_spec [Sha256] {db db' : AuthorityDb} {peer : LegacyPeer}
    (h : db.importPeer peer = .ok db') : LegacyAdded db db' peer.pubKeyHex := by
  simp only [importPeer, bind_eq_ok_iff, transportIdentityParse_eq_ok_iff] at h
  obtain ⟨transport, ⟨-, rfl⟩, h⟩ := h
  cases h
  have hmembers := Table.insertOrIgnore_cases db.members
    ⟨StableNodeId.fromLegacyTransport peer.pubKeyHex, peer.instanceLabel, .pending, 1, 1⟩
  have hbindings := Table.insertOrIgnore_cases db.bindings
    ⟨StableNodeId.fromLegacyTransport peer.pubKeyHex, .peeroxide, peer.pubKeyHex, peer.addr,
      .legacyUnattested, 1, 1, none⟩
  -- whether or not the member is new, there is one the binding belongs to
  have howner : ∃ m ∈ db.members.insertOrIgnore
      ⟨StableNodeId.fromLegacyTransport peer.pubKeyHex, peer.instanceLabel, .pending, 1, 1⟩,
      m.stableNodeId = StableNodeId.fromLegacyTransport peer.pubKeyHex := by
    rcases hmembers with hinsert | ⟨hsame, m, hm, hid⟩
    · exact ⟨_, (Table.mem_insert hinsert).mpr (.inr rfl), rfl⟩
    · exact ⟨m, by rw [hsame]; exact hm, hid⟩
  obtain ⟨m, hm, hid⟩ := howner
  refine ⟨?_, ?_, rfl⟩
  · rcases hmembers with hinsert | ⟨hsame, -⟩
    · exact .inr ⟨_, 1, .inl rfl, hinsert⟩
    · exact .inl hsame
  · dsimp only
    split
    · exact .inl rfl
    · rcases hbindings with hinsert | ⟨hsame, -⟩
      · exact .inr ⟨_, _, 1, .inl rfl, ⟨m, hm, hid, .inl rfl⟩, hinsert⟩
      · exact .inl hsame

/-! ## Revocations -/

/-- `start_revocation_intent` has committed the new intent `row`. -/
structure Intended (db db' : AuthorityDb) (row : RevocationIntent) : Prop where
  member : ∃ m ∈ db.members, m.stableNodeId = row.stableNodeId ∧ m.state = .active ∧
    m.authEpoch = row.memberAuthEpoch ∧ m.membershipEpoch = row.memberMembershipEpoch
  authority : db.membershipEpoch = row.authorityEpoch
  resolved : ∀ r ∈ db.intents, r.stableNodeId = row.stableNodeId → r.unresolved = false
  pending : row.state = .pending
  uncommitted : row.tombstoneCommitted = false
  inserted : db.intents.insert row = some db'.intents
  eq : db' = { db with intents := db'.intents }

variable {path : String} {binding : MembershipRevokeBinding}

theorem insertIntent_spec [Sha256] {db db' : AuthorityDb} {requestDigest : String}
    {unclassified : Bool}
    {row : RevocationIntent}
    (h : db.insertIntent path binding requestDigest unclassified = .ok (db', row)) :
    Intended db db' row := by
  simp only [insertIntent, bind_eq_ok_iff, require_eq_ok_iff, context_eq_ok_iff,
    fullSnapshotOn_eq_ok_iff, Bool.and_eq_true, beq_iff_eq] at h
  obtain ⟨_, ⟨-, rfl⟩, _, ⟨-, hauthority⟩, member, hfind, _, ⟨⟨⟨hactive, -⟩, hauth⟩, hepoch⟩, _,
    hresolved, intents, hinsert, h⟩ := h
  cases h
  obtain ⟨m, hm, hid, rfl⟩ := find?_toSnapshot hfind
  refine ⟨⟨m, hm, hid, hactive, hauth, hepoch⟩, hauthority, ?_, rfl, rfl, hinsert, rfl⟩
  intro r hr hsame
  have hall := Table.any_eq_false.mp (by simpa using hresolved) r hr
  simpa [hsame] using hall

/-- A repeated request is answered from its row; a new one leaves its row. -/
theorem startRevocationIntent_spec [Sha256] {db db' : AuthorityDb} {unclassified : Bool}
    {row : RevocationIntent}
    (h : db.startRevocationIntent path binding unclassified = .ok (db', row)) :
    db' = db ∨ Intended db db' row := by
  simp only [startRevocationIntent, bind_eq_ok_iff] at h
  obtain ⟨_, -, requestDigest, -, h⟩ := h
  split at h
  · simp only [bind_eq_ok_iff] at h
    obtain ⟨_, -, h⟩ := h
    cases h
    exact .inl rfl
  · exact .inr (insertIntent_spec h)

/-- `mark_revocation_indeterminate` has committed. -/
structure Marked (db db' : AuthorityDb) (requestId reason : String) : Prop where
  intents : db'.intents = db.intents.update (fun r => r.requestId == requestId && r.unresolved)
    (fun r => { r with
      state := .indeterminate
      indeterminateReason := r.indeterminateReason.or (some reason)
      externalEffectsUnclassified := false }) fun _ => rfl
  eq : db' = { db with intents := db'.intents }

theorem markRevocationIndeterminate_spec {db db' : AuthorityDb} {requestId reason : String}
    (h : db.markRevocationIndeterminate requestId reason = .ok db') :
    ∃ id, Marked db db' id reason := by
  simp only [markRevocationIndeterminate, bind_eq_ok_iff] at h
  obtain ⟨_, -, id, -, _, -, h⟩ := h
  cases h
  exact ⟨id, rfl, rfl⟩

/-- What the revocation of `stableNodeId` makes of a member. -/
def AuthorityDb.revokedMember (db : AuthorityDb) (stableNodeId : StableNodeId) (m : Member) :
    Member :=
  if m.stableNodeId = stableNodeId then
    { m with
      state := .revoked
      authEpoch := m.authEpoch + 1
      membershipEpoch := db.membershipEpoch + 1 }
  else db.raiseMember (db.membershipEpoch + 1) m

/-- The outbox rows of one revocation. -/
def OutboxPayload.rows (payload : OutboxPayload) (id : Nat) : List OutboxRow :=
  [⟨id, .membershipRevoked, payload.stableNodeId, payload.authEpoch, payload.membershipEpoch,
    payload, none⟩, ⟨id + 1, .audit, payload.stableNodeId, payload.authEpoch,
    payload.membershipEpoch, payload, none⟩, ⟨id + 2, .teardown, payload.stableNodeId,
    payload.authEpoch, payload.membershipEpoch, payload, none⟩]

/-- `finalize_revocation_intent` has committed the tombstone of a revocation. -/
structure Revoked (db db' : AuthorityDb) (binding : MembershipRevokeBinding)
    (tombstone : RevocationTombstone) : Prop where
  intent : ∃ r ∈ db.intents, r.requestId = binding.requestId ∧
    r.stableNodeId = binding.stableNodeId ∧
    r.unresolved = true ∧ r.tombstoneCommitted = false
  member : ∃ m ∈ db.members, m.stableNodeId = binding.stableNodeId ∧ m.state = .active ∧
    tombstone.authEpoch = m.authEpoch + 1
  stableNodeId : tombstone.stableNodeId = binding.stableNodeId
  epoch : db'.membershipEpoch = db.membershipEpoch + 1
  floor : db'.revocationFloor = max db.revocationFloor (db.membershipEpoch + 1)
  members : ∀ m', m' ∈ db'.members ↔ ∃ m ∈ db.members, m' = db.revokedMember binding.stableNodeId m
  bindings : ∀ b', b' ∈ db'.bindings ↔
    ∃ b ∈ db.bindings, b' = db.raiseBinding (db.membershipEpoch + 1) b
  tombstones : db.tombstones.insert tombstone = some db'.tombstones
  invites : db'.invites = db.invites
  intents : db'.intents = db.intents.update (fun r => r.requestId == binding.requestId &&
    r.unresolved) (fun r => { r with
      state := if r.state = .pending then .completed else r.state
      tombstoneCommitted := true
      receiptId := some tombstone.receiptId }) fun _ => rfl
  nextOutboxId : db'.nextOutboxId = db.nextOutboxId + 3
  outbox : ∃ payload : OutboxPayload, payload.receiptId = tombstone.receiptId ∧
    payload.stableNodeId = tombstone.stableNodeId ∧ payload.authEpoch = tombstone.authEpoch ∧
    db'.outbox.rows = db.outbox.rows ++ payload.rows db.nextOutboxId
  receipt : ∃ row : TeardownRow, row.receiptId = tombstone.receiptId ∧
    db.teardownReceipts.insert row = some db'.teardownReceipts

theorem appendOutbox_spec {db db' : AuthorityDb} {payload : OutboxPayload}
    (h : db.appendOutbox payload [.membershipRevoked, .audit, .teardown] = .ok db') :
    ∃ outbox, outbox.rows = db.outbox.rows ++ payload.rows db.nextOutboxId ∧
      db' = { db with outbox := outbox, nextOutboxId := db.nextOutboxId + 3 } := by
  simp only [appendOutbox, bind_eq_ok_iff, context_eq_ok_iff] at h
  obtain ⟨outbox1, h1, outbox2, h2, outbox3, h3, h⟩ := h
  cases h
  refine ⟨outbox3, ?_, rfl⟩
  rw [(Table.insert_eq_some h3).2, (Table.insert_eq_some h2).2, (Table.insert_eq_some h1).2]
  simp [OutboxPayload.rows]

theorem revokeMember_spec {db db' : AuthorityDb} {authEpoch nextAuthEpoch epoch : Nat}
    (h : db.revokeMember stableNodeId authEpoch nextAuthEpoch epoch = .ok db') :
    db' = { db with
      members := db.members.update
        (fun m => m.stableNodeId == stableNodeId && m.state == .active && m.authEpoch == authEpoch)
        ({ · with state := .revoked, authEpoch := nextAuthEpoch, membershipEpoch := epoch })
          fun _ => rfl } := by
  simp only [revokeMember, bind_eq_ok_iff] at h
  obtain ⟨_, -, h⟩ := h
  cases h
  rfl

variable {tombstone : RevocationTombstone} {details : TeardownDetails}

theorem insertTombstone_spec {db db' : AuthorityDb} {liveTeardown : String}
    (h : db.insertTombstone tombstone liveTeardown details = .ok db') :
    ∃ tombstones receipts, db.tombstones.insert tombstone = some tombstones ∧
      db.teardownReceipts.insert ⟨tombstone.receiptId, tombstone.stableNodeId, liveTeardown,
        details⟩ = some receipts ∧
      db' = { db with tombstones := tombstones, teardownReceipts := receipts } := by
  simp only [insertTombstone, bind_eq_ok_iff, context_eq_ok_iff] at h
  obtain ⟨_, -, tombstones, htombstones, receipts, hreceipts, h⟩ := h
  cases h
  exact ⟨tombstones, receipts, htombstones, hreceipts, rfl⟩

theorem mem_revokeMember {db : AuthorityDb} {m m' : Member} (hm : m ∈ db.members)
    (hactive : m.state = .active) : m' ∈ (db.raise (db.membershipEpoch + 1)).members.update
        (fun other => other.stableNodeId == m.stableNodeId && other.state == .active &&
          other.authEpoch == m.authEpoch)
        ({ · with
          state := .revoked
          authEpoch := m.authEpoch + 1
          membershipEpoch := db.membershipEpoch + 1 })
        (fun _ => rfl) ↔
      ∃ m₀ ∈ db.members, m' = db.revokedMember m.stableNodeId m₀ := by
  -- the statement selects the one member that has the id
  have hupdate : ∀ m₀ ∈ db.members,
      (if (db.raiseMember (db.membershipEpoch + 1) m₀).stableNodeId == m.stableNodeId &&
      (db.raiseMember (db.membershipEpoch + 1) m₀).state == .active &&
      (db.raiseMember (db.membershipEpoch + 1) m₀).authEpoch == m.authEpoch then
        { db.raiseMember (db.membershipEpoch + 1) m₀ with
          state := .revoked, authEpoch := m.authEpoch + 1,
          membershipEpoch := db.membershipEpoch + 1 }
      else db.raiseMember (db.membershipEpoch + 1) m₀) = db.revokedMember m.stableNodeId m₀ := by
    intro m₀ hm₀
    unfold revokedMember
    by_cases hid : m₀.stableNodeId = m.stableNodeId
    · have heq : m₀ = m := Table.eq_of_key_eq hm₀ hm hid
      subst heq
      simp [hactive]
    · simp [hid]
  simp only [Table.mem_update, mem_raise_members]
  constructor
  · rintro ⟨_, ⟨m₀, hm₀, rfl⟩, rfl⟩
    exact ⟨m₀, hm₀, hupdate m₀ hm₀⟩
  · rintro ⟨m₀, hm₀, rfl⟩
    exact ⟨_, ⟨m₀, hm₀, rfl⟩, (hupdate m₀ hm₀).symm⟩

theorem commitRevocation_spec {db db' : AuthorityDb} {status : RevocationIntent}
    {receiptId liveTeardown : String} (hstatus : status ∈ db.intents)
    (hrequest : status.requestId = binding.requestId)
    (hid : status.stableNodeId = binding.stableNodeId)
    (huncommitted : status.tombstoneCommitted = false)
    (h : db.commitRevocation binding status receiptId liveTeardown details = .ok (db', tombstone)) :
    Revoked db db' binding tombstone := by
  simp only [commitRevocation, bind_eq_ok_iff, require_eq_ok_iff, context_eq_ok_iff,
    Table.find_eq_some_iff, authEpochNext_eq_ok_iff, membershipEpochNext_eq_ok_iff,
    sqlInteger_eq_ok_iff, Bool.and_eq_true, beq_iff_eq] at h
  obtain ⟨_, hunresolved, _, -, m, ⟨hm, hmid⟩, _, ⟨⟨⟨hactive, hauth⟩, -⟩, hauthority⟩, _,
      ⟨rfl, -⟩, _,
    ⟨rfl, -⟩, _, ⟨rfl, -⟩, _, ⟨rfl, -⟩, db1, hrevoke, db2, htombstone, db3, hevents, h⟩ := h
  cases h
  obtain rfl := revokeMember_spec hrevoke
  obtain ⟨tombstones, receipts, htombstones, hreceipts, rfl⟩ := insertTombstone_spec htombstone
  obtain ⟨outbox, houtbox, rfl⟩ := appendOutbox_spec hevents
  have hraise : db.restamp (db.membershipEpoch + 1) = db.raise (db.membershipEpoch + 1) :=
    (if_pos (Nat.lt_succ_self _)).symm
  refine ⟨⟨status, hstatus, hrequest, hid, hunresolved, huncommitted⟩, ⟨m, hm, hmid, hactive, ?_⟩,
    rfl, ?_, ?_, ?_, ?_, htombstones, rfl, rfl, rfl, ⟨_, rfl, rfl, rfl, houtbox⟩,
    ⟨_, rfl, hreceipts⟩⟩
  · rw [hauth]
  · rw [hauthority]
    rfl
  · rw [hauthority]
  · intro m'
    have hmembers := @mem_revokeMember db m m' hm hactive
    rw [← hraise, hauth, hmid, hauthority] at hmembers
    exact hmembers
  · intro b'
    have hbindings := @mem_raise_bindings db (db.membershipEpoch + 1) b'
    rw [← hraise, hauthority] at hbindings
    rw [hauthority]
    exact hbindings

/-- A request whose tombstone stands is answered from it; otherwise a tombstone is committed. -/
theorem finalizeRevocationIntent_spec [Sha256] {db db' : AuthorityDb}
    {receiptId liveTeardown : String} {answer : Except String RevocationTombstone}
    (h : db.finalizeRevocationIntent path binding receiptId liveTeardown details =
      .ok (db', answer)) :
    db' = db ∨ ∃ tombstone, Revoked db db' binding tombstone := by
  simp only [finalizeRevocationIntent, bind_eq_ok_iff, context_eq_ok_iff, Table.find_eq_some_iff,
    require_eq_ok_iff, Bool.and_eq_true, beq_iff_eq] at h
  obtain ⟨_, -, _, -, status, ⟨hstatus, hrequest⟩, _, ⟨⟨-, hid⟩, -⟩, h⟩ := h
  split at h
  · simp only [bind_eq_ok_iff] at h
    obtain ⟨_, -, h⟩ := h
    cases h
    exact .inl rfl
  · rename_i huncommitted
    simp only [bind_eq_ok_iff] at h
    obtain ⟨⟨committed, tombstone⟩, hcommit, h⟩ := h
    cases h
    exact .inr ⟨tombstone, commitRevocation_spec hstatus hrequest hid (by simpa using huncommitted)
      hcommit⟩

end Neoth.Authority
