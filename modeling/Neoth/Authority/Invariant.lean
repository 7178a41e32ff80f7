import Neoth.Authority.Actions

/-!
# The invariant of the authority

What holds in every database that the store's transactions produce from a fresh one (`Consistent`),
in parts that are proved one after the other for each kind of step: the epochs members are stamped
with (`Stamped`), tombstones (`Buried`), the member that every invite, binding and tombstone belongs
to (`Owned`), the bindings of the current generation (`Bound`), and what a carrier identity was used
for (`Apart`).

* `Invited.stamped`, `Confirmed.buried`, .. : one part across one kind of step.
-/

open Lib Lib.Encoding Lib.Transaction

namespace Neoth.Authority

open AuthorityDb

/-! ## The parts -/

/-- Members carry positive epochs, and the active ones that of the authority. -/
structure Stamped (db : AuthorityDb) : Prop where
  floor_pos : 0 < db.revocationFloor
  floor_le : db.revocationFloor ≤ db.membershipEpoch
  readable : ∀ m ∈ db.members, m.stableNodeId.parses = true ∧ 0 < m.authEpoch ∧
    0 < m.membershipEpoch
  active : ∀ m ∈ db.members, m.state = .active → m.membershipEpoch = db.membershipEpoch

/-- A member is revoked exactly when there is a tombstone of its generation. -/
structure Buried (db : AuthorityDb) : Prop where
  revoked_iff : ∀ m ∈ db.members, m.state = .revoked ↔
    ∃ t ∈ db.tombstones, t.stableNodeId = m.stableNodeId ∧ t.authEpoch = m.authEpoch
  owner : ∀ t ∈ db.tombstones, ∃ m ∈ db.members,
    m.stableNodeId = t.stableNodeId ∧ t.authEpoch ≤ m.authEpoch

/-- Invites and bindings belong to a member, and to a generation it has reached. -/
structure Owned (db : AuthorityDb) : Prop where
  invites : ∀ i ∈ db.invites, ∃ m ∈ db.members,
    m.stableNodeId = i.stableNodeId ∧ i.authEpoch ≤ m.authEpoch
  bindings : ∀ b ∈ db.bindings, ∃ m ∈ db.members, m.stableNodeId = b.stableNodeId ∧
    b.authEpoch ≤ m.authEpoch ∧ b.membershipEpoch ≤ m.membershipEpoch
  epochs : ∀ b ∈ db.bindings, 0 < b.authEpoch ∧ 0 < b.membershipEpoch ∧
    b.membershipEpoch ≤ db.membershipEpoch
  signed : ∀ b ∈ db.bindings, b.assurance = .signedAttestation → ∃ i ∈ db.invites,
    i.stableNodeId = b.stableNodeId ∧ i.carrier = b.carrier ∧
    i.transportIdentity = b.transportIdentity ∧ i.authEpoch = b.authEpoch

/-- A signed binding of a member's current generation makes it active, and the other way round. -/
structure Bound (db : AuthorityDb) : Prop where
  current : ∀ m ∈ db.members, ∀ b ∈ db.bindings, b.stableNodeId = m.stableNodeId →
    b.assurance = .signedAttestation → b.authEpoch = m.authEpoch →
    m.state = .active ∧ b.membershipEpoch = m.membershipEpoch
  active : ∀ m ∈ db.members, m.state = .active → ∃ b ∈ db.bindings,
    b.stableNodeId = m.stableNodeId ∧
    b.assurance = .signedAttestation ∧ b.authEpoch = m.authEpoch

/-- No revocation of a node lies between two invites with the same carrier identity. -/
def Apart (db : AuthorityDb) : Prop :=
  ∀ i ∈ db.invites, ∀ j ∈ db.invites, j.stableNodeId = i.stableNodeId → j.carrier = i.carrier →
    j.transportIdentity = i.transportIdentity → ∀ t ∈ db.tombstones,
      t.stableNodeId = i.stableNodeId →
    i.authEpoch < t.authEpoch → j.authEpoch < t.authEpoch

structure Consistent (db : AuthorityDb) : Prop where
  stamped : Stamped db
  buried : Buried db
  owned : Owned db
  bound : Bound db
  apart : Apart db
  outbox : ∀ id ∈ db.outbox.rows.map OutboxRow.id, id < db.nextOutboxId

theorem consistent_fresh : Consistent .fresh := by
  refine ⟨⟨by decide, le_rfl, ?_, ?_⟩, ⟨?_, ?_⟩, ⟨?_, ?_, ?_, ?_⟩, ⟨?_, ?_⟩, ?_, by decide⟩ <;>
    simp [fresh, Apart]

/-! ## Members stay -/

variable {db : AuthorityDb} {m : Member}

/-- The one member with an id. -/
theorem member_eq {m n : Member} (hm : m ∈ db.members) (hn : n ∈ db.members)
    (h : m.stableNodeId = n.stableNodeId) : m = n :=
  Table.eq_of_key_eq hm hn h

theorem isActive_iff (hm : m ∈ db.members) : db.isActive m.stableNodeId = true ↔
    m.state = .active := by
  simp only [isActive, Table.any_eq_true, Bool.and_eq_true, beq_iff_eq]
  constructor
  · rintro ⟨n, hn, hid, hactive⟩
    rwa [← member_eq hn hm hid]
  · intro hactive
    exact ⟨m, hm, rfl, hactive⟩

/-- Since `db`, members have stayed, and their auth epochs have not decreased. -/
def Advance (db db' : AuthorityDb) : Prop :=
  ∀ m ∈ db.members, ∃ m' ∈ db'.members, m'.stableNodeId = m.stableNodeId ∧
  m.authEpoch ≤ m'.authEpoch

variable {db' : AuthorityDb}

theorem Advance.of_eq (h : db'.members = db.members) : Advance db db' :=
  fun m hm => ⟨m, h ▸ hm, rfl, le_rfl⟩

theorem Advance.trans {db₁ db₂ db₃ : AuthorityDb} (h : Advance db₁ db₂) (h' : Advance db₂ db₃) :
    Advance db₁ db₃ := by
  intro m hm
  obtain ⟨m₂, hm₂, hid₂, hle₂⟩ := h m hm
  obtain ⟨m₃, hm₃, hid₃, hle₃⟩ := h' m₂ hm₂
  exact ⟨m₃, hm₃, hid₃.trans hid₂, hle₂.trans hle₃⟩

theorem Advance.buried_owner (h : Advance db db') (hburied : Buried db) :
    ∀ t ∈ db.tombstones, ∃ m ∈ db'.members, m.stableNodeId = t.stableNodeId ∧
    t.authEpoch ≤ m.authEpoch := by
  intro t ht
  obtain ⟨m, hm, hid, hle⟩ := hburied.owner t ht
  obtain ⟨m', hm', hid', hle'⟩ := h m hm
  exact ⟨m', hm', hid'.trans hid, hle.trans hle'⟩

theorem Advance.owned_invites (h : Advance db db') (howned : Owned db) :
    ∀ i ∈ db.invites, ∃ m ∈ db'.members, m.stableNodeId = i.stableNodeId ∧
    i.authEpoch ≤ m.authEpoch := by
  intro i hi
  obtain ⟨m, hm, hid, hle⟩ := howned.invites i hi
  obtain ⟨m', hm', hid', hle'⟩ := h m hm
  exact ⟨m', hm', hid'.trans hid, hle.trans hle'⟩

variable {row : EnrollmentInviteRow}

/-- The generation an invite is for: the first, the current one of a node that is not enrolled, or
the one after a revocation. -/
theorem Invited.generation (h : Invited db db' row) :
    ((∀ m ∈ db.members, m.stableNodeId ≠ row.stableNodeId) ∧ row.authEpoch = 1) ∨
    ∃ m ∈ db.members, m.stableNodeId = row.stableNodeId ∧ m.state ≠ .active ∧
      ((m.state = .revoked ∧ row.authEpoch = m.authEpoch + 1) ∨
        (m.state ≠ .revoked ∧ row.authEpoch = m.authEpoch)) := by
  have hauth := h.authEpoch
  cases hfind : db.members.find row.stableNodeId with
  | none =>
    rw [hfind] at hauth
    exact .inl ⟨Table.find_eq_none_iff.mp hfind, (Except.ok.inj hauth).symm⟩
  | some m =>
    obtain ⟨hm, hid⟩ := Table.find_eq_some_iff.mp hfind
    rw [hfind] at hauth
    simp only [inviteAuthEpoch] at hauth
    refine .inr ⟨m, hm, hid, h.inactive m hm hid, ?_⟩
    split at hauth
    · rename_i hrevoked
      exact .inl ⟨hrevoked, (authEpochNext_eq_ok_iff.mp hauth).1⟩
    · rename_i hother
      exact .inr ⟨hother, (Except.ok.inj hauth).symm⟩

theorem Invited.mem_members (h : Invited db db' row) {m' : Member} : m' ∈ db'.members ↔
      m' = ⟨row.stableNodeId, row.label, .pending, row.authEpoch, row.membershipEpoch⟩ ∨
        (m' ∈ db.members ∧ m'.stableNodeId ≠ row.stableNodeId) := by
  rw [h.eq]
  exact Table.mem_put

theorem Invited.frame (h : Invited db db' row) :
    db'.membershipEpoch = db.membershipEpoch ∧ db'.revocationFloor = db.revocationFloor ∧
    db'.bindings = db.bindings ∧ db'.tombstones = db.tombstones ∧ db'.intents = db.intents ∧
    SameEvents db db' := by
  rw [h.eq]
  exact ⟨rfl, rfl, rfl, rfl, rfl, rfl, rfl, rfl⟩

theorem Invited.advance (h : Invited db db' row) : Advance db db' := by
  intro m hm
  by_cases hid : m.stableNodeId = row.stableNodeId
  · refine ⟨_, h.mem_members.mpr (.inl rfl), hid.symm, ?_⟩
    rcases h.generation with ⟨hnew, -⟩ | ⟨n, hn, hnid, -, hnext⟩
    · exact absurd hid (hnew m hm)
    · obtain rfl := member_eq hm hn (hid.trans hnid.symm)
      dsimp only
      omega
  · exact ⟨m, h.mem_members.mpr (.inr ⟨hm, hid⟩), rfl, le_rfl⟩

@[simp] theorem confirmMember_stableNodeId (db : AuthorityDb) (invite : EnrollmentInviteRow)
    (m : Member) : (db.confirmMember invite m).stableNodeId = m.stableNodeId := by
  unfold confirmMember
  split <;> simp

@[simp] theorem confirmMember_authEpoch (db : AuthorityDb) (invite : EnrollmentInviteRow)
    (m : Member) : (db.confirmMember invite m).authEpoch = m.authEpoch := by
  unfold confirmMember
  split <;> simp

variable {invite : EnrollmentInviteRow}

theorem Confirmed.advance {now expiresAt : Int} (h : Confirmed db db' invite now expiresAt) :
    Advance db db' :=
  fun m hm => ⟨_, (h.members _).mpr ⟨m, hm, rfl⟩, by simp, by simp⟩

@[simp] theorem revokedMember_stableNodeId (db : AuthorityDb) (stableNodeId : StableNodeId)
    (m : Member) : (db.revokedMember stableNodeId m).stableNodeId = m.stableNodeId := by
  unfold revokedMember
  split <;> simp

theorem le_revokedMember_authEpoch (db : AuthorityDb) (stableNodeId : StableNodeId) (m : Member) :
    m.authEpoch ≤ (db.revokedMember stableNodeId m).authEpoch := by
  unfold revokedMember
  split <;> simp

variable {binding : MembershipRevokeBinding} {tombstone : RevocationTombstone}

theorem Revoked.advance (h : Revoked db db' binding tombstone) : Advance db db' :=
  fun m hm => ⟨_, (h.members _).mpr ⟨m, hm, rfl⟩, by simp, le_revokedMember_authEpoch ..⟩

variable {transport : TransportIdentity}

theorem LegacyAdded.mem_members [Sha256] (h : LegacyAdded db db' transport) {m' : Member}
    (hm' : m' ∈ db'.members) :
    m' ∈ db.members ∨
    ((∀ m ∈ db.members, m.stableNodeId ≠ StableNodeId.fromLegacyTransport transport) ∧
      m'.stableNodeId = StableNodeId.fromLegacyTransport transport ∧ m'.state = .pending ∧
      m'.authEpoch = 1 ∧ (m'.membershipEpoch = 1 ∨ m'.membershipEpoch = db.membershipEpoch)) := by
  rcases h.members with hsame | ⟨label, epoch, hepoch, hinsert⟩
  · exact .inl (hsame ▸ hm')
  · rcases (Table.mem_insert hinsert).mp hm' with hold | rfl
    · exact .inl hold
    · exact .inr ⟨(Table.insert_eq_some hinsert).1, rfl, rfl, rfl, hepoch⟩

theorem LegacyAdded.members_subset [Sha256] (h : LegacyAdded db db' transport)
    (hm : m ∈ db.members) : m ∈ db'.members := by
  rcases h.members with hsame | ⟨label, epoch, -, hinsert⟩
  · exact hsame ▸ hm
  · exact (Table.mem_insert hinsert).mpr (.inl hm)

theorem LegacyAdded.advance [Sha256] (h : LegacyAdded db db' transport) : Advance db db' :=
  fun m hm => ⟨m, h.members_subset hm, rfl, le_rfl⟩

/-! ## Epochs -/

theorem fromVerifyingKey_parses (key : PublicKey) :
    StableNodeId.parses (StableNodeId.fromVerifyingKey key) = true :=
  isLowerHex64_hexEncode key.property

theorem fromLegacyTransport_parses [Sha256] (transport : TransportIdentity) :
    StableNodeId.parses (StableNodeId.fromLegacyTransport transport) = true :=
  fromVerifyingKey_parses (Sha256.digest (utf8 "neoth-legacy-unattested-v1" ++ 0 :: utf8 transport))

theorem Invited.stamped (h : Invited db db' row) (hstamped : Stamped db) : Stamped db' := by
  obtain ⟨hepoch, hfloor, -⟩ := h.frame
  refine ⟨hfloor ▸ hstamped.floor_pos, by rw [hfloor, hepoch]; exact hstamped.floor_le, ?_, ?_⟩
  · intro m' hm'
    rcases h.mem_members.mp hm' with rfl | ⟨hm, -⟩
    · refine ⟨?_, ?_, ?_⟩
      · rw [h.key]
        exact fromVerifyingKey_parses _
      · rcases h.generation with ⟨-, hone⟩ | ⟨m, hm, -, -, hnext⟩
        · exact hone ▸ Nat.one_pos
        · have hpos := (hstamped.readable m hm).2.1
          dsimp only
          omega
      · rw [h.issued]
        exact Nat.succ_pos _
    · exact hstamped.readable m' hm
  · intro m' hm' hactive
    rcases h.mem_members.mp hm' with rfl | ⟨hm, -⟩
    · cases hactive
    · rw [hepoch]
      exact hstamped.active m' hm hactive

/-- A member that is active after a confirmation carries the epoch it commits. -/
theorem confirmMember_active (hstamped : Stamped db) (hm : m ∈ db.members)
    (h : (db.confirmMember invite m).state = .active) :
    (db.confirmMember invite m).membershipEpoch = db.nextCommitted invite := by
  unfold confirmMember at h ⊢
  split at h
  · rename_i henrolled
    rw [if_pos henrolled]
  · rename_i henrolled
    rw [if_neg henrolled]
    rw [raiseMember_state] at h
    exact raiseMember_membershipEpoch (le_nextCommitted db invite) h (hstamped.active m hm h)

theorem Confirmed.stamped {now expiresAt : Int} (h : Confirmed db db' invite now expiresAt)
    (hstamped : Stamped db) : Stamped db' := by
  have hle := le_nextCommitted db invite
  have hfloor := hstamped.floor_le
  have hpos := hstamped.floor_pos
  refine ⟨by rw [h.floor]; exact hpos, by rw [h.floor, h.epoch]; omega, ?_, ?_⟩
  · intro m' hm'
    obtain ⟨m, hm, rfl⟩ := (h.members m').mp hm'
    obtain ⟨hparses, hauth, hepoch⟩ := hstamped.readable m hm
    refine ⟨by simpa using hparses, by simpa using hauth, ?_⟩
    unfold confirmMember raiseMember
    split
    · dsimp only
      omega
    · split
      · dsimp only
        omega
      · exact hepoch
  · intro m' hm' hactive
    obtain ⟨m, hm, rfl⟩ := (h.members m').mp hm'
    rw [h.epoch]
    exact confirmMember_active hstamped hm hactive

theorem Revoked.stamped (h : Revoked db db' binding tombstone) (hstamped : Stamped db) :
    Stamped db' := by
  have hfloor := hstamped.floor_le
  have hpos := hstamped.floor_pos
  refine ⟨by rw [h.floor]; omega, by rw [h.floor, h.epoch]; omega, ?_, ?_⟩
  · intro m' hm'
    obtain ⟨m, hm, rfl⟩ := (h.members m').mp hm'
    obtain ⟨hparses, hauth, hepoch⟩ := hstamped.readable m hm
    have hle := le_revokedMember_authEpoch db binding.stableNodeId m
    refine ⟨by simpa using hparses, by omega, ?_⟩
    unfold revokedMember raiseMember
    split
    · exact Nat.succ_pos _
    · split
      · exact Nat.succ_pos _
      · exact hepoch
  · intro m' hm' hactive
    obtain ⟨m, hm, rfl⟩ := (h.members m').mp hm'
    unfold revokedMember at hactive ⊢
    split at hactive
    · cases hactive
    · rename_i hother
      rw [if_neg hother, h.epoch]
      rw [raiseMember_state] at hactive
      exact raiseMember_membershipEpoch (Nat.le_succ _) hactive (hstamped.active m hm hactive)

theorem LegacyAdded.frame [Sha256] (h : LegacyAdded db db' transport) :
    db'.membershipEpoch = db.membershipEpoch ∧ db'.revocationFloor = db.revocationFloor ∧
    db'.tombstones = db.tombstones ∧ db'.invites = db.invites ∧ db'.intents = db.intents ∧
    SameEvents db db' := by
  rw [h.eq]
  exact ⟨rfl, rfl, rfl, rfl, rfl, rfl, rfl, rfl⟩

theorem LegacyAdded.stamped [Sha256] (h : LegacyAdded db db' transport) (hstamped : Stamped db) :
    Stamped db' := by
  obtain ⟨hepoch, hfloor, -⟩ := h.frame
  have hpos := hstamped.floor_pos
  have hle := hstamped.floor_le
  refine ⟨hfloor ▸ hpos, by rw [hfloor, hepoch]; exact hle, ?_, ?_⟩
  · intro m' hm'
    rcases h.mem_members hm' with hm | ⟨-, hid, -, hauth, hstamp⟩
    · exact hstamped.readable m' hm
    · exact ⟨hid ▸ fromLegacyTransport_parses transport, by omega, by omega⟩
  · intro m' hm' hactive
    rcases h.mem_members hm' with hm | ⟨-, -, hpending, -⟩
    · rw [hepoch]
      exact hstamped.active m' hm hactive
    · rw [hpending] at hactive
      cases hactive

/-! ## Tombstones -/

theorem Invited.buried (h : Invited db db' row) (hburied : Buried db) : Buried db' := by
  obtain ⟨-, -, -, htombstones, -⟩ := h.frame
  refine ⟨?_, htombstones ▸ h.advance.buried_owner hburied⟩
  intro m' hm'
  rw [htombstones]
  rcases h.mem_members.mp hm' with rfl | ⟨hm, -⟩
  · -- the generation it is invited into has not been revoked
    refine ⟨(by simp), ?_⟩
    rintro ⟨t, ht, hid, hauth⟩
    obtain ⟨n, hn, hnid, hle⟩ := hburied.owner t ht
    rcases h.generation with ⟨hnew, -⟩ | ⟨m, hm, hmid, -, hnext⟩
    · exact absurd (hnid.trans hid) (hnew n hn)
    · obtain rfl := member_eq hn hm (hnid.trans (hid.trans hmid.symm))
      rcases hnext with ⟨-, hnext⟩ | ⟨hstate, hnext⟩
      · dsimp only at hauth
        omega
      · exact absurd ((hburied.revoked_iff n hn).mpr ⟨t, ht, hnid.symm, hauth.trans hnext⟩) hstate
  · exact hburied.revoked_iff m' hm

theorem confirmMember_revoked_iff : (db.confirmMember invite m).state = .revoked ↔
    m.state = .revoked := by
  unfold confirmMember
  split
  · rename_i henrolled
    obtain ⟨-, -, hpending | hactive⟩ := enrolledBy_iff.mp henrolled
    · simp [hpending]
    · simp [hactive]
  · simp

theorem Confirmed.buried {now expiresAt : Int} (h : Confirmed db db' invite now expiresAt)
    (hburied : Buried db) : Buried db' := by
  refine ⟨?_, h.tombstones ▸ h.advance.buried_owner hburied⟩
  intro m' hm'
  obtain ⟨m, hm, rfl⟩ := (h.members m').mp hm'
  rw [confirmMember_revoked_iff, h.tombstones]
  simpa using hburied.revoked_iff m hm

theorem Revoked.mem_tombstones (h : Revoked db db' binding tombstone) {t : RevocationTombstone} :
    t ∈ db'.tombstones ↔ t ∈ db.tombstones ∨ t = tombstone :=
  Table.mem_insert h.tombstones

/-- The revoked member, before and after. -/
theorem Revoked.exists_member (h : Revoked db db' binding tombstone) :
    ∃ m ∈ db.members, m.stableNodeId = tombstone.stableNodeId ∧ m.state = .active ∧
      tombstone.authEpoch = m.authEpoch + 1 ∧
      ⟨m.stableNodeId, m.label, .revoked, tombstone.authEpoch, db'.membershipEpoch⟩ ∈
        db'.members := by
  obtain ⟨m, hm, hid, hactive, hauth⟩ := h.member
  refine ⟨m, hm, hid.trans h.stableNodeId.symm, hactive, hauth, (h.members _).mpr ⟨m, hm, ?_⟩⟩
  rw [revokedMember, if_pos hid, hauth, h.epoch]

theorem Revoked.buried (h : Revoked db db' binding tombstone) (hburied : Buried db) :
    Buried db' := by
  refine ⟨?_, ?_⟩
  · intro m' hm'
    obtain ⟨m, hm, rfl⟩ := (h.members m').mp hm'
    simp only [h.mem_tombstones, revokedMember_stableNodeId]
    by_cases hid : m.stableNodeId = binding.stableNodeId
    · obtain ⟨n, hn, hnid, -, hauth⟩ := h.member
      obtain rfl := member_eq hm hn (hid.trans hnid.symm)
      simp only [revokedMember, if_pos hid, true_iff]
      exact ⟨tombstone, .inr rfl, h.stableNodeId.trans hid.symm, hauth⟩
    · simp only [revokedMember, if_neg hid, raiseMember_state, raiseMember_authEpoch]
      rw [hburied.revoked_iff m hm]
      constructor
      · rintro ⟨t, ht, heq⟩
        exact ⟨t, .inl ht, heq⟩
      · rintro ⟨t, ht | rfl, heq⟩
        · exact ⟨t, ht, heq⟩
        · exact absurd (heq.1.symm.trans h.stableNodeId) hid
  · intro t ht
    rcases h.mem_tombstones.mp ht with hold | rfl
    · exact h.advance.buried_owner hburied t hold
    · obtain ⟨m, -, hid, -, -, hm'⟩ := h.exists_member
      exact ⟨_, hm', hid, le_rfl⟩

theorem LegacyAdded.buried [Sha256] (h : LegacyAdded db db' transport) (hburied : Buried db) :
    Buried db' := by
  obtain ⟨-, -, htombstones, -⟩ := h.frame
  refine ⟨?_, htombstones ▸ h.advance.buried_owner hburied⟩
  intro m' hm'
  rw [htombstones]
  rcases h.mem_members hm' with hm | ⟨hnew, hid, hpending, -⟩
  · exact hburied.revoked_iff m' hm
  · rw [hpending]
    refine ⟨(by simp), ?_⟩
    rintro ⟨t, ht, htid, -⟩
    obtain ⟨n, hn, hnid, -⟩ := hburied.owner t ht
    exact absurd (hnid.trans (htid.trans hid)) (hnew n hn)

end Neoth.Authority
