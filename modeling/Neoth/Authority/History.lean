import Neoth.Authority.Reachable

/-!
# Histories of the authority

What a sequence of calls can and cannot do to an authority over time.

* `Later`: epochs and the floor do not decrease, members, tombstones and invites stay, and a new
  tombstone is of a later generation than the member had;
* `Provenance`: which identities are legacy ones, and which have been attested;
* `authority_history`: the invariant of the membership authority.
-/

open Lib Lib.Encoding Lib.Transaction

namespace Neoth.Authority

open AuthorityDb

/-! ## What stays -/

/-- An invite as it is found later: it may have been consumed since, but only once. -/
structure InviteKept (i i' : EnrollmentInviteRow) : Prop where
  inviteId : i'.inviteId = i.inviteId
  stableNodeId : i'.stableNodeId = i.stableNodeId
  carrier : i'.carrier = i.carrier
  transportIdentity : i'.transportIdentity = i.transportIdentity
  authEpoch : i'.authEpoch = i.authEpoch
  consumed : i.consumedAt.isSome = true → i' = i

theorem InviteKept.refl (i : EnrollmentInviteRow) : InviteKept i i :=
  ⟨rfl, rfl, rfl, rfl, rfl, fun _ => rfl⟩

theorem InviteKept.trans {i j k : EnrollmentInviteRow} (h : InviteKept i j) (h' : InviteKept j k) :
    InviteKept i k := by
  refine ⟨h'.inviteId.trans h.inviteId, h'.stableNodeId.trans h.stableNodeId,
    h'.carrier.trans h.carrier, h'.transportIdentity.trans h.transportIdentity,
    h'.authEpoch.trans h.authEpoch, ?_⟩
  intro hconsumed
  obtain rfl := h.consumed hconsumed
  exact h'.consumed hconsumed

/-- `db'` is a later state of the authority than `db`. -/
structure Later (db db' : AuthorityDb) : Prop where
  epoch_le : db.membershipEpoch ≤ db'.membershipEpoch
  floor_le : db.revocationFloor ≤ db'.revocationFloor
  advance : Advance db db'
  tombstones : ∀ t ∈ db.tombstones, t ∈ db'.tombstones
  newer : ∀ t ∈ db'.tombstones, t ∈ db.tombstones ∨
    ∀ m ∈ db.members, m.stableNodeId = t.stableNodeId → m.authEpoch < t.authEpoch
  invites : ∀ i ∈ db.invites, ∃ i' ∈ db'.invites, InviteKept i i'

theorem Later.trans {db₁ db₂ db₃ : AuthorityDb} (h : Later db₁ db₂) (h' : Later db₂ db₃) :
    Later db₁ db₃ := by
  refine ⟨h.epoch_le.trans h'.epoch_le, h.floor_le.trans h'.floor_le, h.advance.trans h'.advance,
    fun t ht => h'.tombstones t (h.tombstones t ht), ?_, ?_⟩
  · intro t ht
    rcases h'.newer t ht with hold | hnew
    · exact h.newer t hold
    · refine .inr fun m hm hid => ?_
      obtain ⟨m', hm', hid', hle⟩ := h.advance m hm
      exact hle.trans_lt (hnew m' hm' (hid'.trans hid))
  · intro i hi
    obtain ⟨j, hj, hkept⟩ := h.invites i hi
    obtain ⟨k, hk, hkept'⟩ := h'.invites j hj
    exact ⟨k, hk, hkept.trans hkept'⟩

variable {db db' : AuthorityDb}

/-- Members, tombstones and invites as they were, or advanced. -/
theorem Later.of_same (hepoch : db'.membershipEpoch = db.membershipEpoch)
    (hfloor : db'.revocationFloor = db.revocationFloor) (hadvance : Advance db db')
    (htombstones : db'.tombstones = db.tombstones) (hinvites : db'.invites = db.invites) :
      Later db db' := by
  refine ⟨hepoch.ge, hfloor.ge, hadvance, ?_, ?_, fun i hi => ⟨i, hinvites ▸ hi, .refl i⟩⟩
  · rw [htombstones]
    exact fun _ ht => ht
  · rw [htombstones]
    exact fun _ ht => .inl ht

theorem Later.refl (db : AuthorityDb) : Later db db := .of_same rfl rfl (.of_eq rfl) rfl rfl

variable {transport : TransportIdentity}

theorem LegacyAdded.later [Sha256] (h : LegacyAdded db db' transport) : Later db db' := by
  obtain ⟨hepoch, hfloor, htombstones, hinvites, -⟩ := h.frame
  exact .of_same hepoch hfloor h.advance htombstones hinvites

variable {row : EnrollmentInviteRow}

theorem Invited.later (h : Invited db db' row) : Later db db' := by
  obtain ⟨hepoch, hfloor, -, htombstones, -⟩ := h.frame
  exact ⟨hepoch.ge, hfloor.ge, h.advance, fun t ht => htombstones ▸ ht,
    fun t ht => .inl (htombstones ▸ ht), fun i hi => ⟨i, h.mem_invites.mpr (.inl hi), .refl i⟩⟩

variable {invite : EnrollmentInviteRow}

theorem Confirmed.later {now expiresAt : Int} (h : Confirmed db db' invite now expiresAt) :
    Later db db' := by
  refine ⟨h.epoch ▸ le_nextCommitted db invite, h.floor.ge, h.advance,
    fun t ht => h.tombstones ▸ ht, fun t ht => .inl (h.tombstones ▸ ht), ?_⟩
  intro i hi
  refine ⟨_, h.mem_invites.mpr ⟨i, hi, rfl⟩, ?_⟩
  split
  · rename_i hsame
    obtain rfl := Table.eq_of_key_eq hi h.mem hsame
    refine ⟨rfl, rfl, rfl, rfl, rfl, ?_⟩
    intro hconsumed
    rw [h.unconsumed] at hconsumed
    cases hconsumed
  · exact .refl i

variable {binding : MembershipRevokeBinding} {tombstone : RevocationTombstone}

theorem Revoked.later (h : Revoked db db' binding tombstone) : Later db db' := by
  refine ⟨by rw [h.epoch]; omega, by rw [h.floor]; omega, h.advance,
    fun t ht => h.mem_tombstones.mpr (.inl ht), ?_, fun i hi => ⟨i, h.invites ▸ hi, .refl i⟩⟩
  intro t ht
  rcases h.mem_tombstones.mp ht with hold | rfl
  · exact .inl hold
  · refine .inr fun n hn hnid => ?_
    obtain ⟨m, hm, hid, -, hauth, -⟩ := h.exists_member
    obtain rfl := member_eq hn hm (hnid.trans hid.symm)
    omega

theorem Step.later [Sha256] {action : Action} (h : Step action db db') : Later db db' := by
  cases h with
  | same h _ =>
    exact .of_same h.membershipEpoch h.revocationFloor (.of_eq h.members) h.tombstones h.invites
  | imported _ h => exact h.later
  | invited h => exact h.later
  | confirmed _ h => exact h.later
  | legacy h => exact h.later
  | intended h =>
    rw [h.eq]
    exact .of_same rfl rfl (.of_eq rfl) rfl rfl
  | marked h =>
    rw [h.eq]
    exact .of_same rfl rfl (.of_eq rfl) rfl rfl
  | revoked h => exact h.later

theorem later_after [Sha256] [Ed25519] (path : String) (before later : List Action) :
    Later (after path before) (after path (before ++ later)) := by
  rw [after_append]
  refine Lib.Machine.run_relation (P := fun _ => True) (R := Later) (fun _ _ _ => trivial)
    Later.refl Later.trans ?_ _ trivial later
  intro db action _
  exact step_keeps (P := Later db) (fun _ _ h hstep => h.trans hstep.later) path (.refl db)

/-! ## Where identities come from -/

/-- The transports that a call records as legacy peers. -/
def Action.legacyTransports : Action → List TransportIdentity
  | .openStore peers => peers.map LegacyPeer.pubKeyHex
  | .recordLegacyPending _ transport _ _ => [transport]
  | _ => []

/-- The identity whose attestation a call presents. -/
def Action.attestedId : Action → Option StableNodeId
  | .confirmInvite _ attestation _ _ _ _ => some attestation.stableNodeId
  | _ => none

/-- No attestation is signed with a key whose bytes are the SHA-256 digest that names a legacy
peer: nobody has the private key for such a point. -/
def LegacyIdsUnattested [Sha256] (actions : List Action) : Prop :=
  ∀ a ∈ actions, ∀ transport ∈ a.legacyTransports, ∀ c ∈ actions,
    c.attestedId ≠ some (StableNodeId.fromLegacyTransport transport)

/-- Legacy bindings are of identities in `legacy`, active members and tombstones of ones in
`attested`. -/
structure Provenance (legacy attested : StableNodeId → Prop) (db : AuthorityDb) : Prop where
  bindings : ∀ b ∈ db.bindings, b.assurance = .legacyUnattested → legacy b.stableNodeId
  active : ∀ m ∈ db.members, m.state = .active → attested m.stableNodeId
  tombstones : ∀ t ∈ db.tombstones, attested t.stableNodeId

section provenance
variable {legacy attested : StableNodeId → Prop}

theorem LegacyAdded.provenance [Sha256] (hstep : LegacyAdded db db' transport)
    (hlegacy : legacy (StableNodeId.fromLegacyTransport transport))
    (h : Provenance legacy attested db) : Provenance legacy attested db' := by
  obtain ⟨-, -, htombstones, -⟩ := hstep.frame
  refine ⟨?_, ?_, htombstones ▸ h.tombstones⟩
  · intro b hb' hunattested
    rcases hstep.mem_bindings hb' with hb | ⟨hid, -⟩
    · exact h.bindings b hb hunattested
    · exact hid ▸ hlegacy
  · intro m hm' hactive
    rcases hstep.mem_members hm' with hm | ⟨-, -, hpending, -⟩
    · exact h.active m hm hactive
    · rw [hpending] at hactive
      cases hactive

theorem Invited.provenance (hstep : Invited db db' row) (h : Provenance legacy attested db) :
    Provenance legacy attested db' := by
  obtain ⟨-, -, hbindings, htombstones, -⟩ := hstep.frame
  refine ⟨hbindings ▸ h.bindings, ?_, htombstones ▸ h.tombstones⟩
  intro m hm' hactive
  rcases hstep.mem_members.mp hm' with rfl | ⟨hm, -⟩
  · cases hactive
  · exact h.active m hm hactive

theorem Confirmed.provenance {now expiresAt : Int} (hstep : Confirmed db db' invite now expiresAt)
    (hattested : attested invite.stableNodeId) (h : Provenance legacy attested db) :
    Provenance legacy attested db' := by
  refine ⟨?_, ?_, hstep.tombstones ▸ h.tombstones⟩
  · intro b' hb' hunattested
    rcases (hstep.bindings b').mp hb' with rfl | ⟨-, b, hb, rfl⟩
    · cases hunattested
    · simpa using h.bindings b hb (by simpa using hunattested)
  · intro m' hm' hactive
    obtain ⟨m, hm, rfl⟩ := (hstep.members m').mp hm'
    rw [confirmMember_stableNodeId]
    unfold confirmMember at hactive
    split at hactive
    · rename_i henrolled
      rw [(enrolledBy_iff.mp henrolled).1]
      exact hattested
    · exact h.active m hm (by simpa using hactive)

theorem Revoked.provenance (hstep : Revoked db db' binding tombstone)
    (h : Provenance legacy attested db) : Provenance legacy attested db' := by
  refine ⟨?_, ?_, ?_⟩
  · intro b' hb' hunattested
    obtain ⟨b, hb, rfl⟩ := (hstep.bindings b').mp hb'
    simpa using h.bindings b hb (by simpa using hunattested)
  · intro m' hm' hactive
    obtain ⟨m, hm, rfl⟩ := (hstep.members m').mp hm'
    rw [revokedMember_stableNodeId]
    unfold revokedMember at hactive
    split at hactive
    · cases hactive
    · exact h.active m hm (by simpa using hactive)
  · intro t ht
    rcases hstep.mem_tombstones.mp ht with hold | rfl
    · exact h.tombstones t hold
    · obtain ⟨m, hm, hid, hactive, -⟩ := hstep.exists_member
      exact hid ▸ h.active m hm hactive

/-- A call whose legacy transports and attested identity are among those of the run. -/
structure Sourced [Sha256] (legacy attested : StableNodeId → Prop) (action : Action) : Prop where
  transports : ∀ t ∈ action.legacyTransports, legacy (StableNodeId.fromLegacyTransport t)
  attestedId : ∀ id, action.attestedId = some id → attested id

theorem Step.provenance [Sha256] {action : Action} (hstep : Step action db db')
    (hsourced : Sourced legacy attested action) (h : Provenance legacy attested db) :
    Provenance legacy attested db' := by
  cases hstep with
  | same hstep _ =>
    obtain ⟨hbindings, hactive, htombstones⟩ := h
    rw [← hstep.bindings] at hbindings
    rw [← hstep.members] at hactive
    rw [← hstep.tombstones] at htombstones
    exact ⟨hbindings, hactive, htombstones⟩
  | imported hpeer hstep =>
    exact hstep.provenance (hsourced.transports _ (List.mem_map_of_mem hpeer)) h
  | invited hstep => exact hstep.provenance h
  | confirmed hid hstep =>
    exact hstep.provenance (hid ▸ hsourced.attestedId _ rfl) h
  | legacy hstep => exact hstep.provenance (hsourced.transports _ (List.mem_singleton.mpr rfl)) h
  | intended hstep =>
    rw [hstep.eq]
    exact ⟨h.bindings, h.active, h.tombstones⟩
  | marked hstep =>
    rw [hstep.eq]
    exact ⟨h.bindings, h.active, h.tombstones⟩
  | revoked hstep => exact hstep.provenance h

theorem provenance_after [Sha256] [Ed25519] (path : String) (actions : List Action)
    (h : ∀ action ∈ actions, Sourced legacy attested action) :
    Provenance legacy attested (after path actions) := by
  have hfresh : Provenance legacy attested .fresh := by
    refine ⟨?_, ?_, ?_⟩ <;> simp [fresh]
  refine Lib.Machine.run_invariant_of_meets (M := fun _ action => Sourced legacy attested action) ?_
    _ hfresh actions ?_
  · intro db action hdb hsourced
    exact step_keeps (fun _ _ hdb hstep => hstep.provenance hsourced hdb) path hdb
  · rintro before action later rfl
    exact h action (by simp)

end provenance

/-! ## The invariant of the authority -/

/-- A confirmation consumes an invite that was not consumed, into the generation it was issued
for. -/
theorem Confirmed.consumes {now expiresAt : Int} (h : Confirmed db db' invite now expiresAt) :
    invite ∈ db.invites ∧ invite.consumedAt = none ∧
      { invite with consumedAt := some now } ∈ db'.invites ∧
      (∃ m ∈ db'.members, m.stableNodeId = invite.stableNodeId ∧ m.state = .active ∧
        m.authEpoch = invite.authEpoch) ∧
      ∃ b ∈ db'.bindings, b.stableNodeId = invite.stableNodeId ∧ b.carrier = invite.carrier ∧
        b.transportIdentity = invite.transportIdentity ∧ b.authEpoch = invite.authEpoch := by
  obtain ⟨m, -, -, hm'⟩ := h.exists_member
  refine ⟨h.mem, h.unconsumed, h.mem_invites.mpr ⟨invite, h.mem, ?_⟩, ⟨_, hm', rfl, rfl, rfl⟩,
    ⟨_, (h.bindings _).mpr (.inl rfl), rfl, rfl, rfl, rfl⟩⟩
  rw [if_pos rfl]

/-- A node is not bound again, after a revocation, to a carrier identity it was bound to before. -/
theorem not_bound_again [Sha256] [Ed25519] (path : String) (before later : List Action)
    (hlegacy : LegacyIdsUnattested (before ++ later)) {b b' : TransportBinding}
    {t : RevocationTombstone}
    (hb : b ∈ (after path before).bindings) (hb' : b' ∈ (after path (before ++ later)).bindings)
    (hid : b'.stableNodeId = b.stableNodeId) (hcarrier : b'.carrier = b.carrier)
    (htransport : b'.transportIdentity = b.transportIdentity)
    (ht : t ∈ (after path (before ++ later)).tombstones) (hnew : t ∉ (after path before).tombstones)
    (htid : t.stableNodeId = b.stableNodeId) : b'.authEpoch < t.authEpoch := by
  have hlater := later_after path before later
  have hdb := consistent_after path before
  have hdb' := consistent_after path (before ++ later)
  -- the identity has a tombstone, so it was attested and is not a legacy one
  let legacy : StableNodeId → Prop := fun id => ∃ a ∈ before ++ later,
    ∃ transport ∈ a.legacyTransports, id = StableNodeId.fromLegacyTransport transport
  let attested : StableNodeId → Prop := fun id => ∃ c ∈ before ++ later, c.attestedId = some id
  have hsourced : ∀ a ∈ before ++ later, Sourced legacy attested a := fun a ha =>
    ⟨fun transport htransport => ⟨a, ha, transport, htransport, rfl⟩, fun id hid => ⟨a, ha, hid⟩⟩
  have hfrom := provenance_after path before fun a ha => hsourced a (List.mem_append_left _ ha)
  have hfrom' := provenance_after path (before ++ later) hsourced
  obtain ⟨c, hc, hattested⟩ := hfrom'.tombstones t ht
  have hsigned : ∀ x : TransportBinding, x.stableNodeId = t.stableNodeId →
      (x.assurance = .legacyUnattested → legacy x.stableNodeId) →
      x.assurance = .signedAttestation := by
    intro x hxid hx
    cases hassurance : x.assurance with
    | signedAttestation => rfl
    | legacyUnattested =>
      obtain ⟨a, ha, transport, htransport, hlegacyId⟩ := hx hassurance
      rw [← hxid, hlegacyId] at hattested
      exact absurd hattested (hlegacy a ha transport htransport c hc)
  -- both bindings come from invites with the carrier identity, and the tombstone is not between
  -- them
  obtain ⟨i, hi, hiid, hicarrier, hitransport, hiauth⟩ :=
    hdb.owned.signed b hb (hsigned b htid.symm (hfrom.bindings b hb))
  obtain ⟨i', hi', hkept⟩ := hlater.invites i hi
  obtain ⟨j, hj, hjid, hjcarrier, hjtransport, hjauth⟩ :=
    hdb'.owned.signed b' hb' (hsigned b' (hid.trans htid.symm) (hfrom'.bindings b' hb'))
  obtain ⟨m, hm, hmid, hle, -⟩ := hdb.owned.bindings b hb
  have hlt : m.authEpoch < t.authEpoch := by
    rcases hlater.newer t ht with hold | hnewer
    · exact absurd hold hnew
    · exact hnewer m hm (hmid.trans htid.symm)
  rw [← hjauth]
  refine hdb'.apart i' hi' j hj ?_ ?_ ?_ t ht ?_ ?_
  · rw [hjid, hid, hkept.stableNodeId, hiid]
  · rw [hjcarrier, hcarrier, hkept.carrier, hicarrier]
  · rw [hjtransport, htransport, hkept.transportIdentity, hitransport]
  · rw [htid, hkept.stableNodeId, hiid]
  · rw [hkept.authEpoch, hiauth]
    omega

/-- **The membership authority invariant.** In every state a sequence of calls leads to from a
fresh store, the floor is at most the epoch, every active member is stamped with the epoch, and a
member is revoked exactly when a tombstone of its auth epoch exists.  Over time neither the epoch
nor the floor decreases, members stay and their auth epochs do not decrease, and each new tombstone
is of a later auth epoch than its member had, and one that the member reaches; a consumed invite
stays as it is, and a confirmation consumes one that was not, into the auth epoch it was issued for;
and a node that has been revoked is not bound again to a carrier identity it was bound to before. -/
theorem authority_history [Sha256] [Ed25519] (path : String) (before later : List Action)
    (hlegacy : LegacyIdsUnattested (before ++ later)) :
    let db := after path before
    let db' := after path (before ++ later)
    (db.revocationFloor ≤ db.membershipEpoch ∧
      (∀ m ∈ db.members, m.state = .active → m.membershipEpoch = db.membershipEpoch) ∧
      ∀ m ∈ db.members, m.state = .revoked ↔
        ∃ t ∈ db.tombstones, t.stableNodeId = m.stableNodeId ∧ t.authEpoch = m.authEpoch) ∧
    (db.membershipEpoch ≤ db'.membershipEpoch ∧ db.revocationFloor ≤ db'.revocationFloor) ∧
    (∀ m ∈ db.members, ∃ m' ∈ db'.members, m'.stableNodeId = m.stableNodeId ∧
      m.authEpoch ≤ m'.authEpoch ∧
      ∀ t ∈ db'.tombstones, t.stableNodeId = m.stableNodeId → t ∉ db.tombstones →
        m.authEpoch < t.authEpoch ∧ t.authEpoch ≤ m'.authEpoch) ∧
    (∀ i ∈ db.invites, i.consumedAt.isSome = true → i ∈ db'.invites) ∧
    (∀ inviteId attestation carrier transport endpoint now next invite,
      db.confirmInvite inviteId attestation carrier transport endpoint now = .ok (next, invite) →
      invite ∈ db.invites ∧ invite.consumedAt = none ∧
      { invite with consumedAt := some now } ∈ next.invites ∧
      (∃ m ∈ next.members, m.stableNodeId = invite.stableNodeId ∧ m.state = .active ∧
        m.authEpoch = invite.authEpoch) ∧
      ∃ b ∈ next.bindings, b.stableNodeId = invite.stableNodeId ∧ b.carrier = invite.carrier ∧
        b.transportIdentity = invite.transportIdentity ∧ b.authEpoch = invite.authEpoch) ∧
    ∀ b ∈ db.bindings, ∀ t ∈ db'.tombstones, t ∉ db.tombstones → t.stableNodeId = b.stableNodeId →
      ∀ b' ∈ db'.bindings, b'.stableNodeId = b.stableNodeId → b'.carrier = b.carrier →
        b'.transportIdentity = b.transportIdentity → b'.authEpoch < t.authEpoch := by
  intro db db'
  have hdb := consistent_after path before
  have hdb' := consistent_after path (before ++ later)
  have hlater := later_after path before later
  refine ⟨⟨hdb.stamped.floor_le, hdb.stamped.active, hdb.buried.revoked_iff⟩,
    ⟨hlater.epoch_le, hlater.floor_le⟩, ?_, ?_, ?_, ?_⟩
  · intro m hm
    obtain ⟨m', hm', hid, hle⟩ := hlater.advance m hm
    refine ⟨m', hm', hid, hle, ?_⟩
    intro t ht htid hnew
    obtain ⟨n, hn, hnid, hreached⟩ := hdb'.buried.owner t ht
    obtain rfl := member_eq hn hm' (hnid.trans (htid.trans hid.symm))
    rcases hlater.newer t ht with hold | hnewer
    · exact absurd hold hnew
    · exact ⟨hnewer m hm htid.symm, hreached⟩
  · intro i hi hconsumed
    obtain ⟨i', hi', hkept⟩ := hlater.invites i hi
    exact hkept.consumed hconsumed ▸ hi'
  · intro inviteId attestation carrier transport endpoint now next invite hconfirm
    exact (confirmInvite_spec hconfirm).1.consumes
  · intro b hb t ht hnew htid b' hb' hid hcarrier htransport
    exact not_bound_again path before later hlegacy hb hb' hid hcarrier htransport ht hnew htid

/-! ## A node that comes back on the other carrier -/

def sampleKey : PublicKey :=
  ⟨[0x8a, 0x88, 0xe3, 0xdd, 0x74, 0x09, 0xf1, 0x95, 0xfd, 0x52, 0xdb, 0x2d, 0x3c, 0xba, 0x5d,
     0x72, 0xca, 0x67, 0x09, 0xbf, 0x1d, 0x94, 0x12, 0x1b, 0xf3, 0x74, 0x88, 0x01, 0xb4, 0x0f,
     0x6f, 0x5c], rfl⟩

def sampleOtherKey : PublicKey :=
  ⟨[0x81, 0x39, 0x77, 0x0e, 0xa8, 0x7d, 0x17, 0x5f, 0x56, 0xa3, 0x54, 0x66, 0xc3, 0x4c, 0x7e,
     0xcc, 0xcb, 0x8d, 0x8a, 0x91, 0xb4, 0xee, 0x37, 0xa2, 0x5d, 0xf6, 0x0f, 0x5b, 0x8f, 0xc9,
     0xb3, 0x94], rfl⟩

def sampleAttestation (key : PublicKey) (carrier : CarrierKind) (transport : TransportIdentity)
    (authEpoch issuedAt : Nat) (invitation : String) (signature : List UInt8) :
      EndpointAttestation :=
  { protocolVersion := 2, stableNodeId := StableNodeId.fromVerifyingKey key, signingPublicKey := key
    carrier := carrier, transportIdentity := transport, bootId := "boot-1", runtimeId := "runtime-1"
    endpoint := "node:7001", authEpoch := authEpoch, proofMembershipEpoch := issuedAt
    invitationDigest := some invitation, expiresAtUnix := 2000, signature := signature }

/-- The first enrollment of a node. -/
def sampleEnrollment : EndpointAttestation :=
  sampleAttestation sampleKey .peeroxide "alpha-transport" 1 2
    "744f060c9292c3e500370df54a756e0841821fbf5886159a3ebd7cbff5c8c6f8"
    [0xff, 0x92, 0xc5, 0xa5, 0x6c, 0x79, 0x63, 0xa0, 0x1a, 0xc8, 0xe4, 0xd7, 0xac, 0x7b, 0x4c,
     0xe4, 0x71, 0x07, 0xa6, 0x03, 0x11, 0x2b, 0xf2, 0xe2, 0x1c, 0x8b, 0x5d, 0xd2, 0xdf, 0x32,
     0xf5, 0xd1, 0xb3, 0xb4, 0xa5, 0x94, 0x94, 0xe1, 0x72, 0xf1, 0x42, 0x19, 0xc1, 0xd4, 0x5c,
     0x4a, 0x49, 0xa2, 0x4c, 0xa8, 0x85, 0x8e, 0x38, 0xa8, 0xf7, 0x38, 0xa2, 0x70, 0x59, 0x86,
     0x1d, 0x32, 0x5f, 0x0c]

/-- The first enrollment of another node. -/
def sampleOtherEnrollment : EndpointAttestation :=
  sampleAttestation sampleOtherKey .peeroxide "beta-transport" 1 3
    "46d56b00dfe53050c08b9a38b23aacf62240aff32946bb10ffa2f0fb687e79ba"
    [0x8c, 0xf2, 0x5a, 0xe4, 0x72, 0xda, 0xda, 0x5f, 0xa9, 0x8d, 0x97, 0x35, 0x44, 0xc8, 0x48,
     0xc0, 0x8b, 0xe5, 0x03, 0xf8, 0x77, 0x80, 0x04, 0x6a, 0x3e, 0xb8, 0x6c, 0x64, 0x05, 0x85,
     0xbc, 0x35, 0xbc, 0x90, 0xa7, 0xfb, 0x19, 0x71, 0x76, 0x52, 0xfc, 0x0c, 0xe0, 0x53, 0x15,
     0xa7, 0x53, 0xe7, 0x08, 0x81, 0x62, 0x37, 0x44, 0xf9, 0x15, 0xbd, 0xb8, 0x0a, 0x50, 0x48,
     0x9a, 0x9f, 0x0d, 0x02]

/-- A second enrollment, with the same transport identity on the other carrier. -/
def sampleOtherCarrier : EndpointAttestation :=
  sampleAttestation sampleKey .iroh "alpha-transport" 3 4
    "77ffd4949b79952bfed9dcd27f3b84effbffc975c82d80defad0dc7fca9fd040"
    [0x23, 0x0e, 0xcc, 0xdd, 0xcd, 0xa3, 0xf5, 0xf1, 0xd6, 0xde, 0x23, 0xeb, 0x64, 0x87, 0xd2,
     0xc1, 0x88, 0xf3, 0xe9, 0x55, 0xe9, 0x84, 0x72, 0xe5, 0x2c, 0x6b, 0x69, 0xf4, 0xe1, 0x0a,
     0xd7, 0xa7, 0x4d, 0x27, 0xf8, 0x05, 0x68, 0x69, 0x02, 0x69, 0xfa, 0x1f, 0xf8, 0x3c, 0x64,
     0xd2, 0x2c, 0xe9, 0x34, 0xbe, 0xfe, 0x31, 0xab, 0x07, 0x41, 0x0f, 0xa3, 0xed, 0x6c, 0xa9,
     0x6a, 0x40, 0xc9, 0x0e]

/-- A second enrollment, with a transport identity of its own. -/
def sampleRenewal : EndpointAttestation :=
  sampleAttestation sampleKey .peeroxide "alpha-renewed" 3 4
    "f0d05e1af5d3fa75bf1320ce9821288225042599f906149ee9f01c125c834d94"
    [0xa1, 0x33, 0x3b, 0x6b, 0xf7, 0x2b, 0xe3, 0xea, 0x1d, 0xcf, 0xb8, 0xed, 0x4e, 0xd6, 0xe4,
     0x7f, 0xd3, 0x99, 0xf9, 0xd1, 0x29, 0x73, 0x79, 0xc5, 0x4f, 0x62, 0x5d, 0xbd, 0x7b, 0x77,
     0x5c, 0x52, 0x94, 0xc4, 0xf2, 0x1b, 0x96, 0x33, 0x7e, 0xc6, 0x5b, 0x58, 0xe7, 0xbd, 0x90,
     0xdb, 0xa3, 0x9d, 0xe4, 0xfa, 0xcb, 0x6e, 0x72, 0x33, 0x55, 0x99, 0x0b, 0x32, 0xfa, 0x01,
     0x8b, 0x9e, 0x77, 0x04]

/-- The signatures above, made with the private keys of the two nodes. -/
@[reducible] def sampleEd25519 : Ed25519 where
  decodes key := key == sampleKey || key == sampleOtherKey
  verify key message signature :=
    [sampleEnrollment, sampleOtherEnrollment, sampleOtherCarrier, sampleRenewal].any fun a =>
      a.signingPublicKey == key && a.signableBytes == message && a.signature == signature

def sampleInvite (inviteId : String) (a : EndpointAttestation) : Action :=
  .createInvite inviteId a.stableNodeId a.signingPublicKey a.carrier a.transportIdentity
    a.endpoint "node" 1000 2000

def sampleConfirm (inviteId : String) (a : EndpointAttestation) : Action :=
  .confirmInvite inviteId a a.carrier a.transportIdentity a.endpoint 1001

def samplePath : String := "/var/lib/neoth/membership.sqlite"

/-- A node is invited and enrolls. -/
def sampleEnrolled : List Action :=
  [sampleInvite "5f1c2d3e-0a1b-4c2d-8e3f-000000000001" sampleEnrollment,
    sampleConfirm "5f1c2d3e-0a1b-4c2d-8e3f-000000000001" sampleEnrollment]

/-- Another node enrolls after it. -/
def sampleTwoEnrolled : List Action :=
  sampleEnrolled ++ [sampleInvite "5f1c2d3e-0a1b-4c2d-8e3f-000000000002" sampleOtherEnrollment,
    sampleConfirm "5f1c2d3e-0a1b-4c2d-8e3f-000000000002" sampleOtherEnrollment]

/-- What an enrollment leaves in the three tables. -/
def sampleMember (a : EndpointAttestation) (epoch : Nat) : Member :=
  ⟨a.stableNodeId, "node", .active, a.authEpoch, epoch⟩

def sampleBinding (a : EndpointAttestation) (epoch : Nat) : TransportBinding :=
  ⟨a.stableNodeId, a.carrier, a.transportIdentity, a.endpoint, .signedAttestation,
    a.authEpoch, epoch, some a.expiresAtUnix⟩

def sampleUsedInvite (inviteId : String) (a : EndpointAttestation) : EnrollmentInviteRow :=
  ⟨inviteId, a.invitationDigest.getD "", a.stableNodeId, a.signingPublicKey, a.carrier,
    a.transportIdentity, a.endpoint, "node", a.authEpoch, a.proofMembershipEpoch, 2000, some 1001⟩

def sampleEnrolledDb : AuthorityDb :=
  { AuthorityDb.fresh with
    membershipEpoch := 2
    members := ⟨[sampleMember sampleEnrollment 2], List.nodup_singleton _⟩
    bindings := ⟨[sampleBinding sampleEnrollment 2], List.nodup_singleton _⟩
    invites := ⟨[sampleUsedInvite "5f1c2d3e-0a1b-4c2d-8e3f-000000000001" sampleEnrollment],
      List.nodup_singleton _⟩ }

theorem after_sampleEnrolled :
    @after Sha256.fips sampleEd25519 samplePath sampleEnrolled = sampleEnrolledDb := by
  rw [Sha256.fips_eq]
  decide +kernel

def sampleTwoEnrolledDb : AuthorityDb :=
  { AuthorityDb.fresh with
    membershipEpoch := 3
    members := ⟨[sampleMember sampleEnrollment 3, sampleMember sampleOtherEnrollment 3], by
      decide +kernel⟩
    bindings := ⟨[sampleBinding sampleEnrollment 3, sampleBinding sampleOtherEnrollment 3], by
      decide +kernel⟩
    invites := ⟨[sampleUsedInvite "5f1c2d3e-0a1b-4c2d-8e3f-000000000001" sampleEnrollment,
      sampleUsedInvite "5f1c2d3e-0a1b-4c2d-8e3f-000000000002" sampleOtherEnrollment], by
        decide +kernel⟩ }

theorem after_sampleTwoEnrolled :
    @after Sha256.fips sampleEd25519 samplePath sampleTwoEnrolled = sampleTwoEnrolledDb := by
  rw [sampleTwoEnrolled, @after_append Sha256.fips sampleEd25519, after_sampleEnrolled,
    Sha256.fips_eq]
  decide +kernel

/-- The request to revoke it, bound to the snapshot of the authority after the enrollment. -/
def sampleRevocation : MembershipRevokeBinding :=
  { requestId := sampleRequestId, stableNodeId := StableNodeId.fromVerifyingKey sampleKey
    reason := "left the cluster", source := "operator", snapshotVersion := 1
    snapshotDigest := "d676e944acbb9cbb08ffaa8b2ff1ace010d514c41b47441e507910d26375a97f"
    authorityEpoch := 2, memberAuthEpoch := 1, memberMembershipEpoch := 2 }

/-- It is revoked, and enrolls again on the other carrier. -/
def sampleReturn : List Action :=
  [.startRevocationIntent sampleRevocation false,
    .finalizeRevocationIntent sampleRevocation "receipt-1" "not_running" .empty,
    sampleInvite "5f1c2d3e-0a1b-4c2d-8e3f-000000000003" sampleOtherCarrier,
    sampleConfirm "5f1c2d3e-0a1b-4c2d-8e3f-000000000003" sampleOtherCarrier]

/-- After `later`, a node is bound again to a transport identity it had before a revocation. -/
def boundAgain (db db' : AuthorityDb) : Bool :=
  db.bindings.any fun b => db'.tombstones.any fun t => !db.tombstones.any (· == t) &&
    t.stableNodeId == b.stableNodeId && db'.bindings.any fun b' =>
      b'.stableNodeId == b.stableNodeId &&
      b'.transportIdentity == b.transportIdentity && t.authEpoch ≤ b'.authEpoch

theorem sampleReturn_boundAgain :
    boundAgain (@after Sha256.fips sampleEd25519 samplePath sampleEnrolled)
      (@after Sha256.fips sampleEd25519 samplePath (sampleEnrolled ++ sampleReturn)) = true := by
  rw [@after_append Sha256.fips sampleEd25519, after_sampleEnrolled, Sha256.fips_eq]
  decide +kernel

/-- The carriers are apart: the same transport identity on the other one is not refused. -/
theorem rebound_on_other_carrier :
    ¬ ∀ (path : String) (before later : List Action),
      @LegacyIdsUnattested Sha256.fips (before ++ later) →
      ∀ b ∈ (@after Sha256.fips sampleEd25519 path before).bindings,
      ∀ t ∈ (@after Sha256.fips sampleEd25519 path (before ++ later)).tombstones,
      t ∉ (@after Sha256.fips sampleEd25519 path before).tombstones →
      t.stableNodeId = b.stableNodeId →
      ∀ b' ∈ (@after Sha256.fips sampleEd25519 path (before ++ later)).bindings,
        b'.stableNodeId = b.stableNodeId → b'.transportIdentity = b.transportIdentity →
        b'.authEpoch < t.authEpoch := by
  intro h
  have hagain := sampleReturn_boundAgain
  simp only [boundAgain, Table.any_eq_true, Bool.and_eq_true, Bool.not_eq_true', Table.any_eq_false,
    beq_iff_eq, decide_eq_true_eq] at hagain
  obtain ⟨b, hb, t, ht, ⟨hnew, htid⟩, b', hb', ⟨hid, htransport⟩, hle⟩ := hagain
  have hlt := h samplePath sampleEnrolled sampleReturn
    (by unfold LegacyIdsUnattested; rw [Sha256.fips_eq]; decide +kernel) b hb t ht
    (fun hold => by simpa using hnew t hold) htid b' hb' hid htransport
  omega

/-- A store that knows a legacy peer when the node is enrolled. -/
theorem authority_history_sample :
    @LegacyIdsUnattested Sha256.fips
      (.recordLegacyPending .peeroxide "legacy-transport" "node:7000" "old" ::
        sampleEnrolled ++ []) ∧
    (∀ m ∈ (@after Sha256.fips sampleEd25519 samplePath
        (.recordLegacyPending .peeroxide "legacy-transport" "node:7000" "old" ::
          sampleEnrolled)).members,
      m.state = .active → m.membershipEpoch = (@after Sha256.fips sampleEd25519 samplePath
        (.recordLegacyPending .peeroxide "legacy-transport" "node:7000" "old" ::
          sampleEnrolled)).membershipEpoch) := by
  have hlegacy : @LegacyIdsUnattested Sha256.fips
      (.recordLegacyPending .peeroxide "legacy-transport" "node:7000" "old" ::
        sampleEnrolled ++ []) := by
    unfold LegacyIdsUnattested
    rw [Sha256.fips_eq]
    decide +kernel
  exact ⟨hlegacy, (@authority_history Sha256.fips sampleEd25519 samplePath _ [] hlegacy).1.2.1⟩

end Neoth.Authority
