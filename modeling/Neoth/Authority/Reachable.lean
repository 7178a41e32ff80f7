import Neoth.Authority.Invariant

/-!
# Every reachable authority is consistent

The rest of the invariant across each kind of step: owners (`Owned`), the bindings of the current
generation (`Bound`) and carrier identities (`Apart`).

* `Step.consistent`: a step keeps the invariant;
* `consistent_after`: every database the calls of the store lead to from a fresh one is consistent.
-/

open Lib Lib.Encoding Lib.Transaction

namespace Neoth.Authority

open AuthorityDb

/-! ## Owners -/

variable {db db' : AuthorityDb} {i row : EnrollmentInviteRow}

theorem Invited.mem_invites (h : Invited db db' row) : i ∈ db'.invites ↔ i ∈ db.invites ∨ i = row :=
  Table.mem_insert h.inserted

theorem Invited.owned (h : Invited db db' row) (howned : Owned db) : Owned db' := by
  obtain ⟨hepoch, -, hbindings, -⟩ := h.frame
  refine ⟨?_, ?_, by rw [hbindings, hepoch]; exact howned.epochs, ?_⟩
  · intro i hi
    rcases h.mem_invites.mp hi with hold | rfl
    · exact h.advance.owned_invites howned i hold
    · exact ⟨_, h.mem_members.mpr (.inl rfl), rfl, le_rfl⟩
  · intro b hb
    rw [hbindings] at hb
    obtain ⟨m, hm, hid, hauth, hstamp⟩ := howned.bindings b hb
    obtain ⟨-, -, hle⟩ := howned.epochs b hb
    obtain ⟨m', hm', hid', hle'⟩ := h.advance m hm
    refine ⟨m', hm', hid'.trans hid, hauth.trans hle', ?_⟩
    rcases h.mem_members.mp hm' with rfl | ⟨hold, -⟩
    · have hissued := h.issued
      dsimp only
      omega
    · rwa [member_eq hold hm hid']
  · intro b hb hsigned
    rw [hbindings] at hb
    obtain ⟨i, hi, heq⟩ := howned.signed b hb hsigned
    exact ⟨i, h.mem_invites.mpr (.inl hi), heq⟩

variable {i' invite : EnrollmentInviteRow} {expiresAt now : Int}

theorem Confirmed.mem_invites (h : Confirmed db db' invite now expiresAt) :
    i' ∈ db'.invites ↔ ∃ i ∈ db.invites,
      i' = if i.inviteId = invite.inviteId then { i with consumedAt := some now } else i := by
  rw [h.invites, Table.mem_update]
  simp only [beq_iff_eq]

/-- An invite keeps everything but its consumption. -/
theorem Confirmed.exists_invite (h : Confirmed db db' invite now expiresAt) (hi : i ∈ db.invites) :
    ∃ i' ∈ db'.invites, i'.stableNodeId = i.stableNodeId ∧ i'.carrier = i.carrier ∧
      i'.transportIdentity = i.transportIdentity ∧ i'.authEpoch = i.authEpoch := by
  refine ⟨_, h.mem_invites.mpr ⟨i, hi, rfl⟩, ?_⟩
  split <;> exact ⟨rfl, rfl, rfl, rfl⟩

theorem Confirmed.of_mem_invites (h : Confirmed db db' invite now expiresAt)
    (hi' : i' ∈ db'.invites) :
    ∃ i ∈ db.invites, i.stableNodeId = i'.stableNodeId ∧ i.carrier = i'.carrier ∧
      i.transportIdentity = i'.transportIdentity ∧ i.authEpoch = i'.authEpoch := by
  obtain ⟨i, hi, rfl⟩ := h.mem_invites.mp hi'
  refine ⟨i, hi, ?_⟩
  split <;> exact ⟨rfl, rfl, rfl, rfl⟩

/-- The enrolled member, before and after. -/
theorem Confirmed.exists_member (h : Confirmed db db' invite now expiresAt) :
    ∃ m ∈ db.members, m.enrolledBy invite = true ∧
      ⟨invite.stableNodeId, m.label, .active, invite.authEpoch, db.nextCommitted invite⟩ ∈
        db'.members := by
  obtain ⟨m, hm, henrolled⟩ := h.member
  refine ⟨m, hm, henrolled, (h.members _).mpr ⟨m, hm, ?_⟩⟩
  obtain ⟨hid, hauth, -⟩ := enrolledBy_iff.mp henrolled
  rw [confirmMember, if_pos henrolled, hid, hauth]

variable {epoch : Nat} {b : TransportBinding}

/-- A binding that is raised with its member stays behind it. -/
theorem raiseBinding_le_raiseMember {m : Member} (hstamped : Stamped db) (howned : Owned db)
    (hle : db.membershipEpoch ≤ epoch) (hm : m ∈ db.members) (hb : b ∈ db.bindings)
    (hid : m.stableNodeId = b.stableNodeId) (hstamp : b.membershipEpoch ≤ m.membershipEpoch) :
    (db.raiseBinding epoch b).membershipEpoch ≤ (db.raiseMember epoch m).membershipEpoch := by
  by_cases hactive : m.state = .active
  · rw [raiseMember_membershipEpoch hle hactive (hstamped.active m hm hactive)]
    obtain ⟨-, -, hbound⟩ := howned.epochs b hb
    rcases raiseBinding_membershipEpoch db epoch b with heq | heq <;> omega
  · have hnot : ¬ db.isActive b.stableNodeId = true := by
      rw [← hid, isActive_iff hm]
      exact hactive
    rw [raiseMember_of_not_active hactive, raiseBinding, if_neg fun h => hnot h.2]
    exact hstamp

theorem raiseBinding_epochs (howned : Owned db) (hle : db.membershipEpoch ≤ epoch)
    (hb : b ∈ db.bindings) :
    0 < (db.raiseBinding epoch b).authEpoch ∧ 0 < (db.raiseBinding epoch b).membershipEpoch ∧
      (db.raiseBinding epoch b).membershipEpoch ≤ epoch := by
  obtain ⟨hauth, hpos, hbound⟩ := howned.epochs b hb
  rcases raiseBinding_membershipEpoch db epoch b with heq | heq <;>
    exact ⟨by simpa using hauth, by omega, by omega⟩

theorem Confirmed.owned (h : Confirmed db db' invite now expiresAt) (hstamped : Stamped db)
    (howned : Owned db) : Owned db' := by
  have hle := le_nextCommitted db invite
  have hpos := hstamped.floor_pos
  have hfloor := hstamped.floor_le
  obtain ⟨m₀, hm₀, henrolled, hm₀'⟩ := h.exists_member
  refine ⟨?_, ?_, ?_, ?_⟩
  · intro i' hi'
    obtain ⟨i, hi, hid, -, -, hauth⟩ := h.of_mem_invites hi'
    rw [← hid, ← hauth]
    exact h.advance.owned_invites howned i hi
  · intro b' hb'
    rcases (h.bindings b').mp hb' with rfl | ⟨-, b, hb, rfl⟩
    · exact ⟨_, hm₀', rfl, le_rfl, le_rfl⟩
    · obtain ⟨m, hm, hid, hauth, hstamp⟩ := howned.bindings b hb
      refine ⟨_, (h.members _).mpr ⟨m, hm, rfl⟩, by simpa using hid, by simpa using hauth, ?_⟩
      unfold confirmMember
      split
      · exact (raiseBinding_epochs howned hle hb).2.2
      · exact raiseBinding_le_raiseMember hstamped howned hle hm hb hid hstamp
  · intro b' hb'
    rw [h.epoch]
    rcases (h.bindings b').mp hb' with rfl | ⟨-, b, hb, rfl⟩
    · obtain ⟨-, hauth, -⟩ := enrolledBy_iff.mp henrolled
      have hauthPos := (hstamped.readable m₀ hm₀).2.1
      exact ⟨by dsimp only [EnrollmentInviteRow.binding]; omega,
        by dsimp only [EnrollmentInviteRow.binding]; omega, le_rfl⟩
    · exact raiseBinding_epochs howned hle hb
  · intro b' hb' hsigned
    rcases (h.bindings b').mp hb' with rfl | ⟨-, b, hb, rfl⟩
    · exact h.exists_invite h.mem
    · obtain ⟨i, hi, hid, hcarrier, htransport, hauth⟩ :=
        howned.signed b hb (by simpa using hsigned)
      obtain ⟨i', hi', hid', hcarrier', htransport', hauth'⟩ := h.exists_invite hi
      exact ⟨i', hi', by simp [hid', hid], by simp [hcarrier', hcarrier], by
        simp [htransport', htransport],
        by simp [hauth', hauth]⟩

variable {binding : MembershipRevokeBinding} {tombstone : RevocationTombstone}

theorem Revoked.owned (h : Revoked db db' binding tombstone) (hstamped : Stamped db)
    (howned : Owned db) : Owned db' := by
  have hle : db.membershipEpoch ≤ db.membershipEpoch + 1 := Nat.le_succ _
  refine ⟨h.invites ▸ h.advance.owned_invites howned, ?_, ?_, ?_⟩
  · intro b' hb'
    obtain ⟨b, hb, rfl⟩ := (h.bindings b').mp hb'
    obtain ⟨m, hm, hid, hauth, hstamp⟩ := howned.bindings b hb
    have hauth' := le_revokedMember_authEpoch db binding.stableNodeId m
    refine ⟨_, (h.members _).mpr ⟨m, hm, rfl⟩, by simpa using hid, by
      simp only [raiseBinding_authEpoch]; omega, ?_⟩
    unfold revokedMember
    split
    · exact (raiseBinding_epochs howned hle hb).2.2
    · exact raiseBinding_le_raiseMember hstamped howned hle hm hb hid hstamp
  · intro b' hb'
    obtain ⟨b, hb, rfl⟩ := (h.bindings b').mp hb'
    rw [h.epoch]
    exact raiseBinding_epochs howned hle hb
  · intro b' hb' hsigned
    obtain ⟨b, hb, rfl⟩ := (h.bindings b').mp hb'
    rw [h.invites]
    simpa using howned.signed b hb (by simpa using hsigned)

variable {transport : TransportIdentity}

theorem LegacyAdded.mem_bindings [Sha256] (h : LegacyAdded db db' transport) {b' : TransportBinding}
    (hb' : b' ∈ db'.bindings) :
    b' ∈ db.bindings ∨ (b'.stableNodeId = StableNodeId.fromLegacyTransport transport ∧
      b'.transportIdentity = transport ∧ b'.assurance = .legacyUnattested ∧ b'.authEpoch = 1 ∧
      (b'.membershipEpoch = 1 ∨ b'.membershipEpoch = db.membershipEpoch) ∧
      ∃ m ∈ db'.members, m.stableNodeId = b'.stableNodeId ∧
        (b'.membershipEpoch = 1 ∨ m.membershipEpoch = b'.membershipEpoch)) := by
  rcases h.bindings with hsame | ⟨carrier, endpoint, epoch, hepoch, howner, hinsert⟩
  · exact .inl (hsame ▸ hb')
  · rcases (Table.mem_insert hinsert).mp hb' with hold | rfl
    · exact .inl hold
    · exact .inr ⟨rfl, rfl, rfl, rfl, hepoch, howner⟩

theorem LegacyAdded.owned [Sha256] (h : LegacyAdded db db' transport) (hstamped : Stamped db)
    (howned : Owned db) : Owned db' := by
  obtain ⟨hepoch, -, -, hinvites, -⟩ := h.frame
  have hpos := hstamped.floor_pos
  have hfloor := hstamped.floor_le
  refine ⟨hinvites ▸ h.advance.owned_invites howned, ?_, ?_, ?_⟩
  · intro b' hb'
    rcases h.mem_bindings hb' with hb | ⟨-, -, -, hauth, -, m, hm, hid, hstamp⟩
    · obtain ⟨m, hm, hrest⟩ := howned.bindings b' hb
      exact ⟨m, h.members_subset hm, hrest⟩
    · obtain ⟨-, hauthPos, hepochPos⟩ := (h.stamped hstamped).readable m hm
      exact ⟨m, hm, hid, by omega, by omega⟩
  · intro b' hb'
    rw [hepoch]
    rcases h.mem_bindings hb' with hb | ⟨-, -, -, hauth, hstamp, -⟩
    · exact howned.epochs b' hb
    · exact ⟨by omega, by omega, by omega⟩
  · intro b' hb' hsigned
    rw [hinvites]
    rcases h.mem_bindings hb' with hb | ⟨-, -, hlegacy, -⟩
    · exact howned.signed b' hb hsigned
    · rw [hlegacy] at hsigned
      cases hsigned

/-! ## Bindings of the current generation -/

theorem Invited.bound (h : Invited db db' row) (howned : Owned db) (hbound : Bound db) :
    Bound db' := by
  obtain ⟨-, -, hbindings, -⟩ := h.frame
  refine ⟨?_, ?_⟩
  · intro m' hm' b hb hid hsigned hauth
    rw [hbindings] at hb
    rcases h.mem_members.mp hm' with rfl | ⟨hm, -⟩
    · -- a signed binding of the generation would have made the node active
      obtain ⟨n, hn, hnid, hle, -⟩ := howned.bindings b hb
      rcases h.generation with ⟨hnew, -⟩ | ⟨m, hm, hmid, hinactive, hnext⟩
      · exact absurd (hnid.trans hid) (hnew n hn)
      · obtain rfl := member_eq hn hm (hnid.trans (hid.trans hmid.symm))
        rcases hnext with ⟨-, hnext⟩ | ⟨-, hnext⟩
        · dsimp only at hauth
          omega
        · exact absurd (hbound.current n hn b hb hnid.symm hsigned (hauth.trans hnext)).1 hinactive
    · exact hbound.current m' hm b hb hid hsigned hauth
  · intro m' hm' hactive
    rw [hbindings]
    rcases h.mem_members.mp hm' with rfl | ⟨hm, -⟩
    · cases hactive
    · exact hbound.active m' hm hactive

/-- A signed binding of the current generation is raised to the same epoch as its member. -/
theorem raiseBinding_current {m : Member} (hstamped : Stamped db) (hle : db.membershipEpoch ≤ epoch)
    (hm : m ∈ db.members) (hid : b.stableNodeId = m.stableNodeId) (hactive : m.state = .active)
    (hstamp : b.membershipEpoch = m.membershipEpoch) :
    (db.raiseBinding epoch b).membershipEpoch = epoch := by
  have hepoch := hstamped.active m hm hactive
  have hisActive : db.isActive b.stableNodeId = true := by
    rw [hid, isActive_iff hm]
    exact hactive
  unfold raiseBinding
  split
  · rfl
  · rename_i hnot
    have hge : ¬ db.membershipEpoch < epoch := fun hlt => hnot ⟨hlt, hisActive⟩
    omega

theorem Confirmed.bound (h : Confirmed db db' invite now expiresAt) (hstamped : Stamped db)
    (hbound : Bound db) : Bound db' := by
  have hle := le_nextCommitted db invite
  obtain ⟨m₀, hm₀, henrolled, hm₀'⟩ := h.exists_member
  obtain ⟨hid₀, -, -⟩ := enrolledBy_iff.mp henrolled
  refine ⟨?_, ?_⟩
  · intro m' hm' b' hb' hid hsigned hauth
    rcases (h.bindings b').mp hb' with rfl | ⟨-, b, hb, rfl⟩
    · rw [member_eq hm' hm₀' hid.symm]
      exact ⟨rfl, rfl⟩
    · obtain ⟨m, hm, rfl⟩ := (h.members m').mp hm'
      simp only [raiseBinding_stableNodeId, raiseBinding_assurance, raiseBinding_authEpoch,
        confirmMember_stableNodeId, confirmMember_authEpoch] at hid hsigned hauth
      obtain ⟨hactive, hstamp⟩ := hbound.current m hm b hb hid hsigned hauth
      have hactive' : (db.confirmMember invite m).state = .active := by
        unfold confirmMember
        split
        · rfl
        · simpa using hactive
      refine ⟨hactive', ?_⟩
      rw [confirmMember_active hstamped hm hactive',
        raiseBinding_current hstamped hle hm hid hactive hstamp]
  · intro m' hm' hactive
    obtain ⟨m, hm, rfl⟩ := (h.members m').mp hm'
    by_cases henrolled' : m.enrolledBy invite = true
    · obtain ⟨hid, hauth, -⟩ := enrolledBy_iff.mp henrolled'
      exact ⟨_, (h.bindings _).mpr (.inl rfl), by simp [EnrollmentInviteRow.binding, hid], rfl,
        by simp [EnrollmentInviteRow.binding, hauth]⟩
    · have hstate : m.state = .active := by simpa [confirmMember, henrolled'] using hactive
      obtain ⟨b, hb, hid, hsigned, hauth⟩ := hbound.active m hm hstate
      refine ⟨db.raiseBinding (db.nextCommitted invite) b,
        (h.bindings _).mpr (.inr ⟨?_, b, hb, rfl⟩), by simpa using hid,
        by simpa using hsigned, by simpa using hauth⟩
      -- the invited node's own member is the enrolled one
      rw [raiseBinding_key]
      intro hkey
      obtain ⟨hsame, -⟩ := Prod.mk.inj hkey
      exact henrolled' (member_eq hm hm₀ (hid.symm.trans (hsame.trans hid₀.symm)) ▸ henrolled)

theorem Revoked.bound (h : Revoked db db' binding tombstone) (hstamped : Stamped db)
    (howned : Owned db) (hbound : Bound db) : Bound db' := by
  have hle : db.membershipEpoch ≤ db.membershipEpoch + 1 := Nat.le_succ _
  refine ⟨?_, ?_⟩
  · intro m' hm' b' hb' hid hsigned hauth
    obtain ⟨m, hm, rfl⟩ := (h.members m').mp hm'
    obtain ⟨b, hb, rfl⟩ := (h.bindings b').mp hb'
    simp only [raiseBinding_stableNodeId, raiseBinding_assurance, raiseBinding_authEpoch,
      revokedMember_stableNodeId] at hid hsigned hauth
    by_cases hrevoked : m.stableNodeId = binding.stableNodeId
    · -- the generation after the revoked one has no bindings
      obtain ⟨n, hn, hnid, hleAuth, -⟩ := howned.bindings b hb
      obtain rfl := member_eq hn hm (hnid.trans hid)
      simp only [revokedMember, if_pos hrevoked] at hauth
      omega
    · simp only [revokedMember, if_neg hrevoked, raiseMember_authEpoch,
        raiseMember_state] at hauth ⊢
      obtain ⟨hactive, hstamp⟩ := hbound.current m hm b hb hid hsigned hauth
      refine ⟨hactive, ?_⟩
      rw [raiseMember_membershipEpoch hle hactive (hstamped.active m hm hactive),
        raiseBinding_current hstamped hle hm hid hactive hstamp]
  · intro m' hm' hactive
    obtain ⟨m, hm, rfl⟩ := (h.members m').mp hm'
    by_cases hrevoked : m.stableNodeId = binding.stableNodeId
    · simp [revokedMember, hrevoked] at hactive
    · simp only [revokedMember, if_neg hrevoked, raiseMember_state] at hactive
      obtain ⟨b, hb, hid, hsigned, hauth⟩ := hbound.active m hm hactive
      exact ⟨_, (h.bindings _).mpr ⟨b, hb, rfl⟩, by simpa using hid, by simpa using hsigned,
        by simpa [revokedMember, hrevoked] using hauth⟩

theorem LegacyAdded.bound [Sha256] (h : LegacyAdded db db' transport) (howned : Owned db)
    (hbound : Bound db) : Bound db' := by
  refine ⟨?_, ?_⟩
  · intro m' hm' b hb' hid hsigned hauth
    rcases h.mem_bindings hb' with hb | ⟨-, -, hlegacy, -⟩
    · rcases h.mem_members hm' with hm | ⟨hnew, hmid, -⟩
      · exact hbound.current m' hm b hb hid hsigned hauth
      · obtain ⟨n, hn, hnid, -⟩ := howned.bindings b hb
        exact absurd (hnid.trans (hid.trans hmid)) (hnew n hn)
    · rw [hlegacy] at hsigned
      cases hsigned
  · intro m' hm' hactive
    rcases h.mem_members hm' with hm | ⟨-, -, hpending, -⟩
    · obtain ⟨b, hb, hrest⟩ := hbound.active m' hm hactive
      refine ⟨b, ?_, hrest⟩
      rcases h.bindings with hsame | ⟨_, _, _, -, -, hinsert⟩
      · exact hsame ▸ hb
      · exact (Table.mem_insert hinsert).mpr (.inl hb)
    · rw [hpending] at hactive
      cases hactive

/-! ## Carrier identities -/

theorem Invited.apart (h : Invited db db' row) (hapart : Apart db) : Apart db' := by
  obtain ⟨-, -, -, htombstones, -⟩ := h.frame
  intro i hi j hj hid hcarrier htransport t ht htid hlt
  rw [htombstones] at ht
  -- a node with a tombstone is invited with a carrier identity that none of its invites has
  have hfresh : t.stableNodeId = row.stableNodeId → ∀ k ∈ db.invites,
      k.stableNodeId = row.stableNodeId →
      k.carrier = row.carrier → k.transportIdentity ≠ row.transportIdentity := by
    intro hsame k hk hkid hkcarrier hktransport
    have hhistory : db.hasRevocationHistory row.stableNodeId = true := by
      simp only [hasRevocationHistory, Table.any_eq_true, beq_iff_eq]
      exact ⟨t, ht, hsame⟩
    have hused : db.historicallyUsed row.stableNodeId row.carrier row.transportIdentity = true := by
      simp only [historicallyUsed, Bool.or_eq_true, Table.any_eq_true, Bool.and_eq_true, beq_iff_eq]
      exact .inr ⟨k, hk, ⟨hkid, hkcarrier⟩, hktransport⟩
    rw [h.unused hhistory] at hused
    cases hused
  rcases h.mem_invites.mp hi with hi | rfl <;> rcases h.mem_invites.mp hj with hj | rfl
  · exact hapart i hi j hj hid hcarrier htransport t ht htid hlt
  · exact absurd htransport.symm (hfresh (htid.trans hid.symm) i hi hid.symm hcarrier.symm)
  · exact absurd htransport (hfresh htid j hj hid hcarrier)
  · exact hlt

theorem Confirmed.apart (h : Confirmed db db' invite now expiresAt) (hapart : Apart db) :
    Apart db' := by
  intro i' hi' j' hj' hid hcarrier htransport t ht htid hlt
  obtain ⟨i, hi, hiid, hicarrier, hitransport, hiauth⟩ := h.of_mem_invites hi'
  obtain ⟨j, hj, hjid, hjcarrier, hjtransport, hjauth⟩ := h.of_mem_invites hj'
  rw [h.tombstones] at ht
  rw [← hjauth]
  exact hapart i hi j hj (by rw [hjid, hid, hiid]) (by rw [hjcarrier, hcarrier, hicarrier])
    (by rw [hjtransport, htransport, hitransport]) t ht (by rw [htid, hiid])
      (by rw [hiauth]; exact hlt)

theorem Revoked.apart (h : Revoked db db' binding tombstone) (howned : Owned db)
    (hapart : Apart db) : Apart db' := by
  intro i hi j hj hid hcarrier htransport t ht htid hlt
  rw [h.invites] at hi hj
  rcases h.mem_tombstones.mp ht with hold | rfl
  · exact hapart i hi j hj hid hcarrier htransport t hold htid hlt
  · -- the new tombstone is of a later generation than every invite
    obtain ⟨n, hn, hnid, hle⟩ := howned.invites j hj
    obtain ⟨m, hm, hmid, -, hauth, -⟩ := h.exists_member
    obtain rfl := member_eq hn hm (hnid.trans (hid.trans (htid.symm.trans hmid.symm)))
    omega

/-! ## Every reachable database -/

theorem Consistent.of_same (h : Consistent db) (hepoch : db'.membershipEpoch = db.membershipEpoch)
    (hfloor : db'.revocationFloor = db.revocationFloor) (hmembers : db'.members = db.members)
    (hbindings : db'.bindings = db.bindings) (htombstones : db'.tombstones = db.tombstones)
    (hinvites : db'.invites = db.invites) (hnext : db'.nextOutboxId = db.nextOutboxId)
    (houtbox : db'.outbox.rows.map OutboxRow.id = db.outbox.rows.map OutboxRow.id) :
      Consistent db' := by
  obtain ⟨⟨h1, h2, h3, h4⟩, ⟨h5, h6⟩, ⟨h7, h8, h9, h10⟩, ⟨h11, h12⟩, h13, h14⟩ := h
  unfold Apart at h13
  refine ⟨⟨?_, ?_, ?_, ?_⟩, ⟨?_, ?_⟩, ⟨?_, ?_, ?_, ?_⟩, ⟨?_, ?_⟩, ?_, ?_⟩ <;>
    simp only [Apart, hepoch, hfloor, hmembers, hbindings, htombstones, hinvites, hnext,
      houtbox] <;> assumption

theorem Revoked.outbox_lt (h : Revoked db db' binding tombstone)
    (houtbox : ∀ id ∈ db.outbox.rows.map OutboxRow.id, id < db.nextOutboxId) :
    ∀ id ∈ db'.outbox.rows.map OutboxRow.id, id < db'.nextOutboxId := by
  intro id hid
  obtain ⟨payload, -, -, -, hrows⟩ := h.outbox
  rw [hrows, List.map_append, List.mem_append] at hid
  rw [h.nextOutboxId]
  rcases hid with hold | hnew
  · have hlt := houtbox id hold
    omega
  · simp only [OutboxPayload.rows, List.map_cons, List.map_nil, List.mem_cons, List.not_mem_nil,
      or_false] at hnew
    omega

theorem SameEvents.outbox_lt (h : SameEvents db db')
    (houtbox : ∀ id ∈ db.outbox.rows.map OutboxRow.id, id < db.nextOutboxId) :
    ∀ id ∈ db'.outbox.rows.map OutboxRow.id, id < db'.nextOutboxId := by
  rw [h.outbox, h.nextOutboxId]
  exact houtbox

theorem LegacyAdded.consistent [Sha256] (hstep : LegacyAdded db db' transport) (h : Consistent db) :
    Consistent db' := by
  obtain ⟨-, -, htombstones, hinvites, -, hevents⟩ := hstep.frame
  refine ⟨hstep.stamped h.stamped, hstep.buried h.buried, hstep.owned h.stamped h.owned,
    hstep.bound h.owned h.bound, ?_, hevents.outbox_lt h.outbox⟩
  unfold Apart
  rw [htombstones, hinvites]
  exact h.apart

theorem Step.consistent [Sha256] {action : Action} (hstep : Step action db db')
    (h : Consistent db) : Consistent db' := by
  cases hstep with
  | same hstep _ =>
    exact h.of_same hstep.membershipEpoch hstep.revocationFloor hstep.members hstep.bindings
      hstep.tombstones hstep.invites hstep.nextOutboxId hstep.outbox
  | imported _ hstep => exact hstep.consistent h
  | invited hstep =>
    obtain ⟨-, -, -, -, -, hevents⟩ := hstep.frame
    exact ⟨hstep.stamped h.stamped, hstep.buried h.buried, hstep.owned h.owned,
      hstep.bound h.owned h.bound, hstep.apart h.apart, hevents.outbox_lt h.outbox⟩
  | confirmed _ hstep =>
    exact ⟨hstep.stamped h.stamped, hstep.buried h.buried, hstep.owned h.stamped h.owned,
      hstep.bound h.stamped h.bound, hstep.apart h.apart, hstep.events.outbox_lt h.outbox⟩
  | legacy hstep => exact hstep.consistent h
  | intended hstep =>
    rw [hstep.eq]
    exact h.of_same rfl rfl rfl rfl rfl rfl rfl rfl
  | marked hstep =>
    rw [hstep.eq]
    exact h.of_same rfl rfl rfl rfl rfl rfl rfl rfl
  | revoked hstep =>
    exact ⟨hstep.stamped h.stamped, hstep.buried h.buried, hstep.owned h.stamped h.owned,
      hstep.bound h.stamped h.owned h.bound, hstep.apart h.owned h.apart, hstep.outbox_lt h.outbox⟩

/-- The database after a sequence of calls on a fresh store. -/
def AuthorityDb.after [Sha256] [Ed25519] (path : String) (actions : List Action) : AuthorityDb :=
  (Lib.Machine.run (AuthorityDb.step path) .fresh actions).1

theorem after_append [Sha256] [Ed25519] (path : String) (before later : List Action) :
    after path (before ++ later) =
      (Lib.Machine.run (AuthorityDb.step path) (after path before) later).1 := by
  simp only [after, Lib.Machine.run_append]

theorem consistent_after [Sha256] [Ed25519] (path : String) (actions : List Action) :
    Consistent (after path actions) :=
  Lib.Machine.run_invariant (fun _ _ h => step_keeps (fun _ _ h hstep => hstep.consistent h) path h)
    _ consistent_fresh actions

end Neoth.Authority
