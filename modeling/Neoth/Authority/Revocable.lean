import Neoth.Authority.History

/-!
# Active members are revocable

When a fresh revocation request for an active member can be started and completed.

* `buildRevokeBinding_spec`: what a request that was built is bound to;
* `start_eq_ok_iff`, `commitRevocation_ok`: the two transactions succeed under their conditions;
* `revocable_iff`: a fresh request goes through exactly when no intent of the node is unresolved and
  the epochs are not exhausted.
-/

open Lib Lib.Encoding Lib.Transaction

namespace Neoth.Authority

open AuthorityDb

/-! ## Reading the snapshot again -/

variable {db : AuthorityDb}

/-- What keeps a consistent database from being read are transport identities that do not parse. -/
theorem Consistent.readable_iff (h : Consistent db) :
    db.Readable ↔ ∀ b ∈ db.bindings, TransportIdentity.parses b.transportIdentity = true := by
  constructor
  · intro hreadable b hb
    obtain ⟨m, hm, hid, -⟩ := h.owned.bindings b hb
    have hb := (hreadable.members m hm).bindings b hb hid.symm
    simp only [TransportBinding.readable, Bool.and_eq_true] at hb
    exact hb.1.1
  · intro hparses
    have hpos := h.stamped.floor_pos
    have hle := h.stamped.floor_le
    refine ⟨?_, by omega, hpos⟩
    intro m hm
    obtain ⟨hid, hauth, hepoch⟩ := h.stamped.readable m hm
    refine ⟨hid, ?_, hauth, hepoch⟩
    intro b hb _
    obtain ⟨hbauth, hbepoch, -⟩ := h.owned.epochs b hb
    simp [TransportBinding.readable, hparses b hb, hbauth, hbepoch]

variable {m : Member}

theorem find?_toSnapshot_of_mem (hm : m ∈ db.members) (path : String) :
    (db.toSnapshot path).members.find? (·.stableNodeId == m.stableNodeId) =
      some (db.memberToSnapshot m) := by
  have hsome : ((db.toSnapshot path).members.find? (·.stableNodeId == m.stableNodeId)).isSome =
      true := by
    rw [List.find?_isSome]
    exact ⟨_, List.mem_map_of_mem (mem_sortedMembers.mpr hm), by simp [memberToSnapshot]⟩
  obtain ⟨s, hs⟩ := Option.isSome_iff_exists.mp hsome
  obtain ⟨n, hn, hid, rfl⟩ := find?_toSnapshot hs
  rw [hs, member_eq hn hm hid]

/-- The request is bound to this state of the authority and to the active member `m`. -/
structure BoundTo [Sha256] (db : AuthorityDb) (path : String) (binding : MembershipRevokeBinding)
    (m : Member) : Prop where
  readable : db.Readable
  mem : m ∈ db.members
  active : m.state = .active
  untombstoned : db.tombstoned m = false
  valid : binding.validate = .ok ()
  stableNodeId : binding.stableNodeId = m.stableNodeId
  version : binding.snapshotVersion = 1
  digest : binding.snapshotDigest = (db.toSnapshot path).canonicalDigest
  authorityEpoch : binding.authorityEpoch = db.membershipEpoch
  memberAuthEpoch : binding.memberAuthEpoch = m.authEpoch
  memberMembershipEpoch : binding.memberMembershipEpoch = m.membershipEpoch

variable {binding : MembershipRevokeBinding}

theorem buildRevokeBinding_spec [Sha256] {path identifier reason source requestId : String}
    (h : db.buildRevokeBinding path identifier reason source requestId = .ok (some binding)) :
    binding.requestId = requestId ∧ ∃ m, BoundTo db path binding m := by
  simp only [buildRevokeBinding, bind_eq_ok_iff] at h
  obtain ⟨resolved, -, h⟩ := h
  cases resolved with
  | none => cases h
  | some stableNodeId =>
    simp only [bind_eq_ok_iff, fullSnapshotOn_eq_ok_iff, context_eq_ok_iff] at h
    obtain ⟨_, ⟨hreadable, rfl⟩, member, hfind, h⟩ := h
    obtain ⟨m, hm, -, rfl⟩ := find?_toSnapshot hfind
    unfold revokeBindingOf at h
    split at h
    · cases h
    · simp only [bind_eq_ok_iff, require_eq_ok_iff, Bool.and_eq_true, Bool.not_eq_true',
        beq_iff_eq] at h
      obtain ⟨_, ⟨hactive, htombstoned⟩, _, hvalid, h⟩ := h
      cases h
      exact ⟨rfl, m, hreadable, hm, hactive, htombstoned, hvalid, rfl, rfl, rfl, rfl, rfl, rfl⟩

theorem requestDigest_eq [Sha256] (h : binding.validate = .ok ()) :
    binding.requestDigest = .ok (hexEncode (Sha256.digest binding.toJson).val) :=
  bind_eq_ok_iff.mpr ⟨(), h, rfl⟩

/-! ## Starting -/

/-- The row a new request leaves. -/
def MembershipRevokeBinding.row [Sha256] (binding : MembershipRevokeBinding) : RevocationIntent :=
  { requestId := binding.requestId, requestDigest := hexEncode (Sha256.digest binding.toJson).val
    stableNodeId := binding.stableNodeId, reason := binding.reason, source := binding.source
    snapshotVersion := binding.snapshotVersion, snapshotDigest := binding.snapshotDigest
    authorityEpoch := binding.authorityEpoch, memberAuthEpoch := binding.memberAuthEpoch
    memberMembershipEpoch := binding.memberMembershipEpoch, state := .pending
    externalEffectsUnclassified := false, tombstoneCommitted := false, receiptId := none
    indeterminateReason := none }

/-- A fresh request is started exactly when no intent of the node is unresolved. -/
theorem start_eq_ok_iff [Sha256] {path : String} (hbound : BoundTo db path binding m)
    (hfresh : ∀ r ∈ db.intents, r.requestId ≠ binding.requestId)
    {result : AuthorityDb × RevocationIntent} :
    db.startRevocationIntent path binding false = .ok result ↔
      (∀ r ∈ db.intents, r.stableNodeId = binding.stableNodeId → r.unresolved = false) ∧
      result.2 = binding.row ∧ db.intents.insert binding.row = some result.1.intents ∧
      result.1 = { db with intents := result.1.intents } := by
  have hfind : db.intents.find binding.requestId = none := Table.find_eq_none_iff.mpr hfresh
  have hresolved :
      (!db.intents.any fun r => r.stableNodeId == binding.stableNodeId && r.unresolved) = true ↔
      ∀ r ∈ db.intents, r.stableNodeId = binding.stableNodeId → r.unresolved = false := by
    simp [Table.any_eq_false]
  have hmember : (db.toSnapshot path).members.find? (·.stableNodeId == binding.stableNodeId) =
      some (db.memberToSnapshot m) := by
    rw [hbound.stableNodeId]
    exact find?_toSnapshot_of_mem hbound.mem path
  simp only [startRevocationIntent, bind_eq_ok_iff, hfind, insertIntent, require_eq_ok_iff,
    context_eq_ok_iff, fullSnapshotOn_eq_ok_iff, hresolved]
  constructor
  · rintro ⟨_, -, _, hdigest, _, ⟨-, rfl⟩, _, -, _, -, _, -, _, hunresolved, intents, hinsert, h⟩
    rw [requestDigest_eq hbound.valid] at hdigest
    cases hdigest
    cases h
    exact ⟨hunresolved, rfl, hinsert, rfl⟩
  · rintro ⟨hunresolved, hrow, hinsert, heq⟩
    refine ⟨(), hbound.valid, _, requestDigest_eq hbound.valid, _, ⟨hbound.readable, rfl⟩, (), ?_,
      _, hmember, (), ?_, (), hunresolved, _, hinsert, ?_⟩
    · simp [hbound.version, hbound.digest, hbound.authorityEpoch, toSnapshot]
    · simp [memberToSnapshot, hbound.active, hbound.untombstoned, hbound.memberAuthEpoch,
        hbound.memberMembershipEpoch]
    · rw [← heq]
      exact congrArg Except.ok (Prod.ext rfl hrow.symm)

/-! ## Completing -/

theorem appendOutbox_ok (db : AuthorityDb) (payload : OutboxPayload) (kinds : List OutboxKind)
    (houtbox : ∀ id ∈ db.outbox.rows.map OutboxRow.id, id < db.nextOutboxId) :
    ∃ db', db.appendOutbox payload kinds = .ok db' := by
  induction kinds generalizing db with
  | nil => exact ⟨db, rfl⟩
  | cons kind kinds ih =>
    have hfresh : ∀ row ∈ db.outbox, row.id ≠ db.nextOutboxId := by
      intro row hrow heq
      have hlt := houtbox row.id (List.mem_map_of_mem hrow)
      omega
    obtain ⟨outbox, hinsert⟩ := Table.exists_insert (t := db.outbox) (r := ⟨db.nextOutboxId, kind,
      payload.stableNodeId, payload.authEpoch, payload.membershipEpoch, payload, none⟩) hfresh
    obtain ⟨db', hdb'⟩ := ih { db with outbox := outbox, nextOutboxId := db.nextOutboxId + 1 } (by
      intro id hid
      obtain ⟨row, hrow, rfl⟩ := List.mem_map.mp hid
      rcases (Table.mem_insert hinsert).mp hrow with hold | rfl
      · have hlt := houtbox row.id (List.mem_map_of_mem hold)
        dsimp only
        omega
      · exact Nat.lt_succ_self _)
    refine ⟨db', ?_⟩
    simp only [appendOutbox, bind_eq_ok_iff, context_eq_ok_iff]
    exact ⟨outbox, hinsert, hdb'⟩

variable {tombstone : RevocationTombstone}

theorem commitRevocation_bounds {db db' : AuthorityDb} {status : RevocationIntent}
    {receiptId liveTeardown : String} {details : TeardownDetails}
    (h : db.commitRevocation binding status receiptId liveTeardown details = .ok (db', tombstone)) :
    binding.memberAuthEpoch + 1 < 2 ^ 63 ∧ binding.authorityEpoch + 1 < 2 ^ 63 := by
  simp only [commitRevocation, bind_eq_ok_iff, authEpochNext_eq_ok_iff,
    membershipEpochNext_eq_ok_iff, sqlInteger_eq_ok_iff] at h
  obtain ⟨_, -, _, -, _, -, _, -, _, ⟨rfl, -⟩, _, ⟨rfl, -⟩, _, ⟨rfl, hepoch⟩, _, ⟨rfl, hauth⟩, -⟩ :=
    h
  exact ⟨hauth, hepoch⟩

/-- The receipt id has not been drawn before. -/
def AuthorityDb.ReceiptFresh (db : AuthorityDb) (receiptId : String) : Prop :=
  (∀ t ∈ db.tombstones, t.receiptId ≠ receiptId) ∧ ∀ t ∈ db.teardownReceipts,
    t.receiptId ≠ receiptId

theorem revokeMember_ok (hm : m ∈ db.members) (hactive : m.state = .active) (epoch : Nat) :
    ∃ db', AuthorityDb.revokeMember { db.restamp (db.membershipEpoch + 1) with
        revocationFloor := max db.revocationFloor (db.membershipEpoch + 1) }
      m.stableNodeId m.authEpoch (m.authEpoch + 1) epoch = .ok db' := by
  refine ⟨_, bind_eq_ok_iff.mpr ⟨(), require_eq_ok_iff.mpr ?_, rfl⟩⟩
  have hraised : db.raiseMember (db.membershipEpoch + 1) m ∈
      (db.raise (db.membershipEpoch + 1)).members :=
    mem_raise_members.mpr ⟨m, hm, rfl⟩
  rw [raise, if_pos (Nat.lt_succ_self _)] at hraised
  rw [Table.any_eq_true]
  exact ⟨_, hraised, by simp [hactive]⟩

theorem insertTombstone_ok (tombstone : RevocationTombstone)
    (hreceipt : db.ReceiptFresh tombstone.receiptId)
    (hfresh : ∀ t ∈ db.tombstones, t.key ≠ tombstone.key) (liveTeardown : String)
    (details : TeardownDetails) :
    ∃ db', db.insertTombstone tombstone liveTeardown details = .ok db' := by
  obtain ⟨tombstones, htombstones⟩ := Table.exists_insert hfresh
  obtain ⟨receipts, hreceipts⟩ := Table.exists_insert (t := db.teardownReceipts)
    (r := ⟨tombstone.receiptId, tombstone.stableNodeId, liveTeardown, details⟩) hreceipt.2
  have hunique : (!db.tombstones.any (·.receiptId == tombstone.receiptId)) = true := by
    simpa [Table.any_eq_false] using hreceipt.1
  refine ⟨{ db with tombstones := tombstones, teardownReceipts := receipts }, ?_⟩
  simp only [insertTombstone, bind_eq_ok_iff, require_eq_ok_iff, context_eq_ok_iff]
  exact ⟨(), hunique, tombstones, htombstones, receipts, hreceipts, rfl⟩

/-- A revocation is committed when its member is as the request has it, the epochs are not
exhausted and the receipt is new. -/
theorem commitRevocation_ok {receiptId : String} (status : RevocationIntent) (liveTeardown : String)
    (details : TeardownDetails) (hconsistent : Consistent db) (hm : m ∈ db.members)
    (hactive : m.state = .active) (hid : binding.stableNodeId = m.stableNodeId)
    (hauth : binding.memberAuthEpoch = m.authEpoch)
    (hepoch : binding.memberMembershipEpoch = m.membershipEpoch)
    (hauthority : binding.authorityEpoch = db.membershipEpoch) (hstatus : status.unresolved = true)
    (hclassified : status.externalEffectsUnclassified = false)
    (hauthBound : binding.memberAuthEpoch + 1 < 2 ^ 63)
    (hepochBound : binding.authorityEpoch + 1 < 2 ^ 63) (hreceipt : db.ReceiptFresh receiptId) :
    ∃ result, db.commitRevocation binding status receiptId liveTeardown details = .ok result := by
  obtain ⟨db1, hrevoke⟩ := revokeMember_ok hm hactive (db.membershipEpoch + 1)
  have hdb1 := revokeMember_spec hrevoke
  have htombstones : db1.tombstones = db.tombstones := by rw [hdb1]; rfl
  have hreceipts : db1.teardownReceipts = db.teardownReceipts := by rw [hdb1]; rfl
  have houtbox : db1.outbox = db.outbox ∧ db1.nextOutboxId = db.nextOutboxId := by
    rw [hdb1]
    exact ⟨rfl, rfl⟩
  -- the generation after the current one has no tombstone yet
  have hkey : ∀ t ∈ db1.tombstones, t.key ≠ (m.stableNodeId, m.authEpoch + 1) := by
    rw [htombstones]
    intro t ht heq
    obtain ⟨htid, htauth⟩ := Prod.mk.inj heq
    obtain ⟨n, hn, hnid, hle⟩ := hconsistent.buried.owner t ht
    obtain rfl := member_eq hn hm (hnid.trans htid)
    omega
  have hfresh : db1.ReceiptFresh receiptId := by
    unfold ReceiptFresh
    rw [htombstones, hreceipts]
    exact hreceipt
  obtain ⟨db2, htombstone⟩ := insertTombstone_ok
    ⟨m.stableNodeId, m.authEpoch + 1, db.membershipEpoch + 1, receiptId⟩ hfresh hkey
      liveTeardown details
  obtain ⟨tombstones, receipts, -, -, hdb2⟩ := insertTombstone_spec htombstone
  obtain ⟨db3, hevents⟩ := appendOutbox_ok db2
    { requestId := binding.requestId, receiptId := receiptId, stableNodeId := m.stableNodeId
      authEpoch := m.authEpoch + 1, membershipEpoch := db.membershipEpoch + 1,
      reason := binding.reason
      intentState := status.state } [.membershipRevoked, .audit, .teardown] (by
    rw [hdb2]
    dsimp only
    rw [houtbox.1, houtbox.2]
    exact hconsistent.outbox)
  simp only [commitRevocation, bind_eq_ok_iff, require_eq_ok_iff, context_eq_ok_iff,
    Table.find_eq_some_iff, authEpochNext_eq_ok_iff, membershipEpochNext_eq_ok_iff,
    sqlInteger_eq_ok_iff]
  refine ⟨_, (), hstatus, (), by simp [hclassified], m, ⟨hm, hid.symm⟩, (), ?_, _,
    ⟨rfl, by omega⟩, _, ⟨rfl, by omega⟩, _, ⟨rfl, hepochBound⟩, _, ⟨rfl, hauthBound⟩, db1, ?_, db2,
    ?_, db3, ?_, rfl⟩
  · simp [hactive, hauth, hepoch, hauthority]
  · rw [hid, hauth, hauthority]
    exact hrevoke
  · rw [hid, hauth, hauthority]
    exact htombstone
  · rw [hid, hauth, hauthority]
    exact hevents

/-! ## A request from beginning to end -/

theorem Revoked.readable {db db' : AuthorityDb} (h : Revoked db db' binding tombstone)
    (hconsistent : Consistent db) (hconsistent' : Consistent db') (hreadable : db.Readable) :
      db'.Readable := by
  rw [hconsistent.readable_iff] at hreadable
  rw [hconsistent'.readable_iff]
  intro b' hb'
  obtain ⟨b, hb, rfl⟩ := (h.bindings b').mp hb'
  simpa using hreadable b hb

/-- Completing a request that was just started. -/
theorem finalize_started_ok_iff [Sha256] {path receiptId : String} (db1 : AuthorityDb)
    (liveTeardown : String)
    (details : TeardownDetails) (hconsistent : Consistent db) (hbound : BoundTo db path binding m)
    (hreceipt : db.ReceiptFresh receiptId) (hrow : binding.row ∈ db1.intents)
    (hdb1 : db1 = { db with intents := db1.intents }) :
    (∃ db2 tombstone, db1.finalizeRevocationIntent path binding receiptId liveTeardown details =
        .ok (db2, .ok tombstone)) ↔
      binding.memberAuthEpoch + 1 < 2 ^ 63 ∧ db.membershipEpoch + 1 < 2 ^ 63 := by
  have hmembers : db1.members = db.members := by rw [hdb1]
  have hconsistent1 : Consistent db1 := by
    rw [hdb1]
    exact hconsistent.of_same rfl rfl rfl rfl rfl rfl rfl rfl
  have hreadable1 : db1.Readable := by
    rw [hconsistent1.readable_iff, show db1.bindings = db.bindings by
      rw [hdb1], ← hconsistent.readable_iff]
    exact hbound.readable
  have hfind : db1.intents.find binding.requestId = some binding.row :=
    Table.find_eq_some_iff.mpr ⟨hrow, rfl⟩
  rw [← hbound.authorityEpoch]
  simp only [finalizeRevocationIntent, bind_eq_ok_iff, context_eq_ok_iff, require_eq_ok_iff, hfind,
    Option.some.injEq]
  constructor
  · rintro ⟨db2, tombstone, _, -, _, -, _, rfl, _, -, h⟩
    simp only [MembershipRevokeBinding.row, Bool.false_eq_true, if_false, bind_eq_ok_iff] at h
    obtain ⟨⟨db3, committed⟩, hcommit, -⟩ := h
    exact commitRevocation_bounds hcommit
  · rintro ⟨hauthBound, hepochBound⟩
    obtain ⟨⟨db2, tombstone⟩, hcommit⟩ := commitRevocation_ok binding.row liveTeardown details
      hconsistent1 (hmembers ▸ hbound.mem) hbound.active hbound.stableNodeId hbound.memberAuthEpoch
      hbound.memberMembershipEpoch (by rw [hdb1]; exact hbound.authorityEpoch) rfl rfl hauthBound
        hepochBound
      (by rw [hdb1]; exact hreceipt)
    have hrevoked := commitRevocation_spec hrow rfl rfl rfl hcommit
    have hconsistent2 : Consistent db2 := ⟨hrevoked.stamped hconsistent1.stamped,
      hrevoked.buried hconsistent1.buried, hrevoked.owned hconsistent1.stamped hconsistent1.owned,
      hrevoked.bound hconsistent1.stamped hconsistent1.owned hconsistent1.bound,
      hrevoked.apart hconsistent1.owned hconsistent1.apart, hrevoked.outbox_lt hconsistent1.outbox⟩
    have hsnapshot : db2.fullSnapshotOn path = .ok (db2.toSnapshot path) :=
      fullSnapshotOn_eq_ok_iff.mpr ⟨hrevoked.readable hconsistent1 hconsistent2 hreadable1, rfl⟩
    refine ⟨db2, tombstone, (), hbound.valid, _, requestDigest_eq hbound.valid, binding.row, rfl,
      (), ?_, ?_⟩
    · simp [MembershipRevokeBinding.row]
    · simp only [MembershipRevokeBinding.row, Bool.false_eq_true, if_false, bind_eq_ok_iff]
      exact ⟨_, hcommit, by rw [hsnapshot]; rfl⟩

/-- **Active members are revocable.** In every reachable state, a fresh request that was built for
an active member, with no external effects outstanding and with a receipt id that is new, is started
and completed exactly when none of the node's intents is still pending or indeterminate and neither
the member's auth epoch nor the authority's epoch is the last one that SQLite can store. -/
theorem revocable_iff [Sha256] [Ed25519] (path : String) (actions : List Action)
    {identifier reason source requestId receiptId : String} (liveTeardown : String)
    (details : TeardownDetails) {binding : MembershipRevokeBinding}
    (hbuilt : (after path actions).buildRevokeBinding path identifier reason source requestId =
      .ok (some binding))
    (hrequest : ∀ r ∈ (after path actions).intents, r.requestId ≠ requestId)
    (hreceipt : (after path actions).ReceiptFresh receiptId) :
    (∃ m ∈ (after path actions).members, m.stableNodeId = binding.stableNodeId ∧ m.state = .active ∧
      m.authEpoch = binding.memberAuthEpoch) ∧
    ((∃ started row completed tombstone,
        (after path actions).startRevocationIntent path binding false = .ok (started, row) ∧
        started.finalizeRevocationIntent path binding receiptId liveTeardown details =
          .ok (completed, .ok tombstone)) ↔
      (∀ r ∈ (after path actions).intents, r.stableNodeId = binding.stableNodeId →
        r.unresolved = false) ∧
      binding.memberAuthEpoch + 1 < 2 ^ 63 ∧
      (after path actions).membershipEpoch + 1 < 2 ^ 63) := by
  have hconsistent := consistent_after path actions
  obtain ⟨rfl, m, hbound⟩ := buildRevokeBinding_spec hbuilt
  refine ⟨⟨m, hbound.mem, hbound.stableNodeId.symm, hbound.active, hbound.memberAuthEpoch.symm⟩, ?_⟩
  have hfresh : ∀ r ∈ (after path actions).intents, r.requestId ≠ binding.row.requestId := hrequest
  obtain ⟨intents, hinsert⟩ := Table.exists_insert hfresh
  constructor
  · rintro ⟨started, row, completed, tombstone, hstart, hfinalize⟩
    obtain ⟨hresolved, -, hstored, heq⟩ := (start_eq_ok_iff hbound hrequest).mp hstart
    have hrow : binding.row ∈ started.intents := (Table.mem_insert hstored).mpr (.inr rfl)
    exact ⟨hresolved,
      (finalize_started_ok_iff started liveTeardown details hconsistent hbound hreceipt hrow heq).mp
      ⟨completed, tombstone, hfinalize⟩⟩
  · rintro ⟨hresolved, hbounds⟩
    have hstart := (start_eq_ok_iff hbound hrequest).mpr
      (show _ ∧ _ ∧ _ ∧ ({ after path actions with intents := intents }, binding.row).1 = _ from
        ⟨hresolved, rfl, hinsert, rfl⟩)
    have hrow : binding.row ∈ intents := (Table.mem_insert hinsert).mpr (.inr rfl)
    obtain ⟨completed, tombstone, hfinalize⟩ := (finalize_started_ok_iff
      { after path actions with intents := intents } liveTeardown details hconsistent hbound
        hreceipt hrow
      rfl).mpr hbounds
    exact ⟨_, _, completed, tombstone, hstart, hfinalize⟩

theorem revocable_sample :
    ∃ started row completed tombstone,
      @startRevocationIntent Sha256.fips
        (@after Sha256.fips sampleEd25519 samplePath sampleEnrolled) samplePath
        sampleRevocation false = .ok (started, row) ∧
      @finalizeRevocationIntent Sha256.fips started samplePath sampleRevocation "receipt-1"
        "not_running" .empty = .ok (completed, .ok tombstone) := by
  have hbuilt :
      @buildRevokeBinding Sha256.fips (@after Sha256.fips sampleEd25519 samplePath sampleEnrolled)
      samplePath "node" "left the cluster" "operator" sampleRequestId =
        .ok (some sampleRevocation) := by
    rw [after_sampleEnrolled, Sha256.fips_eq]
    decide +kernel
  have hempty : (@after Sha256.fips sampleEd25519 samplePath sampleEnrolled).intents = ∅ ∧
      (@after Sha256.fips sampleEd25519 samplePath sampleEnrolled).tombstones = ∅ ∧
      (@after Sha256.fips sampleEd25519 samplePath sampleEnrolled).teardownReceipts = ∅ ∧
      (@after Sha256.fips sampleEd25519 samplePath sampleEnrolled).membershipEpoch = 2 := by
    rw [after_sampleEnrolled]
    decide +kernel
  obtain ⟨hintents, htombstones, hreceipts, hepoch⟩ := hempty
  refine (@revocable_iff Sha256.fips sampleEd25519 samplePath sampleEnrolled _ _ _ _ _ "not_running"
    .empty _ hbuilt ?_ ?_).2.mpr ⟨?_, by decide, ?_⟩
  · simp [hintents]
  · simp [ReceiptFresh, htombstones, hreceipts]
  · simp [hintents]
  · rw [hepoch]
    decide

/-! ## A node revoked once with its effects unclassified -/

/-- A provider call was under way: the revocation is marked as indeterminate, and completed.  Then
the node enrolls again. -/
def sampleIndeterminate : List Action :=
  sampleEnrolled ++
    [.startRevocationIntent sampleRevocation true,
      .markRevocationIndeterminate sampleRequestId "provider call outcome unknown",
      .finalizeRevocationIntent sampleRevocation "receipt-1" "not_running" .empty,
      sampleInvite "5f1c2d3e-0a1b-4c2d-8e3f-000000000004" sampleRenewal,
      sampleConfirm "5f1c2d3e-0a1b-4c2d-8e3f-000000000004" sampleRenewal]

def sampleSecondRequest : String := "01902d3f-7c1a-7b00-8a3f-2c1d4e5f6a7b"

/-- A new request for the node is built, with an id and a receipt id that are new, and not
started. -/
def unrevocable (db : AuthorityDb) : Bool :=
  (@buildRevokeBinding Sha256.fips db samplePath "node" "left again" "operator"
    sampleSecondRequest).toOption.any fun built => built.any fun binding =>
      (@startRevocationIntent Sha256.fips db samplePath binding false).toOption.isNone &&
        !db.intents.any (·.requestId == sampleSecondRequest) &&
        !db.tombstones.any (·.receiptId == "receipt-2") &&
        !db.teardownReceipts.any (·.receiptId == "receipt-2")

theorem sampleIndeterminate_unrevocable :
    unrevocable (@after Sha256.fips sampleEd25519 samplePath sampleIndeterminate) = true := by
  rw [sampleIndeterminate, @after_append Sha256.fips sampleEd25519, after_sampleEnrolled,
    unrevocable, Sha256.fips_eq]
  decide +kernel

theorem reenrolled_not_revocable :
    ¬ ∀ (path : String) (actions : List Action)
      (identifier reason source requestId receiptId : String)
      (liveTeardown : String) (details : TeardownDetails) (binding : MembershipRevokeBinding),
      @buildRevokeBinding Sha256.fips (@after Sha256.fips sampleEd25519 path actions) path
        identifier reason source requestId = .ok (some binding) →
      (∀ r ∈ (@after Sha256.fips sampleEd25519 path actions).intents, r.requestId ≠ requestId) →
      (@after Sha256.fips sampleEd25519 path actions).ReceiptFresh receiptId →
      ∃ started row completed tombstone,
        @startRevocationIntent Sha256.fips (@after Sha256.fips sampleEd25519 path actions) path
          binding false = .ok (started, row) ∧
        @finalizeRevocationIntent Sha256.fips started path binding receiptId liveTeardown details =
          .ok (completed, .ok tombstone) := by
  intro h
  obtain ⟨built, hbuilt, hunrevocable⟩ := exists_ok_of_any sampleIndeterminate_unrevocable
  cases built with
  | none => cases hunrevocable
  | some binding =>
    simp only [Option.any_some, Bool.and_eq_true, Bool.not_eq_true', Table.any_eq_false,
      beq_eq_false_iff_ne] at hunrevocable
    obtain ⟨⟨⟨hrefused, hrequest⟩, htombstones⟩, hreceipts⟩ := hunrevocable
    obtain ⟨started, row, -, -, hstart, -⟩ :=
      h samplePath sampleIndeterminate _ _ _ _ "receipt-2" "" .empty binding
      hbuilt hrequest ⟨htombstones, hreceipts⟩
    rw [hstart] at hrefused
    cases hrefused

end Neoth.Authority
