import Neoth.Authority.Revocable

/-!
# Snapshots on the wire

`MembershipSnapshot::validate` against the databases the store produces.

* `validateBindings_eq_ok_iff`, `validateMembers_eq_ok_iff`: the two loops, as facts about every
  element and about repetitions;
* `readable_and_validate_iff`: of all that is checked, a consistent database can break what
  `WireReady` lists;
* `snapshot_wire_iff`: when the snapshot of a reachable state goes over the wire.
-/

open Lib Lib.Encoding Lib.Transaction

namespace Neoth.Authority

open AuthorityDb

/-! ## The loops of validate -/

/-- A binding passes all checks but the one for repetition. -/
structure CarrierBindingSnapshot.Valid (m : MemberSnapshot) (b : CarrierBindingSnapshot) :
    Prop where
  parses : TransportIdentity.parses b.transportIdentity = true
  auth_pos : 0 < b.authEpoch
  epoch_pos : 0 < b.membershipEpoch
  endpoint : validEndpoint b.endpoint = true
  active : m.state = .active → b.assurance = .signedAttestation ∧ b.authEpoch = m.authEpoch ∧
    b.membershipEpoch = m.membershipEpoch
  inactive : m.state ≠ .active → b.authEpoch ≤ m.authEpoch ∧ b.membershipEpoch ≤ m.membershipEpoch

variable {carriers : List CarrierKind} {u : Unit}

theorem bindingValidate_eq_ok_iff {b : CarrierBindingSnapshot} {m : MemberSnapshot} :
    b.validate m carriers = .ok u ↔ b.Valid m ∧ b.carrier ∉ carriers := by
  unfold CarrierBindingSnapshot.validate
  by_cases hactive : m.state = .active
  · simp only [if_pos hactive, bind_eq_ok_iff, require_eq_ok_iff, transportIdentityParse_eq_ok_iff,
      decide_eq_true_eq, Bool.and_eq_true, beq_iff_eq, Bool.not_eq_true', List.contains_eq_mem,
      decide_eq_false_iff_not]
    constructor
    · rintro ⟨_, ⟨hparses, -⟩, _, hauth, _, hepoch, _, hcarrier, _, hendpoint,
        ⟨hsigned, hgen⟩, hstamp⟩
      exact ⟨⟨hparses, hauth, hepoch, hendpoint, fun _ => ⟨hsigned, hgen, hstamp⟩,
        fun h => absurd hactive h⟩, hcarrier⟩
    · rintro ⟨⟨hparses, hauth, hepoch, hendpoint, hexact, -⟩, hcarrier⟩
      obtain ⟨hsigned, hgen, hstamp⟩ := hexact hactive
      exact ⟨_, ⟨hparses, rfl⟩, (), hauth, (), hepoch, (), hcarrier, (), hendpoint,
        ⟨hsigned, hgen⟩, hstamp⟩
  · simp only [if_neg hactive, bind_eq_ok_iff, require_eq_ok_iff, transportIdentityParse_eq_ok_iff,
      decide_eq_true_eq, Bool.and_eq_true, Bool.not_eq_true', List.contains_eq_mem,
      decide_eq_false_iff_not]
    constructor
    · rintro ⟨_, ⟨hparses, -⟩, _, hauth, _, hepoch, _, hcarrier, _, hendpoint, hgen, hstamp⟩
      exact ⟨⟨hparses, hauth, hepoch, hendpoint, fun h => absurd h hactive,
        fun _ => ⟨hgen, hstamp⟩⟩, hcarrier⟩
    · rintro ⟨⟨hparses, hauth, hepoch, hendpoint, -, hbehind⟩, hcarrier⟩
      obtain ⟨hgen, hstamp⟩ := hbehind hactive
      exact ⟨_, ⟨hparses, rfl⟩, (), hauth, (), hepoch, (), hcarrier, (), hendpoint, hgen, hstamp⟩

theorem validateBindings_eq_ok_iff {m : MemberSnapshot} {bindings : List CarrierBindingSnapshot} :
    m.validateBindings carriers bindings = .ok u ↔ (∀ b ∈ bindings, b.Valid m) ∧
      (bindings.map CarrierBindingSnapshot.carrier).Nodup ∧ ∀ b ∈ bindings,
        b.carrier ∉ carriers := by
  induction bindings generalizing carriers with
  | nil => simp [MemberSnapshot.validateBindings]
  | cons b bindings ih =>
    simp only [MemberSnapshot.validateBindings, bind_eq_ok_iff, bindingValidate_eq_ok_iff, ih,
      List.forall_mem_cons, List.map_cons, List.nodup_cons, List.mem_map, not_exists, not_and]
    simp only [List.mem_cons, not_or]
    constructor
    · rintro ⟨_, ⟨hb, hcarrier⟩, hvalid, hnodup, hcarriers⟩
      exact ⟨⟨hb, hvalid⟩, ⟨fun c hc => (hcarriers c hc).1, hnodup⟩, hcarrier,
        fun c hc => (hcarriers c hc).2⟩
    · rintro ⟨⟨hb, hvalid⟩, ⟨hfresh, hnodup⟩, hcarrier, hcarriers⟩
      exact ⟨(), ⟨hb, hcarrier⟩, hvalid, hnodup, fun c hc => ⟨hfresh c hc, hcarriers c hc⟩⟩

/-- A member passes all checks but the one for repetition. -/
structure MemberSnapshot.Valid (authorityEpoch : Nat) (m : MemberSnapshot) : Prop where
  parses : m.stableNodeId.parses = true
  auth_pos : 0 < m.authEpoch
  epoch_pos : 0 < m.membershipEpoch
  label : trim m.label ≠ ""
  epoch_le : m.membershipEpoch ≤ authorityEpoch
  tombstoned : m.tombstoned = true ↔ m.state = .revoked
  bound : m.state = .active → m.bindings ≠ []
  carriers : (m.bindings.map CarrierBindingSnapshot.carrier).Nodup
  bindings : ∀ b ∈ m.bindings, b.Valid m

variable {ids : List StableNodeId}

theorem memberValidate_eq_ok_iff {m : MemberSnapshot} {authorityEpoch : Nat} :
    m.validate authorityEpoch ids = .ok u ↔ m.Valid authorityEpoch ∧ m.stableNodeId ∉ ids := by
  have htombstoned : (m.tombstoned == (m.state == .revoked)) = true ↔
      (m.tombstoned = true ↔ m.state = .revoked) := by
    rw [beq_iff_eq, Bool.eq_iff_iff, beq_iff_eq]
  have hbound : (m.state != .active || !m.bindings.isEmpty) = true ↔
      (m.state = .active → m.bindings ≠ []) := by
    simp [imp_iff_not_or]
  simp only [MemberSnapshot.validate, bind_eq_ok_iff, require_eq_ok_iff, validateBindings_eq_ok_iff,
    htombstoned, hbound, decide_eq_true_eq, bne_iff_ne, Bool.not_eq_true', List.contains_eq_mem,
    decide_eq_false_iff_not]
  constructor
  · rintro ⟨_, hparses, _, hauth, _, hepoch, _, hlabel, _, hle, _, htombstoned, _, hbound, _,
      hfresh, hbindings, hcarriers, -⟩
    exact ⟨⟨hparses, hauth, hepoch, hlabel, hle, htombstoned, hbound, hcarriers, hbindings⟩, hfresh⟩
  · rintro ⟨⟨hparses, hauth, hepoch, hlabel, hle, htombstoned, hbound, hcarriers, hbindings⟩,
      hfresh⟩
    exact ⟨(), hparses, (), hauth, (), hepoch, (), hlabel, (), hle, (), htombstoned, (), hbound,
      (), hfresh, hbindings, hcarriers, by simp⟩

theorem validateMembers_eq_ok_iff {authorityEpoch : Nat} {members : List MemberSnapshot} :
    validateMembers authorityEpoch ids members = .ok u ↔ (∀ m ∈ members, m.Valid authorityEpoch) ∧
      (members.map MemberSnapshot.stableNodeId).Nodup ∧ ∀ m ∈ members, m.stableNodeId ∉ ids := by
  induction members generalizing ids with
  | nil => simp [validateMembers]
  | cons m members ih =>
    simp only [validateMembers, bind_eq_ok_iff, memberValidate_eq_ok_iff, ih, List.forall_mem_cons,
      List.map_cons, List.nodup_cons, List.mem_map, not_exists, not_and]
    simp only [List.mem_cons, not_or]
    constructor
    · rintro ⟨_, ⟨hm, hid⟩, hvalid, hnodup, hids⟩
      exact ⟨⟨hm, hvalid⟩, ⟨fun n hn => (hids n hn).1, hnodup⟩, hid, fun n hn => (hids n hn).2⟩
    · rintro ⟨⟨hm, hvalid⟩, ⟨hfresh, hnodup⟩, hid, hids⟩
      exact ⟨(), ⟨hm, hid⟩, hvalid, hnodup, fun n hn => ⟨hfresh n hn, hids n hn⟩⟩

/-! ## The snapshot of a consistent database -/

/-- What a consistent database can still have that does not pass `validate`: an invited member is
stamped with an epoch the authority has not reached; texts are stored as they come; and an active
member may keep bindings of another generation. -/
structure WireReady (db : AuthorityDb) (path : String) : Prop where
  path : path ≠ ""
  epochs : ∀ m ∈ db.members, m.membershipEpoch ≤ db.membershipEpoch
  labels : ∀ m ∈ db.members, trim m.label ≠ ""
  transports : ∀ b ∈ db.bindings, TransportIdentity.parses b.transportIdentity = true
  endpoints : ∀ b ∈ db.bindings, validEndpoint b.endpoint = true
  current : ∀ m ∈ db.members, ∀ b ∈ db.bindings, m.state = .active →
    b.stableNodeId = m.stableNodeId →
    b.assurance = .signedAttestation ∧ b.authEpoch = m.authEpoch

variable {m : Member} {db : AuthorityDb}

theorem tombstoned_iff (hburied : Buried db) (hm : m ∈ db.members) :
    db.tombstoned m = true ↔ m.state = .revoked := by
  rw [hburied.revoked_iff m hm]
  simp [tombstoned]

theorem memberToSnapshot_carriers_nodup (db : AuthorityDb) (m : Member) :
    ((db.memberToSnapshot m).bindings.map CarrierBindingSnapshot.carrier).Nodup := by
  have hsorted : (db.bindingsOf m.stableNodeId).Perm
      (db.bindings.rows.filter (·.stableNodeId == m.stableNodeId)) := List.perm_insertionSort ..
  have hfiltered : ((db.bindings.rows.filter (·.stableNodeId == m.stableNodeId)).map
      TransportBinding.carrier).Nodup := by
    refine List.Nodup.map_on ?_ ((List.Nodup.of_map _ db.bindings.nodup).filter _)
    intro a ha b hb hcarrier
    obtain ⟨ha, haid⟩ := List.mem_filter.mp ha
    obtain ⟨hb, hbid⟩ := List.mem_filter.mp hb
    refine Table.eq_of_key_eq ha hb (Prod.ext ?_ hcarrier)
    exact (beq_iff_eq.mp haid).trans (beq_iff_eq.mp hbid).symm
  have hcarriers : (db.memberToSnapshot m).bindings.map CarrierBindingSnapshot.carrier =
      (db.bindingsOf m.stableNodeId).map TransportBinding.carrier := by
    simp [memberToSnapshot, TransportBinding.toSnapshot]
  rw [hcarriers]
  exact (hsorted.map TransportBinding.carrier).nodup_iff.mpr hfiltered

theorem toSnapshot_ids_nodup (db : AuthorityDb) (path : String) :
    ((db.toSnapshot path).members.map MemberSnapshot.stableNodeId).Nodup := by
  have hids : (db.toSnapshot path).members.map MemberSnapshot.stableNodeId =
      db.sortedMembers.map Member.stableNodeId := by
    simp [toSnapshot, memberToSnapshot]
  have hsorted : db.sortedMembers.Perm db.members.rows := List.perm_insertionSort ..
  rw [hids]
  exact (hsorted.map Member.stableNodeId).nodup_iff.mpr db.members.nodup

theorem mem_memberToSnapshot_bindings {s : CarrierBindingSnapshot} :
    s ∈ (db.memberToSnapshot m).bindings ↔
      ∃ b ∈ db.bindings, b.stableNodeId = m.stableNodeId ∧ b.toSnapshot = s := by
  simp [memberToSnapshot, mem_bindingsOf, and_assoc]

/-- A binding of a consistent database passes, but for its texts and its generation. -/
theorem bindingToSnapshot_valid_iff (h : Consistent db) (hm : m ∈ db.members) {b : TransportBinding}
    (hb : b ∈ db.bindings) (hid : b.stableNodeId = m.stableNodeId) :
    b.toSnapshot.Valid (db.memberToSnapshot m) ↔
      TransportIdentity.parses b.transportIdentity = true ∧ validEndpoint b.endpoint = true ∧
      (m.state = .active → b.assurance = .signedAttestation ∧ b.authEpoch = m.authEpoch) := by
  obtain ⟨n, hn, hnid, hauth, hstamp⟩ := h.owned.bindings b hb
  obtain rfl := member_eq hn hm (hnid.trans hid)
  obtain ⟨hauthPos, hepochPos, -⟩ := h.owned.epochs b hb
  constructor
  · intro hvalid
    refine ⟨hvalid.parses, hvalid.endpoint, fun hactive => ?_⟩
    obtain ⟨hsigned, hgeneration, -⟩ := hvalid.active hactive
    exact ⟨hsigned, hgeneration⟩
  · rintro ⟨hparses, hendpoint, hcurrent⟩
    refine ⟨hparses, hauthPos, hepochPos, hendpoint, fun hactive => ?_, fun _ => ⟨hauth, hstamp⟩⟩
    obtain ⟨hsigned, hgeneration⟩ := hcurrent hactive
    exact ⟨hsigned, hgeneration, (h.bound.current n hn b hb hid hsigned hgeneration).2⟩

theorem memberToSnapshot_valid_iff (h : Consistent db) (hm : m ∈ db.members) :
    (db.memberToSnapshot m).Valid db.membershipEpoch ↔
      m.membershipEpoch ≤ db.membershipEpoch ∧ trim m.label ≠ "" ∧
      ∀ b ∈ db.bindings, b.stableNodeId = m.stableNodeId →
        TransportIdentity.parses b.transportIdentity = true ∧ validEndpoint b.endpoint = true ∧
        (m.state = .active → b.assurance = .signedAttestation ∧ b.authEpoch = m.authEpoch) := by
  obtain ⟨hparses, hauth, hepoch⟩ := h.stamped.readable m hm
  constructor
  · intro hvalid
    refine ⟨hvalid.epoch_le, hvalid.label, fun b hb hid => ?_⟩
    exact (bindingToSnapshot_valid_iff h hm hb hid).mp
      (hvalid.bindings _ (mem_memberToSnapshot_bindings.mpr ⟨b, hb, hid, rfl⟩))
  · rintro ⟨hle, hlabel, hbindings⟩
    refine ⟨hparses, hauth, hepoch, hlabel, hle, tombstoned_iff h.buried hm, ?_,
      memberToSnapshot_carriers_nodup db m, ?_⟩
    · intro hactive
      obtain ⟨b, hb, hid, -⟩ := h.bound.active m hm hactive
      exact List.ne_nil_of_mem (mem_memberToSnapshot_bindings.mpr ⟨b, hb, hid, rfl⟩)
    · intro s hs
      obtain ⟨b, hb, hid, rfl⟩ := mem_memberToSnapshot_bindings.mp hs
      exact (bindingToSnapshot_valid_iff h hm hb hid).mpr (hbindings b hb hid)

/-- A snapshot is read and passes exactly when the database is ready for the wire. -/
theorem readable_and_validate_iff (h : Consistent db) (path : String) :
    db.Readable ∧ (db.toSnapshot path).validate = .ok () ↔ WireReady db path := by
  have hpos := h.stamped.floor_pos
  have hle := h.stamped.floor_le
  have hvalidate : (db.toSnapshot path).validate = .ok () ↔
      path ≠ "" ∧ ∀ m ∈ db.members, (db.memberToSnapshot m).Valid db.membershipEpoch := by
    have hmembers : validateMembers db.membershipEpoch [] (db.toSnapshot path).members = .ok () ↔
        ∀ m ∈ db.members, (db.memberToSnapshot m).Valid db.membershipEpoch := by
      have hnodup := toSnapshot_ids_nodup db path
      rw [validateMembers_eq_ok_iff]
      simp only [hnodup, List.not_mem_nil, not_false_eq_true, implies_true, and_true]
      simp [toSnapshot, mem_sortedMembers]
    rw [← hmembers]
    simp only [MembershipSnapshot.validate, bind_eq_ok_iff, require_eq_ok_iff, decide_eq_true_eq,
      bne_iff_ne]
    constructor
    · rintro ⟨_, -, _, hpath, _, -, _, -, _, -, hmembers⟩
      exact ⟨hpath, hmembers⟩
    · rintro ⟨hpath, hmembers⟩
      exact ⟨(), rfl, (), hpath, (), hpos.trans_le hle, (), hpos, (), hle, hmembers⟩
  rw [hvalidate]
  constructor
  · rintro ⟨-, hpath, hvalid⟩
    have hvalid := fun m hm => (memberToSnapshot_valid_iff h hm).mp (hvalid m hm)
    refine ⟨hpath, fun m hm => (hvalid m hm).1, fun m hm => (hvalid m hm).2.1, ?_, ?_, ?_⟩
    · intro b hb
      obtain ⟨m, hm, hid, -⟩ := h.owned.bindings b hb
      exact ((hvalid m hm).2.2 b hb hid.symm).1
    · intro b hb
      obtain ⟨m, hm, hid, -⟩ := h.owned.bindings b hb
      exact ((hvalid m hm).2.2 b hb hid.symm).2.1
    · intro m hm b hb hactive hid
      exact ((hvalid m hm).2.2 b hb hid).2.2 hactive
  · intro hready
    refine ⟨h.readable_iff.mpr hready.transports, hready.path, fun m hm => ?_⟩
    refine (memberToSnapshot_valid_iff h hm).mpr ⟨hready.epochs m hm, hready.labels m hm,
      fun b hb hid => ?_⟩
    exact ⟨hready.transports b hb, hready.endpoints b hb,
      fun hactive => hready.current m hm b hb hactive hid⟩

/-! ## Over the wire -/

/-- What `into_envelope` makes of a snapshot that passes. -/
def MembershipSnapshot.envelope [Sha256] (s : MembershipSnapshot) : MembershipSnapshotEnvelope :=
  { wireVersion := 1, operation := "cluster.membership.snapshot", snapshotVersion := s.version
    snapshotDigest := s.canonicalDigest, snapshot := s }

theorem canonicalDigest_isLowerSha256 [Sha256] (s : MembershipSnapshot) :
    isLowerSha256 s.canonicalDigest = true :=
  isLowerHex64_hexEncode (Sha256.digest s.toJson).property

theorem envelope_validate [Sha256] {s : MembershipSnapshot} (h : s.validate = .ok ()) :
    s.envelope.validate = .ok () := by
  simp only [MembershipSnapshotEnvelope.validate, MembershipSnapshot.envelope, bind_eq_ok_iff,
    require_eq_ok_iff, beq_self_eq_true]
  exact ⟨(), trivial, (), trivial, (), trivial, (), canonicalDigest_isLowerSha256 s, (), h, trivial⟩

/-- **Snapshot wire agreement.** In every reachable state, the snapshot is read, passes `validate`,
becomes an envelope, and the envelope's JSON is accepted, exactly when the state is ready for the
wire: no member is stamped with an epoch that the authority has not reached, no active member keeps
a binding that is unattested or of an earlier generation, and the stored texts pass their checks. -/
theorem snapshot_wire_iff [Sha256] [Ed25519] [EnvelopeReader] (path : String)
    (actions : List Action)
    (hread : EnvelopeReader.read ((after path actions).toSnapshot path).envelope.toJson =
      some ((after path actions).toSnapshot path).envelope) :
    (∃ snapshot envelope, (after path actions).fullSnapshotOn path = .ok snapshot ∧
      snapshot.validate = .ok () ∧ snapshot.intoEnvelope = .ok envelope ∧
      MembershipSnapshotEnvelope.fromJson envelope.toJson = .ok envelope) ↔
    WireReady (after path actions) path := by
  rw [← readable_and_validate_iff (consistent_after path actions) path]
  constructor
  · rintro ⟨snapshot, envelope, hsnapshot, hvalid, -⟩
    obtain ⟨hreadable, rfl⟩ := fullSnapshotOn_eq_ok_iff.mp hsnapshot
    exact ⟨hreadable, hvalid⟩
  · rintro ⟨hreadable, hvalid⟩
    refine ⟨_, ((after path actions).toSnapshot path).envelope,
      fullSnapshotOn_eq_ok_iff.mpr ⟨hreadable, rfl⟩, hvalid, bind_eq_ok_iff.mpr ⟨(), hvalid, rfl⟩,
      ?_⟩
    refine bind_eq_ok_iff.mpr ⟨_, context_eq_ok_iff.mpr hread, bind_eq_ok_iff.mpr ⟨(), ?_, rfl⟩⟩
    exact envelope_validate hvalid

/-- The envelope of an authority with one enrolled node. -/
def sampleEnvelope : MembershipSnapshotEnvelope :=
  @MembershipSnapshot.envelope Sha256.fips
    ((@after Sha256.fips sampleEd25519 samplePath sampleEnrolled).toSnapshot samplePath)

@[reducible] def sampleReader : EnvelopeReader :=
  ⟨fun json => if json = sampleEnvelope.toJson then some sampleEnvelope else none⟩

theorem snapshot_wire_sample :
    ∃ snapshot envelope,
      (@after Sha256.fips sampleEd25519 samplePath sampleEnrolled).fullSnapshotOn samplePath =
        .ok snapshot ∧
      snapshot.validate = .ok () ∧
      @MembershipSnapshot.intoEnvelope Sha256.fips snapshot = .ok envelope ∧
      @MembershipSnapshotEnvelope.fromJson Sha256.fips sampleReader envelope.toJson =
        .ok envelope := by
  have hready : (samplePath ≠ "") ∧
      (∀ m ∈ (@after Sha256.fips sampleEd25519 samplePath sampleEnrolled).members,
        m.membershipEpoch ≤
          (@after Sha256.fips sampleEd25519 samplePath sampleEnrolled).membershipEpoch ∧
        trim m.label ≠ "") ∧
      ∀ b ∈ (@after Sha256.fips sampleEd25519 samplePath sampleEnrolled).bindings,
        TransportIdentity.parses b.transportIdentity = true ∧ validEndpoint b.endpoint = true ∧
        ∀ m ∈ (@after Sha256.fips sampleEd25519 samplePath sampleEnrolled).members,
          b.assurance = .signedAttestation ∧ b.authEpoch = m.authEpoch := by
    rw [after_sampleEnrolled]
    decide +kernel
  obtain ⟨hpath, hmembers, hbindings⟩ := hready
  exact (@snapshot_wire_iff Sha256.fips sampleEd25519 sampleReader samplePath sampleEnrolled
    (if_pos rfl)).mpr
    ⟨hpath, fun m hm => (hmembers m hm).1, fun m hm => (hmembers m hm).2,
      fun b hb => (hbindings b hb).1, fun b hb => (hbindings b hb).2.1, fun m hm b hb _ _ =>
        (hbindings b hb).2.2 m hm⟩

/-- An authority with one invitation outstanding. -/
def sampleInvited : List Action :=
  [sampleInvite "5f1c2d3e-0a1b-4c2d-8e3f-000000000001" sampleEnrollment]

theorem invited_snapshot_refused :
    ¬ ∀ (path : String) (actions : List Action), path ≠ "" →
      ∃ snapshot, (@after Sha256.fips sampleEd25519 path actions).fullSnapshotOn path =
        .ok snapshot ∧
        snapshot.validate = .ok () := by
  intro h
  have hrefused : ((@after Sha256.fips sampleEd25519 samplePath sampleInvited).fullSnapshotOn
      samplePath).toOption.all (·.validate.toOption.isNone) = true := by
    rw [Sha256.fips_eq]
    decide +kernel
  obtain ⟨snapshot, hsnapshot, hvalid⟩ := h samplePath sampleInvited (by decide)
  rw [hsnapshot] at hrefused
  have hrefused : snapshot.validate.toOption.isNone = true := hrefused
  rw [hvalid] at hrefused
  cases hrefused

end Neoth.Authority
