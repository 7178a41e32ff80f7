import Neoth.Authority.Daemon

/-!
# Replaying a revocation

The effects of an outbox event are keyed by the stable node id, while sessions and sync rows belong
to an auth epoch of it.  Before the node has enrolled again they are the same; after that, a replay
takes down the new generation.

* `Reached`: the generations that may have sessions and rows;
* `Undisturbed`: the node of an event has not enrolled again when its effect is performed;
* `Daemon.Kept.advance_spares`: under that condition no later generation is touched;
* `revocation_replay`: that in every run, an event is performed before it is marked, and a drain
  that is not interrupted delivers every event.
-/

open Lib Lib.Transaction

namespace Neoth.Authority

open AuthorityDb

/-! ## Generations -/

/-- The generation is behind the one of its member, or that of an active member, and no tombstone
stands for it. -/
def Reached (db : AuthorityDb) (stableNodeId : StableNodeId) (authEpoch : Nat) : Prop :=
  (∃ m ∈ db.members, m.stableNodeId = stableNodeId ∧
    (authEpoch < m.authEpoch ∨ (authEpoch = m.authEpoch ∧ m.state = .active))) ∧
  ∀ t ∈ db.tombstones, t.stableNodeId = stableNodeId → t.authEpoch ≠ authEpoch

theorem AuthorityDb.Admitted.reached {db : AuthorityDb} {stableNodeId : StableNodeId}
    {authEpoch : Nat}
    (h : db.Admitted stableNodeId authEpoch) (hburied : Buried db) :
      Reached db stableNodeId authEpoch := by
  obtain ⟨m, hm, hid, hauth, hactive, -⟩ := h
  refine ⟨⟨m, hm, hid, .inr ⟨hauth.symm, hactive⟩⟩, ?_⟩
  intro t ht htid htauth
  have hrevoked :=
    (hburied.revoked_iff m hm).mpr ⟨t, ht, htid.trans hid.symm, htauth.trans hauth.symm⟩
  rw [hactive] at hrevoked
  cases hrevoked

/-- From `db` to `db'` a member's generation ends only by a later one, and tombstones are put after
the generations there were. -/
structure Onward (db db' : AuthorityDb) : Prop where
  members : ∀ m ∈ db.members, ∃ m' ∈ db'.members, m'.stableNodeId = m.stableNodeId ∧
    (m.authEpoch < m'.authEpoch ∨
      (m.authEpoch = m'.authEpoch ∧ (m.state = .active → m'.state = .active)))
  tombstones : ∀ t ∈ db'.tombstones, t ∈ db.tombstones ∨
    ∃ m ∈ db.members, m.stableNodeId = t.stableNodeId ∧ m.authEpoch < t.authEpoch

theorem Reached.onward {db db' : AuthorityDb} {stableNodeId : StableNodeId} {authEpoch : Nat}
    (h : Reached db stableNodeId authEpoch) (honward : Onward db db') :
      Reached db' stableNodeId authEpoch := by
  obtain ⟨⟨m, hm, hid, hauth⟩, htombstones⟩ := h
  constructor
  · obtain ⟨m', hm', hid', hnext⟩ := honward.members m hm
    refine ⟨m', hm', hid'.trans hid, ?_⟩
    rcases hauth with hlt | ⟨heq, hactive⟩
    · left
      omega
    · rcases hnext with hlt | ⟨hsame, hstays⟩
      · left
        omega
      · exact .inr ⟨heq.trans hsame, hstays hactive⟩
  · intro t ht htid
    rcases honward.tombstones t ht with hold | ⟨n, hn, hnid, hlt⟩
    · exact htombstones t hold htid
    · obtain rfl := member_eq hn hm (hnid.trans (htid.trans hid.symm))
      omega

theorem Onward.of_eq {db db' : AuthorityDb} (hmembers : db'.members = db.members)
    (htombstones : db'.tombstones = db.tombstones) : Onward db db' :=
  ⟨fun m hm => ⟨m, hmembers ▸ hm, rfl, .inr ⟨rfl, id⟩⟩, fun _ ht => .inl (htombstones ▸ ht)⟩

theorem LegacyAdded.onward [Sha256] {db db' : AuthorityDb} {transport : TransportIdentity}
    (h : LegacyAdded db db' transport) : Onward db db' := by
  obtain ⟨-, -, htombstones, -, -, -⟩ := h.frame
  exact ⟨fun m hm => ⟨m, h.members_subset hm, rfl, .inr ⟨rfl, id⟩⟩,
    fun _ ht => .inl (htombstones ▸ ht)⟩

theorem Invited.onward {db db' : AuthorityDb} {row : EnrollmentInviteRow} (h : Invited db db' row) :
    Onward db db' := by
  obtain ⟨-, -, -, htombstones, -, -⟩ := h.frame
  refine ⟨fun m hm => ?_, fun _ ht => .inl (htombstones ▸ ht)⟩
  by_cases hid : m.stableNodeId = row.stableNodeId
  · obtain ⟨m', hm', hid', hle⟩ := h.advance m hm
    refine ⟨m', hm', hid', ?_⟩
    rcases Nat.lt_or_eq_of_le hle with hlt | heq
    · exact .inl hlt
    · exact .inr ⟨heq, fun hactive => absurd hactive (h.inactive m hm hid)⟩
  · exact ⟨m, h.mem_members.mpr (.inr ⟨hm, hid⟩), rfl, .inr ⟨rfl, id⟩⟩

theorem Confirmed.onward {db db' : AuthorityDb} {invite : EnrollmentInviteRow} {now expiresAt : Int}
    (h : Confirmed db db' invite now expiresAt) : Onward db db' := by
  refine ⟨fun m hm => ⟨_, (h.members _).mpr ⟨m, hm, rfl⟩, by simp, .inr ⟨by simp, ?_⟩⟩,
    fun _ ht => .inl (h.tombstones ▸ ht)⟩
  intro hactive
  unfold confirmMember
  split
  · rfl
  · simpa using hactive

theorem Revoked.onward {db db' : AuthorityDb} {binding : MembershipRevokeBinding}
    {tombstone : RevocationTombstone} (h : Revoked db db' binding tombstone) : Onward db db' := by
  constructor
  · intro m hm
    refine ⟨_, (h.members _).mpr ⟨m, hm, rfl⟩, by simp, ?_⟩
    unfold revokedMember
    split
    · exact .inl (Nat.lt_succ_self _)
    · exact .inr ⟨by simp, fun hactive => by simpa using hactive⟩
  · intro t ht
    rcases (Table.mem_insert h.tombstones).mp ht with hold | rfl
    · exact .inl hold
    · obtain ⟨m, hm, hid, -, hauth⟩ := h.member
      exact .inr ⟨m, hm, hid.trans h.stableNodeId.symm, hauth ▸ Nat.lt_succ_self _⟩

theorem Step.onward [Sha256] {action : Action} {db db' : AuthorityDb} (hstep : Step action db db') :
    Onward db db' := by
  cases hstep with
  | same hstep _ => exact .of_eq hstep.members hstep.tombstones
  | imported _ hstep => exact hstep.onward
  | invited hstep => exact hstep.onward
  | confirmed _ hstep => exact hstep.onward
  | legacy hstep => exact hstep.onward
  | intended hstep => exact .of_eq (by rw [hstep.eq]) (by rw [hstep.eq])
  | marked hstep => exact .of_eq (by rw [hstep.eq]) (by rw [hstep.eq])
  | revoked hstep => exact hstep.onward

/-! ## The rows behind an event -/

/-- The event belongs to a tombstone, and there is a receipt for its teardown. -/
def Backed (db : AuthorityDb) (event : OutboxRow) : Prop :=
  (∃ t ∈ db.tombstones, t.stableNodeId = event.stableNodeId ∧ t.authEpoch = event.authEpoch) ∧
  ∃ r ∈ db.teardownReceipts, r.receiptId = event.payload.receiptId

/-- From `db` to `db'` tombstones and receipts stay, and an event that is new is backed and
pending. -/
structure EventsKept (db db' : AuthorityDb) : Prop where
  backed : ∀ event, Backed db event → Backed db' event
  outbox : ∀ event ∈ db'.outbox, event ∈ db.outbox ∨ (Backed db' event ∧ event.deliveredAt = none)

theorem EventsKept.of_same {db db' : AuthorityDb} (htombstones : db'.tombstones = db.tombstones)
    (h : SameEvents db db') : EventsKept db db' := by
  refine ⟨fun event hbacked => ?_, fun _ hevent => .inl (h.outbox ▸ hevent)⟩
  unfold Backed
  rw [htombstones, h.teardownReceipts]
  exact hbacked

theorem Revoked.eventsKept {db db' : AuthorityDb} {binding : MembershipRevokeBinding}
    {tombstone : RevocationTombstone} (h : Revoked db db' binding tombstone) :
      EventsKept db db' := by
  obtain ⟨payload, hreceiptId, hid, hauth, hrows⟩ := h.outbox
  obtain ⟨row, hrow, hinsert⟩ := h.receipt
  constructor
  · rintro event ⟨⟨t, ht, htombstone⟩, r, hr, hreceipt⟩
    exact ⟨⟨t, (Table.mem_insert h.tombstones).mpr (.inl ht), htombstone⟩,
      r, (Table.mem_insert hinsert).mpr (.inl hr), hreceipt⟩
  · intro event hevent
    rw [← Table.mem_rows, hrows, List.mem_append] at hevent
    rcases hevent with hold | hnew
    · exact .inl hold
    · have hevent : event.stableNodeId = payload.stableNodeId ∧
          event.authEpoch = payload.authEpoch ∧
          event.payload = payload ∧ event.deliveredAt = none := by
        simp only [OutboxPayload.rows, List.mem_cons, List.not_mem_nil, or_false] at hnew
        rcases hnew with rfl | rfl | rfl <;> exact ⟨rfl, rfl, rfl, rfl⟩
      obtain ⟨hnode, hepoch, hpayload, hpending⟩ := hevent
      refine .inr ⟨⟨⟨tombstone, (Table.mem_insert h.tombstones).mpr (.inr rfl), ?_, ?_⟩,
        row, (Table.mem_insert hinsert).mpr (.inr rfl), ?_⟩, hpending⟩
      · rw [hnode, hid]
      · rw [hepoch, hauth]
      · rw [hpayload, hreceiptId, hrow]

theorem Step.eventsKept [Sha256] {action : Action} (haction : action.ofDrain = false)
    {db db' : AuthorityDb} (hstep : Step action db db') : EventsKept db db' := by
  cases hstep with
  | same hstep hevents => exact .of_same hstep.tombstones (hevents haction)
  | imported _ hstep => exact .of_same hstep.frame.2.2.1 hstep.frame.2.2.2.2.2
  | invited hstep => exact .of_same hstep.frame.2.2.2.1 hstep.frame.2.2.2.2.2
  | confirmed _ hstep => exact .of_same hstep.tombstones hstep.events
  | legacy hstep => exact .of_same hstep.frame.2.2.1 hstep.frame.2.2.2.2.2
  | intended hstep => exact .of_same (by rw [hstep.eq]) (by rw [hstep.eq]; exact ⟨rfl, rfl, rfl⟩)
  | marked hstep => exact .of_same (by rw [hstep.eq]) (by rw [hstep.eq]; exact ⟨rfl, rfl, rfl⟩)
  | revoked hstep => exact hstep.eventsKept

/-! ## The writes of a drain -/

/-- A drain leaves the membership as it is, and every receipt in its place. -/
structure Recorded (db db' : AuthorityDb) : Prop where
  same : SameMembership db db'
  receipts : ∀ r ∈ db.teardownReceipts, ∃ r' ∈ db'.teardownReceipts, r'.receiptId = r.receiptId

theorem Recorded.backed {db db' : AuthorityDb} (h : Recorded db db') {event : OutboxRow}
    (hbacked : Backed db event) : Backed db' event := by
  obtain ⟨htombstone, r, hr, hreceipt⟩ := hbacked
  obtain ⟨r', hr', hid⟩ := h.receipts r hr
  exact ⟨by rwa [h.same.tombstones], r', hr', hid.trans hreceipt⟩

theorem Recorded.consistent {db db' : AuthorityDb} (h : Recorded db db')
    (hconsistent : Consistent db) : Consistent db' :=
  hconsistent.of_same h.same.membershipEpoch h.same.revocationFloor h.same.members h.same.bindings
    h.same.tombstones h.same.invites h.same.nextOutboxId h.same.outbox

theorem recordEffect_spec {db db' : AuthorityDb} {event : OutboxRow} {details : TeardownDetails}
    (h : db.recordEffect event details = .ok db') : Recorded db db' ∧ db'.outbox = db.outbox := by
  unfold recordEffect at h
  split at h
  · refine ⟨⟨updateTeardown_same h, ?_⟩, ?_⟩ <;>
      simp only [updateTeardown, bind_eq_ok_iff] at h <;> obtain ⟨_, -, h⟩ := h <;> cases h
    · intro r hr
      simp only [Table.mem_update]
      exact ⟨_, ⟨r, hr, rfl⟩, by split <;> rfl⟩
    · rfl
  · cases h
    exact ⟨⟨⟨rfl, rfl, rfl, rfl, rfl, rfl, rfl, rfl, rfl⟩, fun r hr => ⟨r, hr, rfl⟩⟩, rfl⟩
  · cases h
    exact ⟨⟨⟨rfl, rfl, rfl, rfl, rfl, rfl, rfl, rfl, rfl⟩, fun r hr => ⟨r, hr, rfl⟩⟩, rfl⟩

/-- An event that is backed is recorded. -/
theorem exists_recordEffect {db : AuthorityDb} {event : OutboxRow} (details : TeardownDetails)
    (hbacked : Backed db event) : ∃ db', db.recordEffect event details = .ok db' := by
  obtain ⟨-, r, hr, hid⟩ := hbacked
  unfold recordEffect
  split
  · have hany : db.teardownReceipts.any (·.receiptId == event.payload.receiptId) = true :=
      Table.any_eq_true.mpr ⟨r, hr, beq_iff_eq.mpr hid⟩
    exact ⟨_, by simp only [updateTeardown, hany]; rfl⟩
  · exact ⟨_, rfl⟩
  · exact ⟨_, rfl⟩

theorem markOutboxDelivered_spec {db db' : AuthorityDb} {id : Nat} {now : Int}
    (h : db.markOutboxDelivered id now = .ok db') : Recorded db db' ∧
      ∀ row, row ∈ db'.outbox ↔ ∃ r ∈ db.outbox,
        row = if r.id == id && r.deliveredAt.isNone then { r with deliveredAt := some now }
          else r := by
  refine ⟨⟨markOutboxDelivered_same h, ?_⟩, ?_⟩ <;>
    simp only [markOutboxDelivered, bind_eq_ok_iff] at h <;> obtain ⟨_, -, h⟩ := h <;> cases h
  · exact fun r hr => ⟨r, hr, rfl⟩
  · intro row
    simp only [Table.mem_update]

theorem exists_markOutboxDelivered {db : AuthorityDb} {event : OutboxRow}
    (hevent : event ∈ db.outbox)
    (hpending : event.deliveredAt = none) (now : Int) :
      ∃ db', db.markOutboxDelivered event.id now = .ok db' := by
  have hany : db.outbox.any (fun row => row.id == event.id && row.deliveredAt.isNone) = true :=
    Table.any_eq_true.mpr ⟨event, hevent, by simp [hpending]⟩
  exact ⟨_, by simp only [markOutboxDelivered, hany]; rfl⟩

/-! ## The invariant -/

/-- Events are backed, and grants, sessions and rows belong to generations that were reached. -/
structure Daemon.Kept (d : Daemon) : Prop where
  consistent : Consistent d.authority
  outbox : ∀ event ∈ d.authority.outbox, Backed d.authority event
  drain : ∀ s ∈ d.drain, Backed d.authority s.event
  granted : ∀ g ∈ d.granted, Reached d.authority g.stableNodeId g.authEpoch
  sessions : ∀ g ∈ d.sessions, Reached d.authority g.stableNodeId g.authEpoch
  views : ∀ row ∈ d.views, Reached d.authority row.stableNodeId row.authEpoch

theorem Daemon.kept_fresh : Daemon.Kept .fresh := by
  refine ⟨consistent_fresh, ?_, ?_, ?_, ?_, ?_⟩ <;> simp [Daemon.fresh, AuthorityDb.fresh]

theorem Daemon.Kept.of_authority {d : Daemon} (h : d.Kept) {db : AuthorityDb}
    (hconsistent : Consistent db)
    (honward : Onward d.authority db)
    (hbacked : ∀ event, Backed d.authority event → Backed db event)
    (houtbox : ∀ event ∈ db.outbox, Backed db event) : Daemon.Kept { d with authority := db } :=
  ⟨hconsistent, houtbox, fun s hs => hbacked _ (h.drain s hs),
    fun g hg => (h.granted g hg).onward honward, fun g hg => (h.sessions g hg).onward honward,
    fun row hrow => (h.views row hrow).onward honward⟩

theorem Daemon.Kept.call [Sha256] [Ed25519] {d : Daemon} (h : d.Kept) (path : String)
    {action : Action}
    (haction : action.ofDrain = false) :
      Daemon.Kept { d with authority := (d.authority.step path action).1 } := by
  refine step_keeps (P := fun db => Daemon.Kept { d with authority := db }) ?_ path h
  intro db db' hdb hstep
  have hevents := hstep.eventsKept haction
  refine Daemon.Kept.of_authority hdb (hstep.consistent hdb.consistent) hstep.onward
    hevents.backed ?_
  intro event hevent
  rcases hevents.outbox event hevent with hold | ⟨hbacked, -⟩
  · exact hevents.backed event (hdb.outbox event hold)
  · exact hbacked

theorem Daemon.Kept.recorded {d : Daemon} (h : d.Kept) {db : AuthorityDb}
    (hrecorded : Recorded d.authority db)
    (houtbox : ∀ event ∈ db.outbox, ∃ r ∈ d.authority.outbox, event.stableNodeId = r.stableNodeId ∧
      event.authEpoch = r.authEpoch ∧ event.payload = r.payload) :
    Daemon.Kept { d with authority := db } := by
  refine h.of_authority (hrecorded.consistent h.consistent)
    (.of_eq hrecorded.same.members hrecorded.same.tombstones) (fun _ => hrecorded.backed) ?_
  intro event hevent
  obtain ⟨r, hr, hnode, hepoch, hpayload⟩ := houtbox event hevent
  have hbacked := hrecorded.backed (h.outbox r hr)
  unfold Backed at hbacked ⊢
  rw [hnode, hepoch, hpayload]
  exact hbacked

theorem mem_teardown {sessions : List MembershipGrant} {stableNodeId : StableNodeId}
    {g : MembershipGrant} :
    g ∈ teardown sessions stableNodeId ↔ g ∈ sessions ∧ g.stableNodeId ≠ stableNodeId := by
  simp [teardown]

/-- A row after a mutation has the generation of one there was before, or that of the grant. -/
theorem mem_mutateFenced {views : List SyncRow} {grant : MembershipGrant} {rows : List FencedRow}
    {row : SyncRow} (h : row ∈ mutateFenced views grant rows) :
    (∃ old ∈ views, row.stableNodeId = old.stableNodeId ∧ row.authEpoch = old.authEpoch) ∨
      (row.stableNodeId = grant.stableNodeId ∧ row.authEpoch = grant.authEpoch) := by
  simp only [mutateFenced, activateMembershipFence, List.mem_append, List.mem_filter,
    List.mem_map] at h
  rcases h with ⟨⟨old, ⟨hold, -⟩, rfl⟩, -⟩ | ⟨fenced, -, rfl⟩
  · refine .inl ⟨old, hold, ?_⟩
    split <;> exact ⟨rfl, rfl⟩
  · exact .inr ⟨rfl, rfl⟩

theorem mem_sweepRows {f : SyncRow → Option (List UInt8)} {views : List SyncRow} {row : SyncRow}
    (h : row ∈ sweepRows f views) :
    ∃ old ∈ views, row.stableNodeId = old.stableNodeId ∧ row.authEpoch = old.authEpoch := by
  simp only [sweepRows, List.mem_filterMap, Option.map_eq_some_iff] at h
  obtain ⟨old, hold, _, -, rfl⟩ := h
  exact ⟨old, hold, rfl, rfl⟩

theorem mem_drainOrder {db : AuthorityDb} {event : OutboxRow} :
    event ∈ db.drainOrder ↔ event ∈ db.outbox ∧ event.deliveredAt = none := by
  simp [drainOrder, pendingOutbox, List.mem_insertionSort, Table.mem_rows]

theorem Daemon.Kept.advance {d : Daemon} (h : d.Kept) (hasWriter : Bool) (details : TeardownDetails)
    (now : Int) : (d.advance hasWriter details now).1.Kept := by
  unfold Daemon.advance
  split
  · exact h
  · rename_i event rest hdrain
    obtain ⟨hevent, hrest⟩ := List.forall_mem_cons.mp (hdrain ▸ h.drain)
    have hrecord : ∀ s ∈ DrainStep.record event details :: rest, Backed d.authority s.event :=
      List.forall_mem_cons.mpr ⟨hevent, hrest⟩
    dsimp only
    unfold Daemon.perform
    split
    · exact ⟨h.consistent, h.outbox, hrecord, h.granted,
        fun g hg => h.sessions g (mem_teardown.mp hg).1, h.views⟩
    · exact ⟨h.consistent, h.outbox, hrecord, h.granted, h.sessions,
        fun row hrow => h.views row (List.mem_filter.mp hrow).1⟩
    · split
      · exact ⟨h.consistent, h.outbox, hrecord, h.granted, h.sessions, h.views⟩
      · exact ⟨h.consistent, h.outbox, hrest, h.granted, h.sessions, h.views⟩
  · rename_i event details' rest hdrain
    have hstop : Daemon.Kept { d with drain := [] } :=
      ⟨h.consistent, h.outbox, (by simp), h.granted, h.sessions, h.views⟩
    have hbacked := List.forall_mem_cons.mp (hdrain ▸ h.drain)
    rcases settle_cases ((d.authority.recordEffect event details').map fun db =>
      { d with authority := db, drain := .deliver event :: rest }) { d with drain := [] } with
      ⟨next, hok, heq⟩ | heq
    · rw [heq]
      obtain ⟨db, hdb, rfl⟩ := map_eq_ok hok
      obtain ⟨hrecorded, houtbox⟩ := recordEffect_spec hdb
      have hdeliver : Daemon.Kept { d with drain := .deliver event :: rest } :=
        ⟨h.consistent, h.outbox, List.forall_mem_cons.mpr hbacked, h.granted, h.sessions, h.views⟩
      exact hdeliver.recorded hrecorded fun e he => ⟨e, houtbox ▸ he, rfl, rfl, rfl⟩
    · rw [heq]
      exact hstop
  · rename_i event rest hdrain
    have hstop : Daemon.Kept { d with drain := [] } :=
      ⟨h.consistent, h.outbox, (by simp), h.granted, h.sessions, h.views⟩
    have hbacked := List.forall_mem_cons.mp (hdrain ▸ h.drain)
    rcases settle_cases ((d.authority.markOutboxDelivered event.id now).map fun db =>
      { d with authority := db, drain := rest }) { d with drain := [] } with ⟨next, hok, heq⟩ | heq
    · rw [heq]
      obtain ⟨db, hdb, rfl⟩ := map_eq_ok hok
      obtain ⟨hrecorded, houtbox⟩ := markOutboxDelivered_spec hdb
      have hrest : Daemon.Kept { d with drain := rest } :=
        ⟨h.consistent, h.outbox, hbacked.2, h.granted, h.sessions, h.views⟩
      refine hrest.recorded hrecorded fun e he => ?_
      obtain ⟨r, hr, rfl⟩ := (houtbox e).mp he
      refine ⟨r, hr, ?_⟩
      split <;> exact ⟨rfl, rfl, rfl⟩
    · rw [heq]
      exact hstop

theorem Daemon.Kept.step [Sha256] [Ed25519] {d : Daemon} (h : d.Kept) (path : String)
    (hasWriter : Bool) (event : Event) : (d.step path hasWriter event).1.Kept := by
  cases event with
  | call action haction => exact h.call path haction
  | admission carrier transport now =>
    rcases settle_cases ((d.authority.admitTransport carrier transport now).map fun grant =>
      { d with granted := grant :: d.granted }) d with ⟨next, hok, heq⟩ | heq <;>
      simp only [Daemon.step, heq]
    · obtain ⟨grant, hgrant, rfl⟩ := map_eq_ok hok
      have hreached := (admitTransport_admitted hgrant).reached h.consistent.buried
      exact ⟨h.consistent, h.outbox, h.drain, List.forall_mem_cons.mpr ⟨hreached, h.granted⟩,
        h.sessions, h.views⟩
    · exact h
  | register grant =>
    rcases settle_cases
      ((require (d.granted.contains grant) "session without a membership grant").map
      fun _ => { d with sessions := grant :: d.sessions }) d with ⟨next, hok, heq⟩ | heq <;>
      simp only [Daemon.step, heq]
    · obtain ⟨_, hgranted, rfl⟩ := map_eq_ok hok
      have hreached := h.granted grant (by simpa using hgranted)
      exact ⟨h.consistent, h.outbox, h.drain, h.granted,
        List.forall_mem_cons.mpr ⟨hreached, h.sessions⟩, h.views⟩
    · exact h
  | disconnect grant =>
    exact ⟨h.consistent, h.outbox, h.drain, h.granted,
      fun g hg => h.sessions g (List.mem_of_mem_erase hg), h.views⟩
  | mutate registry lease grant now rows =>
    rcases settle_cases ((d.authority.validateAttached registry lease grant now).map fun _ =>
      { d with views := mutateFenced d.views grant rows }) d with ⟨next, hok, heq⟩ | heq <;>
      simp only [Daemon.step, heq]
    · obtain ⟨_, hvalid, rfl⟩ := map_eq_ok hok
      have hreached := (validateAttached_admitted hvalid).reached h.consistent.buried
      refine ⟨h.consistent, h.outbox, h.drain, h.granted, h.sessions, ?_⟩
      intro row hrow
      rcases mem_mutateFenced hrow with ⟨old, hold, hid, hauth⟩ | ⟨hid, hauth⟩
      · rw [hid, hauth]
        exact h.views old hold
      · rw [hid, hauth]
        exact hreached
    · exact h
  | sweep f =>
    refine ⟨h.consistent, h.outbox, h.drain, h.granted, h.sessions, ?_⟩
    intro row hrow
    obtain ⟨old, hold, hid, hauth⟩ := mem_sweepRows hrow
    rw [hid, hauth]
    exact h.views old hold
  | drainOutbox =>
    refine ⟨h.consistent, h.outbox, ?_, h.granted, h.sessions, h.views⟩
    intro s hs
    obtain ⟨event, hevent, rfl⟩ := List.mem_map.mp hs
    exact h.outbox event (mem_drainOrder.mp hevent).1
  | advance details now => exact h.advance hasWriter details now
  | abort => exact ⟨h.consistent, h.outbox, (by simp [Daemon.step]), h.granted, h.sessions, h.views⟩
  | crash =>
    exact ⟨h.consistent, h.outbox, (by simp [Daemon.step]), (by simp [Daemon.step]),
      (by simp [Daemon.step]), h.views⟩

theorem Daemon.kept_after [Sha256] [Ed25519] (path : String) (hasWriter : Bool)
    (events : List Event) : (Daemon.after path hasWriter events).Kept :=
  Lib.Machine.run_invariant (fun _ event h => h.step path hasWriter event) _ kept_fresh events

/-! ## What an effect spares -/

/-- The generation is of another node, or later than the one the event revokes. -/
def OutboxRow.spares (event : OutboxRow) (stableNodeId : StableNodeId) (authEpoch : Nat) : Bool :=
  stableNodeId != event.stableNodeId || event.authEpoch ≤ authEpoch

/-- The node of the event has not enrolled in a generation after the one the event revokes. -/
def AuthorityDb.NotReturned (db : AuthorityDb) (event : OutboxRow) : Prop :=
  ∀ m ∈ db.members, m.stableNodeId = event.stableNodeId →
    m.authEpoch ≤ event.authEpoch ∨ (m.authEpoch = event.authEpoch + 1 ∧ m.state ≠ .active)

/-- Before an effect on sessions or sync rows is performed, the node has not returned. -/
def Daemon.Undisturbed (d : Daemon) : Event → Prop
  | .advance _ _ => ∀ event rest, d.drain = .perform event :: rest → event.kind ≠ .audit →
      d.authority.NotReturned event
  | _ => True

theorem Reached.not_spared {db : AuthorityDb} {event : OutboxRow} {stableNodeId : StableNodeId}
    {authEpoch : Nat} (h : Reached db stableNodeId authEpoch) (hbacked : Backed db event)
    (hreturned : db.NotReturned event) (hid : stableNodeId = event.stableNodeId) :
    event.spares stableNodeId authEpoch = false := by
  obtain ⟨⟨m, hm, hmid, hauth⟩, htombstones⟩ := h
  obtain ⟨⟨t, ht, htid, htauth⟩, -⟩ := hbacked
  have hne := htombstones t ht (htid.trans hid.symm)
  have hlt : authEpoch < event.authEpoch := by
    rcases hreturned m hm (hmid.trans hid) with hle | ⟨heq, hinactive⟩
    · omega
    · rcases hauth with hlt | ⟨-, hactive⟩
      · omega
      · exact absurd hactive hinactive
  simp [OutboxRow.spares, hid, hlt]

/-- A step of a drain whose event is undisturbed touches nothing that the event spares. -/
theorem Daemon.Kept.advance_spares {d : Daemon} (h : d.Kept) (hasWriter : Bool)
    (details : TeardownDetails) (now : Int) (hundisturbed : d.Undisturbed (.advance details now)) :
    ∀ s ∈ d.drain.head?,
      (d.advance hasWriter details now).1.views.filter (fun row =>
        s.event.spares row.stableNodeId row.authEpoch) =
        d.views.filter (fun row => s.event.spares row.stableNodeId row.authEpoch) ∧
      (d.advance hasWriter details now).1.sessions.filter (fun g =>
        s.event.spares g.stableNodeId g.authEpoch) =
        d.sessions.filter fun g => s.event.spares g.stableNodeId g.authEpoch := by
  intro s hs
  unfold Daemon.advance
  split
  · exact ⟨rfl, rfl⟩
  · rename_i event rest hdrain
    rw [hdrain, List.head?_cons, Option.mem_some_iff] at hs
    subst hs
    have hbacked : Backed d.authority event :=
      h.drain (.perform event) (hdrain ▸ List.mem_cons_self)
    dsimp only [DrainStep.event]
    unfold Daemon.perform
    split
    · rename_i hkind
      have hreturned := hundisturbed event rest hdrain (by simp [hkind])
      refine ⟨rfl, ?_⟩
      dsimp only
      rw [teardown, List.filter_filter]
      refine List.filter_congr fun g hg => ?_
      by_cases hid : g.stableNodeId = event.stableNodeId
      · simp [(h.sessions g hg).not_spared hbacked hreturned hid]
      · simp [hid]
    · rename_i hkind
      have hreturned := hundisturbed event rest hdrain (by simp [hkind])
      refine ⟨?_, rfl⟩
      dsimp only
      rw [quarantineRevokedMembership, List.filter_filter]
      refine List.filter_congr fun row hrow => ?_
      by_cases hid : row.stableNodeId = event.stableNodeId
      · simp [(h.views row hrow).not_spared hbacked hreturned hid]
      · simp [hid]
    · split <;> exact ⟨rfl, rfl⟩
  · rename_i event details' rest hdrain
    cases d.authority.recordEffect event details' <;> exact ⟨rfl, rfl⟩
  · rename_i event rest hdrain
    cases d.authority.markOutboxDelivered event.id now <;> exact ⟨rfl, rfl⟩

/-! ## At least once -/

/-- The effect of the event has been performed in the course of the events. -/
def Performed [Sha256] [Ed25519] (path : String) (hasWriter : Bool) (events : List Event)
    (id : Nat) : Prop :=
  ∃ before details now later event rest, events = before ++ .advance details now :: later ∧
    (Daemon.after path hasWriter before).drain = .perform event :: rest ∧ event.id = id ∧
    (event.kind = .audit → hasWriter = true)

theorem Performed.snoc [Sha256] [Ed25519] {path : String} {hasWriter : Bool} {events : List Event}
    {id : Nat} (h : Performed path hasWriter events id) (event : Event) :
    Performed path hasWriter (events ++ [event]) id := by
  obtain ⟨before, details, now, later, e, rest, rfl, hdrain, hid, haudit⟩ := h
  exact ⟨before, details, now, later ++ [event], e, rest, by simp, hdrain, hid, haudit⟩

/-- The effect of the event is behind this step. -/
def DrainStep.started : DrainStep → Bool
  | .perform _ => false
  | .record _ _ | .deliver _ => true

/-- Only what has been performed is recorded and marked as delivered. -/
structure Daemon.Honest [Sha256] [Ed25519] (path : String) (hasWriter : Bool) (events : List Event)
    (d : Daemon) : Prop where
  drain : ∀ s ∈ d.drain, s.started = true → Performed path hasWriter events s.event.id
  outbox : ∀ row ∈ d.authority.outbox, row.deliveredAt.isSome = true →
    Performed path hasWriter events row.id

theorem Daemon.Honest.call [Sha256] [Ed25519] {path : String} {hasWriter : Bool}
    {events : List Event}
    {d : Daemon} (h : d.Honest path hasWriter events) {action : Action}
    (haction : action.ofDrain = false) :
    Daemon.Honest path hasWriter events
      { d with authority := (d.authority.step path action).1 } := by
  refine ⟨h.drain, ?_⟩
  refine step_keeps (P := fun db => ∀ row ∈ db.outbox, row.deliveredAt.isSome = true →
    Performed path hasWriter events row.id) ?_ path h.outbox
  intro db db' hdb hstep row hrow hdelivered
  rcases (hstep.eventsKept haction).outbox row hrow with hold | ⟨-, hpending⟩
  · exact hdb row hold hdelivered
  · simp [hpending] at hdelivered

theorem Daemon.honest_advance [Sha256] [Ed25519] (path : String) (hasWriter : Bool)
    (events : List Event) (details : TeardownDetails) (now : Int)
    (h : (Daemon.after path hasWriter events).Honest path hasWriter
      (events ++ [.advance details now])) :
    ((Daemon.after path hasWriter events).advance hasWriter details now).1.Honest path hasWriter
      (events ++ [.advance details now]) := by
  generalize hd : Daemon.after path hasWriter events = d at h ⊢
  have hstop : Daemon.Honest path hasWriter (events ++ [.advance details now])
      { d with drain := [] } :=
    ⟨(by simp), h.outbox⟩
  unfold Daemon.advance
  split
  · exact h
  · rename_i event rest hdrain
    have hrest := (List.forall_mem_cons.mp (hdrain ▸ h.drain)).2
    have hperformed (haudit : event.kind = .audit → hasWriter = true) :
        Performed path hasWriter (events ++ [.advance details now]) event.id :=
      ⟨events, details, now, [], event, rest, rfl, hd ▸ hdrain, rfl, haudit⟩
    dsimp only
    unfold Daemon.perform
    split
    · rename_i hkind
      exact ⟨List.forall_mem_cons.mpr ⟨fun _ => hperformed (by simp [hkind]), hrest⟩, h.outbox⟩
    · rename_i hkind
      exact ⟨List.forall_mem_cons.mpr ⟨fun _ => hperformed (by simp [hkind]), hrest⟩, h.outbox⟩
    · split
      · rename_i hwriter
        exact ⟨List.forall_mem_cons.mpr ⟨fun _ => hperformed fun _ => hwriter, hrest⟩, h.outbox⟩
      · exact ⟨hrest, h.outbox⟩
  · rename_i event details' rest hdrain
    obtain ⟨hevent, hrest⟩ := List.forall_mem_cons.mp (hdrain ▸ h.drain)
    rcases settle_cases ((d.authority.recordEffect event details').map fun db =>
      { d with authority := db, drain := .deliver event :: rest }) { d with drain := [] } with
      ⟨next, hok, heq⟩ | heq
    · rw [heq]
      obtain ⟨db, hdb, rfl⟩ := map_eq_ok hok
      refine ⟨List.forall_mem_cons.mpr ⟨hevent, hrest⟩, ?_⟩
      dsimp only
      rw [(recordEffect_spec hdb).2]
      exact h.outbox
    · rw [heq]
      exact hstop
  · rename_i event rest hdrain
    obtain ⟨hevent, hrest⟩ := List.forall_mem_cons.mp (hdrain ▸ h.drain)
    rcases settle_cases ((d.authority.markOutboxDelivered event.id now).map fun db =>
      { d with authority := db, drain := rest }) { d with drain := [] } with ⟨next, hok, heq⟩ | heq
    · rw [heq]
      obtain ⟨db, hdb, rfl⟩ := map_eq_ok hok
      refine ⟨hrest, fun row hrow hdelivered => ?_⟩
      obtain ⟨r, hr, rfl⟩ := ((markOutboxDelivered_spec hdb).2 row).mp hrow
      split at hdelivered
      · rename_i hmarked
        have hid : r.id = event.id := beq_iff_eq.mp (Bool.and_eq_true_iff.mp hmarked).1
        rw [if_pos hmarked]
        exact hid ▸ hevent rfl
      · rename_i hother
        rw [if_neg hother]
        exact h.outbox r hr hdelivered
    · rw [heq]
      exact hstop

theorem Daemon.honest_after [Sha256] [Ed25519] (path : String) (hasWriter : Bool)
    (events : List Event) : (Daemon.after path hasWriter events).Honest path hasWriter events := by
  refine Lib.Machine.run_history (P := fun events d => Daemon.Honest path hasWriter events d)
    Daemon.fresh ⟨by simp [Daemon.fresh], by simp [Daemon.fresh, AuthorityDb.fresh]⟩ ?_ events
  intro events event h
  have hnext : (Daemon.after path hasWriter events).Honest path hasWriter (events ++ [event]) :=
    ⟨fun s hs hstarted => (h.drain s hs hstarted).snoc event,
      fun row hrow hdelivered => (h.outbox row hrow hdelivered).snoc event⟩
  change ((Daemon.after path hasWriter events).step path hasWriter event).1.Honest path hasWriter
    (events ++ [event])
  cases event with
  | call action haction => exact hnext.call haction
  | admission carrier transport now =>
    simp only [Daemon.step]
    cases (Daemon.after path hasWriter events).authority.admitTransport carrier transport now with
    | ok grant => exact ⟨hnext.drain, hnext.outbox⟩
    | error e => exact hnext
  | register grant =>
    simp only [Daemon.step]
    cases require ((Daemon.after path hasWriter events).granted.contains grant)
      "session without a membership grant" with
    | ok _ => exact ⟨hnext.drain, hnext.outbox⟩
    | error e => exact hnext
  | disconnect grant => exact ⟨hnext.drain, hnext.outbox⟩
  | mutate registry lease grant now rows =>
    simp only [Daemon.step]
    cases (Daemon.after path hasWriter events).authority.validateAttached registry lease grant
      now with
    | ok _ => exact ⟨hnext.drain, hnext.outbox⟩
    | error e => exact hnext
  | sweep f => exact ⟨hnext.drain, hnext.outbox⟩
  | drainOutbox =>
    refine ⟨fun s hs hstarted => ?_, hnext.outbox⟩
    obtain ⟨row, -, rfl⟩ := List.mem_map.mp hs
    cases hstarted
  | advance details now => exact Daemon.honest_advance path hasWriter events details now hnext
  | abort => exact ⟨(by simp [Daemon.step]), hnext.outbox⟩
  | crash => exact ⟨(by simp [Daemon.step]), hnext.outbox⟩

/-! ## A drain that is not interrupted -/

/-- The steps of one event, one after the other. -/
theorem Daemon.deliver_event [Sha256] [Ed25519] (path : String) (hasWriter : Bool)
    (details : TeardownDetails)
    (now : Int) {d : Daemon} {event : OutboxRow} {rest : List DrainStep}
    (hdrain : d.drain = .perform event :: rest)
    (hbacked : Backed d.authority event) (hevent : event ∈ d.authority.outbox)
    (hpending : event.deliveredAt = none) (hwriter : event.kind = .audit → hasWriter = true) :
    ∃ d',
      (Lib.Machine.run (Daemon.step path hasWriter) d (List.replicate 3 (.advance details now))).1 =
        d' ∧
      d'.drain = rest ∧ (∀ e, Backed d.authority e → Backed d'.authority e) ∧
      ∀ row, row ∈ d'.authority.outbox ↔ ∃ r ∈ d.authority.outbox, row =
        if r.id == event.id && r.deliveredAt.isNone then { r with deliveredAt := some now }
        else r := by
  have hperform : ∃ d₁, (d.advance hasWriter details now).1 = d₁ ∧ d₁.authority = d.authority ∧
      d₁.drain = .record event details :: rest := by
    simp only [Daemon.advance, hdrain, Daemon.perform]
    split
    · exact ⟨_, rfl, rfl, rfl⟩
    · exact ⟨_, rfl, rfl, rfl⟩
    · rename_i hkind
      exact ⟨_, rfl, by rw [if_pos (hwriter hkind)], by rw [if_pos (hwriter hkind)]⟩
  obtain ⟨d₁, hd₁, hauthority₁, hdrain₁⟩ := hperform
  obtain ⟨db, hdb⟩ := exists_recordEffect details hbacked
  obtain ⟨hrecorded, houtbox⟩ := recordEffect_spec hdb
  obtain ⟨db', hdb'⟩ := exists_markOutboxDelivered
    (houtbox ▸ hevent : event ∈ db.outbox) hpending now
  obtain ⟨hmarked, hrows⟩ := markOutboxDelivered_spec hdb'
  have hd₂ : (d₁.advance hasWriter details now).1 =
      { d₁ with authority := db, drain := .deliver event :: rest } := by
    simp only [Daemon.advance, hdrain₁, hauthority₁, hdb]
    rfl
  have hd₃ : (Daemon.advance { d₁ with authority := db, drain := .deliver event :: rest }
      hasWriter details now).1 = { d₁ with authority := db', drain := rest } := by
    simp only [Daemon.advance, hdb']
    rfl
  refine ⟨{ d₁ with authority := db', drain := rest }, ?_, rfl,
    fun e he => hmarked.backed (hrecorded.backed he), ?_⟩
  · simp only [List.replicate, Lib.Machine.run_cons, Lib.Machine.run_nil, Daemon.step, hd₁,
      hd₂, hd₃]
  · rw [← houtbox]
    exact hrows

/-- An audit without a writer is passed over. -/
theorem Daemon.skip_event [Sha256] [Ed25519] (path : String) {hasWriter : Bool}
    (details : TeardownDetails)
    (now : Int) {d : Daemon} {event : OutboxRow} {rest : List DrainStep}
    (hdrain : d.drain = .perform event :: rest)
    (hkind : event.kind = .audit) (hwriter : hasWriter = false) :
    (Lib.Machine.run (Daemon.step path hasWriter) d (List.replicate 1 (.advance details now))).1 =
      { d with drain := rest } := by
  simp [Daemon.step, Daemon.advance, hdrain, Daemon.perform, hkind, hwriter]

/-- The rest of a drain, when nothing comes between its steps. -/
theorem Daemon.drain_rest [Sha256] [Ed25519] (path : String) (hasWriter : Bool)
    (details : TeardownDetails)
    (now : Int) {events : List OutboxRow} {d : Daemon} (hdrain : d.drain = events.map .perform)
    (hpending : ∀ e ∈ events, Backed d.authority e ∧ e ∈ d.authority.outbox ∧ e.deliveredAt = none)
    (hnodup : (events.map OutboxRow.id).Nodup) :
    ∃ n d',
      (Lib.Machine.run (Daemon.step path hasWriter) d (List.replicate n (.advance details now))).1 =
        d' ∧
      d'.drain = [] ∧ ∀ row ∈ d'.authority.outbox, row.deliveredAt = none →
        row ∈ d.authority.outbox ∧ (row ∈ events → row.kind = .audit ∧ hasWriter = false) := by
  induction events generalizing d with
  | nil => exact ⟨0, d, rfl, hdrain, fun row hrow _ => ⟨hrow, (by simp)⟩⟩
  | cons event rest ih =>
    obtain ⟨⟨hbacked, hevent, hunmarked⟩, hrest⟩ := List.forall_mem_cons.mp hpending
    obtain ⟨hfresh, hnodup⟩ := List.nodup_cons.mp hnodup
    by_cases hskip : event.kind = .audit ∧ hasWriter = false
    · obtain ⟨n, d', hd', hempty, hdone⟩ :=
        ih (d := { d with drain := rest.map .perform }) rfl hrest hnodup
      refine ⟨1 + n, d', ?_, hempty, fun row hrow hnone => ?_⟩
      · rw [← List.replicate_append_replicate, Lib.Machine.run_append,
          Daemon.skip_event path details now hdrain hskip.1 hskip.2]
        exact hd'
      · obtain ⟨hold, haudit⟩ := hdone row hrow hnone
        refine ⟨hold, fun hmem => ?_⟩
        rcases List.mem_cons.mp hmem with rfl | hmem
        · exact hskip
        · exact haudit hmem
    · have hwriter : event.kind = .audit → hasWriter = true := by
        intro hkind
        cases hasWriter with
        | false => exact absurd ⟨hkind, rfl⟩ hskip
        | true => rfl
      obtain ⟨d₁, hd₁, hdrain₁, hbacked₁, hrows⟩ :=
        Daemon.deliver_event path hasWriter details now hdrain hbacked hevent hunmarked hwriter
      have hrest₁ : ∀ e ∈ rest, Backed d₁.authority e ∧ e ∈ d₁.authority.outbox ∧
          e.deliveredAt = none := by
        intro e he
        obtain ⟨hback, hmem, hnone⟩ := hrest e he
        have hne : e.id ≠ event.id := fun heq => hfresh (heq ▸ List.mem_map_of_mem he)
        exact ⟨hbacked₁ e hback, (hrows e).mpr ⟨e, hmem, by simp [hne]⟩, hnone⟩
      obtain ⟨n, d', hd', hempty, hdone⟩ := ih hdrain₁ hrest₁ hnodup
      refine ⟨3 + n, d', ?_, hempty, fun row hrow hnone => ?_⟩
      · rw [← List.replicate_append_replicate, Lib.Machine.run_append, hd₁]
        exact hd'
      · obtain ⟨hmem, haudit⟩ := hdone row hrow hnone
        obtain ⟨r, hr, heq⟩ := (hrows row).mp hmem
        split at heq
        · rw [heq] at hnone
          cases hnone
        · rename_i hother
          subst heq
          refine ⟨hr, fun hmem => ?_⟩
          rcases List.mem_cons.mp hmem with rfl | hmem
          · exact absurd (by simp [hunmarked]) hother
          · exact haudit hmem

theorem drainOrder_nodup (db : AuthorityDb) : (db.drainOrder.map OutboxRow.id).Nodup := by
  have hpending : (db.pendingOutbox.map OutboxRow.id).Nodup := by
    refine ((List.perm_insertionSort _ _).map _).nodup_iff.mpr ?_
    exact (List.filter_sublist.map _).nodup db.outbox.nodup
  exact ((List.perm_insertionSort _ _).map _).nodup_iff.mpr hpending

/-- A drain that is not interrupted delivers every event that is pending, without a writer all but
the audits. -/
theorem Daemon.Kept.drain_delivers [Sha256] [Ed25519] {d : Daemon} (h : d.Kept) (path : String)
    (hasWriter : Bool) (details : TeardownDetails) (now : Int) :
    ∃ n,
      let d' := (Lib.Machine.run (Daemon.step path hasWriter) d
        (.drainOutbox :: List.replicate n (.advance details now))).1
      d'.drain = [] ∧ ∀ row ∈ d'.authority.outbox, row.deliveredAt = none →
        row.kind = .audit ∧ hasWriter = false := by
  have hpending : ∀ e ∈ d.authority.drainOrder,
      Backed d.authority e ∧ e ∈ d.authority.outbox ∧ e.deliveredAt = none := by
    intro e he
    obtain ⟨hmem, hnone⟩ := mem_drainOrder.mp he
    exact ⟨h.outbox e hmem, hmem, hnone⟩
  obtain ⟨n, d', hd', hempty, hdone⟩ := Daemon.drain_rest path hasWriter details now
    (d := { d with drain := d.authority.drainOrder.map .perform }) rfl hpending (drainOrder_nodup _)
  refine ⟨n, ?_⟩
  have hrun : (Lib.Machine.run (Daemon.step path hasWriter) d
      (.drainOutbox :: List.replicate n (.advance details now))).1 = d' := hd'
  rw [hrun]
  refine ⟨hempty, fun row hrow hnone => ?_⟩
  obtain ⟨hold, haudit⟩ := hdone row hrow hnone
  exact haudit (mem_drainOrder.mpr ⟨hold, hnone⟩)

/-! ## Replaying an event again -/

theorem teardown_teardown (sessions : List MembershipGrant) (stableNodeId : StableNodeId) :
    teardown (teardown sessions stableNodeId) stableNodeId = teardown sessions stableNodeId := by
  simp [teardown, List.filter_filter]

theorem quarantine_quarantine (views : List SyncRow) (stableNodeId : StableNodeId) :
    quarantineRevokedMembership (quarantineRevokedMembership views stableNodeId) stableNodeId =
      quarantineRevokedMembership views stableNodeId := by
  simp [quarantineRevokedMembership, List.filter_filter]

theorem mergeTeardown_mergeTeardown (receipt update : CarrierTeardownReceipt) :
    mergeTeardown (mergeTeardown receipt update) update = mergeTeardown receipt update := by
  unfold mergeTeardown
  dsimp only
  by_cases hreplace : (["", "not_running", "no_live_sessions"].contains receipt.status ||
      ["partial", "pending"].contains update.status) = true
  · simp only [hreplace, if_true, ite_self, Nat.max_assoc, Nat.max_self]
  · simp only [hreplace, if_false, Bool.false_eq_true, Nat.max_assoc, Nat.max_self]

theorem mergeCarrier_mergeCarrier (merged update : Option CarrierTeardownReceipt) :
    mergeCarrier (mergeCarrier merged update) update = mergeCarrier merged update := by
  cases update with
  | none => rfl
  | some update => exact congrArg some (mergeTeardown_mergeTeardown _ update)

theorem recordEffect_again {db db' : AuthorityDb} {event : OutboxRow} {details : TeardownDetails}
    (h : db.recordEffect event details = .ok db') : db'.recordEffect event details = .ok db' := by
  unfold recordEffect at h ⊢
  split
  · rename_i hkind
    simp only [hkind] at h
    simp only [updateTeardown, bind_eq_ok_iff, require_eq_ok_iff] at h ⊢
    obtain ⟨_, hany, h⟩ := h
    cases h
    obtain ⟨r, hr, hid⟩ := Table.any_eq_true.mp hany
    refine ⟨(), ?_, ?_⟩
    · simp only [Table.any_eq_true, Table.mem_update]
      exact ⟨_, ⟨r, hr, rfl⟩, by split <;> exact hid⟩
    · rw [Table.update_update]
      intro row _
      have hdetails : mergeDetails (mergeDetails row.details details) details =
          mergeDetails row.details details := by
        simp only [mergeDetails, mergeCarrier_mergeCarrier]
      dsimp only
      rw [hdetails]
      by_cases hhalf : row.status = "partial"
      · simp [hhalf]
      · by_cases hstatus : details.status = "partial" <;> simp [hhalf, hstatus]
  · rename_i hkind
    simp only [hkind] at h
    cases h
    simp only [appendMembershipAudit, Table.insertOrIgnore_idem]
  · rename_i hkind
    simp only [hkind] at h
    cases h
    simp only [applyMembershipProjection, Table.insertOrIgnore_idem]

/-! ## Every run -/

/-- **Replaying a revocation.** In a run where no node has enrolled again when an effect of its
revocation is performed: no step of a drain touches the sessions and sync rows of another node, or
of a later generation of this one; only events that have been performed are marked as delivered, and
a drain that is not interrupted delivers all of them, without a writer all but the audits; and to
perform an event again and record it changes nothing. -/
theorem revocation_replay [Sha256] [Ed25519] (path : String) (hasWriter : Bool)
    (events : List Event) (hundisturbed : ∀ before event later, events = before ++ event :: later →
      (Daemon.after path hasWriter before).Undisturbed event) :
    (∀ before details now later, events = before ++ .advance details now :: later →
      let d := Daemon.after path hasWriter before
      let d' := (d.step path hasWriter (.advance details now)).1
      ∀ s ∈ d.drain.head?,
        d'.views.filter (fun row => s.event.spares row.stableNodeId row.authEpoch) =
          d.views.filter (fun row => s.event.spares row.stableNodeId row.authEpoch) ∧
        d'.sessions.filter (fun g => s.event.spares g.stableNodeId g.authEpoch) =
          d.sessions.filter fun g => s.event.spares g.stableNodeId g.authEpoch) ∧
    (∀ row ∈ (Daemon.after path hasWriter events).authority.outbox, row.deliveredAt.isSome = true →
      Performed path hasWriter events row.id) ∧
    (∀ details now, ∃ n,
      let drained := events ++ .drainOutbox :: List.replicate n (.advance details now)
      let d := Daemon.after path hasWriter drained
      d.drain = [] ∧ ∀ row ∈ d.authority.outbox, row.deliveredAt = none →
        row.kind = .audit ∧ hasWriter = false) ∧
    (∀ sessions id, teardown (teardown sessions id) id = teardown sessions id) ∧
    (∀ views id, quarantineRevokedMembership (quarantineRevokedMembership views id) id =
      quarantineRevokedMembership views id) ∧
    ∀ (db db' : AuthorityDb) event details, db.recordEffect event details = .ok db' →
      db'.recordEffect event details = .ok db' := by
  refine ⟨?_, (Daemon.honest_after path hasWriter events).outbox, ?_, teardown_teardown,
    quarantine_quarantine, fun _ _ _ _ => recordEffect_again⟩
  · rintro before details now later rfl
    exact (Daemon.kept_after path hasWriter before).advance_spares hasWriter details now
      (hundisturbed before _ later rfl)
  · intro details now
    simp only [Daemon.after_append]
    exact (Daemon.kept_after path hasWriter events).drain_delivers path hasWriter details now

/-! ## A node that returns before the replay -/

/-- The node is revoked, and enrolls again with a new transport identity. -/
def sampleRevokedReturn : List Event :=
  [.call (sampleInvite "5f1c2d3e-0a1b-4c2d-8e3f-000000000001" sampleEnrollment) rfl,
    .call (sampleConfirm "5f1c2d3e-0a1b-4c2d-8e3f-000000000001" sampleEnrollment) rfl,
    .call (.startRevocationIntent sampleRevocation false) rfl,
    .call (.finalizeRevocationIntent sampleRevocation "receipt-1" "not_running" .empty) rfl,
    .call (sampleInvite "5f1c2d3e-0a1b-4c2d-8e3f-000000000004" sampleRenewal) rfl,
    .call (sampleConfirm "5f1c2d3e-0a1b-4c2d-8e3f-000000000004" sampleRenewal) rfl]

def sampleGrant : MembershipGrant :=
  { stableNodeId := StableNodeId.fromVerifyingKey sampleKey, carrier := .peeroxide
    transportIdentity := "alpha-renewed", authEpoch := 3, membershipEpoch := 4,
    expiresAtUnix := some 2000 }

/-- The effects of the new session, after the revocation has raised the floors. -/
def sampleLiveEffects : GenerationEffectState :=
  { nextId := 1, minimumMembershipEpoch := 3
    revokedAuthFloor := ⟨[(StableNodeId.fromVerifyingKey sampleKey, 1)], by decide⟩
    revoking := ∅
    effects :=
      ⟨[⟨1, ⟨StableNodeId.fromVerifyingKey sampleKey, 3, 4⟩, .peeroxide, .durableCommit, none⟩], by
        decide⟩ }

/-- It opens a session and sends its first frames; then the outbox of its revocation is drained. -/
def sampleReplay : List Event :=
  sampleRevokedReturn ++
    [.admission .peeroxide "alpha-renewed" 1002, .register sampleGrant,
      .mutate sampleLiveEffects (some 1) sampleGrant 1002
        [⟨.inbound, StableNodeId.fromVerifyingKey sampleKey, [1]⟩],
      .drainOutbox]

/-- The next step of the drain loses a row that its event spares. -/
def losesRow (d d' : Daemon) : Bool :=
  d.drain.head?.any fun s => d.views.any fun row =>
    s.event.spares row.stableNodeId row.authEpoch && !d'.views.contains row

theorem sampleReplay_losesRow :
    let before := sampleReplay ++ List.replicate 3 (.advance .empty 1003)
    let d := @Daemon.after Sha256.fips sampleEd25519 samplePath true before
    losesRow d (@Daemon.step Sha256.fips sampleEd25519 samplePath true d (.advance .empty 1003)).1 =
      true := by
  rw [Sha256.fips_eq]
  decide +kernel

theorem replay_takes_down_return :
    ¬ ∀ (path : String) (hasWriter : Bool) (events before : List Event) details now later,
      events = before ++ .advance details now :: later →
      let d := @Daemon.after Sha256.fips sampleEd25519 path hasWriter before
      let d' := (@Daemon.step Sha256.fips sampleEd25519 path hasWriter d (.advance details now)).1
      ∀ s ∈ d.drain.head?,
        d'.views.filter (fun row => s.event.spares row.stableNodeId row.authEpoch) =
          d.views.filter (fun row => s.event.spares row.stableNodeId row.authEpoch) ∧
        d'.sessions.filter (fun g => s.event.spares g.stableNodeId g.authEpoch) =
          d.sessions.filter fun g => s.event.spares g.stableNodeId g.authEpoch := by
  intro h
  have hloses := sampleReplay_losesRow
  have hspares := h samplePath true _ (sampleReplay ++ List.replicate 3 (.advance .empty 1003))
    .empty 1003 [] rfl
  dsimp only at hloses hspares
  generalize (@Daemon.after Sha256.fips sampleEd25519 samplePath true
    (sampleReplay ++ List.replicate 3 (.advance .empty 1003))) = d at hloses hspares
  generalize (@Daemon.step Sha256.fips sampleEd25519 samplePath true d (.advance .empty 1003)).1 =
    d'
    at hloses hspares
  simp only [losesRow, Option.any_eq_true, List.any_eq_true, Bool.and_eq_true,
    Bool.not_eq_true'] at hloses
  obtain ⟨s, hs, row, hrow, hspared, hlost⟩ := hloses
  have hkept : row ∈ d.views.filter fun row => s.event.spares row.stableNodeId row.authEpoch :=
    List.mem_filter.mpr ⟨hrow, hspared⟩
  rw [← (hspares s hs).1] at hkept
  simp [(List.mem_filter.mp hkept).1] at hlost

/-- A revocation whose outbox is drained at once. -/
def sampleDrained : List Event :=
  [.call (sampleInvite "5f1c2d3e-0a1b-4c2d-8e3f-000000000001" sampleEnrollment) rfl,
    .call (sampleConfirm "5f1c2d3e-0a1b-4c2d-8e3f-000000000001" sampleEnrollment) rfl,
    .call (.startRevocationIntent sampleRevocation false) rfl,
    .call (.finalizeRevocationIntent sampleRevocation "receipt-1" "not_running" .empty) rfl,
    .drainOutbox]

/-- The member is still at the epoch of the event. -/
theorem sampleDrained_notReturned :
    (@Daemon.after Sha256.fips sampleEd25519 samplePath true sampleDrained).Undisturbed
      (.advance .empty 1003) := by
  have hchecked : (@Daemon.after Sha256.fips sampleEd25519 samplePath true sampleDrained).drain.all
        (·.event.authEpoch == 2) = true ∧
      (@Daemon.after Sha256.fips sampleEd25519 samplePath true sampleDrained).authority.members.any
        (2 < ·.authEpoch) = false := by
    rw [Sha256.fips_eq]
    decide +kernel
  generalize @Daemon.after Sha256.fips sampleEd25519 samplePath true sampleDrained = d at hchecked ⊢
  obtain ⟨hevents, hmembers⟩ := hchecked
  intro event rest hdrain _ m hm _
  rw [hdrain] at hevents
  have hm := Table.any_eq_false.mp hmembers m hm
  simp only [List.all_cons, Bool.and_eq_true, beq_iff_eq, DrainStep.event,
    decide_eq_false_iff_not] at hevents hm
  left
  omega

theorem sampleDrained_undisturbed (before : List Event) (event : Event) (later : List Event)
    (h : sampleDrained ++ [.advance .empty 1003] = before ++ event :: later) :
    (@Daemon.after Sha256.fips sampleEd25519 samplePath true before).Undisturbed event := by
  simp only [sampleDrained, List.cons_append, List.nil_append] at h
  rcases before with _ | ⟨a, _ | ⟨b, _ | ⟨c, _ | ⟨d, _ | ⟨e, _ | ⟨f, rest⟩⟩⟩⟩⟩⟩
  iterate 5
    · cases h
      trivial
  · cases h
    exact sampleDrained_notReturned
  · simp at h

theorem revocation_replay_sample :
    ∃ n, (@Daemon.after Sha256.fips sampleEd25519 samplePath true
      (sampleDrained ++ [.advance .empty 1003] ++
      .drainOutbox :: List.replicate n (.advance .empty 1003))).drain = [] := by
  obtain ⟨-, -, hdrains, -⟩ := @revocation_replay Sha256.fips sampleEd25519 samplePath true
    (sampleDrained ++ [.advance .empty 1003]) sampleDrained_undisturbed
  obtain ⟨n, hempty, -⟩ := hdrains .empty 1003
  exact ⟨n, hempty⟩

end Neoth.Authority
