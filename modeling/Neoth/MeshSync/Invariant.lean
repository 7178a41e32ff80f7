import Neoth.MeshSync.System

/-!
# What links the two databases

`Linked`: the invariant that relates the sender's sequence table and pending frame, the
messages in flight and the receiver's receipts.  Every frame on the wire carries the
content its number was given; every receipt, stored row and acknowledgement comes from
such a frame; and every number that was given out is committed or pending, so that the
sender is never more than one ahead.

* `Linked.step`: every step keeps it, whatever the WAL and the rows do;
* `Linked.run`: it holds in every state reached.
-/

open Std Lib.Transaction Lib.TreeMap Lib.Machine

namespace Neoth.MeshSync

/-- The part of the state the invariant is about. -/
structure Core where
  localEvents : ExtTreeMap Nat LocalEvent
  pending : Option PendingRow
  sent : VectorClock
  wire : List GossipFrame
  acks : List GossipAck
  history : List Staged
  inbox : Inbox
  seen : VectorClock

def Mesh.core (s : Mesh) : Core :=
  ⟨s.sender.outbox.localEvents, s.sender.outbox.pending, s.sender.frontier, s.wire, s.acks,
    s.history, s.receiver.inbox, s.receiver.frontier⟩

section
variable [Sha256] [SerdeJson]

/-- The record of a staging says what was materialised, and from which event. -/
def Staged.Genuine (r : Staged) : Prop :=
  ∃ d, IsFrame r.found.raw d ∧
    materializeEnvelope r.views d.header.eventType d.header.eventSubtype r.found.raw
      r.frame.timestampUnix r.policy = .ok r.frame.envelope ∧
    r.frame.contentSha256 = r.frame.envelope.contentSha256

structure Linked (origin peer : PeerPubkey) (c : Core) : Prop where
  /-- Numbers are given out from one on, without a gap. -/
  numbered : ∃ n, keySet c.localEvents = Set.Icc 1 n
  pending_wire : ∀ p, c.pending = some p →
    p.wireFrame ∈ c.wire ∧ p.originSeq = p.wireFrame.eventSeq ∧
      p.contentSha256 = p.wireFrame.contentSha256
  wire_local : ∀ f ∈ c.wire,
    c.localEvents[f.eventSeq]? = some (LocalEvent.mk f.contentSha256 f.envelope)
  wire_clock : ∀ f ∈ c.wire, f.vectorClock.counterOf origin ≤ c.sent.counterOf origin
  settled : ∀ k ∈ c.localEvents, k < c.inbox.nextExpected ∨
    ∃ p, c.pending = some p ∧ p.originSeq = k
  history_wire : ∀ r ∈ c.history, r.frame ∈ c.wire ∧ r.Genuine
  recorded : ∀ k ∈ c.localEvents, ∃ r ∈ c.history, r.frame.eventSeq = k
  inbox_wf : c.inbox.WellFormed
  receipt_wire : ∀ (k : Nat) (receipt : Receipt), c.inbox.receipts[k]? = some receipt →
    ∃ f ∈ c.wire, f.eventSeq = k ∧ receipt.contentSha256 = f.contentSha256 ∧
      receipt.frameSha256 = some (canonicalFrameSha256 f)
  foreign_wire : ∀ (k : Nat) (row : ForeignEvent), c.inbox.foreign[k]? = some row →
    ∃ f ∈ c.wire, f.eventSeq = k ∧ row.contentSha256 = f.contentSha256 ∧ row.envelope = f.envelope
  acked : ∀ a ∈ c.acks, a.originSeq < c.inbox.nextExpected
  /-- The receiver's frontier knows the two ends, and nobody else. -/
  seen_known : ∀ p ∈ c.seen, p = origin ∨ p = peer
  seen_valid : c.seen.Valid

end

/-! ## Each kind of step -/

section Steps
variable [Sha256] [SerdeJson] {origin peer : PeerPubkey} {c : Core}

theorem Linked.start (wal : Wal) (views : Views) (around : Surroundings) :
    Linked origin peer (Mesh.start wal views around).core where
  numbered := ⟨0, by
    show keySet (∅ : ExtTreeMap Nat LocalEvent) = Set.Icc 1 0
    rw [keySet_empty, eq_comm]
    exact Set.Icc_eq_empty (by decide)⟩
  pending_wire p hp := by cases hp
  wire_local f hf := by cases hf
  wire_clock f hf := by cases hf
  settled k hk := absurd hk ExtTreeMap.not_mem_empty
  history_wire r hr := by cases hr
  recorded k hk := absurd hk ExtTreeMap.not_mem_empty
  inbox_wf := .empty
  receipt_wire k receipt h := by cases ExtTreeMap.getElem?_empty.symm.trans h
  foreign_wire k row h := by cases ExtTreeMap.getElem?_empty.symm.trans h
  acked a ha := by cases ha
  seen_known p hp := absurd hp ExtTreeMap.not_mem_empty
  seen_valid p n h := by cases ExtTreeMap.getElem?_empty.symm.trans h

/-- A frame goes by a number that was given out. -/
theorem Linked.wire_mem (h : Linked origin peer c) {f : GossipFrame} (hf : f ∈ c.wire) :
    f.eventSeq ∈ c.localEvents :=
  mem_of_getElem? (h.wire_local f hf)

theorem Linked.one_le (h : Linked origin peer c) {k : Nat} (hk : k ∈ c.localEvents) : 1 ≤ k := by
  obtain ⟨n, hn⟩ := h.numbered
  rw [← mem_keySet, hn, Set.mem_Icc] at hk
  exact hk.1

/-- A frame that was sent may be sent again. -/
theorem Linked.send (h : Linked origin peer c) {f : GossipFrame} (hf : f ∈ c.wire) :
    Linked origin peer { c with wire := f :: c.wire } where
  numbered := h.numbered
  pending_wire p hp := by
    obtain ⟨hwire, heqs⟩ := h.pending_wire p hp
    exact ⟨List.mem_cons_of_mem _ hwire, heqs⟩
  wire_local := List.forall_mem_cons.mpr ⟨h.wire_local f hf, h.wire_local⟩
  wire_clock := List.forall_mem_cons.mpr ⟨h.wire_clock f hf, h.wire_clock⟩
  settled := h.settled
  history_wire r hr := ⟨List.mem_cons_of_mem _ (h.history_wire r hr).1, (h.history_wire r hr).2⟩
  recorded := h.recorded
  inbox_wf := h.inbox_wf
  receipt_wire k receipt hk := by
    obtain ⟨g, hg, heqs⟩ := h.receipt_wire k receipt hk
    exact ⟨g, List.mem_cons_of_mem _ hg, heqs⟩
  foreign_wire k row hk := by
    obtain ⟨g, hg, heqs⟩ := h.foreign_wire k row hk
    exact ⟨g, List.mem_cons_of_mem _ hg, heqs⟩
  acked := h.acked
  seen_known := h.seen_known
  seen_valid := h.seen_valid

/-- The sender's own counter never goes back. -/
theorem Linked.raise (h : Linked origin peer c) {sent : VectorClock}
    (hle : c.sent.counterOf origin ≤ sent.counterOf origin) :
    Linked origin peer { c with sent := sent } :=
  { h with wire_clock := fun f hf => (h.wire_clock f hf).trans hle }

theorem Linked.forget (h : Linked origin peer c) (seq : Nat) :
    Linked origin peer { c with inbox.foreign := c.inbox.foreign.erase seq } := by
  have hold : ∀ (k : Nat) (row : ForeignEvent), (c.inbox.foreign.erase seq)[k]? = some row →
      c.inbox.foreign[k]? = some row := by
    intro k row hk
    rw [ExtTreeMap.getElem?_erase] at hk
    split at hk
    · cases hk
    · exact hk
  refine { h with inbox_wf := { h.inbox_wf with foreign := ?_ }, foreign_wire := ?_ }
  · intro k hk
    exact h.inbox_wf.foreign k (ExtTreeMap.mem_of_mem_erase hk)
  · intro k row hk
    exact h.foreign_wire k row (hold k row hk)

/-- The slot of an acknowledged frame is free again. -/
theorem Linked.acknowledge (h : Linked origin peer c) {ack : GossipAck} (hack : ack ∈ c.acks)
    {p : PendingRow} (hp : c.pending = some p) (hseq : ack.originSeq = p.originSeq) :
    Linked origin peer { c with pending := none } := by
  refine { h with pending_wire := ?_, settled := ?_ }
  · intro q hq
    cases hq
  intro k hk
  rcases h.settled k hk with hlt | ⟨q, hq, rfl⟩
  · exact .inl hlt
  · cases hp.symm.trans hq
    refine .inl ?_
    rw [← hseq]
    exact h.acked ack hack

/-- A number that was given out is below the next one the receiver expects, or equal to it. -/
theorem Linked.le_nextExpected (h : Linked origin peer c) {k : Nat} (hk : k ∈ c.localEvents)
    (hpending : c.pending = none) : k < c.inbox.nextExpected := by
  rcases h.settled k hk with hlt | ⟨p, hp, -⟩
  · exact hlt
  · cases hpending.symm.trans hp

theorem Linked.stage (h : Linked origin peer c) {found : Found} {policy : GossipPolicy}
    {views : Views} {eventSubtype : UInt8} {next : GossipWalCursor} {outbox outbox' : Outbox}
    {frontier' : VectorClock} {frame : GossipFrame} (hlocal : outbox.localEvents = c.localEvents)
    (hpending : c.pending = none)
    (hstaging : Staging origin outbox c.sent views found.eventType eventSubtype found.raw
      next policy outbox' frontier' frame) :
    Linked origin peer { c with
      localEvents := outbox'.localEvents
      pending := outbox'.pending
      sent := frontier'
      wire := frame :: c.wire
      history := ⟨found, policy, views, frame⟩ :: c.history } := by
  obtain ⟨-, -, hclock, hdigest, -, -, htick⟩ := hstaging.fields
  rw [hclock] at htick
  -- both branches of the allocation keep what was there and file the content under its number
  have hallocated : (∃ n, keySet outbox'.localEvents = Set.Icc 1 n) ∧
      outbox'.localEvents[frame.eventSeq]? =
        some (LocalEvent.mk frame.contentSha256 frame.envelope) ∧
      (∀ (k : Nat) (event : LocalEvent), c.localEvents[k]? = some event →
        outbox'.localEvents[k]? = some event) ∧
      ∀ k ∈ outbox'.localEvents, k = frame.eventSeq ∨ k ∈ c.localEvents := by
    obtain ⟨n, hn⟩ := h.numbered
    have hspec := allocateSequence_spec hstaging.allocated
    rw [hlocal] at hspec
    rcases hspec with ⟨hsame, -, hget⟩ | ⟨hseq, -, hinsert, -⟩
    · rw [hsame]
      exact ⟨⟨n, hn⟩, hget, fun k event hk => hk, fun k hk => .inr hk⟩
    · rw [lastKey_eq hn] at hseq
      rw [hinsert]
      refine ⟨⟨n + 1, ?_⟩, ExtTreeMap.getElem?_insert_self, ?_, ?_⟩
      · rw [keySet_insert, hn, hseq]
        ext k
        simp only [Set.mem_insert_iff, Set.mem_Icc]
        omega
      · intro k event hk
        have hmem : k ∈ keySet c.localEvents :=
          mem_of_getElem? hk
        rw [hn, Set.mem_Icc] at hmem
        rw [getElem?_insert_of_ne _ (by omega)]
        exact hk
      · intro k hk
        rw [ExtTreeMap.mem_insert, Std.compare_eq_iff_eq] at hk
        exact hk.imp Eq.symm id
  obtain ⟨hnumbered, hget, hkeep, hkeys⟩ := hallocated
  refine {
    numbered := hnumbered
    pending_wire := ?_
    wire_local := List.forall_mem_cons.mpr ⟨hget, fun f hf => hkeep _ _ (h.wire_local f hf)⟩
    wire_clock := List.forall_mem_cons.mpr ⟨by rw [hclock], fun f hf => ?_⟩
    settled := ?_
    history_wire := List.forall_mem_cons.mpr ⟨⟨List.mem_cons_self .., ?_⟩, fun r hr => ?_⟩
    recorded := ?_
    inbox_wf := h.inbox_wf
    receipt_wire := ?_
    foreign_wire := ?_
    acked := h.acked
    seen_known := h.seen_known
    seen_valid := h.seen_valid }
  · intro p hp
    cases hstaging.pending_eq.symm.trans hp
    exact ⟨List.mem_cons_self .., rfl, rfl⟩
  · have := h.wire_clock f hf
    dsimp only
    omega
  · intro k hk
    rcases hkeys k hk with rfl | hold
    · exact .inr ⟨_, hstaging.pending_eq, rfl⟩
    · exact .inl (h.le_nextExpected hold hpending)
  · obtain ⟨d, content, hframe, htype, hsubtype, -, -⟩ :=
      materializeEnvelope_spec hstaging.materialized
    refine ⟨d, hframe, ?_, hdigest⟩
    rw [htype, hsubtype]
    exact hstaging.materialized
  · exact ⟨List.mem_cons_of_mem _ (h.history_wire r hr).1, (h.history_wire r hr).2⟩
  · intro k hk
    rcases hkeys k hk with rfl | hold
    · exact ⟨_, List.mem_cons_self .., rfl⟩
    · obtain ⟨r, hr, hseq⟩ := h.recorded k hold
      exact ⟨r, List.mem_cons_of_mem _ hr, hseq⟩
  · intro k receipt hk
    obtain ⟨g, hg, heqs⟩ := h.receipt_wire k receipt hk
    exact ⟨g, List.mem_cons_of_mem _ hg, heqs⟩
  · intro k row hk
    obtain ⟨g, hg, heqs⟩ := h.foreign_wire k row hk
    exact ⟨g, List.mem_cons_of_mem _ hg, heqs⟩

/-- The receiver's frontier has room for every frame of the sender. -/
theorem Linked.merge_ok (h : Linked origin peer c) (clock : VectorClock) (hvalid : clock.Valid)
    (hsize : clock.size ≤ maxVectorClockPeers) (hpos : 0 < clock.counterOf origin) :
    ∃ merged, mergeVectorFrontier c.seen origin clock = .ok merged := by
  have hknown : c.seen.keys ⊆ [origin, peer] := by
    intro p hp
    have := h.seen_known p (ExtTreeMap.mem_keys.mp hp)
    simpa using this
  have hroom : c.seen.size ≤ 2 := by
    rw [← ExtTreeMap.length_keys]
    exact (ExtTreeMap.nodup_keys.subperm hknown).length_le
  exact mergeVectorFrontier_ok h.seen_valid hvalid hsize hpos (hroom.trans_lt (by decide))

/-- A frontier that knows the two ends goes on doing so when it merges a frame of the sender. -/
theorem Linked.merge (h : Linked origin peer c) {clock merged : VectorClock}
    (hmerge : mergeVectorFrontier c.seen origin clock = .ok merged) :
    Linked origin peer { c with seen := merged } := by
  obtain ⟨-, hkeys, hvalid, -⟩ := mergeVectorFrontier_spec hmerge
  refine { h with seen_known := ?_, seen_valid := hvalid }
  intro p hp
  rcases (hkeys p).mp hp with rfl | hp
  · exact .inl rfl
  · exact h.seen_known p hp

theorem Linked.tick (h : Linked origin peer c) {ticked written : VectorClock}
    (htick : c.seen.tick peer = some ticked)
    (hwritten : persistVectorFrontier ticked = .ok written) :
    Linked origin peer { c with seen := written } := by
  obtain ⟨rfl, -, hvalid⟩ := persistVectorFrontier_eq_ok_iff.mp hwritten
  refine { h with seen_known := ?_, seen_valid := hvalid }
  intro p hp
  rw [VectorClock.tick_eq_some htick, ExtTreeMap.mem_insert, Std.compare_eq_iff_eq] at hp
  rcases hp with rfl | hp
  · exact .inr rfl
  · exact h.seen_known p hp

theorem Linked.commit (h : Linked origin peer c) {frame : GossipFrame} (hf : frame ∈ c.wire)
    {eventType : UInt8} {inbox' : Inbox} (hcommits : Commits frame eventType c.inbox inbox') :
    Linked origin peer { c with inbox := inbox', acks := frame.ack :: c.acks } := by
  have hnext : inbox'.nextExpected = c.inbox.nextExpected + 1 := by
    rw [hcommits.next, hcommits.expected]
  refine { h with
    settled := ?_
    inbox_wf := hcommits.wellFormed h.inbox_wf
    receipt_wire := ?_
    foreign_wire := ?_
    acked := List.forall_mem_cons.mpr ⟨?_, fun a ha => ?_⟩ }
  · intro k hk
    exact (h.settled k hk).imp (fun hlt => by dsimp only; omega) id
  · intro k receipt hk
    obtain ⟨stored, hreceipts⟩ := hcommits.receipts
    rw [hreceipts] at hk
    by_cases e : frame.eventSeq = k
    · subst e
      rw [ExtTreeMap.getElem?_insert_self] at hk
      cases hk
      exact ⟨frame, hf, rfl, rfl, rfl⟩
    · rw [getElem?_insert_of_ne _ e] at hk
      exact h.receipt_wire k receipt hk
  · intro k row hk
    rcases hcommits.foreign with hforeign | hforeign
    · exact h.foreign_wire k row (hforeign ▸ hk)
    · rw [hforeign] at hk
      by_cases e : frame.eventSeq = k
      · subst e
        rw [ExtTreeMap.getElem?_insert_self] at hk
        cases hk
        exact ⟨frame, hf, rfl, rfl, rfl⟩
      · rw [getElem?_insert_of_ne _ e] at hk
        exact h.foreign_wire k row hk
  · show frame.eventSeq < inbox'.nextExpected
    rw [hcommits.next]
    exact Nat.lt_succ_self _
  · have := h.acked a ha
    dsimp only
    omega

theorem Linked.deliver [UnicodeText] (h : Linked origin peer c) {frame : GossipFrame}
    (hf : frame ∈ c.wire) {around : Surroundings} {policy : GossipPolicy} {now : Int}
    {inbox' : Inbox} {seen' : VectorClock} {commit : InboundCommit}
    (hpersist : persistInbound around origin frame policy now c.inbox c.seen =
      .ok ((inbox', seen'), commit)) :
    Linked origin peer { c with
      inbox := inbox', seen := seen', acks := commit.ack.toList ++ c.acks } := by
  obtain ⟨hseen, hcase⟩ := persistInbound_spec hpersist
  have hfrontier : Linked origin peer { c with seen := seen' } := by
    rcases hseen with rfl | hmerge
    · exact h
    · exact h.merge hmerge
  rcases hcase with ⟨rfl, -, hacks⟩ | ⟨rfl, eventType, hcommits⟩
  · refine { hfrontier with acked := ?_ }
    intro a ha
    rcases List.mem_append.mp ha with ha | ha
    · obtain ⟨rfl, receipt, hreceipt, -⟩ := hacks a (Option.mem_toList.mp ha)
      exact (h.inbox_wf.mem_receipts.mp (mem_of_getElem? hreceipt)).2
    · exact h.acked a ha
  · exact hfrontier.commit hf hcommits

end Steps

/-! ## Runs -/

theorem Mesh.openScan_core (s : Mesh) (carrier : Nat) : (s.openScan carrier).1.core = s.core := by
  unfold Mesh.openScan
  repeat' split
  all_goals rfl

theorem Mesh.scan_core (s : Mesh) (carrier : Nat) : (s.scan carrier).1.core = s.core := by
  unfold Mesh.scan
  repeat' split
  all_goals rfl

theorem Mesh.idle_core (s : Mesh) (next : GossipWalCursor) : (s.idle next).1.core = s.core := by
  unfold Mesh.idle
  split
  · rfl
  · rename_i outbox u hidle
    obtain ⟨-, rfl⟩ := persistIdleCursor_spec hidle
    rfl

section Runs
variable [Sha256] [SerdeJson] {origin peer : PeerPubkey} {s : Mesh}

theorem Linked.load_mesh (h : Linked origin peer s.core) (carrier : Nat) (policy : GossipPolicy) :
    Linked origin peer (s.load origin carrier policy).1.core := by
  unfold Mesh.load
  split
  · exact h
  · rename_i frame cursor hload
    obtain ⟨pending, hpending, rfl⟩ := loadState_of_pending hload
    exact h.send (h.pending_wire pending hpending).1
  · exact h

theorem Linked.stage_mesh (h : Linked origin peer s.core) (policy : GossipPolicy) (found : Found)
    (next : GossipWalCursor) : Linked origin peer (s.stage origin policy found next).1.core := by
  unfold Mesh.stage
  split
  · exact h
  · split
    · exact h
    · split
      · exact h
      · rename_i outbox frontier prepared hstage
        rcases stageFrame_spec hstage with ⟨pending, hpending, rfl, rfl, rfl⟩ |
          ⟨hpending, hfresh, hstaging⟩
        · exact h.send (h.pending_wire pending hpending).1
        · rw [hfresh]
          exact h.stage rfl hpending hstaging

theorem Linked.acknowledge_mesh (h : Linked origin peer s.core) (index : Nat) :
    Linked origin peer (s.acknowledge origin index).1.core := by
  unfold Mesh.acknowledge
  split
  · exact h
  · rename_i ack hack
    split
    · exact h
    · rename_i outbox outcome hacknowledge
      rcases acknowledgeOutbound_spec hacknowledge with ⟨rfl, -⟩ |
        ⟨pending, hpending, hmatches, -, hnone, hlocal, -⟩
      · exact h
      · have hfree := h.acknowledge (List.mem_of_getElem? hack) hpending hmatches.2.1
        unfold Mesh.core at hfree ⊢
        dsimp only at hfree ⊢
        rw [hnone, hlocal]
        exact hfree

variable [UnicodeText]

theorem Linked.step (h : Linked origin peer s.core) (action : Action) :
    Linked origin peer (s.step origin peer action).1.core := by
  cases action with
  | write segment bytes => exact h
  | setViews views => exact h
  | load carrier policy => exact h.load_mesh carrier policy
  | openScan carrier => exact (s.openScan_core carrier).symm ▸ h
  | scan carrier => exact (s.scan_core carrier).symm ▸ h
  | settle carrier =>
    unfold Mesh.step Mesh.settle
    have hdrop : Linked origin peer (s.dropCarrier carrier).core := h
    dsimp only
    split
    · exact (Mesh.idle_core _ _).symm ▸ hdrop
    · exact hdrop.stage_mesh _ _ _
    · exact h
  | crash => exact h
  | deliver index policy now =>
    unfold Mesh.step Mesh.deliver
    dsimp only
    split
    · exact h
    · rename_i frame hframe
      split
      · exact h
      · rename_i inbox frontier commit hpersist
        exact h.deliver (List.mem_of_getElem? hframe) hpersist
  | acknowledge index => exact h.acknowledge_mesh index
  | senderReceives clock =>
    unfold Mesh.step Mesh.senderReceives
    dsimp only
    split
    · exact h
    · rename_i frontier hmerge
      exact h.raise ((mergeVectorFrontier_spec hmerge).1 origin)
  | receiverStages =>
    unfold Mesh.step Mesh.receiverStages
    dsimp only
    split
    · exact h
    · rename_i ticked htick
      split
      · exact h
      · rename_i written hwritten
        exact h.tick htick hwritten
  | setSurroundings around => exact h
  | forget seq => exact h.forget seq

/-- The state reached by a run of the two nodes. -/
def Mesh.after (origin peer : PeerPubkey) (s : Mesh) (actions : List Action) : Mesh :=
  (run (Mesh.step origin peer) s actions).1

/-- **The databases stay linked.**  Whatever is lost, repeated or reordered, whatever the
carriers, the writers and the operators do. -/
theorem Linked.run (wal : Wal) (views : Views) (around : Surroundings) (actions : List Action) :
    Linked origin peer ((Mesh.start wal views around).after origin peer actions).core :=
  run_invariant (P := fun s : Mesh => Linked origin peer s.core) (fun _ action h => h.step action) _
    (.start wal views around) actions

end Runs

end Neoth.MeshSync
