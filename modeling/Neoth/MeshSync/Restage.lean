import Neoth.MeshSync.Delivery

/-!
# Staging a content again

The sender knows a content by the digest of its envelope and gives it its old number
back; the receiver knows a delivery by the digest of the whole frame.  Between the two
lies the vector clock, which every staging ticks, so a frame staged again is never the
frame that was committed (`restaged_clock_lt`).  Short of a collision of the hash, the
receiver refuses it for ever, and the sender's one pending slot stays taken
(`restaged_acked_iff`, `restaged_frame_refused`).
-/

open Std Lib.Transaction Lib.TreeMap Lib.Machine

namespace Neoth.MeshSync

section Restage
variable [Sha256] [SerdeJson] [UnicodeText]

/-- The receiver answers the frame with an acknowledgement. -/
def Mesh.Acks (s : Mesh) (origin : PeerPubkey) (frame : GossipFrame) (policy : GossipPolicy)
    (now : Int) : Prop :=
  Acknowledges (persistInbound s.receiver.around origin frame policy now s.receiver.inbox
    s.receiver.frontier)

/-- The frame and the one that was committed under its number are different texts with one
SHA-256 digest. -/
def Mesh.Collides (s : Mesh) (frame : GossipFrame) : Prop :=
  ∃ committed receipt, s.receiver.inbox.receipts[frame.eventSeq]? = some receipt ∧
    receipt.frameSha256 = some (canonicalFrameSha256 committed) ∧
    committed.toJson ≠ frame.toJson ∧ canonicalFrameSha256 committed = canonicalFrameSha256 frame

variable {origin peer : PeerPubkey} {s : Mesh} {outbox' : Outbox} {frontier' : VectorClock}
  {views : Views} {eventType eventSubtype : UInt8} {raw : List UInt8} {next : GossipWalCursor}
  {policy : GossipPolicy} {frame : GossipFrame}

omit [UnicodeText] in
/-- A staged frame has a later clock than every frame before it, so it is none of them. -/
theorem restaged_clock_lt (h : Linked origin peer s.core)
    (hstaging : Staging origin s.sender.outbox s.sender.frontier views eventType eventSubtype
      raw next policy outbox' frontier' frame) {sent : GossipFrame} (hsent : sent ∈ s.wire) :
    sent.vectorClock.counterOf origin < frame.vectorClock.counterOf origin ∧
      sent.toJson ≠ frame.toJson := by
  obtain ⟨-, -, -, -, -, -, htick⟩ := hstaging.fields
  have hle := h.wire_clock sent hsent
  have hlt : sent.vectorClock.counterOf origin < frame.vectorClock.counterOf origin := by
    rw [htick]
    exact Nat.lt_succ_of_le hle
  refine ⟨hlt, ?_⟩
  intro htext
  rw [toJson_vectorClock_inj htext] at hlt
  exact Nat.lt_irrefl _ hlt

omit [UnicodeText] in
/-- What is staged under an old number is committed: nothing else is pending. -/
theorem restaged_committed (h : Linked origin peer s.core)
    (hpending : s.sender.outbox.pending = none)
    (hreused : frame.eventSeq ∈ s.sender.outbox.localEvents) :
    frame.eventSeq < s.receiver.inbox.nextExpected ∧ ∃ committed ∈ s.wire, ∃ receipt,
      s.receiver.inbox.receipts[frame.eventSeq]? = some receipt ∧
      committed.eventSeq = frame.eventSeq ∧ receipt.contentSha256 = committed.contentSha256 ∧
      receipt.frameSha256 = some (canonicalFrameSha256 committed) := by
  have hlt := h.le_nextExpected hreused hpending
  obtain ⟨receipt, hreceipt⟩ :=
    exists_getElem?_of_mem (h.inbox_wf.mem_receipts.mpr ⟨h.one_le hreused, hlt⟩)
  obtain ⟨committed, hwire, hseq, hdigest, hframe⟩ := h.receipt_wire _ _ hreceipt
  exact ⟨hlt, committed, hwire, receipt, hreceipt, hseq, hdigest, hframe⟩

/-- A frame below the expected number is acknowledged exactly when it passes the stateless
checks and is the frame of the receipt. -/
theorem acks_of_lt_nextExpected (h : Linked origin peer s.core)
    (hlt : frame.eventSeq < s.receiver.inbox.nextExpected) {receipt : Receipt} {stored : Digest}
    (hreceipt : s.receiver.inbox.receipts[frame.eventSeq]? = some receipt)
    (hcontent : receipt.contentSha256 = frame.contentSha256)
    (hframe : receipt.frameSha256 = some stored)
    (hmerge : ∃ merged, mergeVectorFrontier s.receiver.frontier origin frame.vectorClock =
      .ok merged)
    (now : Int) :
    s.Acks origin frame policy now ↔
      (∃ eventType, checkInbound origin frame policy now = .ok (.passed eventType)) ∧
        stored = canonicalFrameSha256 frame := by
  have hpos := h.inbox_wf.pos
  have hbranch : ∀ eventType, commitInbound s.receiver.around origin frame eventType
      s.receiver.inbox s.receiver.frontier =
      answerDuplicate origin frame s.receiver.inbox s.receiver.frontier := by
    intro eventType
    unfold commitInbound
    rw [if_neg (Nat.lt_asymm hlt), if_pos hlt]
    simp [require, show 0 < s.receiver.inbox.nextExpected from hpos, bind, Except.bind]
  unfold Mesh.Acks
  rw [acknowledges_persistInbound_iff]
  constructor
  · rintro ⟨eventType, hchecked, after, commit, ack, hcommit, -⟩
    rw [hbranch] at hcommit
    obtain ⟨-, -, -, receipt', hreceipt', -, hstored⟩ := answerDuplicate_spec hcommit
    cases hreceipt.symm.trans hreceipt'
    rw [hframe] at hstored
    rcases hstored with hstored | hstored
    · cases hstored
    · exact ⟨⟨eventType, hchecked⟩, Option.some.inj hstored⟩
  · rintro ⟨⟨eventType, hchecked⟩, rfl⟩
    obtain ⟨merged, hmerge⟩ := hmerge
    refine ⟨eventType, hchecked, (s.receiver.inbox, merged), .duplicate frame.ack, frame.ack,
      ?_, rfl⟩
    rw [hbranch]
    unfold answerDuplicate
    simp only [bind_eq_ok_iff, context_eq_ok_iff, require_eq_ok_iff]
    refine ⟨receipt, hreceipt, (), by rw [hcontent]; exact beq_self_eq_true _, ?_⟩
    rw [hframe]
    simp only [bind_eq_ok_iff, require_eq_ok_iff]
    exact ⟨(), beq_self_eq_true _, merged, hmerge, rfl⟩

/-- A receipt stays what it is. -/
theorem receipt_step (h : Linked origin peer s.core) (action : Action) {k : Nat} {receipt : Receipt}
    (hk : s.receiver.inbox.receipts[k]? = some receipt) :
    (s.step origin peer action).1.receiver.inbox.receipts[k]? = some receipt := by
  cases action with
  | deliver index policy now =>
    unfold Mesh.step Mesh.deliver
    dsimp only
    split
    · exact hk
    · split
      · exact hk
      · rename_i inbox frontier commit hpersist
        rcases (persistInbound_spec hpersist).2 with ⟨rfl, -⟩ | ⟨-, eventType, hcommits⟩
        · exact hk
        · obtain ⟨stored, hreceipts⟩ := hcommits.receipts
          have hlt : k < s.receiver.inbox.nextExpected :=
            (h.inbox_wf.mem_receipts.mp (mem_of_getElem? hk)).2
          have hexpected := hcommits.expected
          dsimp only
          rw [hreceipts, getElem?_insert_of_ne _ (by omega)]
          exact hk
  | _ =>
    unfold Mesh.step
    dsimp only [Mesh.load, Mesh.openScan, Mesh.scan, Mesh.settle, Mesh.idle, Mesh.stage,
      Mesh.acknowledge, Mesh.senderReceives, Mesh.receiverStages]
    repeat' split
    all_goals exact hk

theorem receipt_run (h : Linked origin peer s.core) (later : List Action) {k : Nat}
    {receipt : Receipt} (hk : s.receiver.inbox.receipts[k]? = some receipt) :
    Linked origin peer (s.after origin peer later).core ∧
      (s.after origin peer later).receiver.inbox.receipts[k]? = some receipt :=
  run_invariant
    (P := fun s : Mesh => Linked origin peer s.core ∧ s.receiver.inbox.receipts[k]? = some receipt)
    (fun _ action hs => ⟨hs.1.step action, receipt_step hs.1 action hs.2⟩) s ⟨h, hk⟩ later

/-- **A content that is staged again is not acknowledged.**  In every state the two nodes can
reach, a frame staged under the number its content already has is of committed content; and
then and ever after the receiver acknowledges it if and only if the hash fails to tell it from
the frame that was committed. -/
theorem restaged_acked_iff (origin peer : PeerPubkey) (wal : Wal) (views₀ : Views)
    (around : Surroundings) (actions : List Action) {views : Views} {eventType eventSubtype : UInt8}
    {raw : List UInt8} {next : GossipWalCursor} {policy : GossipPolicy} {outbox' : Outbox}
    {frontier' : VectorClock} {frame : GossipFrame}
    (staged : stageFrame origin
      ((Mesh.start wal views₀ around).after origin peer actions).sender.outbox
      ((Mesh.start wal views₀ around).after origin peer actions).sender.frontier views eventType
      eventSubtype raw next policy = .ok ((outbox', frontier'), ⟨frame, false⟩))
    (reused : frame.eventSeq ∈
      ((Mesh.start wal views₀ around).after origin peer actions).sender.outbox.localEvents)
    (later : List Action) (policy' : GossipPolicy) (now : Int) :
    frame.eventSeq ∈
        ((Mesh.start wal views₀ around).after origin peer actions).receiver.inbox.receipts ∧
      ((((Mesh.start wal views₀ around).after origin peer actions).after origin peer later).Acks
          origin frame policy' now ↔
        (∃ passed, checkInbound origin frame policy' now = .ok (.passed passed)) ∧
          (((Mesh.start wal views₀ around).after origin peer actions).after origin peer
            later).Collides frame) := by
  have h : Linked origin peer ((Mesh.start wal views₀ around).after origin peer actions).core :=
    Linked.run wal views₀ around actions
  generalize (Mesh.start wal views₀ around).after origin peer actions = s at h staged reused
  rcases stageFrame_spec staged with ⟨_, -, -, -, hreplayed⟩ | ⟨hpending, -, hstaging⟩
  · cases hreplayed
  · obtain ⟨-, committed, hwire, receipt, hreceipt, hseq, hcontent, hframe⟩ :=
      restaged_committed h hpending reused
    obtain ⟨-, -, hclock, -, -, -, htick⟩ := hstaging.fields
    have hsame : committed.contentSha256 = frame.contentSha256 := by
      obtain ⟨n, hn⟩ := h.numbered
      have hlocal := h.wire_local committed hwire
      rw [hseq] at hlocal
      have hentry := hlocal.symm.trans (allocateSequence_reused hn hstaging.allocated reused)
      exact (LocalEvent.mk.inj (Option.some.inj hentry)).1
    obtain ⟨hlinked, hstays⟩ := receipt_run h later hreceipt
    have hlt : frame.eventSeq < (s.after origin peer later).receiver.inbox.nextExpected :=
      (hlinked.inbox_wf.mem_receipts.mp (mem_of_getElem? hstays)).2
    have hmerge := hlinked.merge_ok frame.vectorClock (hclock ▸ hstaging.valid)
      (hclock ▸ hstaging.bounded) (by rw [htick]; exact Nat.succ_pos _)
    refine ⟨mem_of_getElem? hreceipt, ?_⟩
    rw [acks_of_lt_nextExpected hlinked hlt hstays (hcontent.trans hsame) hframe hmerge]
    refine and_congr_right fun _ => ?_
    constructor
    · intro hdigest
      exact ⟨committed, receipt, hstays, hframe, (restaged_clock_lt h hstaging hwire).2, hdigest⟩
    · rintro ⟨other, receipt', hreceipt', hframe', -, hdigest⟩
      cases hstays.symm.trans hreceipt'
      rw [Option.some.inj (hframe.symm.trans hframe')]
      exact hdigest

end Restage

/-! ## Two carriers -/

/-- Two carriers find the same event; the first stages it, and it is delivered and acknowledged. -/
def sampleRace : List Action := [
  .write daemonSegment (sampleEvent 1700000000), .load 0 samplePolicy, .load 1 samplePolicy,
  .openScan 0, .openScan 1, .scan 0, .scan 1, .settle 0, .deliver 0 samplePolicy 1700000001,
  .acknowledge 0]

def sampleRaced : Mesh :=
  @Mesh.after Sha256.fips sampleJson sampleText "peer-a" "peer-b"
    (.start ∅ sampleViews sampleAround) sampleRace

/-- The second carrier stages its event. -/
def sampleRestaging : Except String ((Outbox × VectorClock) × PreparedFrame) :=
  @stageFrame Sha256.fips sampleJson "peer-a" sampleRaced.sender.outbox sampleRaced.sender.frontier
    sampleViews 0x13 0 (sampleEvent 1700000000) ⟨some daemonSegment, 106⟩ samplePolicy

theorem sampleRestaging_refused : ∃ outbox' frontier' frame,
    sampleRestaging = .ok ((outbox', frontier'), ⟨frame, false⟩) ∧
    frame.eventSeq ∈ sampleRaced.sender.outbox.localEvents ∧
    frame.eventSeq ∈ sampleRaced.receiver.inbox.receipts ∧
    @persistInbound Sha256.fips sampleJson sampleText sampleRaced.receiver.around "peer-a" frame
        samplePolicy 1700000001 sampleRaced.receiver.inbox sampleRaced.receiver.frontier =
      .error "replayed mesh sequence carries a different canonical frame" := by
  obtain ⟨⟨⟨outbox', frontier'⟩, ⟨frame, replayed⟩⟩, hstaged, hchecks⟩ :=
    exists_ok_of_any (x := sampleRestaging) (p := fun r =>
      !r.2.replayedPending && sampleRaced.sender.outbox.localEvents.contains r.2.frame.eventSeq &&
        sampleRaced.receiver.inbox.receipts.contains r.2.frame.eventSeq &&
        decide (@persistInbound Sha256.fips sampleJson sampleText sampleRaced.receiver.around
          "peer-a" r.2.frame samplePolicy 1700000001 sampleRaced.receiver.inbox
          sampleRaced.receiver.frontier =
            .error "replayed mesh sequence carries a different canonical frame"))
      (by
        unfold sampleRestaging sampleRaced
        rw [Sha256.fips_eq]
        decide +kernel)
  simp only [Bool.and_eq_true, Bool.not_eq_true', decide_eq_true_eq] at hchecks
  obtain ⟨⟨⟨rfl, hreused⟩, hcommitted⟩, hrefused⟩ := hchecks
  exact ⟨outbox', frontier', frame, hstaged, ExtTreeMap.mem_iff_contains.mpr hreused,
    ExtTreeMap.mem_iff_contains.mpr hcommitted, hrefused⟩

/-- **The second carrier wedges the peer.**  Its frame goes by a number that is committed, and
the receiver answers with an error. -/
theorem restaged_frame_refused : ∃ outbox' frontier' frame,
    sampleRestaging = .ok ((outbox', frontier'), ⟨frame, false⟩) ∧
    frame.eventSeq ∈ sampleRaced.sender.outbox.localEvents ∧
    frame.eventSeq ∈ sampleRaced.receiver.inbox.receipts ∧
    ¬ @Mesh.Acks Sha256.fips sampleJson sampleText sampleRaced "peer-a" frame samplePolicy
      1700000001 := by
  obtain ⟨outbox', frontier', frame, hstaged, hreused, hcommitted, hrefused⟩ :=
    sampleRestaging_refused
  exact ⟨outbox', frontier', frame, hstaged, hreused, hcommitted,
    not_acknowledges_of_error hrefused⟩

theorem restaged_acked_iff_second_carrier : ∃ outbox' frontier' frame,
    sampleRestaging = .ok ((outbox', frontier'), ⟨frame, false⟩) ∧
    frame.eventSeq ∈ sampleRaced.receiver.inbox.receipts ∧
    (@Mesh.Acks Sha256.fips sampleJson sampleText
        (@Mesh.after Sha256.fips sampleJson sampleText "peer-a" "peer-b" sampleRaced [])
          "peer-a" frame
        samplePolicy 1700000001 ↔
      (∃ passed, @checkInbound Sha256.fips "peer-a" frame samplePolicy 1700000001 =
        .ok (.passed passed)) ∧
      @Mesh.Collides Sha256.fips
        (@Mesh.after Sha256.fips sampleJson sampleText "peer-a" "peer-b" sampleRaced [])
          frame) := by
  obtain ⟨outbox', frontier', frame, hstaged, hreused, -⟩ := sampleRestaging_refused
  refine ⟨outbox', frontier', frame, hstaged, ?_⟩
  unfold sampleRestaging sampleRaced at hstaged
  unfold sampleRaced at hreused ⊢
  exact @restaged_acked_iff Sha256.fips sampleJson sampleText "peer-a" "peer-b" ∅ sampleViews
    sampleAround sampleRace sampleViews 0x13 0 (sampleEvent 1700000000) ⟨some daemonSegment, 106⟩
    samplePolicy outbox' frontier' frame hstaged hreused [] samplePolicy 1700000001

end Neoth.MeshSync
