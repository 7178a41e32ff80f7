import Neoth.MeshSync.Restage

/-!
# What the receiver accepts of what the sender stages

Sender and receiver check a frame with different code.  `staged_acked_iff` says where they
agree: of the frames that are staged, an in-order receiver with the same policy
acknowledges exactly those of `Acceptable` events.  The sender checks neither the age of an
event nor the limits of its row, so a frame that is not acceptable stays at the head of the
line (`staged_frame_dropped`).
-/

open Std Lib.Encoding Lib.Transaction Lib.TreeMap

namespace Neoth.MeshSync

section Agreement
variable [Sha256] [SerdeJson] [UnicodeText]

/-- The event lies within the replay budget, its row keeps the receiver's limits, and there is
a number after the one it goes by. -/
def Acceptable (policy : GossipPolicy) (now : Int) (views : Views) (raw : List UInt8)
    (expected : Nat) : Prop :=
  (∀ seconds, gossipPayloadTimestampUnix raw = some seconds →
      (ReplayBudget.fromPolicy policy).isWithinBudget seconds now = true) ∧
    (∀ d, IsFrame raw d → RowWithinLimits views d) ∧ expected + 1 < 2 ^ 63

variable {origin peer : PeerPubkey} {s : Mesh} {views : Views} {eventType eventSubtype : UInt8}
  {raw : List UInt8} {next : GossipWalCursor} {policy : GossipPolicy} {outbox' : Outbox}
  {frontier' : VectorClock} {frame : GossipFrame}

omit [UnicodeText] in
/-- The stateless checks of a staged frame come down to its age and its row. -/
theorem checkInbound_staged_iff
    (hstaging : Staging origin s.sender.outbox s.sender.frontier views eventType eventSubtype
      raw next policy outbox' frontier' frame) (hpos : 0 < frame.eventSeq) {d : DecodedFrame}
    (hframe : IsFrame raw d) (now : Int) (passed : UInt8) :
    checkInbound origin frame policy now = .ok (.passed passed) ↔
      passed = d.header.eventType ∧
        (ReplayBudget.fromPolicy policy).isWithinBudget frame.timestampUnix now = true ∧
        RowWithinLimits views d := by
  obtain ⟨hversion, horigin, hclock, hdigest, htag, rfl, htick⟩ := hstaging.fields
  have hmaterialized := hstaging.materialized
  have hshape := validateContentShape_iff hmaterialized hframe
  obtain ⟨d', content, hframe', rfl, rfl, -, henvelope⟩ := materializeEnvelope_spec hmaterialized
  cases hframe.1.symm.trans hframe'.1
  have henvelopeVersion : frame.envelope.version = syncEnvelopeVersion := by rw [henvelope]
  have hsize : frame.vectorClock.size ≤ maxVectorClockPeers := hclock ▸ hstaging.bounded
  have hcounter : 0 < frame.vectorClock.counterOf origin := by
    rw [htick]
    exact Nat.succ_pos _
  rw [checkInbound_eq_passed_iff, evaluateAcceptance_eq_accept_iff,
    gossipPayloadEventMeta_of_isFrame hframe]
  constructor
  · rintro ⟨-, -, -, -, ⟨-, -, -, -, hbudget⟩, subtype, hmeta, -, -, hvalid⟩
    cases hmeta
    exact ⟨rfl, hbudget, hshape.mp hvalid⟩
  · rintro ⟨rfl, hbudget, hlimits⟩
    exact ⟨hsize, horigin, hpos, hcounter,
      ⟨hversion, henvelopeVersion, hdigest, htag, hbudget⟩, d.header.eventSubtype, rfl,
      hstaging.timestamp, hstaging.replicable, hshape.mpr hlimits⟩

/-- **Agreement.**  In every state the two nodes can reach, a staged frame that is the next one
the receiver expects is acknowledged, under the sender's policy and at any time, if and only if
its event is acceptable. -/
theorem staged_acked_iff (origin peer : PeerPubkey) (wal : Wal) (views₀ : Views)
    (around : Surroundings) (actions : List Action) {views : Views} {eventType eventSubtype : UInt8}
    {raw : List UInt8} {next : GossipWalCursor} {policy : GossipPolicy} {outbox' : Outbox}
    {frontier' : VectorClock} {frame : GossipFrame}
    (staged : stageFrame origin
      ((Mesh.start wal views₀ around).after origin peer actions).sender.outbox
      ((Mesh.start wal views₀ around).after origin peer actions).sender.frontier views eventType
      eventSubtype raw next policy = .ok ((outbox', frontier'), ⟨frame, false⟩))
    (in_order : ((Mesh.start wal views₀ around).after origin peer
      actions).receiver.inbox.nextExpected = frame.eventSeq) (now : Int) :
    ((Mesh.start wal views₀ around).after origin peer actions).Acks origin frame policy now ↔
      Acceptable policy now views raw
        ((Mesh.start wal views₀ around).after origin peer actions).receiver.inbox.nextExpected := by
  have h : Linked origin peer ((Mesh.start wal views₀ around).after origin peer actions).core :=
    Linked.run wal views₀ around actions
  generalize (Mesh.start wal views₀ around).after origin peer actions = s at h staged in_order
  rcases stageFrame_spec staged with ⟨_, -, -, -, hreplayed⟩ | ⟨-, -, hstaging⟩
  · cases hreplayed
  · have hpos : 0 < frame.eventSeq := in_order ▸ h.inbox_wf.pos
    obtain ⟨d, hframe⟩ := isFrame_of_gossipPayloadTimestampUnix hstaging.timestamp
    obtain ⟨-, -, hclock, -, -, hpayload, htick⟩ := hstaging.fields
    have hmerge :=
      h.merge_ok frame.vectorClock (hclock ▸ hstaging.valid) (hclock ▸ hstaging.bounded)
      (by rw [htick]; exact Nat.succ_pos _)
    have hcommit := commitInbound_expected s.receiver.around h.inbox_wf in_order.symm
      (hpayload.symm ▸ hframe) hmerge
    unfold Mesh.Acks Acceptable
    rw [acknowledges_persistInbound_iff, in_order, ← hcommit]
    constructor
    · rintro ⟨passed, hchecked, hacked⟩
      obtain ⟨rfl, hbudget, hlimits⟩ :=
        (checkInbound_staged_iff hstaging hpos hframe now _).mp hchecked
      refine ⟨?_, ?_, hacked⟩
      · intro seconds hseconds
        cases hstaging.timestamp.symm.trans hseconds
        exact hbudget
      · intro d' hframe'
        cases hframe.1.symm.trans hframe'.1
        exact hlimits
    · rintro ⟨hbudget, hlimits, hacked⟩
      exact ⟨d.header.eventType, (checkInbound_staged_iff hstaging hpos hframe now _).mpr
        ⟨rfl, hbudget _ hstaging.timestamp, hlimits d hframe⟩, hacked⟩

end Agreement

/-! ## An event that is too old -/

/-- An event is found that the receiver will see thirty-one days after it happened. -/
def sampleScan : List Action := [
  .write daemonSegment (sampleEvent 1600000000), .load 0 samplePolicy, .openScan 0, .scan 0]

def sampleScanned : Mesh :=
  @Mesh.after Sha256.fips sampleJson sampleText "peer-a" "peer-b"
    (.start ∅ sampleViews sampleAround) sampleScan

def sampleStaging : Except String ((Outbox × VectorClock) × PreparedFrame) :=
  @stageFrame Sha256.fips sampleJson "peer-a" sampleScanned.sender.outbox
    sampleScanned.sender.frontier sampleViews 0x13 0 (sampleEvent 1600000000)
    ⟨some daemonSegment, 106⟩ samplePolicy

theorem sampleStaging_dropped : ∃ outbox' frontier' frame,
    sampleStaging = .ok ((outbox', frontier'), ⟨frame, false⟩) ∧
    sampleScanned.receiver.inbox.nextExpected = frame.eventSeq ∧
    (@persistInbound Sha256.fips sampleJson sampleText sampleScanned.receiver.around "peer-a" frame
        samplePolicy 1602678400 sampleScanned.receiver.inbox
        sampleScanned.receiver.frontier).toOption.map (·.2) =
      some (.dropped .droppedOutsideReplayBudget) := by
  obtain ⟨⟨⟨outbox', frontier'⟩, ⟨frame, replayed⟩⟩, hstaged, hchecks⟩ :=
    exists_ok_of_any (x := sampleStaging) (p := fun r =>
      !r.2.replayedPending &&
        decide (sampleScanned.receiver.inbox.nextExpected = r.2.frame.eventSeq) &&
        decide ((@persistInbound Sha256.fips sampleJson sampleText sampleScanned.receiver.around
          "peer-a" r.2.frame samplePolicy 1602678400 sampleScanned.receiver.inbox
          sampleScanned.receiver.frontier).toOption.map (·.2) =
            some (.dropped .droppedOutsideReplayBudget)))
      (by
        unfold sampleStaging sampleScanned
        rw [Sha256.fips_eq]
        decide +kernel)
  simp only [Bool.and_eq_true, Bool.not_eq_true', decide_eq_true_eq] at hchecks
  obtain ⟨⟨rfl, hnext⟩, hdropped⟩ := hchecks
  exact ⟨outbox', frontier', frame, hstaged, hnext, hdropped⟩

/-- **An old event is staged, and dropped.**  The scanner finds it and it is staged as the next
number; the receiver drops it, and will again. -/
theorem staged_frame_dropped :
    sampleScanned.sender.carriers[0]? = some (.scanned samplePolicy
      (some ⟨daemonSegment, 0, 0x13, sampleEvent 1600000000⟩) ⟨some daemonSegment, 106⟩) ∧
    ∃ outbox' frontier' frame, sampleStaging = .ok ((outbox', frontier'), ⟨frame, false⟩) ∧
      sampleScanned.receiver.inbox.nextExpected = frame.eventSeq ∧
      ¬ @Mesh.Acks Sha256.fips sampleJson sampleText sampleScanned "peer-a" frame samplePolicy
        1602678400 := by
  obtain ⟨outbox', frontier', frame, hstaged, hnext, hdropped⟩ := sampleStaging_dropped
  exact ⟨by decide +kernel, outbox', frontier', frame, hstaged, hnext,
    not_acknowledges_of_commit hdropped rfl⟩

theorem staged_acked_iff_old_event : ∃ outbox' frontier' frame,
    sampleStaging = .ok ((outbox', frontier'), ⟨frame, false⟩) ∧
    (@Mesh.Acks Sha256.fips sampleJson sampleText sampleScanned "peer-a" frame samplePolicy
        1602678400 ↔
      @Acceptable sampleJson samplePolicy 1602678400 sampleViews (sampleEvent 1600000000)
        sampleScanned.receiver.inbox.nextExpected) := by
  obtain ⟨outbox', frontier', frame, hstaged, hnext, -⟩ := sampleStaging_dropped
  refine ⟨outbox', frontier', frame, hstaged, ?_⟩
  unfold sampleStaging sampleScanned at hstaged
  unfold sampleScanned at hnext ⊢
  exact @staged_acked_iff Sha256.fips sampleJson sampleText "peer-a" "peer-b" ∅ sampleViews
    sampleAround sampleScan sampleViews 0x13 0 (sampleEvent 1600000000) ⟨some daemonSegment, 106⟩
    samplePolicy outbox' frontier' frame hstaged hnext 1602678400

end Neoth.MeshSync
