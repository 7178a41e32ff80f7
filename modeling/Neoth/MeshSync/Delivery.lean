import Neoth.MeshSync.Coverage

/-!
# Delivery, in order and exactly once

What the durable sync is for, over every run of the two nodes: the receiver commits
`1, 2, 3, …` without a gap (`committed_in_order`), each number with the content it was
staged with (`committed_as_staged`), and an acknowledgement of anything but the pending
frame changes nothing (`acknowledge_of_not_matches`).  That the acknowledged cursor has
passed nothing the receiver lacks holds in the runs whose WAL writes fall behind no
position of the sender (`delivery_of_admitted_writes`).  It does not hold in all:
the scanner reads the segments of all writers in the order of their names, and leaves
one for the next at its end, while its writer may still append to it
(`delivery_skips_live_segment`).
-/

open Std Lib.FrameLog Lib.Transaction Lib.TreeMap Lib.Machine

namespace Neoth.MeshSync

/-- The number a delivery commits. -/
def Answer.committedSeq : Answer → Option Nat
  | .inbound (.committed ack) => some ack.originSeq
  | _ => none

section Delivery
variable [Sha256] [SerdeJson] [UnicodeText]

/-- The four parts of the guarantee, in the state `s` that `actions` have led to with `answers`. -/
structure Mesh.Delivers (origin : PeerPubkey) (actions : List Action) (answers : List Answer)
    (s : Mesh) : Prop where
  /-- The numbers committed so far are `1` to `n`, each once and in this order. -/
  in_order : ∃ n, answers.filterMap Answer.committedSeq = List.range' 1 n ∧
    keySet s.receiver.inbox.receipts = Set.Icc 1 n
  /-- What was committed as `n` was staged as `n`, and nothing else ever was. -/
  same_content : ∀ (n : Nat) (receipt : Receipt), s.receiver.inbox.receipts[n]? = some receipt →
    (∃ r ∈ s.history, r.frame.eventSeq = n) ∧
      ∀ r ∈ s.history, r.frame.eventSeq = n →
        receipt.contentSha256 = r.frame.envelope.contentSha256 ∧
          ∀ row : ForeignEvent, s.receiver.inbox.foreign[n]? = some row →
            row.envelope = r.frame.envelope
  /-- An event before the cursor that every carrier was to replicate was staged from the
  frame at its place, under a number that is committed. -/
  nothing_skipped : ∀ segment, s.sender.outbox.cursor.segment = some segment →
    ∀ (seg : String) (off : Nat) (d : DecodedFrame), EventAt s.sender.wal seg off d →
      (∀ carrier policy, .load carrier policy ∈ actions → d.replicable policy = true) →
      Precedes seg off segment s.sender.outbox.cursor.offset →
      ∃ r ∈ s.history, r.found.segment = seg ∧ r.found.offset = off ∧
        decodeFrame r.found.raw = .ok d ∧ r.Genuine ∧ r.frame.eventSeq ∈ s.receiver.inbox.receipts
  /-- An acknowledgement that does not match the pending frame changes nothing. -/
  strict_acks : ∀ ack : GossipAck,
    (∀ pending, s.sender.outbox.pending = some pending → ¬ ack.Matches origin pending) →
    (transact (acknowledgeOutbound origin ack) s.sender.outbox).1 = s.sender.outbox

variable {origin peer : PeerPubkey}

/-- A step leaves the next expected number alone, or commits it. -/
theorem Mesh.step_committedSeq (origin peer : PeerPubkey) (s : Mesh) (action : Action) :
    ((s.step origin peer action).2.committedSeq = none ∧
      (s.step origin peer action).1.receiver.inbox.nextExpected = s.receiver.inbox.nextExpected) ∨
    ((s.step origin peer action).2.committedSeq = some s.receiver.inbox.nextExpected ∧
      (s.step origin peer action).1.receiver.inbox.nextExpected =
        s.receiver.inbox.nextExpected + 1) := by
  cases action with
  | deliver index policy now =>
    unfold Mesh.step Mesh.deliver
    dsimp only
    split
    · exact .inl ⟨rfl, rfl⟩
    · rename_i frame hframe
      split
      · exact .inl ⟨rfl, rfl⟩
      · rename_i inbox frontier commit hpersist
        rcases (persistInbound_spec hpersist).2 with ⟨rfl, hnot, -⟩ | ⟨rfl, eventType, hcommits⟩
        · refine .inl ⟨?_, rfl⟩
          cases commit with
          | committed ack => exact absurd rfl (hnot ack)
          | duplicate ack => rfl
          | duplicateUnbound ack => rfl
          | gap expected received => rfl
          | dropped acceptance => rfl
        · refine .inr ⟨?_, ?_⟩
          · show some frame.eventSeq = _
            rw [hcommits.expected]
          · show inbox.nextExpected = _
            rw [hcommits.next, hcommits.expected]
  | _ =>
    -- no other step touches the receiver's numbers or answers with a commit
    refine .inl ?_
    unfold Mesh.step
    dsimp only [Mesh.load, Mesh.openScan, Mesh.scan, Mesh.settle, Mesh.idle, Mesh.stage,
      Mesh.acknowledge, Mesh.senderReceives, Mesh.receiverStages]
    repeat' split
    all_goals exact ⟨rfl, rfl⟩

/-- **In order, without a gap, each number once.** -/
theorem committed_in_order (wal : Wal) (views : Views) (around : Surroundings)
    (actions : List Action) :
    ∃ n, (run (Mesh.step origin peer) (Mesh.start wal views around) actions).2.filterMap
        Answer.committedSeq = List.range' 1 n ∧
      keySet ((Mesh.start wal views around).after origin peer actions).receiver.inbox.receipts =
        Set.Icc 1 n := by
  obtain ⟨n, hnext, hanswers⟩ :=
    run_consecutive (f := fun s : Mesh => s.receiver.inbox.nextExpected)
    (g := Answer.committedSeq) (Mesh.step_committedSeq origin peer) (Mesh.start wal views around)
    actions
  refine ⟨n, hanswers, ?_⟩
  have hlinked : Linked origin peer _ := Linked.run wal views around actions
  ext k
  refine hlinked.inbox_wf.mem_receipts.trans ?_
  rw [Set.mem_Icc]
  have hstart : (Mesh.start wal views around).receiver.inbox.nextExpected = 1 := rfl
  have hend : ((Mesh.start wal views around).after origin peer actions).core.inbox.nextExpected =
      1 + n := hnext.trans (by rw [hstart])
  rw [hend]
  omega

omit [UnicodeText] in
/-- **The content committed is the content staged.** -/
theorem committed_as_staged {s : Mesh} (h : Linked origin peer s.core) {n : Nat} {receipt : Receipt}
    (hreceipt : s.receiver.inbox.receipts[n]? = some receipt) :
    (∃ r ∈ s.history, r.frame.eventSeq = n) ∧
      ∀ r ∈ s.history, r.frame.eventSeq = n →
        receipt.contentSha256 = r.frame.envelope.contentSha256 ∧
          ∀ row : ForeignEvent, s.receiver.inbox.foreign[n]? = some row →
            row.envelope = r.frame.envelope := by
  obtain ⟨f, hf, rfl, hdigest, -⟩ := h.receipt_wire n receipt hreceipt
  have hlocal := h.wire_local f hf
  refine ⟨h.recorded _ (h.wire_mem hf), ?_⟩
  -- two frames on the wire with one number carry one entry of the sequence table
  have hsame : ∀ g ∈ s.wire, g.eventSeq = f.eventSeq →
      g.contentSha256 = f.contentSha256 ∧ g.envelope = f.envelope := by
    intro g hg hseq
    have hlocal' := h.wire_local g hg
    rw [hseq, hlocal] at hlocal'
    obtain ⟨hdigests, henvelopes⟩ := LocalEvent.mk.inj (Option.some.inj hlocal')
    exact ⟨hdigests.symm, henvelopes.symm⟩
  intro r hr hseq
  obtain ⟨hwire, -, -, -, hgenuine⟩ := h.history_wire r hr
  obtain ⟨hcontent, henvelope⟩ := hsame r.frame hwire hseq
  refine ⟨?_, ?_⟩
  · rw [hdigest, ← hcontent, hgenuine]
  · intro row hrow
    obtain ⟨g, hg, hgseq, -, hrowEnvelope⟩ := h.foreign_wire _ row hrow
    rw [hrowEnvelope, henvelope, (hsame g hg hgseq).2]

omit [Sha256] [SerdeJson] [UnicodeText] in
/-- **Only the pending frame is acknowledged.** -/
theorem acknowledge_of_not_matches {outbox : Outbox} {ack : GossipAck}
    (h : ∀ pending, outbox.pending = some pending → ¬ ack.Matches origin pending) :
    (transact (acknowledgeOutbound origin ack) outbox).1 = outbox := by
  cases hanswer : (transact (acknowledgeOutbound origin ack) outbox).2 with
  | error e => exact eq_self_of_transact_error hanswer
  | ok outcome =>
    rcases acknowledgeOutbound_spec (eq_ok_of_transact hanswer) with ⟨hsame, -⟩ |
      ⟨pending, hpending, hmatches, -⟩
    · exact hsame
    · exact absurd hmatches (h pending hpending)

/-- **Delivery.**  In every run of the two nodes in which no write to the WAL falls behind a
position the sender holds, the receiver commits in order and exactly once what was staged,
and the acknowledged cursor has passed nothing else. -/
theorem delivery_of_admitted_writes (origin peer : PeerPubkey) (wal : Wal) (views : Views)
    (around : Surroundings) (actions : List Action)
    (admitted : ∀ before segment bytes later, actions = before ++ .write segment bytes :: later →
      ((Mesh.start wal views around).after origin peer before).AdmitsWrite segment) :
    ((Mesh.start wal views around).after origin peer actions).Delivers origin actions
      (run (Mesh.step origin peer) (Mesh.start wal views around) actions).2 := by
  have hlinked :
      Linked origin peer ((Mesh.start wal views around).after origin peer actions).core :=
    Linked.run wal views around actions
  have hcovers : Covers
      (fun d => ∀ carrier policy, Action.load carrier policy ∈ actions → d.replicable policy = true)
      ((Mesh.start wal views around).after origin peer actions) := by
    refine Covers.run wal views around actions ?_
    rintro before action later rfl
    cases action with
    | write segment bytes => exact admitted before segment bytes later rfl
    | load carrier policy =>
      intro d hd
      exact hd carrier policy (List.mem_append_right _ (List.mem_cons_self ..))
    | _ => trivial
  refine ⟨committed_in_order wal views around actions, fun n receipt => committed_as_staged hlinked,
    ?_, fun ack => acknowledge_of_not_matches⟩
  intro segment hsegment seg off d hevent hreplicable hbefore
  obtain ⟨-, ⟨r, hr, hseg, hoff, hraw, rfl⟩, hlt⟩ :=
    (hcovers.cursor segment hsegment).2 seg off d hevent hreplicable hbefore
  obtain ⟨hwire, hgenuine⟩ := hlinked.history_wire r hr
  refine ⟨r, hr, hseg, hoff, hraw, hgenuine, ?_⟩
  exact hlinked.inbox_wf.mem_receipts.mpr ⟨hlinked.one_le (hlinked.wire_mem hwire), hlt⟩

end Delivery

/-! ## Sample runs -/

def samplePolicy : GossipPolicy := ⟨false, 0⟩
def sampleViews : Views := ⟨[], [], [], []⟩
def sampleAround : Surroundings := ⟨1, [], []⟩

/-- A metadata event of the given second. -/
def sampleEvent (seconds : Nat) : List UInt8 := encodeFrame 0x13 0 (seconds * 1000000000)
    [0x7b, 0x7d]

def sampleDecoded (seconds : Nat) : DecodedFrame :=
  ⟨⟨0x13, 0, 0, 106, 2, seconds * 1000000000⟩, [0x7b, 0x7d]⟩

/-- The sample runs replicate metadata events, of which no JSON is read and no topic matched. -/
@[reducible] def sampleJson : SerdeJson := ⟨fun _ => none, fun _ => none, fun _ => none⟩
@[reducible] def sampleText : UnicodeText := ⟨id, fun _ => ""⟩

/-- The segment of the daemon, and one of a process that answered a permission prompt. -/
def daemonSegment : String := "000001.wal"
def promptSegment : String := "01900000-0000-7000-8000-000000000000-permission-gate-000001.wal"

/-- A carrier's four steps. -/
def sampleCarrier : List Action := [.load 0 samplePolicy, .openScan 0, .scan 0, .settle 0]

/-- An event is written, staged, delivered and acknowledged. -/
def sampleDelivery : List Action :=
  .write daemonSegment (sampleEvent 1700000000) :: sampleCarrier ++
    [.deliver 0 samplePolicy 1700000001, .acknowledge 0]

theorem delivery_of_one_event :
    (run (@Mesh.step Sha256.fips sampleJson sampleText "peer-a" "peer-b")
      (.start ∅ sampleViews sampleAround) sampleDelivery).2.filterMap Answer.committedSeq = [1] ∧
    @Mesh.Delivers Sha256.fips sampleJson "peer-a" sampleDelivery
      (run (@Mesh.step Sha256.fips sampleJson sampleText "peer-a" "peer-b")
        (.start ∅ sampleViews sampleAround) sampleDelivery).2
      (@Mesh.after Sha256.fips sampleJson sampleText "peer-a" "peer-b"
        (.start ∅ sampleViews sampleAround) sampleDelivery) := by
  refine ⟨by rw [Sha256.fips_eq]; decide +kernel,
    @delivery_of_admitted_writes Sha256.fips sampleJson sampleText _ _ _ _ _ _ ?_⟩
  intro before segment bytes later hactions
  cases before with
  | nil =>
    refine ⟨?_, ?_, ?_⟩
    · intro segment' hsegment
      cases hsegment
    · intro p hp
      cases hp
    · intro carrier c hget
      cases ExtTreeMap.getElem?_empty.symm.trans hget
  | cons action before =>
    -- the run writes once
    have htail := List.tail_eq_of_cons_eq hactions
    have hmem : Action.write segment bytes ∈
        sampleCarrier ++ [.deliver 0 samplePolicy 1700000001, .acknowledge 0] := by
      rw [show sampleCarrier ++ _ = _ from htail]
      exact List.mem_append_right _ (List.mem_cons_self ..)
    simp [sampleCarrier] at hmem

/-- Both segments are at their end when a carrier reads them; then the daemon appends to its own. -/
def sampleSkip : List Action :=
  [.load 0 samplePolicy, .openScan 0, .scan 0, .scan 0,
    .write daemonSegment (sampleEvent 1700000000), .settle 0]

def sampleSegments : Wal := (∅ : Wal).insert daemonSegment [] |>.insert promptSegment []

/-- **A live segment is left behind.**  The idle cursor stands in the second segment, and the
event that was appended to the first is never sent. -/
theorem delivery_skips_live_segment :
    ¬ @Mesh.Delivers Sha256.fips sampleJson "peer-a" sampleSkip
      (run (@Mesh.step Sha256.fips sampleJson sampleText "peer-a" "peer-b")
        (.start sampleSegments sampleViews sampleAround) sampleSkip).2
      (@Mesh.after Sha256.fips sampleJson sampleText "peer-a" "peer-b"
        (.start sampleSegments sampleViews sampleAround) sampleSkip) := by
  intro h
  have hcursor : (@Mesh.after Sha256.fips sampleJson sampleText "peer-a" "peer-b"
      (.start sampleSegments sampleViews sampleAround) sampleSkip).sender.outbox.cursor =
      ⟨some promptSegment, 0⟩ := by
    decide +kernel
  have hbody : (@Mesh.after Sha256.fips sampleJson sampleText "peer-a" "peer-b"
      (.start sampleSegments sampleViews sampleAround) sampleSkip).sender.wal[daemonSegment]? =
      some (sampleEvent 1700000000) := by
    decide +kernel
  have hdecode : decodeFrame (sampleEvent 1700000000) = .ok (sampleDecoded 1700000000) := by
    decide +kernel
  have hempty : (@Mesh.after Sha256.fips sampleJson sampleText "peer-a" "peer-b"
      (.start sampleSegments sampleViews sampleAround) sampleSkip).receiver.inbox.receipts = ∅ := by
    decide +kernel
  have hpolicies : ∀ carrier policy, Action.load carrier policy ∈ sampleSkip →
      (sampleDecoded 1700000000).replicable policy = true := by
    intro carrier policy hload
    have hpolicy : policy = samplePolicy := by
      simp only [sampleSkip, List.mem_cons, Action.load.injEq, reduceCtorEq, List.not_mem_nil,
        or_false] at hload
      exact hload.2
    rw [hpolicy]
    decide
  obtain ⟨r, -, -, -, -, -, hcommitted⟩ :=
    @Mesh.Delivers.nothing_skipped Sha256.fips sampleJson _ _ _ _ h promptSegment (by rw [hcursor])
      daemonSegment 0 (sampleDecoded 1700000000) ⟨_, hbody, .refl 0, hdecode⟩ hpolicies
      (.inl (by decide +kernel))
  rw [hempty] at hcommitted
  exact ExtTreeMap.not_mem_empty hcommitted

end Neoth.MeshSync
