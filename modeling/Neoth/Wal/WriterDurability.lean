import Neoth.Wal.WriterRules

/-!
# What the writer has acknowledged

Acknowledged appends survive a crash and the recovery after it, as long as each immediate append is
written where the file scans clean up to the writer's offset, and its own last part is.  The file
reports the error of a last part with the next write only: until then the failed append is
acknowledged, and behind it the offset and the file differ.
-/

open Lib.Crc32c Lib.Effects Lib.Encoding Lib.FrameLog Lib.Transaction Neoth.MeshSync

namespace Neoth.Wal.Writer

/-! ## Acknowledged appends -/

def Ack.immediate (a : Ack) : Bool := needsImmediateSync a.event.header.eventType
def Ack.end (a : Ack) : Nat := a.offset + (encodeFrame a.event).length

/-- The append is read at its offset, and all of its frame is on the disk. -/
structure Ack.Held (a : Ack) (bytes : List UInt8) (synced : Nat) : Prop where
  reads : ∃ ds, Reads plausibleFraming bytes segmentHeaderLen ds a.offset
  decodes : plausibleFraming.decode (bytes.drop a.offset) = .ok (frameOf a.event)
  sized : a.event.Sized
  durable : a.end ≤ synced

namespace Ack.Held

variable {a : Ack} {bytes : List UInt8} {synced : Nat}

theorem append (h : a.Held bytes synced) (more : List UInt8) : a.Held (bytes ++ more) synced := by
  obtain ⟨ds, hreads⟩ := h.reads
  exact ⟨⟨ds, hreads.append more⟩, plausibleFraming.decode_drop_append h.decodes more, h.sized,
    h.durable⟩

theorem sync (h : a.Held bytes synced) {n : Nat} (hle : synced ≤ n) : a.Held bytes n :=
  ⟨h.reads, h.decodes, h.sized, h.durable.trans hle⟩

/-- The log is read up to the end of the append. -/
theorem reads_end (h : a.Held bytes synced) :
    ∃ ds, Reads plausibleFraming bytes segmentHeaderLen ds a.end := by
  obtain ⟨ds, hreads⟩ := h.reads
  refine ⟨ds ++ [frameOf a.event], hreads.trans ?_⟩
  have hlast : Reads plausibleFraming bytes a.offset [frameOf a.event]
      (a.offset + plausibleFraming.size (frameOf a.event)) := .cons h.decodes (.nil _)
  rwa [show plausibleFraming.size (frameOf a.event) = (encodeFrame a.event).length from
    (length_encodeFrame_event h.sized).symm] at hlast

/-- The file may lose what stands behind the frame. -/
theorem take (h : a.Held bytes synced) {n : Nat} (hn : a.end ≤ n) :
    a.Held (bytes.take n) (min synced n) := by
  obtain ⟨ds, hreads⟩ := h.reads
  have hend : a.offset + plausibleFraming.size (frameOf a.event) = a.end :=
    congrArg (a.offset + ·) (length_encodeFrame_event h.sized).symm
  have hlast : Reads plausibleFraming (bytes.take n) a.offset [frameOf a.event] a.end :=
    (hend ▸ Reads.cons h.decodes (.nil _) : Reads plausibleFraming bytes a.offset [frameOf a.event]
      a.end).take exact_plausibleFraming hn
  have hle : a.offset ≤ n := (Nat.le_add_right _ _).trans hn
  cases hlast with
  | cons head tail =>
    exact ⟨⟨ds, hreads.take exact_plausibleFraming hle⟩, head, h.sized, le_min h.durable hn⟩

/-- No frame that the scan takes ends before the append does. -/
theorem end_le (h : a.Held bytes synced) {b : Nat} {ds : List Codec.DecodedFrame}
    (hreads : Reads plausibleFraming bytes segmentHeaderLen ds b)
    (hstop : ∀ d, plausibleFraming.decode (bytes.drop b) ≠ .ok d) : a.end ≤ b := by
  obtain ⟨es, hend⟩ := h.reads_end
  exact hreads.complete hstop hend

end Ack.Held

/-! ## Segments -/

/-- A segment whose acknowledged appends are safe; the header is on the disk. -/
structure Segment.Sound (s : Segment) : Prop where
  begun : ∃ seq openedAtNs rest, s.bytes = newSegmentHeaderBytes seq openedAtNs ++ rest
  header_synced : segmentHeaderLen ≤ s.synced
  synced_le : s.synced ≤ s.bytes.length
  held : ∀ a ∈ s.acked, a.immediate → a.Held s.bytes s.synced
  ordered : s.acked.Pairwise fun a b => a.immediate → b.immediate → a.end ≤ b.offset

namespace Segment.Sound

variable {s : Segment}

theorem published {seq openedAtNs : UInt64} (rest : List UInt8) :
    (Segment.published (newSegmentHeaderBytes seq openedAtNs ++ rest)).Sound := by
  refine ⟨⟨seq, openedAtNs, rest, rfl⟩, ?_, le_rfl, by simp [Segment.published], .nil⟩
  simp only [Segment.published, List.length_append, length_newSegmentHeaderBytes]
  omega

theorem headerLen_le (h : s.Sound) : segmentHeaderLen ≤ s.bytes.length :=
  h.header_synced.trans h.synced_le

theorem headerLenOf_eq (h : s.Sound) : headerLenOf s.bytes = segmentHeaderLen := by
  obtain ⟨seq, openedAtNs, rest, hbytes⟩ := h.begun
  rw [hbytes, headerLenOf_newSegment]

theorem extend (h : s.Sound) (reached : List UInt8) : (s.extend reached).Sound := by
  obtain ⟨seq, openedAtNs, rest, hbytes⟩ := h.begun
  refine ⟨⟨seq, openedAtNs, rest ++ reached, ?_⟩, h.header_synced, ?_, ?_, h.ordered⟩
  · simp only [Segment.extend, hbytes, List.append_assoc]
  · refine h.synced_le.trans ?_
    simp [Segment.extend]
  · intro a ha himmediate
    exact (h.held a ha himmediate).append reached

theorem sync (h : s.Sound) : s.sync.Sound :=
  ⟨h.begun, h.headerLen_le, le_rfl,
    fun a ha himmediate => (h.held a ha himmediate).sync h.synced_le, h.ordered⟩

/-- The file may be cut behind all that was acknowledged. -/
theorem truncate (h : s.Sound) {n : Nat} (hheader : segmentHeaderLen ≤ n)
    (hend : ∀ a ∈ s.acked, a.immediate → a.end ≤ n) : (s.truncate n).Sound := by
  obtain ⟨seq, openedAtNs, rest, hbytes⟩ := h.begun
  refine ⟨⟨seq, openedAtNs, rest.take (n - segmentHeaderLen), ?_⟩, le_min h.header_synced hheader,
    ?_, ?_, h.ordered⟩
  · show s.bytes.take n = _
    rw [hbytes, List.take_append, length_newSegmentHeaderBytes,
      List.take_of_length_le ((length_newSegmentHeaderBytes _ _).trans_le hheader)]
  · show min s.synced n ≤ (s.bytes.take n).length
    rw [List.length_take]
    have hle := h.synced_le
    omega
  · intro a ha himmediate
    exact (h.held a ha himmediate).take (hend a ha himmediate)

end Segment.Sound

/-! ## What the task keeps -/

/-- The segment as it will be when some more appends are acknowledged. -/
def Segment.promise (s : Segment) (promised : List Ack) : Segment :=
  { s with acked := s.acked ++ promised }

theorem Segment.Sound.of_promise {s : Segment} {promised : List Ack}
    (h : (s.promise promised).Sound) : s.Sound :=
  ⟨h.begun, h.header_synced, h.synced_le, fun a ha => h.held a (List.mem_append_left _ ha),
    (List.pairwise_append.mp h.ordered).1⟩

/-- The segments are sound, the active one also once it has acknowledged what is promised. -/
structure Stored (promised : List Ack) (r : Running) : Prop where
  closed : ∀ s ∈ r.closed, s.Sound
  active : (r.active.promise promised).Sound

variable {promised : List Ack} {r : Running} {event : Event}

theorem stored_scripted : Scripted (Stored promised) := ⟨fun h _ => ⟨h.closed, h.active⟩⟩

theorem Stored.setState (h : Stored promised r) (state : WriterState) :
    Stored promised (r.setState state) :=
  ⟨h.closed, h.active⟩

theorem Stored.extend (h : Stored promised r) (reached : List UInt8) :
    Stored promised (r.setActive (r.active.extend reached)) :=
  ⟨h.closed, h.active.extend reached⟩

theorem Stored.sync (h : Stored promised r) : Stored promised (r.setActive r.active.sync) :=
  ⟨h.closed, h.active.sync⟩

theorem Stored.of_promise (h : Stored promised r) : Stored [] r := by
  refine ⟨h.closed, ?_⟩
  rw [Segment.promise, List.append_nil]
  exact h.active.of_promise

/-! ## The attempts -/

theorem keeps_nextIo : Keeps (Stored promised) nextIo := stored_scripted.nextIo

theorem keeps_nextTime : Keeps (Stored promised) nextTime := stored_scripted.nextTime

theorem keeps_tryIo (e : Stop) : Keeps (Stored promised) (tryIo e) := stored_scripted.tryIo e

theorem keeps_validate : Keeps (Stored promised) validate := stored_scripted.validate

theorem keeps_setState (f : Running → WriterState) :
    Keeps (Stored promised) (Prog.modify fun r => r.setState (f r) : Task Unit) :=
  Keeps.modify fun _ h => h.setState _

theorem keeps_writeOnly (frame : List UInt8) : Keeps (Stored promised) (writeOnly frame) := by
  refine Keeps.bind Keeps.get fun r => Keeps.ite ?_ ?_
  · exact Keeps.bind (keeps_setState _) fun _ => Keeps.throw
  · refine Keeps.bind stored_scripted.nextWritten fun written => ?_
    cases written with
    | done => exact Keeps.modify fun r h => h.extend _
    | partFailed reached =>
      refine Keeps.ite (Keeps.modify fun r h => h.extend _) ?_
      exact Keeps.bind (Keeps.modify fun r h => h.extend _) fun _ => Keeps.throw
    | lastFailed reached => exact Keeps.modify fun r h => (h.extend _).setState _

theorem keeps_syncData : Keeps (Stored promised) syncData := by
  refine Keeps.bind keeps_nextIo fun outcome => ?_
  cases outcome with
  | done => exact Keeps.modify fun r h => h.sync
  | failed reached => exact Keeps.throw

theorem keeps_writeAndSync (frame : List UInt8) : Keeps (Stored promised) (writeAndSync frame) :=
  Keeps.bind (keeps_writeOnly frame) fun _ => keeps_syncData

theorem keeps_ensureFrameFits (cfg : Config) (frameLen : Nat) :
    Keeps (Stored promised) (ensureFrameFits cfg frameLen) :=
  Keeps.bind Keeps.get fun _ => Keeps.check

variable [Xxh3]

theorem keeps_syntheticFrame (eventType : UInt8) (payload : List UInt8) :
    Keeps (Stored promised) (syntheticFrame eventType payload) :=
  Keeps.bind stored_scripted.nextStamp fun _ => Keeps.ite Keeps.pure Keeps.throw

/-! ## Markers and rotation -/

variable [Sha256] {A : Type}

theorem keeps_emitCompactionMarker (cfg : Config) :
    Keeps (Stored promised) (emitCompactionMarker cfg) := by
  refine Keeps.bind Keeps.get fun r => Keeps.ite Keeps.pure ?_
  refine Keeps.bind (keeps_setState _) fun _ => Keeps.bind keeps_nextTime fun tsNs => ?_
  refine Keeps.bind (keeps_syntheticFrame _ _) fun frame => Keeps.bind Keeps.check fun _ => ?_
  refine Keeps.bind (keeps_ensureFrameFits cfg _) fun _ =>
    Keeps.bind (keeps_writeAndSync frame) fun _ => ?_
  exact keeps_setState _

/-- The bytes of a successor begin with a segment header. -/
theorem meets_successorPrefix (cfg : Config) (link : SegmentLink) :
    Meets (Stored promised) (successorPrefix cfg link)
      (fun bytes r => (Segment.published bytes).Sound ∧ Stored promised r)
        (fun _ => Stored promised) := by
  refine Meets.bind (keeps_syntheticFrame _ _) fun linkFrame => ?_
  refine Meets.bind (keeps_syntheticFrame _ _) fun markerFrame => ?_
  exact Meets.pure fun r h => ⟨.published _, h⟩

omit [Xxh3] [Sha256] in
theorem keeps_publish {bytes : List UInt8} (hsound : (Segment.published bytes).Sound) :
    Keeps (Stored []) (publish bytes) := by
  have hpublished : ∀ r : Running, Stored [] r →
      Stored [] { r with closed := r.closed ++ [r.active], active := .published bytes } := by
    intro r h
    refine ⟨fun s hs => ?_, hsound⟩
    rcases List.mem_append.mp hs with hs | hs
    · exact h.closed s hs
    · rw [List.mem_singleton.mp hs]
      exact h.active.of_promise
  refine Keeps.bind keeps_nextIo fun outcome => ?_
  cases outcome with
  | done => exact Keeps.modify hpublished
  | failed reached =>
    cases reached with
    | zero => exact Keeps.throw
    | succ reached => exact Keeps.bind (Keeps.modify hpublished) fun _ => Keeps.throw

theorem keeps_rotate (cfg : Config) (reason : RotationReason) :
    Keeps (Stored []) (rotate cfg reason) := by
  refine Keeps.bind (keeps_emitCompactionMarker cfg) fun _ => Keeps.bind keeps_syncData fun _ => ?_
  refine Keeps.bind (keeps_tryIo _) fun _ => Keeps.bind Keeps.get fun r =>
    Keeps.bind Keeps.check fun _ => ?_
  cases parseSegmentHeader r.active.bytes with
  | error e => exact Keeps.throw
  | ok predecessor =>
    refine Keeps.bind Keeps.check fun _ => Keeps.bind keeps_nextTime fun nowNs => ?_
    refine Meets.bind (meets_successorPrefix cfg _) fun bytes => Meets.given fun hsound => ?_
    exact Keeps.bind Keeps.check fun _ => Keeps.bind (keeps_publish hsound) fun _ =>
      keeps_setState _

/-! ## Requests -/

theorem keeps_barrier (cfg : Config) (once : Once) : Keeps (Stored []) (barrier cfg once) := by
  refine Keeps.ite Keeps.pure ?_
  refine Keeps.bind (Keeps.when keeps_validate) fun _ => Keeps.bind Keeps.get fun r => ?_
  refine Keeps.bind (Keeps.attempt (keeps_emitCompactionMarker cfg)) fun result => ?_
  cases result with
  | error e => exact Keeps.ite Keeps.pure Keeps.throw
  | ok done =>
    refine Keeps.bind (Keeps.when (keeps_setState _)) fun _ => ?_
    exact Keeps.bind (Keeps.when keeps_validate) fun _ => Keeps.pure

theorem keeps_barrierOf (cfg : Config) (req : Request) (early : Bool) :
    Keeps (Stored []) (barrierOf cfg req early) := by
  unfold barrierOf
  cases req.once with
  | none => exact Keeps.pure
  | some once => exact Keeps.ite (keeps_barrier cfg once) Keeps.pure

theorem keeps_rotateFor (cfg : Config) (reason : Option RotationReason) :
    Keeps (Stored []) (rotateFor cfg reason) := by
  cases reason with
  | none => exact Keeps.pure
  | some reason =>
    refine Keeps.bind keeps_validate fun _ => Keeps.bind Keeps.get fun r => ?_
    refine Keeps.bind (Keeps.when ?_) fun _ => keeps_rotate cfg reason
    exact Keeps.bind keeps_syncData fun _ => keeps_setState _

theorem keeps_makeRoom (cfg : Config) (req : Request) : Keeps (Stored []) (makeRoom cfg req) := by
  refine Keeps.bind Keeps.get fun r => Keeps.bind keeps_nextTime fun nowNs => ?_
  refine Keeps.bind (keeps_rotateFor cfg _) fun _ => Keeps.bind keeps_validate fun _ => ?_
  exact keeps_ensureFrameFits cfg _

theorem keeps_prepare (cfg : Config) (req : Request) : Keeps (Stored []) (prepare cfg req) := by
  refine Keeps.ite Keeps.pure ?_
  refine Keeps.bind (keeps_barrierOf cfg req true) fun early => ?_
  cases early with
  | some answer => exact Keeps.pure
  | none =>
    refine Keeps.bind keeps_validate fun _ => Keeps.bind (keeps_barrierOf cfg req false) fun late =>
      ?_
    cases late with
    | some answer => exact Keeps.pure
    | none => exact Keeps.bind (keeps_makeRoom cfg req) fun _ => Keeps.pure

/-! ## Frames of requests -/

/-- The stamp of the request is one that decoders take. -/
def Request.Stamped (req : Request) : Prop := req.event.header.hlc.Valid

variable {req : Request}

omit [Xxh3] [Sha256] in
theorem Request.readable (h : req.Stamped) : Readable req.event := ⟨req.sized, req.fits, h⟩

def Request.immediate (req : Request) : Bool := needsImmediateSync req.event.header.eventType

/-- The frame that is written next is refused, or it comes where it is looked for, and all of it
does: the file scans clean up to the offset of the writer, and the last part does not fail. -/
def Running.Settles (r : Running) : Prop :=
  r.state.lastWriteErr = false →
    scanTailFile r.active.bytes = .clean r.state.offset ∧ ∀ written ∈ r.script.writes.head?,
      written.isTold

/-- What the frame of an immediate event must meet with. -/
def Request.Safe (req : Request) (r : Running) : Prop := req.immediate → req.Stamped ∧ r.Settles

/-- The frame of the event stands at the offset, behind a log that is read up to it and holds what
was acknowledged. -/
structure Placed (event : Event) (r : Running) : Prop where
  stored : Stored [] r
  reads : ∃ ds, Reads plausibleFraming r.active.bytes segmentHeaderLen ds r.state.offset
  decodes : plausibleFraming.decode (r.active.bytes.drop r.state.offset) = .ok (frameOf event)
  fits : r.state.offset + (encodeFrame event).length ≤ r.active.bytes.length
  behind : ∀ a ∈ r.active.acked, a.immediate → a.end ≤ r.state.offset

omit [Xxh3] [Sha256] in
/-- The scan resumes behind all that was acknowledged. -/
theorem Segment.Sound.scan {s : Segment} (h : s.Sound) :
    ∃ ds b, Reads plausibleFraming s.bytes segmentHeaderLen ds b ∧ b ≤ s.bytes.length ∧
      (∀ a ∈ s.acked, a.immediate → a.end ≤ b) ∧
      scanTailFile s.bytes = if b < s.bytes.length then .tornAt b b else .clean b := by
  obtain ⟨ds, b, hreads, hstop⟩ := Reads.exists_complete plausibleFraming s.bytes segmentHeaderLen
  refine ⟨ds, b, hreads, hreads.le_length h.headerLen_le, ?_, ?_⟩
  · intro a ha himmediate
    exact (h.held a ha himmediate).end_le hreads hstop
  · exact scanTailFile_of_reads h.headerLen_le (h.headerLenOf_eq.symm ▸ hreads) hstop

omit [Xxh3] [Sha256] in
theorem Stored.placed (h : Stored [] r)
    (hclean : scanTailFile r.active.bytes = .clean r.state.offset)
    (hevent : Readable event) :
      Placed event (r.setActive (r.active.extend (encodeFrame event))) := by
  have hsound : r.active.Sound := h.active.of_promise
  obtain ⟨ds, b, hreads, hb, hends, hscan⟩ := hsound.scan
  rw [hscan] at hclean
  split_ifs at hclean with hlt
  injection hclean with hoffset
  subst hoffset
  have hend : r.active.bytes.length = r.state.offset := Nat.le_antisymm (not_lt.mp hlt) hb
  refine ⟨h.extend _, ⟨ds, hreads.append _⟩, ?_, ?_, hends⟩
  · show plausibleFraming.decode ((r.active.bytes ++ encodeFrame event).drop r.state.offset) = _
    rw [← hend, List.drop_left, ← List.append_nil (encodeFrame event)]
    exact hevent.decode []
  · show r.state.offset + _ ≤ (r.active.bytes ++ encodeFrame event).length
    rw [List.length_append, hend]

omit [Xxh3] [Sha256] in
theorem placed_scripted : Scripted (Placed event) :=
  ⟨fun h _ => ⟨⟨h.stored.closed, h.stored.active⟩, h.reads, h.decodes, h.fits, h.behind⟩⟩

/-- What has been written may be acknowledged: an immediate frame stands at the offset and is on the
disk. -/
structure Wrote (event : Event) (r : Running) : Prop where
  stored : Stored [] r
  placed : needsImmediateSync event.header.eventType →
    Placed event r ∧ r.active.synced = r.active.bytes.length

omit [Xxh3] [Sha256] in
theorem meets_writeOnly_placed (hevent : Readable event) :
    Meets (fun r => Stored [] r ∧ r.Settles) (writeOnly (encodeFrame event)) (fun _ => Placed event)
      (fun _ => Stored []) := by
  refine Meets.bind Meets.get fun r => Meets.forall_eq ?_
  rintro start ⟨rfl, h, hsettles⟩
  refine Meets.ite (fun _ => ?_) fun herr => ?_
  · refine Meets.bind (Q := fun _ => Stored []) (Meets.modify ?_) fun _ => Meets.throw fun _ h => h
    rintro _ rfl
    exact h.setState _
  obtain ⟨hclean, hlast⟩ := hsettles (by simpa using herr)
  have hplaced := h.placed hclean hevent
  have hscripted : Scripted fun s => Stored [] s ∧ s.active = r.active ∧ s.state = r.state :=
    stored_scripted.and fun hs => hs
  have hplaced : ∀ s, Stored [] s ∧ s.active = r.active ∧ s.state = r.state →
      Placed event (s.setActive (s.active.extend (encodeFrame event))) := by
    rintro s ⟨hs, hactive, hstate⟩
    exact hs.placed (by rw [hactive, hstate]; exact hclean) hevent
  refine Meets.bind (Q := fun written s => written.isTold ∧ Stored [] s ∧ s.active = r.active ∧
    s.state = r.state) ?_ fun written => Meets.given fun htold => ?_
  · refine hscripted.nextWritten_of rfl ?_
    rintro _ rfl
    exact ⟨⟨h, rfl, rfl⟩, hlast⟩
  cases written with
  | done => exact Meets.modify hplaced
  | partFailed reached =>
    refine Meets.ite (fun _ => Meets.modify hplaced) fun _ => ?_
    exact Meets.bind (Q := fun _ => Stored []) (Meets.modify fun s hs => hs.1.extend _) fun _ =>
      Meets.throw fun _ hs => hs
  | lastFailed reached => exact absurd htold Bool.false_ne_true

omit [Xxh3] [Sha256] in
theorem meets_writeAndSync_placed (hevent : Readable event) :
    Meets (fun r => Stored [] r ∧ r.Settles) (writeAndSync (encodeFrame event))
      (fun _ r => Placed event r ∧ r.active.synced = r.active.bytes.length)
        (fun _ => Stored []) := by
  refine Meets.bind (meets_writeOnly_placed hevent) fun _ => ?_
  refine Meets.bind placed_scripted.nextIo fun outcome => ?_
  cases outcome with
  | done =>
    refine Meets.modify fun r h => ⟨⟨h.stored.sync, h.reads, h.decodes, h.fits, h.behind⟩, rfl⟩
  | failed reached => exact Meets.throw fun r h => h.stored

omit [Xxh3] [Sha256] in
theorem meets_writeAppend :
    Meets (fun r => Stored [] r ∧ req.Safe r)
      (if req.immediate then writeAndSync (encodeFrame req.event)
        else writeOnly (encodeFrame req.event))
      (fun _ => Wrote req.event) (fun _ => Stored []) := by
  refine Meets.forall_eq fun start ⟨hstored, hsafe⟩ =>
    Meets.ite (fun himmediate => ?_) fun hbatched => ?_
  · obtain ⟨hstamped, hsettles⟩ := hsafe himmediate
    refine (meets_writeAndSync_placed (Request.readable hstamped)).mono ?_ (fun _ r h => ?_)
      fun _ _ h => h
    · rintro _ rfl
      exact ⟨hstored, hsettles⟩
    · exact ⟨h.1.stored, fun _ => h⟩
  · refine (@keeps_writeOnly [] _).mono ?_ (fun _ r h => ?_) fun _ _ h => h
    · rintro _ rfl
      exact hstored
    · exact ⟨h, fun himmediate => absurd himmediate hbatched⟩

omit [Xxh3] [Sha256] in
/-- A frame that has been written may be acknowledged, an immediate one when it is on the disk. -/
theorem Wrote.promise (h : Wrote event r) (hsized : event.Sized) :
    Stored [⟨r.state.offset, event⟩] r := by
  have hsound : r.active.Sound := h.stored.active.of_promise
  refine ⟨h.stored.closed, hsound.begun, hsound.header_synced, hsound.synced_le, ?_, ?_⟩
  · intro a ha himmediate
    rcases List.mem_append.mp ha with ha | ha
    · exact hsound.held a ha himmediate
    · obtain rfl := List.mem_singleton.mp ha
      obtain ⟨hplaced, hsynced⟩ := h.placed himmediate
      exact ⟨hplaced.reads, hplaced.decodes, hsized, hplaced.fits.trans hsynced.ge⟩
  · refine List.pairwise_append.mpr ⟨hsound.ordered, List.pairwise_singleton _ _, ?_⟩
    intro a ha b hb ha' hb'
    obtain rfl := List.mem_singleton.mp hb
    exact (h.placed hb').1.behind a ha ha'

omit [Xxh3] [Sha256] in
theorem Stored.acknowledge {a : Ack} (h : Stored [a] r) :
    Stored [] (r.setActive (r.active.ack a)) := by
  have hpromise : (r.active.ack a).promise [] = r.active.promise [a] := by
    simp only [Segment.promise, Segment.ack, List.append_nil]
  refine ⟨h.closed, ?_⟩
  show ((r.active.ack a).promise []).Sound
  exact hpromise ▸ h.active

theorem keeps_markerBehind (cfg : Config) : Keeps (Stored promised) (markerBehind cfg) :=
  Keeps.bind keeps_validate fun _ => Keeps.bind (keeps_emitCompactionMarker cfg) fun _ =>
    keeps_setState _

theorem meets_writeFrame (cfg : Config) :
    Meets (fun r => Stored [] r ∧ req.Safe r) (writeFrame cfg req) (fun _ => Stored [])
      (fun _ => Stored []) := by
  refine Meets.bind (Q := fun result r => if result.isOk then Wrote req.event r else Stored [] r) ?_
    fun result => ?_
  · exact Meets.attempt meets_writeAppend
  · cases result with
    | error e => exact Keeps.ite Keeps.throw Keeps.pure
    | ok written =>
      refine Meets.bind (Q := fun before r => before = r ∧ Wrote req.event r) Meets.get
        fun before => ?_
      refine Meets.bind (Q := fun _ => Stored [⟨before.state.offset, req.event⟩]) (Meets.modify ?_)
        fun _ => ?_
      · rintro r ⟨rfl, h⟩
        exact (h.promise req.sized).setState _
      refine Meets.bind (Q := fun _ => Stored [⟨before.state.offset, req.event⟩]) (fun _ h => h)
        fun r => ?_
      refine Meets.bind (Q := fun _ => Stored [⟨before.state.offset, req.event⟩]) ?_ fun _ => ?_
      · exact (Keeps.when (keeps_markerBehind cfg)).fails fun _ _ h => h.of_promise
      · exact Meets.bind (Q := fun _ => Stored []) (Meets.modify fun s h => h.acknowledge) fun _ =>
          Keeps.pure

theorem meets_serve (cfg : Config) {start : Running} (h : Stored [] start)
    (hsafe : ∀ r, prepare cfg req start = (.ok none, r) → req.Safe r) :
    Meets (· = start) (serve cfg req) (fun _ => Stored []) (fun _ => Stored []) := by
  refine Meets.bind (Q := fun answer r => Stored [] r ∧ (answer = none → req.Safe r)) ?_
    fun answer => ?_
  · rintro _ rfl
    have hprepare := keeps_prepare cfg req _ h
    rcases hresult : prepare cfg req _ with ⟨result | result, r⟩ <;> rw [hresult] at hprepare
    · exact hprepare
    · refine ⟨hprepare, ?_⟩
      rintro rfl
      exact hsafe r hresult
  · cases answer with
    | some answer => exact Meets.pure fun r h => h.1
    | none => exact (meets_writeFrame cfg).pre fun r h => ⟨h.1, h.2 rfl⟩

omit [Xxh3] [Sha256] in
theorem keeps_flush (cfg : Config) : Keeps (Stored []) (flush cfg) := by
  refine Keeps.bind keeps_validate fun _ => Keeps.bind (Keeps.attempt keeps_syncData) fun result =>
    ?_
  cases result with
  | error e => exact Keeps.ite Keeps.throw Keeps.pure
  | ok done => exact Keeps.bind (keeps_setState _) fun _ => Keeps.pure

omit [Xxh3] [Sha256] in
theorem keeps_finalSync (cfg : Config) : Keeps (Stored []) (finalSync cfg) := by
  refine Keeps.bind (Keeps.attempt keeps_syncData) fun result => ?_
  cases result with
  | error e => exact Keeps.ite Keeps.throw Keeps.pure
  | ok done => exact Keeps.pure

theorem keeps_shutdown (cfg : Config) : Keeps (Stored []) (shutdown cfg) := by
  refine Keeps.bind (Keeps.when (keeps_markerBehind cfg)) fun _ =>
    Keeps.bind keeps_validate fun _ => ?_
  refine Keeps.bind Keeps.get fun r => ?_
  exact Keeps.bind (Keeps.when (keeps_finalSync cfg)) fun _ => keeps_validate

/-! ## Starting -/

omit [Sha256] in
theorem keeps_auditDropped (cfg : Config) (dropped : Option (Nat × Nat × Nat)) :
    Keeps (Stored []) (auditDropped cfg dropped) := by
  cases dropped with
  | none => exact Keeps.pure
  | some d =>
    refine Keeps.bind keeps_validate fun _ => Keeps.bind keeps_nextTime fun tsUnix => ?_
    refine Keeps.bind Keeps.get fun r => Keeps.bind (keeps_syntheticFrame _ _) fun frame => ?_
    exact Keeps.bind (keeps_writeAndSync frame) fun _ => keeps_setState _

omit [Xxh3] [Sha256] in
theorem keeps_truncateTail : Keeps (Stored []) truncateTail := by
  refine Meets.bind Meets.get fun r => Meets.forall_eq ?_
  rintro start ⟨rfl, h⟩
  have hsound : r.active.Sound := h.active.of_promise
  obtain ⟨ds, b, hreads, hb, hends, hscan⟩ := hsound.scan
  rw [hscan]
  split_ifs with hlt
  · have hsame : Scripted fun s => Stored [] s ∧ s.active = r.active :=
      stored_scripted.and fun hs => hs
    refine Meets.bind (Q := fun _ s => Stored [] s ∧ s.active = r.active) ?_ fun _ => ?_
    · refine ((hsame.tryIo .io).pre ?_).fails fun _ _ hs => hs.1
      rintro _ rfl
      exact ⟨h, rfl⟩
    refine Meets.bind (Q := fun _ => Stored []) (Meets.modify fun s hs => ?_) fun _ => ?_
    · rw [hs.2]
      refine ⟨hs.1.closed, ?_⟩
      show ((r.active.truncate b).promise []).Sound
      rw [Segment.promise, List.append_nil]
      exact hsound.truncate hreads.le hends
    · exact Keeps.bind keeps_syncData fun _ => Keeps.pure
  · refine Meets.pure ?_
    rintro _ rfl
    exact h

theorem keeps_resume (cfg : Config) : Keeps (Stored []) (resume cfg) := by
  refine Keeps.bind (keeps_tryIo _) fun _ => Keeps.bind Keeps.check fun _ =>
    Keeps.bind Keeps.get fun r => ?_
  refine Keeps.bind Keeps.check fun _ => ?_
  cases parseSegmentHeader r.active.bytes with
  | error e => exact Keeps.throw
  | ok parsed =>
    refine Keeps.bind Keeps.check fun _ => Keeps.bind keeps_truncateTail fun dropped => ?_
    refine Keeps.bind Keeps.get fun s => ?_
    cases recoverCompactionState cfg.verificationKeys s.active.bytes with
    | error e => exact Keeps.throw
    | ok compaction =>
      refine Keeps.bind (keeps_setState _) fun _ => Keeps.bind (keeps_auditDropped cfg dropped)
        fun _ => ?_
      exact Keeps.bind keeps_validate fun _ => keeps_emitCompactionMarker cfg

/-! ## Runs -/

namespace Home

/-- What holds of the home between the inputs. -/
structure Sound (h : Home) : Prop where
  closed : ∀ s ∈ h.closed, s.Sound
  active : ∀ s ∈ h.active, s.Sound

omit [Xxh3] [Sha256] in
theorem sound_empty : Sound .empty := ⟨by simp [empty], by simp [empty]⟩

omit [Xxh3] [Sha256] in
theorem Sound.all {h : Home} (hsound : h.Sound) : ∀ s ∈ h.closed ++ h.active.toList, s.Sound := by
  intro s hs
  rcases List.mem_append.mp hs with hs | hs
  · exact hsound.closed s hs
  · exact hsound.active s (Option.mem_toList.mp hs)

omit [Xxh3] [Sha256] in
theorem Sound.stored {h : Home} (hsound : h.Sound) {active : Segment} (hactive : active ∈ h.active)
    (state : WriterState) (script : Script) : Stored [] ⟨h.closed, active, state, script⟩ := by
  refine ⟨hsound.closed, ?_⟩
  rw [Segment.promise, List.append_nil]
  exact hsound.active active hactive

omit [Xxh3] [Sha256] in
theorem sound_resumeWith {answer : A → Answer} {goesOn : Bool} {outcome : Except Stop A × Running}
    (h : After (fun _ => Stored []) (fun _ => Stored []) outcome) :
      (resumeWith answer goesOn outcome).1.Sound := by
  have hstored : Stored [] outcome.2 := by
    rcases outcome with ⟨e | a, r⟩
    · exact h
    · exact h
  rcases outcome with ⟨e | a, r⟩ <;>
  · refine ⟨hstored.closed, ?_⟩
    rintro s ⟨⟩
    exact hstored.active.of_promise

end Home

/-- Where the frame of an immediate event is written, it is safe. -/
def Input.Clean (cfg : Config) (h : Home) : Input → Prop
  | .request req script => ∀ active ∈ h.active, ∀ state ∈ h.task, ∀ r,
      prepare cfg req ⟨h.closed, active, state, script⟩ = (.ok none, r) → req.Safe r
  | _ => True

namespace Home

variable {h : Home} {cfg : Config} {script : Script}

omit [Xxh3] [Sha256] in
theorem sound_startFresh (hsound : h.Sound) (script : Script) :
    (h.startFresh cfg script).1.Sound := by
  have hpublished :
      (Segment.published (newSegmentHeaderBytes cfg.seq (script.times.headD 0))).Sound := by
    have hempty := @Segment.Sound.published cfg.seq (script.times.headD 0) []
    rwa [List.append_nil] at hempty
  have hactive : ∀ task,
      Sound ⟨h.closed, some (.published (newSegmentHeaderBytes cfg.seq (script.times.headD 0))),
        task⟩ := by
    refine fun task => ⟨hsound.closed, ?_⟩
    rintro s ⟨⟩
    exact hpublished
  unfold startFresh
  dsimp only
  split
  · exact hactive _
  · exact hsound
  · exact hactive _

theorem sound_start (hsound : h.Sound) (script : Script) : (h.start cfg script).1.Sound := by
  unfold start
  split
  · exact sound_startFresh hsound script
  · rename_i active hactive htask
    exact sound_resumeWith (keeps_resume cfg _ (hsound.stored hactive _ _))
  · exact hsound

omit [Xxh3] [Sha256] in
theorem sound_runTask (hsound : h.Sound) {x : Task A} {answer : A → Answer} {goesOn : Bool}
    (hx : ∀ active ∈ h.active, ∀ state ∈ h.task, Stored [] ⟨h.closed, active, state, script⟩ →
      After (fun _ => Stored []) (fun _ => Stored []) (x ⟨h.closed, active, state, script⟩)) :
    (h.runTask x script answer goesOn).1.Sound := by
  unfold runTask
  split
  · rename_i active state hactive htask
    exact sound_resumeWith (hx _ hactive _ htask (hsound.stored hactive _ _))
  · exact hsound

omit [Xxh3] [Sha256] in
/-- A crash leaves what was synced. -/
theorem sound_crash (hsound : h.Sound) (kept : Nat) :
    (⟨h.closed, h.active.map fun s => s.truncate (max s.synced kept), none⟩ : Home).Sound := by
  refine ⟨hsound.closed, ?_⟩
  rintro s hs
  obtain ⟨s, hactive, rfl⟩ := Option.mem_map.mp hs
  have hs := hsound.active s hactive
  refine hs.truncate (hs.header_synced.trans (le_max_left _ _)) ?_
  intro a ha himmediate
  exact (hs.held a ha himmediate).durable.trans (le_max_left _ _)

/-- **What one input keeps.** -/
theorem sound_step (hsound : h.Sound) {input : Input} (hclean : input.Clean cfg h) :
    (h.step cfg input).1.Sound := by
  cases input with
  | start script => exact sound_start hsound script
  | request req script =>
    refine sound_runTask hsound fun active hactive state htask hstored => ?_
    exact meets_serve cfg hstored (hclean active hactive state htask) _ rfl
  | flush script => exact sound_runTask hsound fun _ _ _ _ hstored => keeps_flush cfg _ hstored
  | shutdown script =>
    exact sound_runTask hsound fun _ _ _ _ hstored => keeps_shutdown cfg _ hstored
  | crash kept => exact sound_crash hsound kept

/-- Every input of the run is clean in the state it meets. -/
def CleanRun (cfg : Config) (inputs : List Input) : Prop :=
  ∀ before input rest, inputs = before ++ input :: rest → input.Clean cfg (after cfg before)

theorem sound_after {inputs : List Input} (hclean : CleanRun cfg inputs) :
    (after cfg inputs).Sound := by
  have hkeep : ∀ h input, Sound h → Input.Clean cfg h input → Sound (h.step cfg input).1 :=
    fun h input hsound hinput => sound_step hsound hinput
  exact Lib.Machine.run_invariant_of_meets hkeep .empty sound_empty inputs hclean

end Home

/-! ## Recovery -/

/-- What a restart makes of a file: it is cut where the scan resumes. -/
def recovered (file : List UInt8) : List UInt8 := file.take (scanTailFile file).resumeOffset

/-- Whatever a crash leaves of the segment, the acknowledged appends of immediate events are decoded
at their offsets after recovery, and stand in the order of their acknowledgements. -/
def Segment.Survives (s : Segment) : Prop :=
  (∀ kept, s.synced ≤ kept → ∀ a ∈ s.acked, a.immediate →
    Codec.decodeFrame ((recovered (s.bytes.take kept)).drop a.offset) = .ok (frameOf a.event)) ∧
  s.acked.Pairwise fun a b => a.immediate → b.immediate → a.end ≤ b.offset

omit [Xxh3] [Sha256] in
theorem Segment.Sound.survives {s : Segment} (h : s.Sound) : s.Survives := by
  refine ⟨?_, h.ordered⟩
  intro kept hkept a ha himmediate
  have hcrashed : (s.truncate kept).Sound :=
    h.truncate (h.header_synced.trans hkept) fun b hb hb' =>
    (h.held b hb hb').durable.trans hkept
  obtain ⟨ds, b, hreads, hb, hends, hscan⟩ := hcrashed.scan
  have hresume : (scanTailFile (s.bytes.take kept)).resumeOffset = b := by
    change (scanTailFile (s.truncate kept).bytes).resumeOffset = b
    rw [hscan]
    split_ifs
    · rfl
    · rfl
  have hheld := (hcrashed.held a ha himmediate).take (hends a ha himmediate)
  rw [recovered, hresume]
  exact (plausible_eq_ok_iff.mp hheld.decodes).1

/-- **Acknowledged appends survive** in every run that writes no append behind what a failed write
has left. -/
theorem acknowledged_appends_survive (cfg : Config) (inputs : List Input)
    (hclean : Home.CleanRun cfg inputs) :
    ∀ s ∈ (Home.after cfg inputs).closed ++ (Home.after cfg inputs).active.toList, s.Survives := by
  intro s hs
  exact ((Home.sound_after hclean).all s hs).survives

end Neoth.Wal.Writer

namespace Neoth.Wal.Writer

/-! ## An append behind a failed write -/

section Samples

attribute [local instance] emptyXxh3 Sha256.fips

def sampleConfig : Config where
  policy := .rotating ⟨2 ^ 24, 2 ^ 63⟩
  key := []
  archivedKeys := []
  seq := 0
  segmentName _ := "00000000.wal"
  segmentPath _ := "wal/00000000.wal"
  path_fits _ := by decide +kernel

/-- A `RAW_TEXT` event without a payload. -/
def sampleEvent (physicalNs : UInt64) : Event :=
  ⟨(HeaderBuilder.new eventTypeRawText []).build ⟨physicalNs, 0⟩, []⟩

def sampleRequest (physicalNs : UInt64) : Request where
  event := sampleEvent physicalNs
  forceAuthenticationMarker := false
  once := none
  durableTrust := none
  sized := @sized_build emptyXxh3 (.new eventTypeRawText []) (Nat.zero_le _) ⟨physicalNs, 0⟩
  fits := Nat.zero_le _

/-- An append that waits for the next sync. -/
def sampleBatched (physicalNs : UInt64) : Request where
  event := ⟨(HeaderBuilder.new 0x23 []).build ⟨physicalNs, 0⟩, []⟩
  forceAuthenticationMarker := false
  once := none
  durableTrust := none
  sized := @sized_build emptyXxh3 (.new 0x23 []) (Nat.zero_le _) ⟨physicalNs, 0⟩
  fits := Nat.zero_le _

/-- Behind the first append the write of a batched one fails; its error is the answer to the
third. -/
def sampleRecovery : List Input :=
  [.start ⟨[], [], [], []⟩, .request (sampleRequest 1) ⟨[], [], [], []⟩,
    .request (sampleBatched 2) ⟨[], [.lastFailed 5], [], []⟩,
    .request (sampleRequest 3) ⟨[], [], [], []⟩, .crash 200]

theorem acknowledged_appends_survive_sample :
    (Lib.Machine.run (Home.step sampleConfig) .empty sampleRecovery).2 =
        [.flushed, .appended 60, .appended 164, .refused, .closed] ∧
      ∀ s ∈ (Home.after sampleConfig sampleRecovery).closed ++ (Home.after sampleConfig
        sampleRecovery).active.toList, s.Survives := by
  have hclean : ∀ (h : Home) (req : Request) (script : Script),
      (req.immediate → req.Stamped ∧ ∀ active ∈ h.active, ∀ state ∈ h.task,
        let r := (prepare sampleConfig req ⟨h.closed, active, state, script⟩).2
        r.state.lastWriteErr = true ∨ scanTailFile r.active.bytes = .clean r.state.offset ∧
        r.script.writes = []) →
      Input.Clean sampleConfig h (.request req script) := by
    intro h req script hsafe active hactive state hstate r hprepare himmediate
    obtain ⟨hstamped, hready⟩ := hsafe himmediate
    have hr := hready active hactive state hstate
    rw [hprepare] at hr
    dsimp only at hr
    refine ⟨hstamped, fun herr => ?_⟩
    rcases hr with hpending | ⟨hscan, hwrites⟩
    · exact absurd (herr.symm.trans hpending) Bool.false_ne_true
    · exact ⟨hscan, by simp [hwrites]⟩
  refine ⟨by decide +kernel, acknowledged_appends_survive sampleConfig sampleRecovery ?_⟩
  refine Lib.Machine.meets_cons (M := fun h input => Input.Clean sampleConfig h input) trivial ?_
  refine Lib.Machine.meets_cons (M := fun h input => Input.Clean sampleConfig h input)
    (hclean _ _ _ fun _ => ⟨(by decide : Hlc.Valid ⟨1, 0⟩), by decide +kernel⟩) ?_
  refine Lib.Machine.meets_cons (M := fun h input => Input.Clean sampleConfig h input)
    (hclean _ _ _ fun himmediate => absurd himmediate (by decide +kernel)) ?_
  refine Lib.Machine.meets_cons (M := fun h input => Input.Clean sampleConfig h input)
    (hclean _ _ _ fun _ => ⟨(by decide : Hlc.Valid ⟨3, 0⟩), by decide +kernel⟩) ?_
  exact Lib.Machine.meets_cons (M := fun h input => Input.Clean sampleConfig h input) trivial
    Lib.Machine.meets_nil

/-- The write of the first append fails behind its first byte, and it is answered with its
offset. -/
def sampleFailure : List Input :=
  [.start ⟨[], [], [], []⟩, .request (sampleRequest 1) ⟨[], [.lastFailed 1], [], []⟩]

/-- The acknowledged append is not found again: recovery cuts the file at its offset. -/
theorem acknowledged_append_lost :
    (Lib.Machine.run (Home.step sampleConfig) .empty sampleFailure).2 = [.flushed, .appended 60] ∧
      ¬ ∀ s ∈ (Home.after sampleConfig sampleFailure).closed ++ (Home.after sampleConfig
        sampleFailure).active.toList, s.Survives := by
  refine ⟨by decide +kernel, ?_⟩
  intro h
  have hlost : ∃ s ∈ (Home.after sampleConfig sampleFailure).closed ++
      (Home.after sampleConfig sampleFailure).active.toList, s.synced ≤ s.bytes.length ∧
      ∃ a ∈ s.acked, a.immediate = true ∧
        (Codec.decodeFrame ((recovered (s.bytes.take s.bytes.length)).drop a.offset)).isOk =
          false := by
    decide +kernel
  obtain ⟨s, hs, hsynced, a, ha, himmediate, hdecode⟩ := hlost
  rw [(h s hs).1 _ hsynced a ha himmediate] at hdecode
  exact Bool.false_ne_true hdecode.symm

end Samples

end Neoth.Wal.Writer
