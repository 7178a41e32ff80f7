import Neoth.Wal.Writer

/-!
# Rules for the writer

What every invariant of the writer rests on: the header of a new segment and the frames that
decoders take are read back, the writer's own frames are such frames, and an attempt or a stamp only
shortens the script.

* `parse_newSegmentHeaderBytes`: the header of a new segment is read back;
* `Readable.decode`, `Readable.decode_cut`: a frame is read where it stands, a part of it is not;
* `Scripted`: the predicates that do not look at the script, with a rule for each attempt.
-/

open Lib.Crc32c Lib.Effects Lib.Encoding Lib.FrameLog Lib.Transaction Neoth.MeshSync

namespace Neoth.Wal.Writer

/-! ## Segment headers -/

theorem length_segmentMagic : segmentMagic.length = 8 := by decide +kernel

theorem length_headerFields (generation : Nat) (seq firstEventId startTsNs : UInt64)
    (nodeId : Vector UInt8 16) :
    (headerFields generation seq firstEventId startTsNs nodeId).length = 56 := by
  simp only [headerFields, List.length_append, length_segmentMagic, length_leBytes,
    Vector.length_toList]

theorem length_newSegmentHeaderBytes (seq openedAtNs : UInt64) :
    (newSegmentHeaderBytes seq openedAtNs).length = segmentHeaderLen := by
  unfold newSegmentHeaderBytes
  rw [List.length_append, length_headerFields, length_leBytes]
  rfl

/-- Where the fields stand. -/
theorem slice_newSegmentHeaderBytes (seq openedAtNs : UInt64) :
    slice (newSegmentHeaderBytes seq openedAtNs) 8 4 = leBytes 4 1 ∧
      slice (newSegmentHeaderBytes seq openedAtNs) 16 8 = leBytes 8 seq.toNat ∧
      slice (newSegmentHeaderBytes seq openedAtNs) 32 8 = leBytes 8 openedAtNs.toNat ∧
      slice (newSegmentHeaderBytes seq openedAtNs) 56 4 =
        leBytes 4 (crc32c (headerFields 0 seq 0 openedAtNs (.replicate 16 0))) := by
  have hfields := length_headerFields 0 seq 0 openedAtNs (.replicate 16 0)
  refine ⟨?_, ?_, ?_, ?_⟩
  · simp (disch := simp [length_segmentMagic]) only [newSegmentHeaderBytes, headerFields,
      List.append_assoc, slice_append_right, slice_append_left, length_segmentMagic, Nat.reduceSub]
    rfl
  · simp (disch := simp [length_segmentMagic]) only [newSegmentHeaderBytes, headerFields,
      List.append_assoc, slice_append_right, slice_append_left, length_segmentMagic, length_leBytes,
      Nat.reduceSub]
  · simp (disch := simp [length_segmentMagic]) only [newSegmentHeaderBytes, headerFields,
      List.append_assoc, slice_append_right, slice_append_left, length_segmentMagic, length_leBytes,
      Nat.reduceSub]
  · rw [newSegmentHeaderBytes, slice_append_right hfields.le, hfields,
      slice_self (length_leBytes _ _)]

/-- The header of a new segment is read back. -/
theorem parse_newSegmentHeaderBytes (seq openedAtNs : UInt64) :
    ∃ h : SegmentHeader, parseSegmentHeader (newSegmentHeaderBytes seq openedAtNs) = .ok (.v1 h) ∧
      h.segmentSeq = seq ∧ h.segmentStartTsNs = openedAtNs := by
  obtain ⟨hversion, hseq, hstart, hcrc⟩ := slice_newSegmentHeaderBytes seq openedAtNs
  have hlen := length_newSegmentHeaderBytes seq openedAtNs
  have hfields := length_headerFields 0 seq 0 openedAtNs (.replicate 16 0)
  have hmagic : (newSegmentHeaderBytes seq openedAtNs).take 8 = segmentMagic := by
    rw [newSegmentHeaderBytes, headerFields, List.append_assoc, ← length_segmentMagic,
      List.take_left']
    rfl
  have hcovered : (newSegmentHeaderBytes seq openedAtNs).take segmentHeaderCrcCovered =
      headerFields 0 seq 0 openedAtNs (.replicate 16 0) := by
    exact List.take_left' hfields
  have hone : Codec.u32At (newSegmentHeaderBytes seq openedAtNs) 8 = 1 :=
    Codec.u32At_of_slice hversion
  have hchecksum : (Codec.u32At (newSegmentHeaderBytes seq openedAtNs) 56).toNat =
      crc32c (headerFields 0 seq 0 openedAtNs (.replicate 16 0)) := by
    rw [toNat_u32At, hcrc, leNat_leBytes (crc32c_lt _)]
  let header : SegmentHeader :=
    ⟨segmentMagic, 1, Codec.u32At (newSegmentHeaderBytes seq openedAtNs) 12, seq,
    Codec.u64At (newSegmentHeaderBytes seq openedAtNs) 24, openedAtNs,
    Codec.arrayAt (newSegmentHeaderBytes seq openedAtNs) 40 16,
    Codec.u32At (newSegmentHeaderBytes seq openedAtNs) 56⟩
  have hbase : SegmentHeader.fromLeBytes (newSegmentHeaderBytes seq openedAtNs) = .ok header := by
    unfold SegmentHeader.fromLeBytes SegmentHeader.fromLeBytesOf
    simp only [bind_eq_ok_iff, require_eq_ok_iff, hmagic, hone, hcovered, hchecksum,
      Codec.u64At_of_slice hseq, Codec.u64At_of_slice hstart]
    exact ⟨(), beq_self_eq_true _, (), beq_self_eq_true _, (), beq_self_eq_true _, rfl⟩
  refine ⟨header, ?_, rfl, rfl⟩
  unfold parseSegmentHeader
  rw [if_neg (by omega), if_neg (not_not_intro hmagic)]
  dsimp only
  rw [if_pos hone, List.take_of_length_le hlen.le, hbase]
  rfl

theorem headerLenOf_newSegment (seq openedAtNs : UInt64) (rest : List UInt8) :
    headerLenOf (newSegmentHeaderBytes seq openedAtNs ++ rest) = segmentHeaderLen := by
  obtain ⟨h, hparse, -⟩ := parse_newSegmentHeaderBytes seq openedAtNs
  rw [headerLenOf_append hparse (length_newSegmentHeaderBytes _ _), length_newSegmentHeaderBytes]

/-! ## Events that are read back -/

/-- The frame of the event is one that the scan takes for a frame. -/
structure Readable (event : Event) : Prop where
  sized : event.Sized
  fits : event.payload.length ≤ maxPayloadBytes
  stamp : event.header.hlc.Valid

/-- The event as it is read back. -/
def frameOf (event : Event) : Codec.DecodedFrame := ⟨event.header.wire, event.payload⟩

theorem length_encodeFrame_event {event : Event} (h : event.Sized) :
    (encodeFrame event).length = event.header.wire.totalLen.toNat :=
  Codec.length_of_encodeFrame (encodeFrame_wire h)

theorem length_encodeFrame_eq {event : Event} (h : event.Sized) :
    (encodeFrame event).length = 104 + event.payload.length := by
  rw [length_encodeFrame_event h]
  refine h.1.trans ?_
  simp only [preambleLen, headerBodyLen, crcLen]
  omega

theorem Readable.decode {event : Event} (h : Readable event) (more : List UInt8) :
    plausibleFraming.decode (encodeFrame event ++ more) = .ok (frameOf event) := by
  have hadmitted : event.header.wire.Admitted := ⟨rfl, rfl, rfl, h.stamp⟩
  have hdescribes := wire_describes h.sized
  obtain ⟨hlen, hbytes⟩ := Codec.encodeFrame_eq_some_iff.mp (encodeFrame_wire h.sized)
  have hmax := h.fits
  have hlength := length_encodeFrame_eq h.sized
  rw [length_encodeFrame_event h.sized] at hlength
  refine plausible_eq_ok_iff.mpr ⟨?_, ?_⟩
  · rw [hbytes]
    exact Codec.decodeFrame_checked hadmitted hlen List.length_replicate more
  · show event.header.wire.totalLen.toNat ≤ _
    rw [hlength]
    simp only [maxFrameLen, preambleLen, headerBodyLen, crcLen]
    omega

/-- A part of the frame is no frame. -/
theorem Readable.decode_cut {event : Event} (h : Readable event) {part : List UInt8}
    (hcut : part <+: encodeFrame event)
    (hne : part ≠ encodeFrame event) (d : Codec.DecodedFrame) :
      plausibleFraming.decode part ≠ .ok d := by
  intro hdecode
  exact decodeFrame_ne_ok_of_cut (encodeFrame_wire h.sized) hcut hne d
    (plausible_eq_ok_iff.mp hdecode).1

/-- A log that is read up to its end is read on over a frame at its end. -/
theorem Readable.reads_append {event : Event} (h : Readable event) {body : List UInt8} {a : Nat}
    {ds : List Codec.DecodedFrame} (hreads : Reads plausibleFraming body a ds body.length) :
    Reads plausibleFraming (body ++ encodeFrame event) a (ds ++ [frameOf event])
      (body.length + (encodeFrame event).length) := by
  have hhead : plausibleFraming.decode ((body ++ encodeFrame event).drop body.length) =
      .ok (frameOf event) := by
    have hdecode := h.decode []
    rw [List.append_nil] at hdecode
    rwa [List.drop_left]
  rw [length_encodeFrame_event h.sized]
  exact (hreads.append _).trans (.cons hhead (.nil _))

/-! ## Attempts -/

/-- What is left of a script. -/
def Script.Within (script whole : Script) : Prop :=
  script.writes ⊆ whole.writes ∧ script.stamps ⊆ whole.stamps

/-- The stamps of the headers are such that decoders take. -/
def Script.Stamped (script : Script) : Prop := ∀ stamp ∈ script.stamps, stamp.Valid

/-- Decoders take the stamps of the headers, and no write fails without telling. -/
def Script.Regular (script : Script) : Prop := script.Stamped ∧ ∀ written ∈ script.writes,
    written.isTold

theorem Script.Regular.within {script whole : Script} (h : whole.Regular)
    (hwithin : script.Within whole) : script.Regular :=
  ⟨fun stamp hstamp => h.1 stamp (hwithin.2 hstamp),
    fun written hwritten => h.2 written (hwithin.1 hwritten)⟩

/-- The predicate does not depend on the script, but for what is in it. -/
structure Scripted (P : Running → Prop) : Prop where
  keep : ∀ {r : Running} {script : Script}, P r → script.Within r.script →
    P { r with script := script }

theorem valid_epoch : Hlc.epoch.Valid := by decide

namespace Scripted

variable {P K : Running → Prop} {F : Stop → Running → Prop}

theorem and (hP : Scripted P) (hK : ∀ {r : Running} {script : Script}, K r →
    K { r with script := script }) : Scripted fun r => P r ∧ K r :=
  ⟨fun h hwithin => ⟨hP.keep h.1 hwithin, hK h.2⟩⟩

theorem nextIo (hP : Scripted P) : Meets P nextIo (fun _ => P) F := by
  intro r h
  unfold Writer.nextIo
  split
  · exact h
  · exact hP.keep h ⟨List.Subset.refl _, List.Subset.refl _⟩

/-- What the next frame comes to is known from the script. -/
theorem nextWritten_of (hP : Scripted P) {good : Written → Prop} (hdone : good .done)
    (hnext : ∀ r, K r → P r ∧ ∀ written ∈ r.script.writes.head?, good written) :
    Meets K nextWritten (fun written r => good written ∧ P r) F := by
  intro r h
  obtain ⟨hr, hhead⟩ := hnext r h
  unfold Writer.nextWritten
  split
  · exact ⟨hdone, hr⟩
  · rename_i written writes hscript
    refine ⟨hhead written (by rw [hscript]; rfl), hP.keep hr ⟨?_, List.Subset.refl _⟩⟩
    rw [hscript]
    exact List.subset_cons_self _ _

theorem nextWritten (hP : Scripted P) : Meets P nextWritten (fun _ => P) F :=
  (hP.nextWritten_of trivial fun _ h => ⟨h, fun _ _ => trivial⟩).mono (fun _ h => h)
    (fun _ _ h => h.2) fun _ _ h => h

theorem nextStamp (hP : Scripted P) : Meets P nextStamp (fun _ => P) F := by
  intro r h
  unfold Writer.nextStamp
  split
  · exact h
  · rename_i stamp stamps hscript
    exact hP.keep h ⟨List.Subset.refl _, hscript ▸ List.subset_cons_self _ _⟩

theorem nextStamp_valid (hP : Scripted P) (hstamped : ∀ r, P r → r.script.Stamped) :
    Meets P Writer.nextStamp (fun stamp r => stamp.Valid ∧ P r) F := by
  intro r h
  unfold Writer.nextStamp
  split
  · exact ⟨valid_epoch, h⟩
  · rename_i stamp stamps hscript
    have hall := List.forall_mem_cons.mp
      (hscript ▸ hstamped r h : ∀ other ∈ stamp :: stamps, other.Valid)
    exact ⟨hall.1, hP.keep h ⟨List.Subset.refl _, hscript ▸ List.subset_cons_self _ _⟩⟩

theorem nextTime (hP : Scripted P) : Meets P nextTime (fun _ => P) F := by
  intro r h
  unfold Writer.nextTime
  split
  · exact h
  · exact hP.keep h ⟨List.Subset.refl _, List.Subset.refl _⟩

theorem tryIo (hP : Scripted P) (e : Stop) : Meets P (tryIo e) (fun _ => P) (fun _ => P) := by
  refine Meets.bind hP.nextIo fun outcome => ?_
  cases outcome with
  | done => exact Meets.pure fun r h => h
  | failed reached => exact Meets.throw fun r h => h

theorem validate (hP : Scripted P) : Meets P validate (fun _ => P) (fun _ => P) := hP.tryIo _

end Scripted

theorem meets_ensureFrameFits {P : Running → Prop} (cfg : Config) (frameLen : Nat) :
    Meets P (ensureFrameFits cfg frameLen)
      (fun _ r => r.state.offset + frameLen ≤ ceilingOf cfg.policy ∧ P r) (fun _ => P) := by
  refine Meets.bind Meets.get fun r => Meets.check (fun hle s h => ⟨?_, h.2⟩) fun _ s h => h.2
  rw [← h.1]
  exact of_decide_eq_true hle

/-! ## Frames of the writer's own -/

variable [Xxh3]

/-- The frame of an event of the writer's own. -/
def IsSynthetic (eventType : UInt8) (payload frame : List UInt8) : Prop :=
  ∃ stamp : Hlc, stamp.Valid ∧ (syntheticEvent eventType payload stamp).Sized ∧
    frame = encodeFrame (syntheticEvent eventType payload stamp)

theorem Scripted.syntheticFrame {P : Running → Prop} (hP : Scripted P)
    (hstamped : ∀ r, P r → r.script.Stamped) (eventType : UInt8) (payload : List UInt8) :
    Meets P (syntheticFrame eventType payload) (fun frame r => IsSynthetic eventType payload frame ∧
      P r) (fun _ => P) := by
  refine Meets.bind (hP.nextStamp_valid hstamped) fun stamp => Meets.ite (fun hsized => ?_) fun _ =>
    ?_
  · exact Meets.pure fun r ⟨hvalid, h⟩ => ⟨⟨stamp, hvalid, hsized, rfl⟩, h⟩
  · exact Meets.throw fun r ⟨_, h⟩ => h

namespace IsSynthetic

variable {eventType : UInt8} {payload frame : List UInt8}

/-- It is read back if its payload is within the limit. -/
theorem readable (h : IsSynthetic eventType payload frame)
    (hfits : payload.length ≤ maxPayloadBytes) :
    ∃ event, Readable event ∧ event.header.eventType = eventType ∧ event.payload = payload ∧
      frame = encodeFrame event := by
  obtain ⟨stamp, hvalid, hsized, rfl⟩ := h
  exact ⟨_, ⟨hsized, hfits, hvalid⟩, rfl, rfl, rfl⟩

theorem length_eq (h : IsSynthetic eventType payload frame) :
    frame.length = 104 + payload.length := by
  obtain ⟨stamp, -, hsized, rfl⟩ := h
  exact length_encodeFrame_eq hsized

end IsSynthetic

omit [Xxh3] in
/-- The audit of a truncation is a payload within the limit. -/
theorem length_recoveryPayload_le {path : String} {goodThrough tornAt bytesDropped : Nat}
    {tsUnix : UInt64}
    (hpath : byteLen path ≤ 4096) (hgood : goodThrough ≤ legacySafeMaxSegmentPhysicalBytes)
    (htorn : tornAt ≤ legacySafeMaxSegmentPhysicalBytes)
    (hdropped : bytesDropped ≤ legacySafeMaxSegmentPhysicalBytes) :
    (recoveryPayload path goodThrough tornAt bytesDropped tsUnix).length ≤ maxPayloadBytes := by
  have hmax : legacySafeMaxSegmentPhysicalBytes < 10 ^ 20 := by decide
  have hts : tsUnix.toNat < 10 ^ 20 := tsUnix.toNat_lt.trans (by decide)
  have hstring := Lib.Json.length_string_le path
  have hnat : ∀ n, n < 10 ^ 20 → (Lib.Json.nat n).length ≤ 20 :=
    fun n hn => Lib.Json.length_nat_le hn
  have h1 := hnat _ (hgood.trans_lt hmax)
  have h2 := hnat _ (htorn.trans_lt hmax)
  have h3 := hnat _ (hdropped.trans_lt hmax)
  have h4 := hnat _ hts
  have k1 : (Lib.Json.string "bytes_dropped").length = 15 := by decide +kernel
  have k2 : (Lib.Json.string "good_through").length = 14 := by decide +kernel
  have k3 : (Lib.Json.string "segment_path").length = 14 := by decide +kernel
  have k4 : (Lib.Json.string "torn_at").length = 9 := by decide +kernel
  have k5 : (Lib.Json.string "ts_unix").length = 9 := by decide +kernel
  simp only [recoveryPayload, Lib.Json.object, Lib.Json.commaSep, Lib.Json.field, List.length_cons,
    List.length_append, List.length_nil, k1, k2, k3, k4, k5, maxPayloadBytes]
  omega

/-! ## Successors -/

variable [Sha256]

/-- The bytes that a successor begins with. -/
def IsSuccessor (cfg : Config) (link : SegmentLink) (bytes : List UInt8) : Prop :=
  ∃ linkFrame markerFrame, IsSynthetic eventTypeSegmentRollover link.toVec linkFrame ∧
    IsSynthetic eventTypeCompactionMarker
      ((((CompactionState.new segmentHeaderLen).update linkFrame).finaliseMarker cfg.key
        (segmentHeaderLen + linkFrame.length)).1.toVec link.tsNs.toNat) markerFrame ∧
    bytes = newSegmentHeaderBytes link.openedSeq link.openedStartTsNs ++ (linkFrame ++ markerFrame)

theorem Scripted.successorPrefix {P : Running → Prop} (hP : Scripted P)
    (hstamped : ∀ r, P r → r.script.Stamped) (cfg : Config) (link : SegmentLink) :
    Meets P (successorPrefix cfg link) (fun bytes r => IsSuccessor cfg link bytes ∧ P r)
      (fun _ => P) := by
  refine Meets.bind (hP.syntheticFrame hstamped _ _) fun linkFrame => Meets.given fun hlink => ?_
  refine Meets.bind (hP.syntheticFrame hstamped _ _) fun markerFrame => Meets.given fun hmarker =>
    ?_
  rw [length_newSegmentHeaderBytes] at hmarker
  exact Meets.pure fun r h => ⟨⟨linkFrame, markerFrame, hlink, hmarker, rfl⟩, h⟩

/-- The prefix is a header and two frames, the link and a marker over it. -/
theorem IsSuccessor.frames {cfg : Config} {link : SegmentLink} {bytes : List UInt8}
    (h : IsSuccessor cfg link bytes) (hle : bytes.length ≤ maxRotationSuccessorPrefixBytes) :
    ∃ first second, Readable first ∧ Readable second ∧
    first.header.eventType = eventTypeSegmentRollover ∧
      second.header.eventType = eventTypeCompactionMarker ∧
      second.payload =
        (((CompactionState.new segmentHeaderLen).update (encodeFrame first)).finaliseMarker cfg.key
        (segmentHeaderLen + (encodeFrame first).length)).1.toVec link.tsNs.toNat ∧
      bytes = newSegmentHeaderBytes link.openedSeq link.openedStartTsNs ++
        (encodeFrame first ++ encodeFrame second) := by
  obtain ⟨linkFrame, markerFrame, hlink, hmarker, rfl⟩ := h
  have hlinkLength := hlink.length_eq
  have hmarkerLength := hmarker.length_eq
  simp only [List.length_append, length_newSegmentHeaderBytes,
    maxRotationSuccessorPrefixBytes] at hle
  obtain ⟨first, hfirst, hrollover, -, rfl⟩ :=
    hlink.readable (by simp only [maxPayloadBytes]; omega)
  obtain ⟨second, hsecond, htype, hpayload, rfl⟩ :=
    hmarker.readable (by simp only [maxPayloadBytes]; omega)
  exact ⟨first, second, hfirst, hsecond, hrollover, htype, hpayload, rfl⟩

end Neoth.Wal.Writer
