import Neoth.Wal.Clock

/-!
# Frames of the WAL, written and read back

`encode_frame` of `wal/frame.rs` on a header as the builder makes it, and `decode_frame` with the
header fields that the indexer reads.

* `segmentBytes`: what the writer appends for a list of events;
* `readFrame_encodeFrame`: a frame is read back as it was written, unless its clock is one that no
  header may carry;
* `readFraming`: reading as a framing of the log.
-/

open Lib.Encoding Lib.Crc32c Lib.FrameLog Lib.Transaction Neoth.MeshSync

namespace Neoth.Wal

/-! ## Slices of what was laid end to end -/

theorem slice_append_left {xs ys : List UInt8} {len : Nat} (h : xs.length = len) :
    slice (xs ++ ys) 0 len = xs := by
  rw [slice, List.drop_zero, ← h, List.take_left']
  rfl

theorem slice_append_right {xs ys : List UInt8} {start len : Nat} (h : xs.length ≤ start) :
    slice (xs ++ ys) start len = slice ys (start - xs.length) len := by
  rw [slice, slice, List.drop_append, List.drop_eq_nil_of_le h, List.nil_append]

theorem slice_self {xs : List UInt8} {len : Nat} (h : xs.length = len) : slice xs 0 len = xs := by
  rw [slice, List.drop_zero, ← h, List.take_length]

theorem leNat_leBytes {width n : Nat} (h : n < 256 ^ width) : leNat (leBytes width n) = n := by
  induction width generalizing n with
  | zero => simp at h; simp [h, leBytes, leNat]
  | succ width ih =>
    have hcons : leBytes (width + 1) n = UInt8.ofNat n :: leBytes width (n / 256) := by
      simp [leBytes, List.range_succ_eq_map, Nat.pow_succ', Nat.div_div_eq_div_mul]
    have hrest : leNat (leBytes width (n / 256)) = n / 256 := ih (by
      rw [Nat.pow_succ] at h
      exact Nat.div_lt_of_lt_mul (by omega))
    unfold leNat at hrest ⊢
    rw [hcons, List.foldr_cons, hrest, UInt8.toNat_ofNat']
    omega

/-! ## Writing -/

/-- `MAX_PAYLOAD_BYTES`. -/
def maxPayloadBytes : Nat := 16 * 1024 * 1024

/-- `to_le_bytes`; the builder reserves nothing. -/
def EventHeader.toLeBytes (h : EventHeader) : List UInt8 :=
  [walFormatVersion, eventSchemaVersion, h.eventType, h.eventSubtype, h.flags] ++
    (leBytes 2 headerBodyLen ++
    (leBytes 2 0 ++ (leBytes 4 h.totalLen.toNat ++
      (leBytes 4 h.payloadLen.toNat ++ (leBytes 4 h.generation.toNat ++
    (leBytes 8 h.eventId.toNat ++
      (leBytes 8 h.hlc.physicalNs.toNat ++ (leBytes 4 h.hlc.logical.toNat ++
    (leBytes 4 h.importance.toNat ++ (leBytes 4 h.scope.toNat ++ (leBytes 4 h.category.toNat ++
    (h.sessionId.toList ++
      (h.nodeId.toList ++ (leBytes 8 h.payloadHash.toNat ++ [0, 0, 0]))))))))))))))

theorem EventHeader.length_toLeBytes (h : EventHeader) : h.toLeBytes.length = headerBodyLen := by
  simp [toLeBytes, headerBodyLen]

/-- The bytes before the checksum. -/
def Event.unchecked (event : Event) : List UInt8 :=
  magic ++ (event.header.toLeBytes ++ event.payload)

def encodeFrame (event : Event) : List UInt8 :=
  event.unchecked ++ leBytes 4 (crc32c event.unchecked)

/-- The writer refuses a payload above the limit, and appends the frame of any other. -/
def Event.append (event : Event) : List UInt8 :=
  if maxPayloadBytes < event.payload.length then [] else encodeFrame event

def segmentBytes (events : List Event) : List UInt8 := events.flatMap Event.append

/-! ## Reading -/

/-- `DecodedFrame` with what the indexer reads of the header. -/
structure IndexedFrame where
  header : EventHeaderV2
  eventId : UInt64
  importance : UInt32
  sessionId : List UInt8
  payloadHash : UInt64
  payload : List UInt8
  deriving DecidableEq

/-- The fields of `from_le_bytes` that `EventHeaderV2` does not keep. -/
def IndexedFrame.ofBytes (body : List UInt8) (d : DecodedFrame) : IndexedFrame where
  header := d.header
  eventId := .ofNat (leNat (slice body 21 8))
  importance := .ofNat (leNat (slice body 41 4))
  sessionId := slice body 53 16
  payloadHash := .ofNat (leNat (slice body 85 8))
  payload := d.payload

/-- `decode_frame`. -/
def readFrame (frame : List UInt8) : Except HeaderParseError IndexedFrame :=
  (decodeFrame frame).map (IndexedFrame.ofBytes (slice frame preambleLen headerBodyLen))

def readFraming : Framing UInt8 HeaderParseError IndexedFrame where
  decode := readFrame
  size f := f.header.totalLen
  size_pos h := by
    obtain ⟨d, hd, rfl⟩ := map_eq_ok h
    exact walFraming.size_pos hd
  size_le h := by
    obtain ⟨d, hd, rfl⟩ := map_eq_ok h
    exact walFraming.size_le hd
  decode_append {bytes _} more h := by
    obtain ⟨d, hd, rfl⟩ := map_eq_ok h
    have hlen := decodeFrame_totalLen hd
    have happend : decodeFrame (bytes ++ more) = .ok d := walFraming.decode_append more hd
    rw [readFrame, happend, slice_append (by simp only [preambleLen, headerBodyLen]; omega)]
    rfl

/-- The header of an event as it is read back. -/
def Event.indexed (event : Event) : IndexedFrame where
  header := ⟨event.header.eventType, event.header.eventSubtype, 0, event.header.totalLen.toNat,
    event.header.payloadLen.toNat, event.header.hlc.physicalNs.toNat⟩
  eventId := event.header.eventId
  importance := event.header.importance
  sessionId := event.header.sessionId.toList
  payloadHash := event.header.payloadHash
  payload := event.payload

/-- The lengths in the header are those of the frame. -/
def Event.Sized (event : Event) : Prop :=
  event.header.totalLen.toNat = preambleLen + headerBodyLen + event.payload.length + crcLen ∧
    event.header.payloadLen.toNat = event.payload.length

/-- `Hlc::new` refuses a logical count at the epoch. -/
def Hlc.Valid (hlc : Hlc) : Prop := hlc.physicalNs = 0 → hlc.logical = 0

instance (hlc : Hlc) : Decidable hlc.Valid := inferInstanceAs (Decidable (_ → _))

/-- Where the fields of a header stand. -/
theorem slice_header (h : EventHeader) :
    slice h.toLeBytes 5 2 = leBytes 2 headerBodyLen ∧ slice h.toLeBytes 7 2 = leBytes 2 0 ∧
    slice h.toLeBytes 9 4 = leBytes 4 h.totalLen.toNat ∧
    slice h.toLeBytes 13 4 = leBytes 4 h.payloadLen.toNat ∧
    slice h.toLeBytes 21 8 = leBytes 8 h.eventId.toNat ∧
    slice h.toLeBytes 29 8 = leBytes 8 h.hlc.physicalNs.toNat ∧
    slice h.toLeBytes 37 4 = leBytes 4 h.hlc.logical.toNat ∧
    slice h.toLeBytes 41 4 = leBytes 4 h.importance.toNat ∧
    slice h.toLeBytes 53 16 = h.sessionId.toList ∧
    slice h.toLeBytes 85 8 = leBytes 8 h.payloadHash.toNat ∧
    slice h.toLeBytes 93 3 = [0, 0, 0] := by
  refine ⟨?_, ?_, ?_, ?_, ?_, ?_, ?_, ?_, ?_, ?_, ?_⟩ <;>
    simp (disch := simp) only [EventHeader.toLeBytes, slice_append_right, slice_append_left,
      slice_self, length_leBytes, List.length_cons, List.length_nil, Vector.length_toList,
      Nat.reduceSub, Nat.reduceAdd]

theorem fromLeBytes_toLeBytes {event : Event} (hsized : event.Sized)
    (hclock : event.header.hlc.Valid) :
    EventHeaderV2.fromLeBytes event.header.toLeBytes = .ok event.indexed.header := by
  obtain ⟨hheaderLen, hreserved, htotal, hpayload, -, hphysical, hlogical, himportance, -, -,
      hzero⟩ :=
    slice_header event.header
  replace hheaderLen : leNat _ = headerBodyLen :=
    (congrArg leNat hheaderLen).trans (leNat_leBytes (by decide))
  replace hreserved : leNat _ = 0 := (congrArg leNat hreserved).trans (leNat_leBytes (by decide))
  replace htotal :=
    (congrArg leNat htotal).trans ((leNat_leBytes (UInt32.toNat_lt _)).trans hsized.1)
  replace hpayload :=
    (congrArg leNat hpayload).trans ((leNat_leBytes (UInt32.toNat_lt _)).trans hsized.2)
  replace hphysical := (congrArg leNat hphysical).trans (leNat_leBytes (UInt64.toNat_lt _))
  replace hlogical := (congrArg leNat hlogical).trans (leNat_leBytes (UInt32.toNat_lt _))
  replace himportance := (congrArg leNat himportance).trans (leNat_leBytes (UInt32.toNat_lt _))
  have hepoch : (!(event.header.hlc.physicalNs.toNat == 0 && event.header.hlc.logical.toNat != 0)) =
      true := by
    by_cases hzero : event.header.hlc.physicalNs = 0
    · simp [hclock hzero]
    · have hne : event.header.hlc.physicalNs.toNat ≠ 0 := fun heq => hzero (UInt64.toNat_inj.mp heq)
      simp [hne]
  have hbytes : event.header.toLeBytes.getD 0 0 = walFormatVersion ∧
      event.header.toLeBytes.getD 1 0 = eventSchemaVersion ∧
      event.header.toLeBytes.getD 2 0 = event.header.eventType ∧
      event.header.toLeBytes.getD 3 0 = event.header.eventSubtype ∧
      event.header.toLeBytes.getD 4 0 = event.header.flags := ⟨rfl, rfl, rfl, rfl, rfl⟩
  unfold EventHeaderV2.fromLeBytes Event.indexed
  simp only [hheaderLen, hreserved, htotal, hpayload, hphysical, hlogical, himportance, hzero,
    hbytes, hepoch, event.header.flags_ok, event.header.importance_ok, hsized.1, hsized.2,
    Nat.add_zero, beq_self_eq_true, require, if_true]
  rfl

theorem length_encodeFrame {event : Event} (hsized : event.Sized) :
    (encodeFrame event).length = event.indexed.header.totalLen := by
  show _ = event.header.totalLen.toNat
  rw [hsized.1, encodeFrame, List.length_append, Event.unchecked, List.length_append,
    List.length_append, EventHeader.length_toLeBytes, length_leBytes, ← Nat.add_assoc]
  rfl

/-- **Round trip.** -/
theorem readFrame_encodeFrame {event : Event} (hsized : event.Sized)
    (hclock : event.header.hlc.Valid)
    (more : List UInt8) : readFrame (encodeFrame event ++ more) = .ok event.indexed := by
  have hbody : (event.unchecked).length = preambleLen + headerBodyLen + event.payload.length := by
    rw [Event.unchecked, List.length_append, List.length_append, EventHeader.length_toLeBytes,
      ← Nat.add_assoc]
    rfl
  have hbytes : encodeFrame event ++ more =
      magic ++ (event.header.toLeBytes ++
        (event.payload ++ (leBytes 4 (crc32c event.unchecked) ++ more))) := by
    simp [encodeFrame, Event.unchecked]
  have hlenMagic : magic.length = preambleLen := rfl
  have hheader : slice (encodeFrame event ++ more) preambleLen headerBodyLen =
      event.header.toLeBytes := by
    rw [hbytes, slice_append_right hlenMagic.le, hlenMagic, Nat.sub_self,
      slice_append_left event.header.length_toLeBytes]
  have hpayload :
      slice (encodeFrame event ++ more) (preambleLen + headerBodyLen + 0) event.payload.length =
      event.payload := by
    rw [hbytes, slice_append_right (by rw [hlenMagic]; omega), hlenMagic,
      slice_append_right (by rw [EventHeader.length_toLeBytes]; omega),
      EventHeader.length_toLeBytes, show preambleLen + headerBodyLen +
        0 - preambleLen - headerBodyLen = 0 by omega, slice_append_left rfl]
  have htake : (encodeFrame event ++ more).take event.unchecked.length = event.unchecked := by
    rw [encodeFrame, List.append_assoc, List.take_left']
    rfl
  have hcrc : leNat (slice (encodeFrame event ++ more) event.unchecked.length crcLen) =
      crc32c event.unchecked := by
    rw [encodeFrame, List.append_assoc, slice_append_right le_rfl, Nat.sub_self,
      slice_append_left (by simp [crcLen])]
    exact leNat_leBytes (crc32c_lt _)
  have hend : event.indexed.header.totalLen - crcLen = event.unchecked.length := by
    rw [hbody]
    show event.header.totalLen.toNat - crcLen = _
    rw [hsized.1, Nat.add_sub_cancel]
  have hdecode : decodeFrame (encodeFrame event ++ more) =
      .ok ⟨event.indexed.header, event.payload⟩ := by
    refine decodeFrame_eq_ok_iff.mpr ⟨?_, ?_, ?_, ?_, ?_⟩
    · show event.header.totalLen.toNat ≤ _
      rw [hsized.1, List.length_append, encodeFrame, List.length_append, hbody, length_leBytes]
      simp only [crcLen]
      omega
    · rw [hbytes, slice_append_left hlenMagic]
    · rw [hheader]
      exact fromLeBytes_toLeBytes hsized hclock
    · rw [hend, hcrc, htake]
    · show event.payload = slice _ (preambleLen + headerBodyLen + 0) event.header.payloadLen.toNat
      rw [hsized.2, hpayload]
  obtain ⟨-, -, -, -, hid, -, -, himportance, hsession, hhash, -⟩ := slice_header event.header
  rw [readFrame, hdecode, hheader]
  show Except.ok (IndexedFrame.ofBytes _ _) = _
  unfold IndexedFrame.ofBytes Event.indexed
  rw [hid, himportance, hsession, hhash, leNat_leBytes (UInt64.toNat_lt _),
    leNat_leBytes (UInt32.toNat_lt _), leNat_leBytes (UInt64.toNat_lt _), UInt64.ofNat_toNat,
    UInt64.ofNat_toNat, UInt32.ofNat_toNat]

end Neoth.Wal
