import Neoth.Lib.Encoding
import Neoth.Lib.Crc32c
import Neoth.Lib.FrameLog
import Neoth.Lib.Transaction

/-!
# WAL frames

`wal/frame.rs` and `wal/header.rs`: a frame is the preamble `NEOT`, a header of 96
bytes, padding, the payload and a CRC-32C of all of it.  Of the header the mesh reads
the event type, the lengths and the physical clock; the fields that are only checked
are checked here and not kept.

* `decodeFrame_eq_ok_iff`: what an accepted frame looks like;
* `walFraming`: decoding reads the declared length and nothing behind it.
-/

open Lib.Encoding Lib.Crc32c Lib.Transaction Lib.FrameLog

namespace Neoth.MeshSync

/-! ## Reading bytes -/

def slice (bytes : List UInt8) (start len : Nat) : List UInt8 := (bytes.drop start).take len

/-- `from_le_bytes` of any width. -/
def leNat (bytes : List UInt8) : Nat := bytes.foldr (fun b acc => b.toNat + 256 * acc) 0

theorem slice_append {bytes : List UInt8} {start len : Nat} (h : start + len ≤ bytes.length)
    (more : List UInt8) : slice (bytes ++ more) start len = slice bytes start len := by
  unfold slice
  rw [List.drop_append_of_le_length (by omega),
    List.take_append_of_le_length (by rw [List.length_drop]; omega)]

/-! ## The header -/

inductive HeaderParseError
  | invalidMagic (got : List UInt8)
  | unknownWalFormat (got : UInt8)
  | unknownSchema (got : UInt8)
  | invalidHeaderLen (got : Nat)
  | inconsistentTotalLen (totalLen payloadLen reservedLen expected : Nat)
  | nonzeroReserved (got : List UInt8)
  | invalidImportance (bits : Nat)
  | invalidFlagBits (got : UInt8)
  | bufferTooShort (got need : Nat)
  | crcMismatch (expected got : Nat)
  | postEpochLogicalWithoutPhysical (logical : Nat)
  deriving DecidableEq

structure EventHeaderV2 where
  eventType : UInt8
  eventSubtype : UInt8
  reservedLen : Nat
  totalLen : Nat
  payloadLen : Nat
  physicalNs : Nat
  deriving DecidableEq

def magic : List UInt8 := utf8 "NEOT"
def walFormatVersion : UInt8 := 0x02
def eventSchemaVersion : UInt8 := 0x04
def headerBodyLen : Nat := 96
def crcLen : Nat := 4
def preambleLen : Nat := 4

/-- `Importance::new` accepts a `f32` between zero and one, `-0.0` included. -/
def importanceOk (bits : Nat) : Bool := bits ≤ 0x3f800000 || bits == 0x80000000

def EventHeaderV2.fromLeBytes (b : List UInt8) : Except HeaderParseError EventHeaderV2 := do
  require (b.getD 0 0 == walFormatVersion) (.unknownWalFormat (b.getD 0 0))
  require (b.getD 1 0 == eventSchemaVersion) (.unknownSchema (b.getD 1 0))
  let headerLen := leNat (slice b 5 2)
  require (headerLen == headerBodyLen) (.invalidHeaderLen headerLen)
  let reservedLen := leNat (slice b 7 2)
  let totalLen := leNat (slice b 9 4)
  let payloadLen := leNat (slice b 13 4)
  let expected := preambleLen + headerBodyLen + reservedLen + payloadLen + crcLen
  require (totalLen == expected) (.inconsistentTotalLen totalLen payloadLen reservedLen expected)
  let physicalNs := leNat (slice b 29 8)
  let logical := leNat (slice b 37 4)
  let importance := leNat (slice b 41 4)
  require (slice b 93 3 == [0, 0, 0]) (.nonzeroReserved (slice b 93 3))
  require (b.getD 4 0 &&& 0xe0 == 0) (.invalidFlagBits (b.getD 4 0))
  require (!(physicalNs == 0 && logical != 0)) (.postEpochLogicalWithoutPhysical logical)
  require (importanceOk importance) (.invalidImportance importance)
  pure ⟨b.getD 2 0, b.getD 3 0, reservedLen, totalLen, payloadLen, physicalNs⟩

theorem EventHeaderV2.totalLen_of_fromLeBytes {b : List UInt8} {header : EventHeaderV2}
    (h : EventHeaderV2.fromLeBytes b = .ok header) :
    header.totalLen = preambleLen + headerBodyLen + header.reservedLen + header.payloadLen +
      crcLen := by
  unfold EventHeaderV2.fromLeBytes at h
  simp only [bind_eq_ok_iff, require_eq_ok_iff] at h
  obtain ⟨-, -, -, -, -, -, -, htotal, -, -, -, -, -, -, -, -, h⟩ := h
  cases h
  exact eq_of_beq htotal

/-! ## Frames -/

structure DecodedFrame where
  header : EventHeaderV2
  payload : List UInt8
  deriving DecidableEq

def decodeFrame (frame : List UInt8) : Except HeaderParseError DecodedFrame := do
  let need := preambleLen + headerBodyLen + crcLen
  require (decide (need ≤ frame.length)) (.bufferTooShort frame.length need)
  require (slice frame 0 preambleLen == magic) (.invalidMagic (slice frame 0 preambleLen))
  let header ← EventHeaderV2.fromLeBytes (slice frame preambleLen headerBodyLen)
  let payloadStart := preambleLen + headerBodyLen + header.reservedLen
  let crcOffset := payloadStart + header.payloadLen
  require (decide (crcOffset + crcLen ≤ frame.length))
    (.bufferTooShort frame.length (crcOffset + crcLen))
  let got := leNat (slice frame crcOffset crcLen)
  let computed := crc32c (frame.take crcOffset)
  require (got == computed) (.crcMismatch computed got)
  pure ⟨header, slice frame payloadStart header.payloadLen⟩

/-- `encode_frame` of a header whose other fields are those of `EventHeaderV2::empty()`. -/
def encodeFrame (eventType eventSubtype : UInt8) (physicalNs : Nat) (payload : List UInt8) :
    List UInt8 :=
  let total := preambleLen + headerBodyLen + payload.length + crcLen
  let frame := magic ++ [walFormatVersion, eventSchemaVersion, eventType, eventSubtype, 0] ++
    leBytes 2 headerBodyLen ++ leBytes 2 0 ++ leBytes 4 total ++ leBytes 4 payload.length ++
    List.replicate 12 0 ++ leBytes 8 physicalNs ++ List.replicate 59 0 ++ payload
  frame ++ leBytes 4 (crc32c frame)

theorem decodeFrame_eq_ok_iff {frame : List UInt8} {d : DecodedFrame} :
    decodeFrame frame = .ok d ↔
      d.header.totalLen ≤ frame.length ∧ slice frame 0 preambleLen = magic ∧
      EventHeaderV2.fromLeBytes (slice frame preambleLen headerBodyLen) = .ok d.header ∧
      leNat (slice frame (d.header.totalLen - crcLen) crcLen) =
        crc32c (frame.take (d.header.totalLen - crcLen)) ∧
      d.payload = slice frame (preambleLen + headerBodyLen + d.header.reservedLen)
        d.header.payloadLen := by
  unfold decodeFrame
  simp only [bind_eq_ok_iff, require_eq_ok_iff]
  constructor
  · rintro ⟨_, hneed, _, hmagic, header, hheader, _, hlen, _, hcrc, hd⟩
    cases hd
    have htotal := EventHeaderV2.totalLen_of_fromLeBytes hheader
    have hlen := of_decide_eq_true hlen
    have hcrc := eq_of_beq hcrc
    rw [htotal, Nat.add_sub_cancel]
    exact ⟨hlen, eq_of_beq hmagic, hheader, hcrc, rfl⟩
  · rintro ⟨hlen, hmagic, hheader, hcrc, hpayload⟩
    have htotal := EventHeaderV2.totalLen_of_fromLeBytes hheader
    rw [htotal] at hlen
    rw [htotal, Nat.add_sub_cancel] at hcrc
    refine ⟨(), decide_eq_true (by omega), (), beq_iff_eq.mpr hmagic, d.header, hheader, (),
      decide_eq_true hlen, (), beq_iff_eq.mpr hcrc, ?_⟩
    rw [← hpayload]
    rfl

theorem decodeFrame_totalLen {frame : List UInt8} {d : DecodedFrame}
    (h : decodeFrame frame = .ok d) :
    104 ≤ d.header.totalLen ∧ d.header.totalLen ≤ frame.length := by
  obtain ⟨hlen, -, hheader, -⟩ := decodeFrame_eq_ok_iff.mp h
  have htotal := EventHeaderV2.totalLen_of_fromLeBytes hheader
  have hconst : preambleLen + headerBodyLen + crcLen = 104 := rfl
  omega

/-- The frame is decided by its declared length: what follows it does not matter. -/
theorem decodeFrame_append_iff {frame : List UInt8} {d : DecodedFrame}
    (hlen : d.header.totalLen ≤ frame.length) (more : List UInt8) :
    decodeFrame (frame ++ more) = .ok d ↔ decodeFrame frame = .ok d := by
  have hparts : ∀ bytes : List UInt8, EventHeaderV2.fromLeBytes bytes = .ok d.header →
      preambleLen + headerBodyLen + d.header.reservedLen + d.header.payloadLen + crcLen ≤
        frame.length := by
    intro bytes h
    rw [← EventHeaderV2.totalLen_of_fromLeBytes h]
    exact hlen
  rw [decodeFrame_eq_ok_iff, decodeFrame_eq_ok_iff]
  constructor
  · rintro ⟨-, hmagic, hheader, hcrc, hpayload⟩
    have hle := hparts _ hheader
    have htotal := EventHeaderV2.totalLen_of_fromLeBytes hheader
    rw [slice_append (by omega)] at hmagic hheader hpayload hcrc
    rw [List.take_append_of_le_length (by omega)] at hcrc
    exact ⟨hlen, hmagic, hheader, hcrc, hpayload⟩
  · rintro ⟨-, hmagic, hheader, hcrc, hpayload⟩
    have hle := hparts _ hheader
    have htotal := EventHeaderV2.totalLen_of_fromLeBytes hheader
    rw [List.length_append, slice_append (by omega), slice_append (by omega),
      slice_append (by omega), slice_append (by omega), List.take_append_of_le_length (by omega)]
    exact ⟨by omega, hmagic, hheader, hcrc, hpayload⟩

def walFraming : Framing UInt8 HeaderParseError DecodedFrame where
  decode := decodeFrame
  size d := d.header.totalLen
  size_pos h := by
    have := decodeFrame_totalLen h
    omega
  size_le h := (decodeFrame_totalLen h).2
  decode_append more h := (decodeFrame_append_iff (decodeFrame_totalLen h).2 more).mpr h

theorem decodeFrame_take {bytes : List UInt8} {d : DecodedFrame} (h : decodeFrame bytes = .ok d) :
    decodeFrame (bytes.take d.header.totalLen) = .ok d := by
  have hlen := (decodeFrame_totalLen h).2
  rw [← List.take_append_drop d.header.totalLen bytes] at h
  exact (decodeFrame_append_iff (by rw [List.length_take]; omega) _).mp h

/-! ## What the mesh reads of a frame -/

/-- `gossip_payload_event_meta`. -/
def gossipPayloadEventMeta (payload : List UInt8) : Option (UInt8 × UInt8) :=
  match decodeFrame payload with
  | .error _ => none
  | .ok decoded =>
    if decoded.header.totalLen = payload.length then
      some (decoded.header.eventType, decoded.header.eventSubtype)
    else none

/-- `gossip_payload_timestamp_unix`: the event's own time, never the time of a retry. -/
def gossipPayloadTimestampUnix (payload : List UInt8) : Option Int :=
  match decodeFrame payload with
  | .error _ => none
  | .ok decoded =>
    if decoded.header.totalLen = payload.length then
      let seconds := decoded.header.physicalNs / 1000000000
      if seconds < 2 ^ 63 then some seconds else none
    else none

/-- `payload` is exactly one frame, decoded as `d`. -/
def IsFrame (payload : List UInt8) (d : DecodedFrame) : Prop :=
  decodeFrame payload = .ok d ∧ d.header.totalLen = payload.length

theorem gossipPayloadEventMeta_of_isFrame {payload : List UInt8} {d : DecodedFrame}
    (h : IsFrame payload d) :
    gossipPayloadEventMeta payload = some (d.header.eventType, d.header.eventSubtype) := by
  simp only [gossipPayloadEventMeta, h.1, if_pos h.2]

theorem isFrame_of_gossipPayloadTimestampUnix {payload : List UInt8} {seconds : Int}
    (h : gossipPayloadTimestampUnix payload = some seconds) : ∃ d, IsFrame payload d := by
  unfold gossipPayloadTimestampUnix at h
  cases hdecode : decodeFrame payload with
  | error e => simp [hdecode] at h
  | ok d =>
    by_cases hlen : d.header.totalLen = payload.length
    · exact ⟨d, hdecode, hlen⟩
    · simp [hdecode, hlen] at h

end Neoth.MeshSync
