import Neoth.Wal.Frames

/-!
# The frame codec

`wal/frame.rs` and `wal/header.rs` with every field of the header.

* `decodeFrame_eq_ok_iff`: what decodes is one frame, with any padding, and then anything;
* `decodeFrame_encodeFrame`: reading back what was written;
* `encodeFrame_decodeFrame_iff`: writing again what was read gives the bytes back only if the
  padding was zero.
-/

open Lib.Encoding Lib.Crc32c Lib.Transaction Neoth.MeshSync

namespace Neoth.Wal.Codec

/-! ## Bytes and integers -/

theorem leNat_lt (xs : List UInt8) : leNat xs < 256 ^ xs.length := by
  induction xs with
  | nil => simp [leNat]
  | cons x xs ih =>
    have hcons : leNat (x :: xs) = x.toNat + 256 * leNat xs := rfl
    have hx := x.toNat_lt
    rw [hcons, List.length_cons, Nat.pow_succ]
    omega

theorem leBytes_leNat (xs : List UInt8) : leBytes xs.length (leNat xs) = xs := by
  induction xs with
  | nil => rfl
  | cons x xs ih =>
    have hcons : leNat (x :: xs) = x.toNat + 256 * leNat xs := rfl
    have hx := x.toNat_lt
    have hrest : ∀ n, leBytes (xs.length + 1) n = UInt8.ofNat n :: leBytes xs.length (n / 256) := by
      intro n
      simp [leBytes, List.range_succ_eq_map, Nat.pow_succ', Nat.div_div_eq_div_mul]
    have hhead : UInt8.ofNat (x.toNat + 256 * leNat xs) = x := by
      apply UInt8.toNat_inj.mp
      rw [UInt8.toNat_ofNat']
      omega
    rw [List.length_cons, hrest, hcons, hhead, show (x.toNat + 256 * leNat xs) / 256 = leNat xs by
      omega, ih]

variable {bytes : List UInt8} {start : Nat}

theorem length_slice {start len : Nat} (h : start + len ≤ bytes.length) :
    (slice bytes start len).length = len := by
  rw [slice, List.length_take, List.length_drop]
  omega

/-- Reading a field off the front of what is left. -/
theorem drop_eq_slice_append (bytes : List UInt8) (start len : Nat) :
    bytes.drop start = slice bytes start len ++ bytes.drop (start + len) := by
  rw [slice, ← List.drop_drop, List.take_append_drop]

def u16At (b : List UInt8) (start : Nat) : UInt16 := .ofNat (leNat (slice b start 2))
def u32At (b : List UInt8) (start : Nat) : UInt32 := .ofNat (leNat (slice b start 4))
def u64At (b : List UInt8) (start : Nat) : UInt64 := .ofNat (leNat (slice b start 8))
def arrayAt (b : List UInt8) (start len : Nat) : Vector UInt8 len :=
  .ofFn fun i => b.getD (start + i) 0

variable {b : List UInt8}

theorem leBytes_leNat_slice {start len : Nat} (h : start + len ≤ b.length) :
    leBytes len (leNat (slice b start len)) = slice b start len ∧
    leNat (slice b start len) < 256 ^ len := by
  have hlen := length_slice h
  have hbytes := leBytes_leNat (slice b start len)
  have hlt := leNat_lt (slice b start len)
  rw [hlen] at hbytes hlt
  exact ⟨hbytes, hlt⟩

theorem leBytes_u16At (h : start + 2 ≤ b.length) :
    leBytes 2 (u16At b start).toNat = slice b start 2 := by
  obtain ⟨hbytes, hlt⟩ := leBytes_leNat_slice h
  rw [u16At, UInt16.toNat_ofNat', Nat.mod_eq_of_lt (by omega), hbytes]

theorem leBytes_u32At (h : start + 4 ≤ b.length) :
    leBytes 4 (u32At b start).toNat = slice b start 4 := by
  obtain ⟨hbytes, hlt⟩ := leBytes_leNat_slice h
  rw [u32At, UInt32.toNat_ofNat', Nat.mod_eq_of_lt (by omega), hbytes]

theorem leBytes_u64At (h : start + 8 ≤ b.length) :
    leBytes 8 (u64At b start).toNat = slice b start 8 := by
  obtain ⟨hbytes, hlt⟩ := leBytes_leNat_slice h
  rw [u64At, UInt64.toNat_ofNat', Nat.mod_eq_of_lt (by omega), hbytes]

theorem toList_arrayAt {start len : Nat} (h : start + len ≤ b.length) :
    (arrayAt b start len).toList = slice b start len := by
  apply List.ext_getElem
  · rw [Vector.length_toList, length_slice h]
  · intro i hi _
    rw [Vector.length_toList] at hi
    have hin : start + i < b.length := by omega
    simp [arrayAt, slice, List.getElem?_eq_getElem hin]

theorem u16At_of_slice {n : UInt16} (h : slice b start 2 = leBytes 2 n.toNat) :
    u16At b start = n := by
  rw [u16At, h, leNat_leBytes n.toNat_lt, UInt16.ofNat_toNat]

theorem u32At_of_slice {n : UInt32} (h : slice b start 4 = leBytes 4 n.toNat) :
    u32At b start = n := by
  rw [u32At, h, leNat_leBytes n.toNat_lt, UInt32.ofNat_toNat]

theorem u64At_of_slice {n : UInt64} (h : slice b start 8 = leBytes 8 n.toNat) :
    u64At b start = n := by
  rw [u64At, h, leNat_leBytes n.toNat_lt, UInt64.ofNat_toNat]

theorem arrayAt_of_slice {start len : Nat} {v : Vector UInt8 len} (hfit : start + len ≤ b.length)
    (h : slice b start len = v.toList) : arrayAt b start len = v :=
  Vector.toList_inj.mp ((toList_arrayAt hfit).trans h)

/-! ## Headers -/

@[ext] structure EventFlags where
  bits : UInt8
  known : bits &&& 0xe0 = 0

instance eventFlagsDecidableEq : DecidableEq EventFlags := fun a b =>
  decidable_of_iff (a.bits = b.bits) EventFlags.ext_iff.symm

/-- `EventFlags::from_bits`. -/
def EventFlags.fromBits (bits : UInt8) : Option EventFlags :=
  if h : bits &&& 0xe0 = 0 then some ⟨bits, h⟩ else none

/-- A score between zero and one, by the bits of the `f32`. -/
@[ext] structure Importance where
  bits : UInt32
  inRange : importanceOk bits.toNat = true

instance importanceDecidableEq : DecidableEq Importance := fun a b =>
  decidable_of_iff (a.bits = b.bits) Importance.ext_iff.symm

def Importance.new (bits : UInt32) : Except HeaderParseError Importance :=
  if h : importanceOk bits.toNat = true then .ok ⟨bits, h⟩
  else .error (.invalidImportance bits.toNat)

def hlcNew (physicalNs : UInt64) (logical : UInt32) : Except HeaderParseError Hlc :=
  if physicalNs = 0 ∧ logical ≠ 0 then .error (.postEpochLogicalWithoutPhysical logical.toNat)
  else .ok ⟨physicalNs, logical⟩

structure EventHeaderV2 where
  walFormatVersion : UInt8
  eventSchemaVersion : UInt8
  eventType : UInt8
  eventSubtype : UInt8
  flags : EventFlags
  headerLen : UInt16
  reservedLen : UInt16
  totalLen : UInt32
  payloadLen : UInt32
  generation : UInt32
  eventId : UInt64
  hlc : Hlc
  importance : Importance
  scope : UInt32
  category : UInt32
  sessionId : Vector UInt8 16
  nodeId : Vector UInt8 16
  payloadHash : UInt64
  deriving DecidableEq

def expectedTotal (reservedLen : UInt16) (payloadLen : Nat) : Nat :=
  preambleLen + headerBodyLen + reservedLen.toNat + payloadLen + crcLen

def EventHeaderV2.fromLeBytes (b : List UInt8) : Except HeaderParseError EventHeaderV2 := do
  let format := b.getD 0 0
  require (format == MeshSync.walFormatVersion) (.unknownWalFormat format)
  let schema := b.getD 1 0
  require (schema == MeshSync.eventSchemaVersion) (.unknownSchema schema)
  let flagsByte := b.getD 4 0
  let headerLen := u16At b 5
  require (headerLen.toNat == headerBodyLen) (.invalidHeaderLen headerLen.toNat)
  let reservedLen := u16At b 7
  let totalLen := u32At b 9
  let payloadLen := u32At b 13
  let expected := expectedTotal reservedLen payloadLen.toNat
  require (totalLen.toNat == expected)
    (.inconsistentTotalLen totalLen.toNat payloadLen.toNat reservedLen.toNat expected)
  require (slice b 93 3 == [0, 0, 0]) (.nonzeroReserved (slice b 93 3))
  require (flagsByte &&& 0xe0 == 0) (.invalidFlagBits flagsByte)
  let flags ← context (EventFlags.fromBits flagsByte) (.invalidFlagBits flagsByte)
  let hlc ← hlcNew (u64At b 29) (u32At b 37)
  let importance ← Importance.new (u32At b 41)
  pure ⟨format, schema, b.getD 2 0, b.getD 3 0, flags, headerLen, reservedLen, totalLen, payloadLen,
    u32At b 17, u64At b 21, hlc, importance, u32At b 45, u32At b 49, arrayAt b 53 16,
    arrayAt b 69 16, u64At b 85⟩

def EventHeaderV2.toLeBytes (h : EventHeaderV2) : List UInt8 :=
  [h.walFormatVersion, h.eventSchemaVersion, h.eventType, h.eventSubtype, h.flags.bits] ++
    (leBytes 2 h.headerLen.toNat ++ (leBytes 2 h.reservedLen.toNat ++ (leBytes 4 h.totalLen.toNat ++
    (leBytes 4 h.payloadLen.toNat ++ (leBytes 4 h.generation.toNat ++ (leBytes 8 h.eventId.toNat ++
    (leBytes 8 h.hlc.physicalNs.toNat ++
      (leBytes 4 h.hlc.logical.toNat ++ (leBytes 4 h.importance.bits.toNat ++
    (leBytes 4 h.scope.toNat ++
      (leBytes 4 h.category.toNat ++ (h.sessionId.toList ++ (h.nodeId.toList ++
    (leBytes 8 h.payloadHash.toNat ++ [0, 0, 0]))))))))))))))

theorem EventHeaderV2.length_toLeBytes (h : EventHeaderV2) :
    h.toLeBytes.length = headerBodyLen := by
  simp [toLeBytes, headerBodyLen]

theorem zero_known : (0 : UInt8) &&& 0xe0 = 0 := rfl
theorem zero_inRange : importanceOk (0 : UInt32).toNat = true := rfl

def EventHeaderV2.empty : EventHeaderV2 where
  walFormatVersion := MeshSync.walFormatVersion
  eventSchemaVersion := MeshSync.eventSchemaVersion
  eventType := 0
  eventSubtype := 0
  flags := ⟨0, zero_known⟩
  headerLen := 96
  reservedLen := 0
  totalLen := 104
  payloadLen := 0
  generation := 0
  eventId := 0
  hlc := .epoch
  importance := ⟨0, zero_inRange⟩
  scope := 0
  category := 0
  sessionId := .replicate 16 0
  nodeId := .replicate 16 0
  payloadHash := 0

/-- What the parser asks of single fields; flags and importance are in range by their types. -/
structure EventHeaderV2.Admitted (h : EventHeaderV2) : Prop where
  format : h.walFormatVersion = MeshSync.walFormatVersion
  schema : h.eventSchemaVersion = MeshSync.eventSchemaVersion
  headerLen : h.headerLen.toNat = headerBodyLen
  hlc : h.hlc.Valid

/-- The lengths in the header are those of a frame with this payload. -/
structure EventHeaderV2.Describes (h : EventHeaderV2) (payloadLen : Nat) : Prop where
  total : h.totalLen.toNat = expectedTotal h.reservedLen payloadLen
  payload : h.payloadLen.toNat = payloadLen

theorem fromBits_eq_some_iff {bits : UInt8} {flags : EventFlags} :
    EventFlags.fromBits bits = some flags ↔ flags.bits = bits := by
  unfold EventFlags.fromBits
  split
  · rename_i h
    constructor
    · rintro ⟨⟩
      rfl
    · rintro rfl
      rfl
  · rename_i h
    refine ⟨(by cases ·), ?_⟩
    rintro rfl
    exact absurd flags.known h

theorem importanceNew_eq_ok_iff {bits : UInt32} {importance : Importance} :
    Importance.new bits = .ok importance ↔ importance.bits = bits := by
  unfold Importance.new
  split
  · rename_i h
    constructor
    · rintro ⟨⟩
      rfl
    · rintro rfl
      rfl
  · rename_i h
    refine ⟨(by cases ·), ?_⟩
    rintro rfl
    exact absurd importance.inRange h

theorem hlcNew_eq_ok_iff {physicalNs : UInt64} {logical : UInt32} {hlc : Hlc} :
    hlcNew physicalNs logical = .ok hlc ↔ hlc = ⟨physicalNs, logical⟩ ∧ hlc.Valid := by
  unfold hlcNew
  split
  · rename_i h
    refine ⟨(by cases ·), ?_⟩
    rintro ⟨rfl, hvalid⟩
    exact absurd (hvalid h.1) h.2
  · rename_i h
    constructor
    · rintro ⟨⟩
      exact ⟨rfl, fun hzero => by_contra fun hne => h ⟨hzero, hne⟩⟩
    · rintro ⟨rfl, -⟩
      rfl

/-- Where the fields stand. -/
theorem slice_toLeBytes (h : EventHeaderV2) :
    slice h.toLeBytes 5 2 = leBytes 2 h.headerLen.toNat ∧
    slice h.toLeBytes 7 2 = leBytes 2 h.reservedLen.toNat ∧
    slice h.toLeBytes 9 4 = leBytes 4 h.totalLen.toNat ∧
    slice h.toLeBytes 13 4 = leBytes 4 h.payloadLen.toNat ∧
    slice h.toLeBytes 17 4 = leBytes 4 h.generation.toNat ∧
    slice h.toLeBytes 21 8 = leBytes 8 h.eventId.toNat ∧
    slice h.toLeBytes 29 8 = leBytes 8 h.hlc.physicalNs.toNat ∧
    slice h.toLeBytes 37 4 = leBytes 4 h.hlc.logical.toNat ∧
    slice h.toLeBytes 41 4 = leBytes 4 h.importance.bits.toNat ∧
    slice h.toLeBytes 45 4 = leBytes 4 h.scope.toNat ∧
    slice h.toLeBytes 49 4 = leBytes 4 h.category.toNat ∧
    slice h.toLeBytes 53 16 = h.sessionId.toList ∧
    slice h.toLeBytes 69 16 = h.nodeId.toList ∧
    slice h.toLeBytes 85 8 = leBytes 8 h.payloadHash.toNat ∧
    slice h.toLeBytes 93 3 = [0, 0, 0] := by
  refine ⟨?_, ?_, ?_, ?_, ?_, ?_, ?_, ?_, ?_, ?_, ?_, ?_, ?_, ?_, ?_⟩ <;>
    simp (disch := simp) only [EventHeaderV2.toLeBytes, slice_append_right, slice_append_left,
      slice_self, length_leBytes, List.length_cons, List.length_nil, Vector.length_toList,
      Nat.reduceSub, Nat.reduceAdd]

variable {h : EventHeaderV2}

theorem fromLeBytes_toLeBytes (hadmitted : h.Admitted) (hlen : h.Describes h.payloadLen.toNat) :
    EventHeaderV2.fromLeBytes h.toLeBytes = .ok h := by
  obtain ⟨hheaderLen, hreserved, htotal, hpayload, hgeneration, hid, hphysical, hlogical,
      himportance, hscope,
    hcategory, hsession, hnode, hhash, hzero⟩ := slice_toLeBytes h
  have hbody := h.length_toLeBytes
  unfold headerBodyLen at hbody
  unfold EventHeaderV2.fromLeBytes
  simp only [bind_eq_ok_iff, require_eq_ok_iff, context_eq_ok_iff, fromBits_eq_some_iff,
    importanceNew_eq_ok_iff, hlcNew_eq_ok_iff, u16At_of_slice hheaderLen, u16At_of_slice hreserved,
    u32At_of_slice htotal, u32At_of_slice hpayload, u32At_of_slice hgeneration, u64At_of_slice hid,
    u64At_of_slice hphysical, u32At_of_slice hlogical, u32At_of_slice himportance,
    u32At_of_slice hscope, u32At_of_slice hcategory, arrayAt_of_slice (by omega) hsession,
    arrayAt_of_slice (by omega) hnode, u64At_of_slice hhash, hzero]
  exact ⟨(), beq_iff_eq.mpr hadmitted.format, (), beq_iff_eq.mpr hadmitted.schema, (),
    beq_iff_eq.mpr hadmitted.headerLen, (), beq_iff_eq.mpr hlen.total, (), rfl, (),
    beq_iff_eq.mpr h.flags.known, h.flags, rfl, h.hlc, ⟨rfl, hadmitted.hlc⟩, h.importance, rfl, rfl⟩

theorem take_five (h : 5 ≤ b.length) :
    b.take 5 = [b.getD 0 0, b.getD 1 0, b.getD 2 0, b.getD 3 0, b.getD 4 0] := by
  rcases b with _ | ⟨b0, _ | ⟨b1, _ | ⟨b2, _ | ⟨b3, _ | ⟨b4, b⟩⟩⟩⟩⟩
  · simp at h
  · simp at h
  · simp at h
  · simp at h
  · simp at h
  · rfl

theorem of_fromLeBytes (hb : b.length = headerBodyLen)
    (hparse : EventHeaderV2.fromLeBytes b = .ok h) :
    b = h.toLeBytes ∧ h.Admitted ∧ h.Describes h.payloadLen.toNat := by
  unfold EventHeaderV2.fromLeBytes at hparse
  simp only [bind_eq_ok_iff, require_eq_ok_iff, context_eq_ok_iff, fromBits_eq_some_iff,
    importanceNew_eq_ok_iff, hlcNew_eq_ok_iff] at hparse
  obtain ⟨-, hformat, -, hschema, -, hheaderLen, -, htotal, -, hzero, -, -, flags, hflags, hlc,
      ⟨rfl, hvalid⟩,
    importance, himportance, heq⟩ := hparse
  cases heq
  have hfive := take_five (show 5 ≤ b.length by rw [hb]; decide)
  have hparts :
      b = b.take 5 ++
        (slice b 5 2 ++ (slice b 7 2 ++ (slice b 9 4 ++ (slice b 13 4 ++ (slice b 17 4 ++
      (slice b 21 8 ++
        (slice b 29 8 ++ (slice b 37 4 ++ (slice b 41 4 ++ (slice b 45 4 ++ (slice b 49 4 ++
      (slice b 53 16 ++ (slice b 69 16 ++ (slice b 85 8 ++ slice b 93 3)))))))))))))) := by
    have hrest : b.drop 96 = [] := List.drop_eq_nil_of_le hb.le
    have hlast := drop_eq_slice_append b 93 3
    rw [hrest, List.append_nil] at hlast
    rw [← hlast, ← drop_eq_slice_append b 85 8, ← drop_eq_slice_append b 69 16,
      ← drop_eq_slice_append b 53 16, ← drop_eq_slice_append b 49 4, ← drop_eq_slice_append b 45 4,
      ← drop_eq_slice_append b 41 4, ← drop_eq_slice_append b 37 4, ← drop_eq_slice_append b 29 8,
      ← drop_eq_slice_append b 21 8, ← drop_eq_slice_append b 17 4, ← drop_eq_slice_append b 13 4,
      ← drop_eq_slice_append b 9 4, ← drop_eq_slice_append b 7 2, ← drop_eq_slice_append b 5 2,
      List.take_append_drop]
  have hfits : ∀ n, n ≤ 96 → n ≤ b.length := fun n hn => hn.trans hb.ge
  refine ⟨?_, ⟨eq_of_beq hformat, eq_of_beq hschema, eq_of_beq hheaderLen, hvalid⟩,
    ⟨eq_of_beq htotal, rfl⟩⟩
  unfold EventHeaderV2.toLeBytes
  rw [leBytes_u16At (hfits _ (by decide)), leBytes_u16At (hfits _ (by decide)),
    leBytes_u32At (hfits _ (by decide)), leBytes_u32At (hfits _ (by decide)),
    leBytes_u32At (hfits _ (by decide)), leBytes_u64At (hfits _ (by decide)),
    leBytes_u64At (hfits _ (by decide)), leBytes_u32At (hfits _ (by decide)), himportance,
    leBytes_u32At (hfits _ (by decide)), leBytes_u32At (hfits _ (by decide)),
    leBytes_u32At (hfits _ (by decide)), toList_arrayAt (hfits _ (by decide)),
    toList_arrayAt (hfits _ (by decide)), leBytes_u64At (hfits _ (by decide)), hflags, ← hfive,
    ← eq_of_beq hzero]
  exact hparts

/-! ## Frames -/

structure DecodedFrame where
  header : EventHeaderV2
  payload : List UInt8
  deriving DecidableEq

/-- The bytes before the checksum. -/
def unchecked (header : EventHeaderV2) (padding payload : List UInt8) : List UInt8 :=
  magic ++ (header.toLeBytes ++ (padding ++ payload))

def checked (bytes : List UInt8) : List UInt8 := bytes ++ leBytes 4 (crc32c bytes)

/-- `encode_frame`, which panics when the header does not describe the payload. -/
def encodeFrame (header : EventHeaderV2) (payload : List UInt8) : Option (List UInt8) :=
  if header.totalLen.toNat = expectedTotal header.reservedLen payload.length then
    if header.payloadLen.toNat = payload.length then
      some (checked (unchecked header (.replicate header.reservedLen.toNat 0) payload))
    else none
  else none

def decodeFrame (frame : List UInt8) : Except HeaderParseError DecodedFrame := do
  let need := preambleLen + headerBodyLen + crcLen
  require (decide (need ≤ frame.length)) (.bufferTooShort frame.length need)
  require (slice frame 0 4 == magic) (.invalidMagic (slice frame 0 4))
  let header ← EventHeaderV2.fromLeBytes (slice frame 4 headerBodyLen)
  let expected := expectedTotal header.reservedLen header.payloadLen.toNat
  require (decide (expected ≤ frame.length)) (.bufferTooShort frame.length expected)
  let payloadStart := preambleLen + headerBodyLen + header.reservedLen.toNat
  let crcOffset := payloadStart + header.payloadLen.toNat
  let got := leNat (slice frame crcOffset crcLen)
  let computed := crc32c (frame.take crcOffset)
  require (got == computed) (.crcMismatch computed got)
  pure ⟨header, slice frame payloadStart header.payloadLen.toNat⟩

variable {header : EventHeaderV2}

theorem encodeFrame_eq_some_iff {payload frame : List UInt8} :
    encodeFrame header payload = some frame ↔ header.Describes payload.length ∧
      frame = checked (unchecked header (.replicate header.reservedLen.toNat 0) payload) := by
  unfold encodeFrame
  split_ifs with htotal hpayload
  · constructor
    · rintro ⟨⟩
      exact ⟨⟨htotal, hpayload⟩, rfl⟩
    · rintro ⟨-, rfl⟩
      rfl
  · exact ⟨(by cases ·), fun h => absurd h.1.payload hpayload⟩
  · exact ⟨(by cases ·), fun h => absurd h.1.total htotal⟩

theorem length_unchecked (header : EventHeaderV2) (padding payload : List UInt8) :
    (unchecked header padding payload).length = 100 + padding.length + payload.length := by
  simp only [unchecked, List.length_append, EventHeaderV2.length_toLeBytes, headerBodyLen]
  have hmagic : magic.length = 4 := rfl
  omega

theorem length_checked (bytes : List UInt8) : (checked bytes).length = bytes.length + 4 := by
  simp [checked]

/-- A frame with any padding decodes, whatever follows it. -/
theorem decodeFrame_checked {padding payload : List UInt8} (hadmitted : header.Admitted)
    (hlen : header.Describes payload.length) (hpadding : padding.length = header.reservedLen.toNat)
    (trailing : List UInt8) :
    decodeFrame (checked (unchecked header padding payload) ++ trailing) =
      .ok ⟨header, payload⟩ := by
  have hbody := length_unchecked header padding payload
  have hframe : checked (unchecked header padding payload) ++ trailing =
      magic ++ (header.toLeBytes ++ (padding ++
      (payload ++ (leBytes 4 (crc32c (unchecked header padding payload)) ++ trailing)))) := by
    simp [checked, unchecked]
  have htotal : expectedTotal header.reservedLen header.payloadLen.toNat =
      (unchecked header padding payload).length + 4 := by
    rw [hlen.payload, expectedTotal, hbody, hpadding]
    simp only [preambleLen, headerBodyLen, crcLen]
  have hmagic : slice (checked (unchecked header padding payload) ++ trailing) 0 4 = magic := by
    rw [hframe, slice_append_left (by rfl)]
  have hheader : slice (checked (unchecked header padding payload) ++ trailing) 4 headerBodyLen =
      header.toLeBytes := by
    rw [hframe, slice_append_right (by decide), show 4 - magic.length = 0 from rfl,
      slice_append_left header.length_toLeBytes]
  have hparse := fromLeBytes_toLeBytes hadmitted (by rwa [hlen.payload])
  have hpayload : slice (checked (unchecked header padding payload) ++ trailing)
      (preambleLen + headerBodyLen + header.reservedLen.toNat) header.payloadLen.toNat =
        payload := by
    have hstart : preambleLen + headerBodyLen + header.reservedLen.toNat =
        (magic ++ (header.toLeBytes ++ padding)).length := by
      simp only [List.length_append, EventHeaderV2.length_toLeBytes, hpadding, ← Nat.add_assoc]
      rfl
    have hassoc : checked (unchecked header padding payload) ++ trailing =
        (magic ++ (header.toLeBytes ++ padding)) ++
        (payload ++ (leBytes 4 (crc32c (unchecked header padding payload)) ++ trailing)) := by
      simp [checked, unchecked]
    rw [hassoc, hstart, slice_append_right le_rfl, Nat.sub_self,
      slice_append_left hlen.payload.symm]
  have hoffset : preambleLen + headerBodyLen + header.reservedLen.toNat + header.payloadLen.toNat =
      (unchecked header padding payload).length := by
    rw [hbody, hpadding, hlen.payload]
    rfl
  have hcrc : leNat (slice (checked (unchecked header padding payload) ++ trailing)
      (unchecked header padding payload).length crcLen) =
        crc32c (unchecked header padding payload) := by
    rw [checked, List.append_assoc, slice_append_right le_rfl, Nat.sub_self,
      slice_append_left (by simp [crcLen])]
    exact leNat_leBytes (crc32c_lt _)
  have htake : (checked (unchecked header padding payload) ++ trailing).take
      (unchecked header padding payload).length = unchecked header padding payload := by
    rw [checked, List.append_assoc, List.take_left']
    rfl
  have hlength : (checked (unchecked header padding payload) ++ trailing).length =
      (unchecked header padding payload).length + 4 + trailing.length := by
    rw [List.length_append, length_checked]
  unfold decodeFrame
  simp only [bind_eq_ok_iff, require_eq_ok_iff, hmagic, hheader, hparse]
  refine ⟨(), decide_eq_true ?_, (), rfl, header, rfl, (), decide_eq_true ?_, (), ?_, ?_⟩
  · simp only [preambleLen, headerBodyLen, crcLen]
    omega
  · omega
  · rw [hoffset, hcrc, htake, beq_self_eq_true]
  · rw [hpayload]
    rfl

/-- What decodes is one frame and what follows it. -/
theorem of_decodeFrame {d : DecodedFrame} (h : decodeFrame bytes = .ok d) :
    d.header.Admitted ∧ d.header.Describes d.payload.length ∧
      (slice bytes 100 d.header.reservedLen.toNat).length = d.header.reservedLen.toNat ∧
      bytes.take d.header.totalLen.toNat =
        checked (unchecked d.header (slice bytes 100 d.header.reservedLen.toNat) d.payload) := by
  unfold decodeFrame at h
  simp only [bind_eq_ok_iff, require_eq_ok_iff] at h
  obtain ⟨-, hneed, -, hmagic, header, hheader, -, hfit, -, hcrc, hd⟩ := h
  cases hd
  replace hneed := of_decide_eq_true hneed
  replace hfit := of_decide_eq_true hfit
  replace hmagic := eq_of_beq hmagic
  replace hcrc := eq_of_beq hcrc
  simp only [preambleLen, headerBodyLen, crcLen] at hneed
  obtain ⟨hbytes, hadmitted, hlen⟩ :=
    of_fromLeBytes (length_slice (by unfold headerBodyLen; omega)) hheader
  have htotal : header.totalLen.toNat = 100 + header.reservedLen.toNat + header.payloadLen.toNat +
      4 := hlen.total
  rw [← hlen.total] at hfit
  change leNat (slice bytes (100 + header.reservedLen.toNat + header.payloadLen.toNat) 4) =
    crc32c (bytes.take (100 + header.reservedLen.toNat + header.payloadLen.toNat)) at hcrc
  have hpad : 100 + header.reservedLen.toNat ≤ bytes.length := by omega
  have hpayload : (slice bytes (100 + header.reservedLen.toNat) header.payloadLen.toNat).length =
      header.payloadLen.toNat := length_slice (by omega)
  refine ⟨hadmitted, ?_, length_slice hpad, ?_⟩
  · show header.Describes
      (slice bytes (100 + header.reservedLen.toNat) header.payloadLen.toNat).length
    rwa [hpayload]
  · show bytes.take header.totalLen.toNat =
      checked (unchecked header (slice bytes 100 header.reservedLen.toNat)
      (slice bytes (100 + header.reservedLen.toNat) header.payloadLen.toNat))
    have hbody : bytes.take (100 + header.reservedLen.toNat + header.payloadLen.toNat) =
        unchecked header (slice bytes 100 header.reservedLen.toNat)
          (slice bytes (100 + header.reservedLen.toNat) header.payloadLen.toNat) := by
      rw [unchecked, ← hbytes, ← hmagic, List.take_add, List.take_add, show 100 = 4 + 96 from rfl,
        List.take_add]
      simp only [List.append_assoc]
      rfl
    have hchecksum :
        leBytes 4
          (leNat (slice bytes (100 + header.reservedLen.toNat + header.payloadLen.toNat) 4)) =
        slice bytes (100 + header.reservedLen.toNat + header.payloadLen.toNat) 4 :=
      (leBytes_leNat_slice (by omega)).1
    rw [htotal, List.take_add, hbody, checked, ← hbody, ← hcrc, hchecksum]
    rfl

theorem decodeFrame_eq_ok_iff {bytes payload : List UInt8} :
    decodeFrame bytes = .ok ⟨header, payload⟩ ↔ header.Admitted ∧ header.Describes payload.length ∧
      ∃ padding trailing, padding.length = header.reservedLen.toNat ∧
        bytes = checked (unchecked header padding payload) ++ trailing := by
  constructor
  · intro h
    obtain ⟨hadmitted, hlen, hpadding, hbytes⟩ := of_decodeFrame h
    refine ⟨hadmitted, hlen, _, bytes.drop header.totalLen.toNat, hpadding, ?_⟩
    rw [← hbytes, List.take_append_drop]
  · rintro ⟨hadmitted, hlen, padding, trailing, hpadding, rfl⟩
    exact decodeFrame_checked hadmitted hlen hpadding trailing

/-! ## Writing and reading -/

theorem length_of_encodeFrame {payload frame : List UInt8}
    (h : encodeFrame header payload = some frame) : frame.length = header.totalLen.toNat := by
  obtain ⟨hlen, rfl⟩ := encodeFrame_eq_some_iff.mp h
  rw [length_checked, length_unchecked, List.length_replicate, hlen.total, expectedTotal]
  simp only [preambleLen, headerBodyLen, crcLen]

theorem padding_eq_of_checked_eq {padding padding' payload : List UInt8}
    (hlen : padding.length = padding'.length)
    (h : checked (unchecked header padding payload) = checked (unchecked header padding' payload)) :
    padding = padding' := by
  have hbody : unchecked header padding payload = unchecked header padding' payload :=
    List.append_inj_left h (by rw [length_unchecked, length_unchecked, hlen])
  exact List.append_inj_left (List.append_cancel_left (List.append_cancel_left hbody)) hlen

/-- **Decode after encode.** -/
theorem decodeFrame_encodeFrame {header : EventHeaderV2} {payload : List UInt8}
    (hadmitted : header.Admitted) (hlen : header.Describes payload.length) :
    ∃ frame, encodeFrame header payload = some frame ∧ frame.length = header.totalLen.toNat ∧
      ∀ trailing, decodeFrame (frame ++ trailing) = .ok ⟨header, payload⟩ := by
  have hencode := encodeFrame_eq_some_iff.mpr ⟨hlen, rfl⟩
  refine ⟨_, hencode, length_of_encodeFrame hencode, ?_⟩
  intro trailing
  exact decodeFrame_checked hadmitted hlen (List.length_replicate) trailing

theorem decodeFrame_encodeFrame_sample :
    ∃ frame, encodeFrame
      { EventHeaderV2.empty with reservedLen := 2, totalLen := 107, payloadLen := 1, hlc := ⟨1, 1⟩ }
        [7] = some frame ∧ frame.length = 107 ∧
      ∀ trailing, decodeFrame (frame ++ trailing) =
        .ok ⟨{ EventHeaderV2.empty with
          reservedLen := 2, totalLen := 107, payloadLen := 1, hlc := ⟨1, 1⟩ }, [7]⟩ :=
  decodeFrame_encodeFrame ⟨rfl, rfl, rfl, by decide⟩ ⟨rfl, rfl⟩

/-- **Encode after decode.** -/
theorem encodeFrame_decodeFrame_iff {bytes : List UInt8} {d : DecodedFrame}
    (h : decodeFrame bytes = .ok d) :
    encodeFrame d.header d.payload = some (bytes.take d.header.totalLen.toNat) ↔
      ∀ b ∈ slice bytes 100 d.header.reservedLen.toNat, b = 0 := by
  obtain ⟨-, hlen, hpadding, hbytes⟩ := of_decodeFrame h
  rw [encodeFrame_eq_some_iff, hbytes, and_iff_right hlen]
  constructor
  · intro heq
    have hpadding := padding_eq_of_checked_eq (hpadding.trans List.length_replicate.symm) heq
    intro b hb
    rw [hpadding] at hb
    exact List.eq_of_mem_replicate hb
  · intro hzero
    rw [List.eq_replicate_of_mem hzero, hpadding]

/-- A frame with one byte of padding, as a foreign writer may lay it out. -/
def paddedFrame (padding : UInt8) : List UInt8 :=
  checked (unchecked { EventHeaderV2.empty with reservedLen := 1, totalLen := 105 } [padding] [])

theorem encodeFrame_decodeFrame_iff_zero :
    encodeFrame { EventHeaderV2.empty with reservedLen := 1, totalLen := 105 }
    [] = some ((paddedFrame 0).take 105) :=
  (encodeFrame_decodeFrame_iff (d :=
  ⟨{ EventHeaderV2.empty with reservedLen := 1, totalLen := 105 }, []⟩)
    (by decide +kernel)).mpr (by decide +kernel)

/-- The padding is under the checksum, and is lost. -/
theorem two_frames_one_decoding :
    decodeFrame (paddedFrame 0) = decodeFrame (paddedFrame 0xff) ∧
      ¬ ∀ bytes d, decodeFrame bytes = .ok d →
        encodeFrame d.header d.payload = some (bytes.take d.header.totalLen.toNat) := by
  refine ⟨by decide +kernel, ?_⟩
  intro h
  have hcanonical :=
    h (paddedFrame 0xff) ⟨{ EventHeaderV2.empty with reservedLen := 1, totalLen := 105 }, []⟩
    (by decide +kernel)
  revert hcanonical
  decide +kernel

end Neoth.Wal.Codec
