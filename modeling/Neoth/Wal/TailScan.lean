import Neoth.Wal.Recovery
import Neoth.Wal.Stamps

/-!
# The tail scan

`scan_tail` of `wal/recovery.rs` on a whole file, with the segment header it reads first.

* `parseSegmentHeader`: the three forms of the header, told apart by the version;
* `readFrame_of_ok`: the frames that the scan reads are those of the codec;
* `scanTailFile_of_reads`: the scan stops behind the last frame that can be read;
* `scan_finds_durable_frames`: what it makes of a file that a crash has cut, and of any file.
-/

open Lib.Encoding Lib.Crc32c Lib.FrameLog Lib.Transaction Neoth.MeshSync

namespace Neoth.Wal

/-! ## Segment headers -/

def segmentHeaderV2Len : Nat := 61
def segmentHeaderV3Len : Nat := 65
def segmentHeaderCrcCovered : Nat := 56
def segmentMagic : List UInt8 := utf8 "NEOT-SEG"

inductive WalError
  | header (e : HeaderParseError)
  | unknownFormat (version : UInt8)
  | segmentHeaderCorrupt (seq : UInt64) (expectedCrc gotCrc : Nat)
  deriving DecidableEq

structure SegmentHeader where
  magic : List UInt8
  segmentFormatVersion : UInt32
  generation : UInt32
  segmentSeq : UInt64
  firstEventId : UInt64
  segmentStartTsNs : UInt64
  nodeId : Vector UInt8 16
  headerCrc32c : UInt32
  deriving DecidableEq

structure SegmentHeaderV2 extends SegmentHeader where
  flags : UInt8
  deriving DecidableEq

structure SegmentHeaderV3 extends SegmentHeaderV2 where
  compactionEpoch : UInt32
  deriving DecidableEq

/-- What the three parsers share: the fields up to the checksum, of a header of the given
version. -/
def SegmentHeader.fromLeBytesOf (version : UInt32) (b : List UInt8) :
    Except WalError SegmentHeader := do
  let magic := b.take 8
  require (magic == segmentMagic) (.header (.invalidMagic (magic.take 4)))
  let found := Codec.u32At b 8
  require (found == version) (.unknownFormat (.ofNat found.toNat))
  let segmentSeq := Codec.u64At b 16
  let headerCrc32c := Codec.u32At b 56
  let computed := crc32c (b.take segmentHeaderCrcCovered)
  require (computed == headerCrc32c.toNat)
    (.segmentHeaderCorrupt segmentSeq headerCrc32c.toNat computed)
  pure ⟨magic, found, Codec.u32At b 12, segmentSeq, Codec.u64At b 24, Codec.u64At b 32,
    Codec.arrayAt b 40 16, headerCrc32c⟩

def SegmentHeader.fromLeBytes (b : List UInt8) : Except WalError SegmentHeader := fromLeBytesOf 1 b

def SegmentHeaderV2.fromLeBytes (b : List UInt8) : Except WalError SegmentHeaderV2 := do
  let header ← SegmentHeader.fromLeBytesOf 2 b
  pure { header with flags := b.getD 60 0 }

def SegmentHeaderV3.fromLeBytes (b : List UInt8) : Except WalError SegmentHeaderV3 := do
  let header ← SegmentHeader.fromLeBytesOf 3 b
  pure { header with flags := b.getD 60 0, compactionEpoch := Codec.u32At b 61 }

inductive ParsedSegmentHeader
  | v1 (h : SegmentHeader)
  | v2 (h : SegmentHeaderV2)
  | v3 (h : SegmentHeaderV3)
  deriving DecidableEq

def ParsedSegmentHeader.headerLen : ParsedSegmentHeader → Nat
  | v1 _ => segmentHeaderLen
  | v2 _ => segmentHeaderV2Len
  | v3 _ => segmentHeaderV3Len

def parseSegmentHeader (raw : List UInt8) : Except WalError ParsedSegmentHeader :=
  if raw.length < segmentHeaderLen then .error (.unknownFormat 0)
  else if raw.take 8 ≠ segmentMagic then .error (.header (.invalidMagic (raw.take 4)))
  else
    let version := Codec.u32At raw 8
    if version = 1 then (SegmentHeader.fromLeBytes (raw.take segmentHeaderLen)).map .v1
    else if version = 2 then
      if raw.length < segmentHeaderV2Len then .error (.unknownFormat 2)
      else (SegmentHeaderV2.fromLeBytes (raw.take segmentHeaderV2Len)).map .v2
    else if version = 3 then
      if raw.length < segmentHeaderV3Len then .error (.unknownFormat 3)
      else (SegmentHeaderV3.fromLeBytes (raw.take segmentHeaderV3Len)).map .v3
    else .error (.unknownFormat (.ofNat version.toNat))

/-- `scan_tail` takes the length from the header, and that of the oldest form when there is none. -/
def headerLenOf (segment : List UInt8) : Nat :=
  match parseSegmentHeader segment with
  | .ok h => h.headerLen
  | .error _ => segmentHeaderLen

def scanTailFile (segment : List UInt8) : ScanResult := scanTail segment (headerLenOf segment)

theorem ParsedSegmentHeader.le_headerLen (h : ParsedSegmentHeader) :
    segmentHeaderLen ≤ h.headerLen := by
  cases h with
  | v1 h => exact le_rfl
  | v2 h => exact (by decide : segmentHeaderLen ≤ segmentHeaderV2Len)
  | v3 h => exact (by decide : segmentHeaderLen ≤ segmentHeaderV3Len)

theorem slice_eq_of_take_eq {a b : List UInt8} {n start len : Nat} (h : a.take n = b.take n)
    (hfit : start + len ≤ n) : slice a start len = slice b start len := by
  have hpart : ∀ c : List UInt8,
      slice c start len = ((c.take n).take (start + len)).drop start := by
    intro c
    rw [List.take_take, Nat.min_eq_left hfit, List.drop_take, Nat.add_sub_cancel_left]
    rfl
  rw [hpart a, hpart b, h]

/-- The header is decided by its own bytes. -/
theorem parseSegmentHeader_congr {a b : List UInt8} {n : Nat} (h : a.take n = b.take n)
    (ha : n ≤ a.length)
    (hb : n ≤ b.length) {header : ParsedSegmentHeader} (hn : header.headerLen ≤ n)
    (hparse : parseSegmentHeader a = .ok header) : parseSegmentHeader b = .ok header := by
  have htake : ∀ k, k ≤ n → a.take k = b.take k := by
    intro k hk
    have hpart : ∀ c : List UInt8, c.take k = (c.take n).take k := fun c => by
      rw [List.take_take, Nat.min_eq_left hk]
    rw [hpart a, hpart b, h]
  have hsixty : segmentHeaderLen ≤ n := header.le_headerLen.trans hn
  have hversion : Codec.u32At b 8 = Codec.u32At a 8 := by
    have hconst : segmentHeaderLen = 60 := rfl
    rw [Codec.u32At, Codec.u32At, slice_eq_of_take_eq h.symm (by omega)]
  have hmagic : b.take 8 = a.take 8 := (htake 8 (le_trans (by decide) hsixty)).symm
  unfold parseSegmentHeader at hparse ⊢
  dsimp only at hparse ⊢
  rw [if_neg (by omega)] at hparse ⊢
  rw [hmagic, hversion]
  by_cases hwrong : a.take 8 ≠ segmentMagic
  · rw [if_pos hwrong] at hparse
    cases hparse
  rw [if_neg hwrong] at hparse ⊢
  by_cases h1 : Codec.u32At a 8 = 1
  · rw [if_pos h1] at hparse ⊢
    obtain ⟨v, hv, rfl⟩ := map_eq_ok hparse
    change segmentHeaderLen ≤ n at hn
    rw [← htake _ hn, hv]
    rfl
  rw [if_neg h1] at hparse ⊢
  by_cases h2 : Codec.u32At a 8 = 2
  · rw [if_pos h2] at hparse ⊢
    split at hparse
    · cases hparse
    obtain ⟨v, hv, rfl⟩ := map_eq_ok hparse
    change segmentHeaderV2Len ≤ n at hn
    rw [if_neg (not_lt.mpr (hn.trans hb)), ← htake _ hn, hv]
    rfl
  rw [if_neg h2] at hparse ⊢
  by_cases h3 : Codec.u32At a 8 = 3
  · rw [if_pos h3] at hparse ⊢
    split at hparse
    · cases hparse
    obtain ⟨v, hv, rfl⟩ := map_eq_ok hparse
    change segmentHeaderV3Len ≤ n at hn
    rw [if_neg (not_lt.mpr (hn.trans hb)), ← htake _ hn, hv]
    rfl
  · rw [if_neg h3] at hparse
    cases hparse

theorem headerLen_le_length {segment : List UInt8} {header : ParsedSegmentHeader}
    (h : parseSegmentHeader segment = .ok header) : header.headerLen ≤ segment.length := by
  unfold parseSegmentHeader at h
  dsimp only at h
  split_ifs at h with hlen hmagic h1 h2 hshort h3 hshort'
  · obtain ⟨v, -, rfl⟩ := map_eq_ok h
    exact not_lt.mp hlen
  · obtain ⟨v, -, rfl⟩ := map_eq_ok h
    exact not_lt.mp hshort
  · obtain ⟨v, -, rfl⟩ := map_eq_ok h
    exact not_lt.mp hshort'

theorem headerLenOf_append {header : List UInt8} {parsed : ParsedSegmentHeader}
    (h : parseSegmentHeader header = .ok parsed) (hlen : header.length = parsed.headerLen)
    (rest : List UInt8) : headerLenOf (header ++ rest) = header.length := by
  have hparse : parseSegmentHeader (header ++ rest) = .ok parsed := by
    refine parseSegmentHeader_congr (n := header.length) ?_ le_rfl (by simp) hlen.ge h
    rw [List.take_left', List.take_length]
    rfl
  rw [headerLenOf, hparse, hlen]

theorem segmentHeaderLen_le_headerLenOf (segment : List UInt8) :
    segmentHeaderLen ≤ headerLenOf segment := by
  unfold headerLenOf
  split
  · rename_i header _
    exact header.le_headerLen
  · exact le_rfl

theorem headerLenOf_le_length {segment : List UInt8} (h : segmentHeaderLen ≤ segment.length) :
    headerLenOf segment ≤ segment.length := by
  unfold headerLenOf
  split
  · rename_i header hparse
    exact headerLen_le_length hparse
  · exact h

theorem headerLenOf_take {segment : List UInt8} {n : Nat} (hn : headerLenOf segment ≤ n)
    (hle : n ≤ segment.length) : headerLenOf (segment.take n) = headerLenOf segment := by
  have hlen : (segment.take n).length = n := by rw [List.length_take, Nat.min_eq_left hle]
  have htake : (segment.take n).take n = segment.take n := by rw [List.take_take, Nat.min_self]
  cases hparse : parseSegmentHeader segment with
  | ok header =>
    have hheader : headerLenOf segment = header.headerLen := by rw [headerLenOf, hparse]
    have htaken : parseSegmentHeader (segment.take n) = .ok header :=
      parseSegmentHeader_congr htake.symm hle hlen.ge (hheader ▸ hn) hparse
    rw [headerLenOf, htaken, hheader]
  | error e =>
    cases htaken : parseSegmentHeader (segment.take n) with
    | error e' => rw [headerLenOf, htaken, headerLenOf, hparse]
    | ok header =>
      have hfit := headerLen_le_length htaken
      rw [hlen] at hfit
      have hwhole := parseSegmentHeader_congr htake hlen.ge hle hfit htaken
      rw [hparse] at hwhole
      cases hwhole

/-! ## The same frames -/

theorem leNat_slice_lt (b : List UInt8) (start len : Nat) :
    leNat (slice b start len) < 256 ^ len := by
  refine (Codec.leNat_lt _).trans_le (Nat.pow_le_pow_right (by decide) ?_)
  rw [slice, List.length_take]
  exact Nat.min_le_left _ _

theorem toNat_u16At (b : List UInt8) (start : Nat) :
    (Codec.u16At b start).toNat = leNat (slice b start 2) := by
  have hlt := leNat_slice_lt b start 2
  rw [Codec.u16At, UInt16.toNat_ofNat', Nat.mod_eq_of_lt (by omega)]

theorem toNat_u32At (b : List UInt8) (start : Nat) :
    (Codec.u32At b start).toNat = leNat (slice b start 4) := by
  have hlt := leNat_slice_lt b start 4
  rw [Codec.u32At, UInt32.toNat_ofNat', Nat.mod_eq_of_lt (by omega)]

theorem toNat_u64At (b : List UInt8) (start : Nat) :
    (Codec.u64At b start).toNat = leNat (slice b start 8) := by
  have hlt := leNat_slice_lt b start 8
  rw [Codec.u64At, UInt64.toNat_ofNat', Nat.mod_eq_of_lt (by omega)]

/-- The fields that `MeshSync` keeps. -/
def Codec.EventHeaderV2.reduced (h : Codec.EventHeaderV2) : MeshSync.EventHeaderV2 :=
  ⟨h.eventType, h.eventSubtype, h.reservedLen.toNat, h.totalLen.toNat, h.payloadLen.toNat,
    h.hlc.physicalNs.toNat⟩

theorem map_require_bind {E A B : Type} (c : Bool) (e : E) (x : Unit → Except E A) (f : A → B) :
    (require c e >>= x).map f = require c e >>= fun u => (x u).map f := by
  cases c <;> rfl

theorem epoch_check (physical : UInt64) (logical : UInt32) :
    (!(physical.toNat == 0 && logical.toNat != 0)) = decide ¬(physical = 0 ∧ logical ≠ 0) := by
  have hphysical : (physical.toNat == 0) = decide (physical = 0) := by
    rw [Bool.eq_iff_iff, beq_iff_eq, decide_eq_true_iff, ← UInt64.toNat_inj]
    rfl
  have hlogical : (logical.toNat != 0) = decide (logical ≠ 0) := by
    rw [Bool.eq_iff_iff, bne_iff_ne, decide_eq_true_iff, ne_eq, ne_eq, ← UInt32.toNat_inj]
    rfl
  rw [hphysical, hlogical]
  simp

theorem fromLeBytes_reduced (b : List UInt8) :
    EventHeaderV2.fromLeBytes b =
      (Codec.EventHeaderV2.fromLeBytes b).map Codec.EventHeaderV2.reduced := by
  unfold EventHeaderV2.fromLeBytes Codec.EventHeaderV2.fromLeBytes
  simp only [map_require_bind, toNat_u16At, toNat_u32At, Codec.expectedTotal]
  -- the checks up to the reserved bytes are the same on both sides
  iterate 5 (congr 1; funext _)
  by_cases hflags : b.getD 4 0 &&& 0xe0 = 0
  · rw [← toNat_u64At, ← toNat_u32At, ← toNat_u32At, epoch_check, Codec.EventFlags.fromBits,
      dif_pos hflags, Codec.hlcNew, Codec.Importance.new]
    by_cases hhlc : Codec.u64At b 29 = 0 ∧ Codec.u32At b 37 ≠ 0
    · rw [if_pos hhlc, decide_eq_false (not_not_intro hhlc)]
      rfl
    · rw [if_neg hhlc, decide_eq_true hhlc]
      by_cases himportance : importanceOk (Codec.u32At b 41).toNat = true
      · rw [dif_pos himportance, himportance, ← toNat_u16At, ← toNat_u32At, ← toNat_u32At]
        rfl
      · rw [dif_neg himportance, Bool.eq_false_iff.mpr himportance]
        rfl
  · rw [beq_false_of_ne hflags]
    rfl

def Codec.DecodedFrame.reduced (d : Codec.DecodedFrame) : MeshSync.DecodedFrame :=
  ⟨d.header.reduced, d.payload⟩

theorem decodeFrame_reduced (bytes : List UInt8) :
    decodeFrame bytes = (Codec.decodeFrame bytes).map Codec.DecodedFrame.reduced := by
  unfold decodeFrame Codec.decodeFrame
  simp only [map_require_bind]
  congr 1; funext _
  congr 1; funext _
  rw [show preambleLen = 4 from rfl, fromLeBytes_reduced]
  cases Codec.EventHeaderV2.fromLeBytes (slice bytes 4 headerBodyLen) with
  | error e => rfl
  | ok header =>
    show (require _ _ >>= fun _ => require _ _ >>= fun _ => _) =
      Except.map _ (require _ _ >>= fun _ => require _ _ >>= fun _ => _)
    simp only [map_require_bind]
    rfl

/-- What the scan reads of a frame of the codec. -/
theorem readFrame_of_ok {bytes : List UInt8} {d : Codec.DecodedFrame}
    (h : Codec.decodeFrame bytes = .ok d) :
    ∃ f, readFrame bytes = .ok f ∧ f.header.totalLen = d.header.totalLen.toNat := by
  refine ⟨IndexedFrame.ofBytes (slice bytes preambleLen headerBodyLen) d.reduced, ?_, rfl⟩
  rw [readFrame, decodeFrame_reduced, h]
  rfl

theorem readFrame_of_error {bytes : List UInt8} {e : HeaderParseError}
    (h : Codec.decodeFrame bytes = .error e) : readFrame bytes = .error e := by
  rw [readFrame, decodeFrame_reduced, h]
  rfl

theorem totalLen_of_decodeFrame {bytes : List UInt8} {d : Codec.DecodedFrame}
    (h : Codec.decodeFrame bytes = .ok d) :
    104 ≤ d.header.totalLen.toNat ∧ d.header.totalLen.toNat ≤ bytes.length := by
  have hreduced : decodeFrame bytes = .ok d.reduced := by
    rw [decodeFrame_reduced, h]
    rfl
  exact decodeFrame_totalLen hreduced

def codecFraming : Framing UInt8 HeaderParseError Codec.DecodedFrame where
  decode := Codec.decodeFrame
  size d := d.header.totalLen.toNat
  size_pos h := by
    have := (totalLen_of_decodeFrame h).1
    omega
  size_le h := (totalLen_of_decodeFrame h).2
  decode_append more h := by
    obtain ⟨hadmitted, hlen, padding, trailing, hpadding, rfl⟩ := Codec.decodeFrame_eq_ok_iff.mp h
    rw [List.append_assoc]
    exact Codec.decodeFrame_checked hadmitted hlen hpadding _

/-- The frames that the scan takes for frames. -/
def plausibleFraming : Framing UInt8 (Option HeaderParseError) Codec.DecodedFrame :=
  codecFraming.upTo maxFrameLen

theorem plausible_eq_ok_iff {bytes : List UInt8} {d : Codec.DecodedFrame} :
    plausibleFraming.decode bytes = .ok d ↔
      Codec.decodeFrame bytes = .ok d ∧ d.header.totalLen.toNat ≤ maxFrameLen :=
  Framing.decodeUpTo_eq_ok_iff

theorem exact_plausibleFraming : Reads.Exact plausibleFraming := by
  refine Reads.Exact.upTo ?_ _
  intro bytes d h
  obtain ⟨hadmitted, hlen, hpadding, hbytes⟩ := Codec.of_decodeFrame h
  have hexact := Codec.decodeFrame_checked hadmitted hlen hpadding []
  rw [List.append_nil, ← hbytes] at hexact
  exact hexact

/-! ## The scan -/

variable {segment : List UInt8} {offset b : Nat} {ds : List Codec.DecodedFrame}

/-- **The loop**: from where frames begin to where none does. -/
theorem scanFrom_of_reads {fuel : Nat} (hreads : Reads plausibleFraming segment offset ds b)
    (hstop : ∀ d, plausibleFraming.decode (segment.drop b) ≠ .ok d)
    (hfuel : segment.length < fuel + offset) (hle : offset ≤ segment.length) :
    scanFrom segment fuel offset = if b < segment.length then .tornAt b b else .clean b := by
  induction hreads generalizing fuel with
  | nil a =>
    cases fuel with
    | zero => omega
    | succ fuel =>
      unfold scanFrom
      split_ifs with hlt hshort
      · rfl
      · cases hdecode : Codec.decodeFrame (segment.drop a) with
        | error e => rw [readFrame_of_error hdecode]
        | ok d =>
          obtain ⟨f, hf, htotal⟩ := readFrame_of_ok hdecode
          have hlong : maxFrameLen < d.header.totalLen.toNat := by
            by_contra hfit
            exact hstop d (plausible_eq_ok_iff.mpr ⟨hdecode, not_lt.mp hfit⟩)
          rw [hf]
          dsimp only
          rw [if_pos (.inr (htotal ▸ hlong))]
      · rfl
  | @cons a b d ds head tail ih =>
    obtain ⟨hdecode, hmax⟩ := plausible_eq_ok_iff.mp head
    obtain ⟨hmin, hfit⟩ := totalLen_of_decodeFrame hdecode
    obtain ⟨f, hf, htotal⟩ := readFrame_of_ok hdecode
    have hsize : plausibleFraming.size d = d.header.totalLen.toNat := rfl
    have hconst : minFrameLen = 104 := rfl
    rw [List.length_drop] at hfit
    cases fuel with
    | zero => omega
    | succ fuel =>
      have hnext := @ih fuel hstop (by omega) (by omega)
      rw [hsize] at hnext
      unfold scanFrom
      rw [if_pos (by omega), if_neg (by rw [List.length_drop]; omega), hf]
      dsimp only
      rw [htotal, if_neg (by omega), if_neg (by omega), hnext]

theorem scanTailFile_of_reads (hlen : segmentHeaderLen ≤ segment.length)
    (hreads : Reads plausibleFraming segment (headerLenOf segment) ds b)
    (hstop : ∀ d, plausibleFraming.decode (segment.drop b) ≠ .ok d) :
    scanTailFile segment = if b < segment.length then .tornAt b b else .clean b := by
  rw [scanTailFile, scanTail, if_neg (by omega)]
  exact scanFrom_of_reads hreads hstop (by omega) (headerLenOf_le_length hlen)

/-- Cut where the scan has stopped, the file is clean. -/
theorem scanTailFile_take (hlen : segmentHeaderLen ≤ segment.length)
    (hreads : Reads plausibleFraming segment (headerLenOf segment) ds b) :
    scanTailFile (segment.take b) = .clean b := by
  have hend := hreads.le_length (headerLenOf_le_length hlen)
  have hheader := segmentHeaderLen_le_headerLenOf segment
  have htake : (segment.take b).length = b := by rw [List.length_take, Nat.min_eq_left hend]
  have hkept := hreads.take exact_plausibleFraming (le_refl b)
  rw [← headerLenOf_take hreads.le hend] at hkept
  have hstop : ∀ d, plausibleFraming.decode ((segment.take b).drop b) ≠ .ok d := by
    intro d hd
    have hnil : (segment.take b).drop b = [] := List.drop_eq_nil_of_le htake.le
    have hpos := plausibleFraming.size_pos hd
    have hle := plausibleFraming.size_le hd
    rw [hnil] at hle
    simp only [List.length_nil] at hle
    omega
  have hscan := scanTailFile_of_reads (by rw [htake]; exact hheader.trans hreads.le) hkept hstop
  rwa [htake, if_neg (Nat.lt_irrefl b)] at hscan

/-- A proper part of a frame is no frame. -/
theorem decodeFrame_ne_ok_of_cut {header : Codec.EventHeaderV2} {payload frame t : List UInt8}
    (h : Codec.encodeFrame header payload = some frame) (hcut : t <+: frame) (hne : t ≠ frame)
    (d : Codec.DecodedFrame) : Codec.decodeFrame t ≠ .ok d := by
  intro hdecode
  obtain ⟨rest, rfl⟩ := hcut
  have hfit := (totalLen_of_decodeFrame hdecode).2
  obtain ⟨-, -, -, hbytes⟩ := Codec.of_decodeFrame hdecode
  have hlength := Codec.length_of_encodeFrame h
  have hframe := (Codec.encodeFrame_eq_some_iff.mp h).2
  -- both begin with the header, and so with the length of the whole frame
  have hwhole : (t ++ rest).take d.header.totalLen.toNat = t.take d.header.totalLen.toNat :=
    List.take_append_of_le_length hfit
  have hheader : d.header.toLeBytes = header.toLeBytes := by
    have hparts : ∀ (g : Codec.EventHeaderV2) (padding payload more : List UInt8),
        slice (Codec.checked (Codec.unchecked g padding payload) ++ more) 4 headerBodyLen =
          g.toLeBytes := by
      intro g padding payload more
      rw [Codec.checked, Codec.unchecked, List.append_assoc, List.append_assoc,
        slice_append_right (by decide), List.append_assoc, show 4 - magic.length = 0 from rfl,
        slice_append_left g.length_toLeBytes]
    have hfirst := hparts d.header (slice t 100 d.header.reservedLen.toNat) d.payload
      ((t ++ rest).drop d.header.totalLen.toNat)
    rw [← hbytes, ← hwhole, List.take_append_drop, hframe] at hfirst
    have hsecond := hparts header (.replicate header.reservedLen.toNat 0) payload []
    rw [List.append_nil, hfirst] at hsecond
    exact hsecond
  have htotal : d.header.totalLen = header.totalLen := by
    have hfirst := Codec.u32At_of_slice (Codec.slice_toLeBytes d.header).2.2.1
    rw [hheader, Codec.u32At_of_slice (Codec.slice_toLeBytes header).2.2.1] at hfirst
    exact hfirst.symm
  rw [htotal, ← hlength, List.length_append] at hfit
  have hnil : rest = [] := List.length_eq_zero_iff.mp (by omega)
  exact hne (by rw [hnil, List.append_nil])

/-- A frame as it was written, with its bytes. -/
def Written (p : Codec.DecodedFrame × List UInt8) : Prop :=
  p.1.header.Admitted ∧ p.1.header.totalLen.toNat ≤ maxFrameLen ∧
    Codec.encodeFrame p.1.header p.1.payload = some p.2

theorem reads_written {header : List UInt8} {frames : List (Codec.DecodedFrame × List UInt8)}
    (hframes : ∀ p ∈ frames, Written p) (more : List UInt8) :
    Reads plausibleFraming (header ++ (frames.flatMap Prod.snd ++ more)) header.length
      (frames.map Prod.fst) (header.length + (frames.flatMap Prod.snd).length) := by
  refine Reads.laid ?_ header more
  intro p hp
  obtain ⟨hadmitted, hmax, hencode⟩ := hframes p hp
  refine ⟨Codec.length_of_encodeFrame hencode, fun rest => plausible_eq_ok_iff.mpr ⟨?_, hmax⟩⟩
  obtain ⟨hlen, hbytes⟩ := Codec.encodeFrame_eq_some_iff.mp hencode
  rw [hbytes]
  exact Codec.decodeFrame_checked hadmitted hlen List.length_replicate rest

/-- A file that a crash has cut within a frame. -/
theorem scanTailFile_cut {header : List UInt8} {parsed : ParsedSegmentHeader}
    (hparse : parseSegmentHeader header = .ok parsed) (hheader : header.length = parsed.headerLen)
    {frames : List (Codec.DecodedFrame × List UInt8)} (hframes : ∀ p ∈ frames, Written p)
    {next : Codec.DecodedFrame}
    {frame t : List UInt8} (hnext : Codec.encodeFrame next.header next.payload = some frame)
    (hcut : t <+: frame) (hne : t ≠ frame) :
    scanTailFile (header ++ (frames.flatMap Prod.snd ++ t)) =
      if t = [] then .clean (header ++ frames.flatMap Prod.snd).length
      else .tornAt (header ++ frames.flatMap Prod.snd).length
        (header ++ frames.flatMap Prod.snd).length := by
  have hreads := @reads_written header frames hframes t
  have hsixty := parsed.le_headerLen
  rw [← List.length_append,
    ← headerLenOf_append hparse hheader (frames.flatMap Prod.snd ++ t)] at hreads
  have hdrop : (header ++ (frames.flatMap Prod.snd ++ t)).drop
      (header ++ frames.flatMap Prod.snd).length = t := by
    rw [← List.append_assoc, List.drop_left]
  have hlength : (header ++ (frames.flatMap Prod.snd ++ t)).length =
      (header ++ frames.flatMap Prod.snd).length + t.length := by
    rw [← List.append_assoc, List.length_append]
  rw [scanTailFile_of_reads (by rw [List.length_append]; omega) hreads, hlength]
  · by_cases hnil : t = []
    · rw [if_pos hnil, hnil, if_neg (by simp)]
    · have hpos := List.length_pos_of_ne_nil hnil
      rw [if_neg hnil, if_pos (by omega)]
  · intro d hd
    rw [hdrop] at hd
    exact decodeFrame_ne_ok_of_cut hnext hcut hne d (plausible_eq_ok_iff.mp hd).1

/-- A frame above the limit is torn, however whole it is. -/
theorem scanTailFile_long {header : List UInt8} {parsed : ParsedSegmentHeader}
    (hparse : parseSegmentHeader header = .ok parsed) (hheader : header.length = parsed.headerLen)
    {d : Codec.DecodedFrame} {frame : List UInt8} (hadmitted : d.header.Admitted)
    (hlong : maxFrameLen < d.header.totalLen.toNat)
    (hencode : Codec.encodeFrame d.header d.payload = some frame) :
    scanTailFile (header ++ frame) = .tornAt header.length header.length := by
  have hlen := headerLenOf_append hparse hheader frame
  have hsixty := parsed.le_headerLen
  have hlength := Codec.length_of_encodeFrame hencode
  have hreads : Reads plausibleFraming (header ++ frame) (headerLenOf (header ++ frame))
      [] header.length := by
    rw [hlen]
    exact .nil _
  rw [scanTailFile_of_reads (by rw [List.length_append]; omega) hreads,
    if_pos (by rw [List.length_append]; omega)]
  intro g hg
  obtain ⟨hdecode, hmax⟩ := plausible_eq_ok_iff.mp hg
  obtain ⟨hdescribes, rfl⟩ := Codec.encodeFrame_eq_some_iff.mp hencode
  have hwhole := Codec.decodeFrame_checked hadmitted hdescribes
    (List.length_replicate (n := d.header.reservedLen.toNat) (a := 0)) []
  rw [List.append_nil] at hwhole
  rw [List.drop_left, hwhole] at hdecode
  cases hdecode
  exact absurd hmax (not_le.mpr hlong)

/-- **The durable prefix.**  A cut file is resumed behind its last frame; any file is resumed behind
the longest row of plausible frames, and is clean when it is cut there; a file too short for a
header is left as it is. -/
theorem scan_finds_durable_frames :
    (∀ header parsed, parseSegmentHeader header = .ok parsed → header.length = parsed.headerLen →
      ∀ frames : List (Codec.DecodedFrame × List UInt8), (∀ p ∈ frames, Written p) →
      ∀ (next : Codec.DecodedFrame) (frame t : List UInt8),
        Codec.encodeFrame next.header next.payload = some frame → t <+: frame → t ≠ frame →
        scanTailFile (header ++ (frames.flatMap Prod.snd ++ t)) =
          if t = [] then .clean (header ++ frames.flatMap Prod.snd).length
          else .tornAt (header ++ frames.flatMap Prod.snd).length
            (header ++ frames.flatMap Prod.snd).length) ∧
    (∀ segment : List UInt8, segmentHeaderLen ≤ segment.length →
      ∃ ds b, (scanTailFile segment).resumeOffset = b ∧ headerLenOf segment ≤ b ∧
      b ≤ segment.length ∧
        Reads plausibleFraming segment (headerLenOf segment) ds b ∧
        (∀ es c, Reads plausibleFraming segment (headerLenOf segment) es c → c ≤ b) ∧
        scanTailFile (segment.take b) = .clean b) ∧
    ∀ segment : List UInt8, segment.length < segmentHeaderLen →
    scanTailFile segment = .clean segment.length := by
  refine ⟨?_, ?_, ?_⟩
  · intro header parsed hparse hheader frames hframes next frame t hnext hcut hne
    exact scanTailFile_cut hparse hheader hframes hnext hcut hne
  · intro segment hlen
    obtain ⟨ds, b, hreads, hstop⟩ :=
      Reads.exists_complete plausibleFraming segment (headerLenOf segment)
    refine ⟨ds, b, ?_, hreads.le, hreads.le_length (headerLenOf_le_length hlen), hreads,
      fun es c hc => hreads.complete hstop hc, scanTailFile_take hlen hreads⟩
    rw [scanTailFile_of_reads hlen hreads hstop]
    split <;> rfl
  · intro segment hshort
    rw [scanTailFile, scanTail, if_pos hshort]

/-- The header of a segment in its oldest form, all fields zero. -/
def sampleSegmentHeader : List UInt8 :=
  segmentMagic ++ leBytes 4 1 ++ List.replicate 44 0 ++
    leBytes 4 (crc32c (segmentMagic ++ leBytes 4 1 ++ List.replicate 44 0))

def sampleParsed : ParsedSegmentHeader :=
  .v1 ⟨segmentMagic, 1, 0, 0, 0, 0, .replicate 16 0,
    .ofNat (crc32c (segmentMagic ++ leBytes 4 1 ++ List.replicate 44 0))⟩

def sampleFrame (hlc : Hlc) : Codec.DecodedFrame := ⟨{ Codec.EventHeaderV2.empty with hlc }, []⟩
def sampleBytes (hlc : Hlc) : List UInt8 :=
  Codec.checked (Codec.unchecked (sampleFrame hlc).header [] [])

theorem scan_finds_durable_frames_sample :
    scanTailFile (sampleSegmentHeader ++
      ([(sampleFrame ⟨1, 0⟩, sampleBytes ⟨1, 0⟩)].flatMap Prod.snd ++ [0x4e])) =
      .tornAt 164 164 := by
  refine (scan_finds_durable_frames.1 sampleSegmentHeader sampleParsed (by decide +kernel)
    (by decide +kernel)
    [(sampleFrame ⟨1, 0⟩, sampleBytes ⟨1, 0⟩)] ?_ (sampleFrame ⟨2, 0⟩) (sampleBytes ⟨2, 0⟩)
    [0x4e] rfl ⟨(sampleBytes ⟨2, 0⟩).drop 1, rfl⟩ (by decide +kernel)).trans (by decide +kernel)
  intro p hp
  rw [List.mem_singleton] at hp
  subst hp
  exact ⟨⟨rfl, rfl, rfl, by decide⟩, by decide +kernel, rfl⟩

/-- The header of a payload one byte above the limit. -/
def longHeader : Codec.EventHeaderV2 :=
  { Codec.EventHeaderV2.empty with totalLen := 16777321, payloadLen := 16777217 }

/-- What the scan leaves out: a file shorter than a header, a frame with a stamp that is not
admitted, a frame above the limit. -/
theorem scan_limits :
    ¬ headerLenOf [] ≤ (scanTailFile []).resumeOffset ∧
      (Codec.encodeFrame (sampleFrame ⟨0, 1⟩).header [] = some (sampleBytes ⟨0, 1⟩) ∧
        scanTailFile (sampleSegmentHeader ++ sampleBytes ⟨0, 1⟩) = .tornAt 60 60) ∧
      ∃ d : Codec.DecodedFrame, d.payload.length = maxPayloadBytes + 1 ∧ d.header.Admitted ∧
        ∃ frame, Codec.encodeFrame d.header d.payload = some frame ∧
          scanTailFile (sampleSegmentHeader ++ frame) = .tornAt 60 60 := by
  refine ⟨by decide +kernel, ⟨rfl, by decide +kernel⟩, ?_⟩
  have hlong : ∀ payload : List UInt8, payload.length = maxPayloadBytes + 1 →
      ∃ d : Codec.DecodedFrame, d.payload.length = maxPayloadBytes + 1 ∧ d.header.Admitted ∧
        ∃ frame, Codec.encodeFrame d.header d.payload = some frame ∧
          scanTailFile (sampleSegmentHeader ++ frame) = .tornAt 60 60 := by
    intro payload hpayload
    have hdescribes : longHeader.Describes payload.length := by
      rw [hpayload]
      exact ⟨rfl, rfl⟩
    have hencode := Codec.encodeFrame_eq_some_iff.mpr ⟨hdescribes, rfl⟩
    have hlimit : maxFrameLen < longHeader.totalLen.toNat := by decide +kernel
    refine ⟨⟨longHeader, payload⟩, hpayload, ⟨rfl, rfl, rfl, fun _ => rfl⟩, _, hencode, ?_⟩
    have hparse : parseSegmentHeader sampleSegmentHeader = .ok sampleParsed := by decide +kernel
    have hadmitted : longHeader.Admitted := ⟨rfl, rfl, rfl, fun _ => rfl⟩
    exact @scanTailFile_long _ _ hparse (by decide +kernel) ⟨longHeader, payload⟩ _ hadmitted
      hlimit hencode
  exact hlong (List.replicate (maxPayloadBytes + 1) 0) List.length_replicate

end Neoth.Wal
