import Neoth.Wal.Compaction

/-!
# The reader of a recovered segment

`for_each_frame` of `wal/scan.rs` beside `scan_tail` of `wal/recovery.rs`, each with its own loop
over the frames of a segment.

* `logicalSegmentBytes`: what the reader takes for the segment, the body opened and decompressed;
* `scanTrace`: the loop of the scan with the frames that it steps over;
* `forEachFrom_of_reads`: the reader delivers the frames up to the end of the file;
* **`reader_follows_recovery`**: on the file cut where the scan has stopped they are the same, if
  the header is one of an uncompressed segment.

Opening a sealed body is a parameter.
-/

open Lib.Encoding Lib.FrameLog Lib.Transaction Neoth.MeshSync

namespace Neoth.Wal

variable {S E : Type}

/-! ## The segment as the reader takes it -/

/-- `decrypt_blob` with the key of the home, if there is one, and `decompress_frames`. -/
class SealedBodies where
  decrypt : List UInt8 → List UInt8 → Option (List UInt8)
  decompress : List UInt8 → Option (List UInt8)

def encMagic : List UInt8 := utf8 "NEOTH_ENCv1\n"
def maxDecompressedBytes : Nat := 256 * 1024 * 1024

/-- `logical_segment_bytes_at_home`; the errors are told apart in a log only.  A file without a
header that can be parsed is a bare stream of frames. -/
def logicalSegmentBytes [SealedBodies] (raw : List UInt8) : Option (Nat × List UInt8) :=
  match parseSegmentHeader raw with
  | .error _ => some (0, raw)
  | .ok parsed => do
    let header := raw.take parsed.headerLen
    let body := raw.drop parsed.headerLen
    let frames ← if encMagic.isPrefixOf body then SealedBodies.decrypt header body else some body
    if maxDecompressedBytes < frames.length then none
    else if parsed.isCompressed then
      (SealedBodies.decompress frames).map fun frames => (parsed.headerLen, header ++ frames)
    else some (parsed.headerLen, header ++ frames)

/-- The segment is taken as it stands. -/
theorem logicalSegmentBytes_plain [SealedBodies] {raw : List UInt8} {parsed : ParsedSegmentHeader}
    (hparse : parseSegmentHeader raw = .ok parsed) (hraw : parsed.isCompressed = false)
    (hplain : ¬ encMagic <+: raw.drop parsed.headerLen) :
    logicalSegmentBytes raw =
      if maxDecompressedBytes < (raw.drop parsed.headerLen).length then none
      else some (parsed.headerLen, raw) := by
  unfold logicalSegmentBytes
  rw [hparse]
  dsimp only
  rw [if_neg (mt List.isPrefixOf_iff_prefix.mp hplain), hraw]
  simp only [Option.bind_eq_bind, Option.bind_some, Bool.false_eq_true, if_false,
    List.take_append_drop]

/-! ## The reader -/

/-- A walk fails with a segment that cannot be reconstructed, with a truncated frame, with one that
does not validate, or with the callback. -/
inductive LogicalScanError (E : Type)
  | unreconstructed
  | truncatedFrame (offset : Nat)
  | tamperSuspect (offset : Nat) (e : HeaderParseError)
  | callback (e : E)

/-- The loop of `for_each_logical_frame`, with the state of the callback; its fuel does not run
out. -/
def forEachFrom (logical : List UInt8) (allowTornTail : Bool)
    (cb : Nat → Codec.DecodedFrame → S → Except E S) : Nat → Nat → S → Except (LogicalScanError E) S
  | 0, _, s => .ok s
  | fuel + 1, cursor, s =>
    if cursor < logical.length then
      match Codec.decodeFrame (logical.drop cursor) with
      | .error e =>
        if isTooShort e then if allowTornTail then .ok s else .error (.truncatedFrame cursor)
        else .error (.tamperSuspect cursor e)
      | .ok d =>
        if d.header.totalLen = 0 then .ok s
        else
          match cb cursor d s with
          | .error e => .error (.callback e)
          | .ok s => forEachFrom logical allowTornTail cb fuel (cursor + d.header.totalLen.toNat) s
    else .ok s

def forEachLogicalFrame (logical : List UInt8) (headerLen : Nat) (allowTornTail : Bool)
    (cb : Nat → Codec.DecodedFrame → S → Except E S) (s : S) : Except (LogicalScanError E) S :=
  forEachFrom logical allowTornTail cb (logical.length + 1) headerLen s

/-- `for_each_frame`; a file shorter than a header holds no frames. -/
def forEachFrame [SealedBodies] (raw : List UInt8) (cb : Nat → Codec.DecodedFrame → S → Except E S)
    (s : S) : Except (LogicalScanError E) S :=
  if raw.length < segmentHeaderLen then .ok s
  else
    match logicalSegmentBytes raw with
    | none => .error .unreconstructed
    | some (headerLen, logical) => forEachLogicalFrame logical headerLen true cb s

/-- The callback is given some frames in their order. -/
def deliver (cb : Nat → Codec.DecodedFrame → S → Except E S) :
    List (Nat × Codec.DecodedFrame) → S → Except (LogicalScanError E) S
  | [], s => .ok s
  | (offset, d) :: frames, s =>
    match cb offset d s with
    | .error e => .error (.callback e)
    | .ok s => deliver cb frames s

/-! ## The scan -/

/-- The loop of `scan_tail` with the frames that it steps over. -/
def scanTrace (segment : List UInt8) : Nat → Nat → List (Nat × Codec.DecodedFrame) × ScanResult
  | 0, offset => ([], .clean offset)
  | fuel + 1, offset =>
    if offset < segment.length then
      if (segment.drop offset).length < minFrameLen then ([], .tornAt offset offset)
      else
        match Codec.decodeFrame (segment.drop offset) with
        | .ok d =>
          let total := d.header.totalLen.toNat
          if total < minFrameLen ∨ maxFrameLen < total then ([], .tornAt offset offset)
          else if segment.length < offset + total then ([], .tornAt offset offset)
          else
            let rest := scanTrace segment fuel (offset + total)
            ((offset, d) :: rest.1, rest.2)
        | .error _ => ([], .tornAt offset offset)
    else ([], .clean offset)

/-- The frames that `scan_tail` steps over, and its result. -/
def scanTailTrace (segment : List UInt8) : List (Nat × Codec.DecodedFrame) × ScanResult :=
  if segment.length < segmentHeaderLen then ([], .clean segment.length)
  else scanTrace segment (segment.length + 1) (headerLenOf segment)

/-! ## Frames with their offsets -/

variable {segment : List UInt8} {a b : Nat} {ds : List Codec.DecodedFrame}

/-- Frames that lie end to end, with their offsets. -/
def located : Nat → List Codec.DecodedFrame → List (Nat × Codec.DecodedFrame)
  | _, [] => []
  | a, d :: ds => (a, d) :: located (a + d.header.totalLen.toNat) ds

theorem scanTrace_of_reads {fuel : Nat} (hreads : Reads plausibleFraming segment a ds b)
    (hstop : ∀ d, plausibleFraming.decode (segment.drop b) ≠ .ok d)
    (hfuel : segment.length < fuel + a) (hle : a ≤ segment.length) :
    scanTrace segment fuel a = (located a ds, if b < segment.length then .tornAt b b
      else .clean b) := by
  induction hreads generalizing fuel with
  | nil a =>
    cases fuel with
    | zero => omega
    | succ fuel =>
      unfold scanTrace
      split_ifs with hlt hshort
      · rfl
      · cases hdecode : Codec.decodeFrame (segment.drop a) with
        | error e => rfl
        | ok d =>
          have hlong : maxFrameLen < d.header.totalLen.toNat := by
            by_contra hfit
            exact hstop d (plausible_eq_ok_iff.mpr ⟨hdecode, not_lt.mp hfit⟩)
          dsimp only
          rw [if_pos (.inr hlong)]
          rfl
      · rfl
  | @cons a b d ds head tail ih =>
    obtain ⟨hdecode, hmax⟩ := plausible_eq_ok_iff.mp head
    obtain ⟨hmin, hfit⟩ := totalLen_of_decodeFrame hdecode
    have hsize : plausibleFraming.size d = d.header.totalLen.toNat := rfl
    have hconst : minFrameLen = 104 := rfl
    rw [List.length_drop] at hfit
    cases fuel with
    | zero => omega
    | succ fuel =>
      have hnext := @ih fuel hstop (by omega) (by omega)
      rw [hsize] at hnext
      unfold scanTrace
      rw [if_pos (by omega), if_neg (by rw [List.length_drop]; omega), hdecode]
      dsimp only
      rw [if_neg (by omega), if_neg (by omega), hnext]
      rfl

/-- **The reader comes to the end of a file that is made of frames**, and delivers each of them. -/
theorem forEachFrom_of_reads {fuel : Nat} {allowTornTail : Bool}
    {cb : Nat → Codec.DecodedFrame → S → Except E S}
    {s : S} (hreads : Reads codecFraming segment a ds segment.length)
    (hfuel : segment.length < fuel + a) :
    forEachFrom segment allowTornTail cb fuel a s = deliver cb (located a ds) s := by
  generalize hend : segment.length = b at hreads hfuel
  induction hreads generalizing fuel s with
  | nil a =>
    cases fuel with
    | zero => rfl
    | succ fuel => exact if_neg (by omega)
  | @cons a b d ds head tail ih =>
    have hpos := codecFraming.size_pos head
    have hfit := tail.le
    have hsize : codecFraming.size d = d.header.totalLen.toNat := rfl
    have hdecode : Codec.decodeFrame (segment.drop a) = .ok d := head
    have hnonzero : d.header.totalLen ≠ 0 := by
      intro hzero
      rw [hsize, hzero] at hpos
      exact absurd hpos (by decide)
    cases fuel with
    | zero => omega
    | succ fuel =>
      unfold forEachFrom
      rw [if_pos (by omega), hdecode]
      dsimp only
      rw [if_neg hnonzero]
      unfold located deliver
      cases cb a d s with
      | error e => rfl
      | ok s => exact @ih fuel s hend (by omega)

theorem offsets_located (hreads : Reads codecFraming segment a ds b) :
    ((located a ds).map Prod.fst).Pairwise (· < ·) ∧ ∀ p ∈ located a ds, a ≤ p.1 := by
  induction hreads with
  | nil => exact ⟨List.Pairwise.nil, fun _ h => absurd h List.not_mem_nil⟩
  | @cons a b d ds head tail ih =>
    obtain ⟨hpairwise, hle⟩ := ih
    have hpos := codecFraming.size_pos head
    refine ⟨List.pairwise_cons.mpr ⟨fun offset hoffset => ?_, hpairwise⟩,
      List.forall_mem_cons.mpr ⟨le_rfl, ?_⟩⟩
    · obtain ⟨p, hp, rfl⟩ := List.mem_map.mp hoffset
      have := hle p hp
      omega
    · intro p hp
      have := hle p hp
      omega

theorem reads_of_plausible (hreads : Reads plausibleFraming segment a ds b) :
    Reads codecFraming segment a ds b := by
  induction hreads with
  | nil => exact .nil _
  | cons head tail ih => exact .cons (plausible_eq_ok_iff.mp head).1 ih

/-- The callback that keeps what it is given. -/
def collect (offset : Nat) (d : Codec.DecodedFrame) (frames : List (Nat × Codec.DecodedFrame)) :
    Except Empty (List (Nat × Codec.DecodedFrame)) := .ok (frames ++ [(offset, d)])

theorem deliver_collect (frames before : List (Nat × Codec.DecodedFrame)) :
    deliver collect frames before = .ok (before ++ frames) := by
  induction frames generalizing before with
  | nil => rw [List.append_nil]; rfl
  | cons p frames ih =>
    obtain ⟨offset, d⟩ := p
    show deliver collect frames (before ++ [(offset, d)]) = _
    rw [ih, List.append_assoc]
    rfl

/-- What the scan steps over, and the frames of the file that is cut where it has stopped. -/
theorem scanTailTrace_spec (segment : List UInt8) :
    ∃ ds, (scanTailTrace segment).2 = scanTailFile segment ∧
      (scanTailTrace segment).1 = located (headerLenOf segment) ds ∧
      ∀ kept, kept = segment.take (scanTailFile segment).resumeOffset →
      headerLenOf kept = headerLenOf segment ∧
        (Reads codecFraming kept (headerLenOf kept) ds kept.length ∨
          (ds = [] ∧ kept.length < headerLenOf kept)) := by
  by_cases hshort : segment.length < segmentHeaderLen
  · have hscan : scanTailFile segment = .clean segment.length := by
      rw [scanTailFile, scanTail, if_pos hshort]
    refine ⟨[], ?_, ?_, ?_⟩
    · rw [hscan, scanTailTrace, if_pos hshort]
    · rw [scanTailTrace, if_pos hshort]
      rfl
    · rintro kept rfl
      have hsame : segment.take (scanTailFile segment).resumeOffset = segment := by
        rw [hscan]
        exact List.take_length
      rw [hsame]
      exact ⟨rfl, .inr ⟨rfl, hshort.trans_le (segmentHeaderLen_le_headerLenOf segment)⟩⟩
  · have hlen : segmentHeaderLen ≤ segment.length := not_lt.mp hshort
    have hheader := headerLenOf_le_length hlen
    obtain ⟨ds, b, hreads, hstop⟩ :=
      Reads.exists_complete plausibleFraming segment (headerLenOf segment)
    have hend := hreads.le_length hheader
    have hscan := scanTailFile_of_reads hlen hreads hstop
    have htrace :
        scanTailTrace segment = (located (headerLenOf segment) ds, scanTailFile segment) := by
      rw [scanTailTrace, if_neg hshort, hscan]
      exact scanTrace_of_reads hreads hstop (by omega) hheader
    have hresume : (scanTailFile segment).resumeOffset = b := by
      rw [hscan]
      split <;> rfl
    refine ⟨ds, by rw [htrace], by rw [htrace], ?_⟩
    rintro kept rfl
    rw [hresume, headerLenOf_take hreads.le hend, List.length_take, Nat.min_eq_left hend]
    exact ⟨rfl, .inl ( reads_of_plausible (hreads.take exact_plausibleFraming le_rfl))⟩

/-- The file, cut where the scan of its tail has stopped. -/
def keptBy (segment : List UInt8) : List UInt8 := segment.take (scanTailFile segment).resumeOffset

/-- The header is one of an uncompressed segment, and the frames behind it are not more than the
reader takes. -/
def RawHeader (segment : List UInt8) : Prop :=
  ∃ parsed, parseSegmentHeader segment = .ok parsed ∧ parsed.isCompressed = false ∧
    (keptBy segment).length ≤ parsed.headerLen + maxDecompressedBytes

theorem forEachLogicalFrame_kept (segment : List UInt8) (allowTornTail : Bool)
    (cb : Nat → Codec.DecodedFrame → S → Except E S) (s : S) :
    forEachLogicalFrame (keptBy segment) (headerLenOf (keptBy segment)) allowTornTail cb s =
      deliver cb (scanTailTrace segment).1 s := by
  unfold keptBy
  obtain ⟨ds, -, htrace, hkept⟩ := scanTailTrace_spec segment
  obtain ⟨hheader, hreads | ⟨rfl, hshort⟩⟩ := hkept _ rfl
  · rw [htrace, ← hheader]
    exact forEachFrom_of_reads hreads (by omega)
  · rw [htrace]
    exact if_neg (by omega)

/-- No frame begins with the magic of a sealed body: its fifth byte would be the version. -/
theorem not_encMagic_of_decode {bytes : List UInt8} {d : Codec.DecodedFrame}
    (h : Codec.decodeFrame bytes = .ok d) : ¬ encMagic <+: bytes := by
  rintro ⟨rest, rfl⟩
  obtain ⟨hadmitted, -, padding, trailing, -, hbytes⟩ := Codec.decodeFrame_eq_ok_iff.mp h
  have hmagic : magic = [78, 69, 79, 84] := by decide +kernel
  have hsealed : encMagic = 78 :: 69 :: 79 :: 84 :: 72 :: encMagic.drop 5 := by decide +kernel
  have hfifth := congrArg (fun bytes => bytes[4]?) hbytes
  rw [hsealed, Codec.checked, Codec.unchecked, hmagic, Codec.EventHeaderV2.toLeBytes,
    hadmitted.format] at hfifth
  simp [walFormatVersion] at hfifth

/-- What recovery keeps of an uncompressed segment the reader takes as it stands. -/
theorem logicalSegmentBytes_kept [SealedBodies] {segment : List UInt8}
    {parsed : ParsedSegmentHeader}
    (hlen : segmentHeaderLen ≤ segment.length) (hparse : parseSegmentHeader segment = .ok parsed)
    (hraw : parsed.isCompressed = false)
    (hsmall : (keptBy segment).length ≤ parsed.headerLen + maxDecompressedBytes) :
    logicalSegmentBytes (keptBy segment) = some (headerLenOf (keptBy segment), keptBy segment) := by
  have hof : headerLenOf segment = parsed.headerLen := by rw [headerLenOf, hparse]
  have hle := headerLenOf_le_length hlen
  obtain ⟨ds, b, hreads, hstop⟩ :=
    Reads.exists_complete plausibleFraming segment (headerLenOf segment)
  have hend := hreads.le_length hle
  have hkept : keptBy segment = segment.take b := by
    rw [keptBy, scanTailFile_of_reads hlen hreads hstop]
    split_ifs <;> rfl
  have hlength : (keptBy segment).length = b := by
    rw [hkept, List.length_take, Nat.min_eq_left hend]
  have hparsed : parseSegmentHeader (keptBy segment) = .ok parsed := by
    refine parseSegmentHeader_congr (n := b) ?_ hend hlength.ge (hof ▸ hreads.le) hparse
    rw [hkept, List.take_take, Nat.min_self]
  have hsame : headerLenOf (keptBy segment) = parsed.headerLen := by rw [headerLenOf, hparsed]
  have hplain : ¬ encMagic <+: (keptBy segment).drop parsed.headerLen := by
    have hkeep := hreads.take exact_plausibleFraming (le_refl b)
    rw [hof, ← hkept] at hkeep
    cases hkeep with
    | nil =>
      intro hsealed
      have hempty : (keptBy segment).drop parsed.headerLen = [] := List.drop_eq_nil_of_le hlength.le
      rw [hempty, List.prefix_nil] at hsealed
      exact absurd hsealed (by decide +kernel)
    | cons head tail => exact not_encMagic_of_decode (plausible_eq_ok_iff.mp head).1
  rw [logicalSegmentBytes_plain hparsed hraw hplain, if_neg (by rw [List.length_drop]; omega),
    hsame]

theorem forEachFrame_kept [SealedBodies] (segment : List UInt8)
    (hraw : segmentHeaderLen ≤ segment.length → RawHeader segment)
    (cb : Nat → Codec.DecodedFrame → S → Except E S) (s : S) :
    forEachFrame (keptBy segment) cb s = deliver cb (scanTailTrace segment).1 s := by
  unfold forEachFrame
  split_ifs with hshort
  · obtain ⟨ds, -, htrace, hkept⟩ := scanTailTrace_spec segment
    obtain ⟨hheader, hreads | ⟨rfl, -⟩⟩ := hkept _ rfl
    · have hle := (segmentHeaderLen_le_headerLenOf _).trans hreads.le
      exact absurd hshort (not_lt.mpr hle)
    · rw [htrace]
      rfl
  · have hlen : segmentHeaderLen ≤ segment.length :=
      (not_lt.mp hshort).trans (List.length_take_le' _ _)
    obtain ⟨parsed, hparse, hplain, hsmall⟩ := hraw hlen
    rw [logicalSegmentBytes_kept hlen hparse hplain hsmall]
    exact forEachLogicalFrame_kept segment true cb s

/-- **The reader delivers what recovery has kept** of a segment that is shorter than a header, or
has one of an uncompressed segment: every frame that the scan has stepped over, with its offset and
in its order, and nothing else; only the callback can make it fail. -/
theorem reader_follows_recovery [SealedBodies] (segment : List UInt8)
    (hraw : segmentHeaderLen ≤ segment.length → RawHeader segment) :
    (scanTailTrace segment).2 = scanTailFile segment ∧
      forEachFrame (keptBy segment) collect [] = .ok (scanTailTrace segment).1 ∧
      ((scanTailTrace segment).1.map Prod.fst).Pairwise (· < ·) ∧
      ∀ {S E : Type} (cb : Nat → Codec.DecodedFrame → S → Except E S) (s : S),
        forEachFrame (keptBy segment) cb s = deliver cb (scanTailTrace segment).1 s := by
  obtain ⟨ds, hresult, htrace, hkept⟩ := scanTailTrace_spec segment
  refine ⟨hresult, ?_, ?_, fun cb s => forEachFrame_kept segment hraw cb s⟩
  · rw [forEachFrame_kept segment hraw, deliver_collect, List.nil_append]
  · obtain ⟨hheader, hreads | ⟨rfl, -⟩⟩ := hkept _ rfl
    · rw [htrace, ← hheader]
      exact (offsets_located hreads).1
    · rw [htrace]
      exact List.Pairwise.nil

/-! ## Samples -/

/-- A home without a key. -/
@[reducible] def noKey : SealedBodies := ⟨fun _ _ => none, fun _ => none⟩

section Samples
attribute [local instance] noKey

/-- Two frames and the beginning of a third. -/
def sampleTorn : List UInt8 :=
  sampleSegmentHeader ++ (sampleBytes ⟨1, 0⟩ ++ (sampleBytes ⟨2, 0⟩ ++ [0x4e]))

theorem reader_follows_recovery_sample :
    forEachFrame (E := Empty) (keptBy sampleTorn) collect [] =
      .ok [(60, sampleFrame ⟨1, 0⟩), (164, sampleFrame ⟨2, 0⟩)] := by
  have htrace :
      (scanTailTrace sampleTorn).1 = [(60, sampleFrame ⟨1, 0⟩), (164, sampleFrame ⟨2, 0⟩)] := by
    decide +kernel
  refine (reader_follows_recovery sampleTorn fun _ => ⟨sampleParsed, ?_⟩).2.1.trans
    (congrArg _ htrace)
  decide +kernel

/-- A frame behind a header that cannot be parsed: recovery keeps it, and the reader, which takes
the file for a bare stream of frames, does not get to it. -/
theorem reader_needs_header :
    (scanTailTrace (List.replicate 60 0 ++ sampleBytes ⟨1, 0⟩)).1 = [(60, sampleFrame ⟨1, 0⟩)] ∧
      ¬ ∀ segment, forEachFrame (keptBy segment) collect [] = .ok (scanTailTrace segment).1 := by
  have htrace : (scanTailTrace (List.replicate 60 0 ++ sampleBytes ⟨1, 0⟩)).1 =
      [(60, sampleFrame ⟨1, 0⟩)] := by
    decide +kernel
  refine ⟨htrace, fun hall => ?_⟩
  have hread :
      (forEachFrame (keptBy (List.replicate 60 0 ++ sampleBytes ⟨1, 0⟩)) collect []).toOption =
        none := by
    decide +kernel
  rw [hall] at hread
  cases hread

end Samples

end Neoth.Wal
