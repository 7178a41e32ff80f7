import Neoth.Lib.JsonDecode
import Neoth.Lib.Sha256
import Neoth.Lib.Text
import Neoth.Wal.TailScan

/-!
# Compaction markers

The rolling HMAC of `wal/compaction.rs`, and what `wal/writer.rs` reads back of it at a restart.

* `MarkerPayload.fromSlice_toVec`: the payload of a marker is read back;
* `Follows`: a segment read frame by frame, with the window that is open at each place;
* `verify_of_follows`: the markers that the tracker has written verify;
* `recover_of_follows`: the tracker is rebuilt from them as it was.
-/

open Lib.Encoding Lib.FrameLog Lib.JsonDecode Lib.Transaction Neoth.MeshSync
open Lib.Text (bytes bytes_cons bytes_append bytes_toDigits_le byteLen_ofList byteLen_eq_bytes)

namespace Neoth.Wal

/-! ## The tracker -/

def maxFramesBetweenMarkers : Nat := 1024
def maxBytesBetweenMarkers : Nat := 16 * 1024 * 1024
def eventTypeCompactionMarker : UInt8 := 0x15

section
variable [Sha256]

/-- HMAC-SHA256, whose block has 64 bytes. -/
def hmacSha256 (key message : List UInt8) : List UInt8 :=
  let short := if 64 < key.length then (Sha256.digest key).val else key
  let block := short ++ List.replicate (64 - short.length) 0
  (Sha256.digest
    (block.map (· ^^^ 0x5c) ++ (Sha256.digest (block.map (· ^^^ 0x36) ++ message)).val)).val

/-- The MAC is kept by what it has been given. -/
structure CompactionState where
  mac : List UInt8
  bytesSinceMarker : Nat
  framesSinceMarker : Nat
  fromOffset : Nat
  deriving DecidableEq

def CompactionState.new (startOffset : Nat) : CompactionState := ⟨[], 0, 0, startOffset⟩

def CompactionState.update (c : CompactionState) (frameBytes : List UInt8) : CompactionState :=
  { c with
    mac := c.mac ++ frameBytes
    bytesSinceMarker := c.bytesSinceMarker + frameBytes.length
    framesSinceMarker := c.framesSinceMarker + 1 }

def CompactionState.shouldEmit (c : CompactionState) : Bool :=
  maxFramesBetweenMarkers ≤ c.framesSinceMarker || maxBytesBetweenMarkers ≤ c.bytesSinceMarker

structure MarkerPayload where
  fromOffset : Nat
  toOffset : Nat
  frameCount : Nat
  hmacHex : String
  compactionEpoch : Nat

/-- The tag, and the tracker with a fresh engine for the next window. -/
def CompactionState.finaliseMarker (c : CompactionState) (key : List UInt8) (toOffset : Nat) :
    MarkerPayload × CompactionState :=
  (⟨c.fromOffset, toOffset, c.framesSinceMarker, hexEncode (hmacSha256 key c.mac), 0⟩,
    .new toOffset)
end

/-! ## The payload of a marker -/

/-- A string without characters that are escaped. -/
def plainEntry (key text : String) : Entry := (key, quoted (fun c => [c]) text, .string text)

def MarkerPayload.entries (m : MarkerPayload) (tsNs : Nat) : List Entry :=
  [natEntry "compaction_epoch" m.compactionEpoch, natEntry "frame_count" m.frameCount,
    natEntry "from_offset" m.fromOffset, plainEntry "hmac_hex" m.hmacHex,
    natEntry "to_offset" m.toOffset, natEntry "ts_ns" tsNs]

/-- The object that `emit_compaction_marker` writes, its keys in order. -/
def MarkerPayload.toVec (m : MarkerPayload) (tsNs : Nat) : List UInt8 :=
  utf8 (String.ofList (objectText (texts (m.entries tsNs))))

/-- `#[serde(default)]`, for markers from before the field. -/
def epochOf (members : List (String × Value)) : Option Nat :=
  if members.any (·.1 == "compaction_epoch") then member? members "compaction_epoch" >>= uint? 32
  else some 0

/-- `serde_json::from_slice::<MarkerPayload>`; members that the type does not have are ignored. -/
def MarkerPayload.fromSlice (payload : List UInt8) : Option MarkerPayload := do
  let text ← String.fromUTF8? ⟨payload.toArray⟩
  match ← decode text.toList with
  | .object members =>
    let fromOffset ← member? members "from_offset" >>= uint? 64
    let toOffset ← member? members "to_offset" >>= uint? 64
    let frameCount ← member? members "frame_count" >>= uint? 32
    let hmacHex ← member? members "hmac_hex" >>= text?
    let compactionEpoch ← epochOf members
    pure ⟨fromOffset, toOffset, frameCount, hmacHex, compactionEpoch⟩
  | _ => none

/-- The fields are integers of the widths that the type gives them. -/
structure MarkerPayload.InRange (m : MarkerPayload) : Prop where
  fromOffset : m.fromOffset < 2 ^ 64
  toOffset : m.toOffset < 2 ^ 64
  frameCount : m.frameCount < 2 ^ 32
  compactionEpoch : m.compactionEpoch < 2 ^ 32

/-! ### Evaluation

The same payloads without the strings between: to read the characters of a string the kernel decodes
its bytes. -/

theorem MarkerPayload.toVec_eq : toVec = fun m tsNs =>
  (objectText (texts (m.entries tsNs))).flatMap String.utf8EncodeChar := by
  funext m tsNs
  rw [toVec, utf8, String.toList_ofList]

def MarkerPayload.evalFromSlice (payload : List UInt8) : Option MarkerPayload := do
  match ← decode (← textOf payload) with
  | .object members =>
    let fromOffset ← member? members "from_offset" >>= uint? 64
    let toOffset ← member? members "to_offset" >>= uint? 64
    let frameCount ← member? members "frame_count" >>= uint? 32
    let hmacHex ← member? members "hmac_hex" >>= text?
    let compactionEpoch ← epochOf members
    pure ⟨fromOffset, toOffset, frameCount, hmacHex, compactionEpoch⟩
  | _ => none

theorem MarkerPayload.fromSlice_eq : fromSlice = evalFromSlice := by
  funext payload
  rw [fromSlice, evalFromSlice, ← map_toList_fromUTF8]
  cases String.fromUTF8? ⟨payload.toArray⟩ <;> rfl

theorem spells_hexEncode (bytes : List UInt8) : ∀ c ∈ (hexEncode bytes).toList, Spells [c] c := by
  intro c hc
  unfold hexEncode at hc
  rw [String.toList_ofList, List.mem_flatMap] at hc
  obtain ⟨b, -, hdigit⟩ := hc
  have hall : ∀ n < 16, hexDigit n ≠ '"' ∧ hexDigit n ≠ '\\' ∧ 0x20 ≤ (hexDigit n).toNat := by
    decide
  have hbyte := b.toNat_lt
  rw [List.mem_cons, List.mem_singleton] at hdigit
  rcases hdigit with rfl | rfl
  · obtain ⟨hquote, hslash, hprintable⟩ := hall (b.toNat / 16) (by omega)
    exact spells_self hquote hslash hprintable
  · obtain ⟨hquote, hslash, hprintable⟩ := hall (b.toNat % 16) (Nat.mod_lt _ (by decide))
    exact spells_self hquote hslash hprintable

variable {m : MarkerPayload}

theorem members_entries (hhex : ∀ c ∈ m.hmacHex.toList, Spells [c] c) (tsNs : Nat) :
    Members (m.entries tsNs) := by
  intro entry hentry
  simp only [MarkerPayload.entries, List.mem_cons, List.not_mem_nil, or_false] at hentry
  rcases hentry with rfl | rfl | rfl | rfl | rfl | rfl
  · exact ⟨(by decide : PlainKey "compaction_epoch"), reads_nat _⟩
  · exact ⟨(by decide : PlainKey "frame_count"), reads_nat _⟩
  · exact ⟨(by decide : PlainKey "from_offset"), reads_nat _⟩
  · exact ⟨(by decide : PlainKey "hmac_hex"), reads_string hhex⟩
  · exact ⟨(by decide : PlainKey "to_offset"), reads_nat _⟩
  · exact ⟨(by decide : PlainKey "ts_ns"), reads_nat _⟩

/-- **Read after write.** -/
theorem MarkerPayload.fromSlice_toVec (hrange : m.InRange)
    (hhex : ∀ c ∈ m.hmacHex.toList, Spells [c] c)
    (tsNs : Nat) : fromSlice (m.toVec tsNs) = some m := by
  have hdecode := decode_of_reads (reads_object (members_entries hhex tsNs))
  unfold fromSlice toVec
  rw [fromUTF8_utf8, Option.bind_eq_bind, Option.bind_some, String.toList_ofList, hdecode]
  have hfrom : (member? (values (m.entries tsNs)) "from_offset" >>= uint? 64) = some m.fromOffset :=
    uint_nat hrange.fromOffset
  have hto : (member? (values (m.entries tsNs)) "to_offset" >>= uint? 64) = some m.toOffset :=
    uint_nat hrange.toOffset
  have hcount : (member? (values (m.entries tsNs)) "frame_count" >>= uint? 32) =
      some m.frameCount :=
    uint_nat hrange.frameCount
  have htag : (member? (values (m.entries tsNs)) "hmac_hex" >>= text?) = some m.hmacHex := rfl
  have hepoch : epochOf (values (m.entries tsNs)) = some m.compactionEpoch :=
    uint_nat hrange.compactionEpoch
  simp only [Option.bind_eq_bind, Option.bind_some] at hfrom hto hcount htag ⊢
  rw [hfrom, hto, hcount, htag, hepoch]
  rfl

theorem MarkerPayload.length_toVec (m : MarkerPayload) (tsNs : Nat) :
    (m.toVec tsNs).length = 87 + byteLen m.hmacHex + bytes (Nat.toDigits 10 m.compactionEpoch) +
      bytes (Nat.toDigits 10 m.frameCount) + bytes (Nat.toDigits 10 m.fromOffset) +
      bytes (Nat.toDigits 10 m.toOffset) + bytes (Nat.toDigits 10 tsNs) := by
  have hepoch : bytes "compaction_epoch".toList = 16 := by decide
  have hcount : bytes "frame_count".toList = 11 := by decide
  have hfrom : bytes "from_offset".toList = 11 := by decide
  have htag : bytes "hmac_hex".toList = 8 := by decide
  have hto : bytes "to_offset".toList = 9 := by decide
  have hts : bytes "ts_ns".toList = 5 := by decide
  have hquote : '"'.utf8Size = 1 := by decide
  have hcolon : ':'.utf8Size = 1 := by decide
  have hcomma : ','.utf8Size = 1 := by decide
  have hopen : '\x7b'.utf8Size = 1 := by decide
  have hclose : '\x7d'.utf8Size = 1 := by decide
  have hnil : bytes [] = 0 := rfl
  have hplain : m.hmacHex.toList.flatMap (fun c => [c]) = m.hmacHex.toList :=
    List.flatMap_singleton' _
  show byteLen _ = _
  rw [byteLen_ofList, byteLen_eq_bytes m.hmacHex]
  simp only [objectText, texts, entries, natEntry, plainEntry, quoted, List.map_cons, List.map_nil,
    membersText, memberText, bytes_cons, bytes_append, hplain, hepoch, hcount, hfrom, htag, hto,
    hts, hquote, hcolon, hcomma, hopen, hclose, hnil]
  omega

/-- A marker of the tracker is short. -/
theorem MarkerPayload.length_toVec_le (hrange : m.InRange) (hhex : byteLen m.hmacHex = 64)
    {tsNs : Nat} (htsNs : tsNs < 2 ^ 64) : (m.toVec tsNs).length ≤ 231 := by
  have hfrom := bytes_toDigits_le (k := 20) (by decide) (hrange.fromOffset.trans (by decide))
  have hto := bytes_toDigits_le (k := 20) (by decide) (hrange.toOffset.trans (by decide))
  have hcount := bytes_toDigits_le (k := 10) (by decide) (hrange.frameCount.trans (by decide))
  have hepoch := bytes_toDigits_le (k := 10) (by decide) (hrange.compactionEpoch.trans (by decide))
  have hts := bytes_toDigits_le (k := 20) (by decide) (htsNs.trans (by decide))
  rw [length_toVec]
  omega

/-! ## Verification -/

inductive RecoveryError
  | outOfRange (offset limit length : Nat)
  | undecodable (offset : Nat) (e : HeaderParseError)
  | crossesBoundary (offset limit : Nat)
  | unsignedFrame (markerFrom : Nat) (eventType : UInt8) (offset : Nat)
  | nonAdjacent (markerOffset toOffset : Nat)
  | invalidWindow (markerOffset fromOffset toOffset : Nat)
  | unsignedGap (markerOffset previousEnd fromOffset : Nat)
  | recursiveMarker (fromOffset toOffset offset : Nat)
  | wrongFrameCount (markerOffset claimed decoded : Nat)
  | unverified (markerOffset : Nat)
  | headerExceeds (headerLen length : Nat)
  | markerPayload (offset : Nat)
  | unsignedTail (unmarkedFrom length : Nat)
  | strayMarker (offset : Nat)
  | notRaw
  | segmentHeader (e : WalError)
  deriving DecidableEq

def eventTypeSegmentRollover : UInt8 := 0x14
def eventTypeRecoveryTruncated : UInt8 := 0x50
def segmentFlagCompressed : UInt8 := 0x01
def segmentFlagSealed : UInt8 := 0x02

def ParsedSegmentHeader.isCompressed : ParsedSegmentHeader → Bool
  | v1 _ => false
  | v2 h => h.flags &&& segmentFlagCompressed != 0
  | v3 h => h.flags &&& segmentFlagCompressed != 0

def ParsedSegmentHeader.isSealed : ParsedSegmentHeader → Bool
  | v1 _ => false
  | v2 h => h.flags &&& segmentFlagSealed != 0
  | v3 h => h.flags &&& segmentFlagSealed != 0

/-- The fields that the three forms share. -/
def ParsedSegmentHeader.base : ParsedSegmentHeader → SegmentHeader
  | v1 h => h
  | v2 h => h.toSegmentHeader
  | v3 h => h.toSegmentHeader

/-- The frame at `offset`, and where it ends. -/
def decodeExactFrame (segment : List UInt8) (offset limit : Nat) :
    Except RecoveryError (Codec.DecodedFrame × Nat) :=
  if limit < offset ∨ segment.length < limit then .error (.outOfRange offset limit segment.length)
  else
    match Codec.decodeFrame (slice segment offset (limit - offset)) with
    | .error e => .error (.undecodable offset e)
    | .ok d =>
      if limit < offset + d.header.totalLen.toNat then .error (.crossesBoundary offset limit)
      else .ok (d, offset + d.header.totalLen.toNat)

/-- The loop of `validate_unsigned_marker_prefix`; like that of the loops below, its fuel does not
run out. -/
def unsignedPrefixFrom (segment : List UInt8) (markerFrom : Nat) :
    Nat → Nat → Except RecoveryError Unit
  | 0, _ => .ok ()
  | fuel + 1, cursor =>
    if cursor < markerFrom then
      match decodeExactFrame segment cursor markerFrom with
      | .error e => .error e
      | .ok (d, next) =>
        if d.header.eventType = eventTypeSegmentRollover ∨
        d.header.eventType = eventTypeRecoveryTruncated then
          unsignedPrefixFrom segment markerFrom fuel next
        else .error (.unsignedFrame markerFrom d.header.eventType cursor)
    else .ok ()

def validateUnsignedMarkerPrefix (segment : List UInt8) (headerLen markerFrom : Nat) :
    Except RecoveryError Unit :=
  unsignedPrefixFrom segment markerFrom (segment.length + 1) headerLen

/-- The frames of a window, none of which is a marker. -/
def countFrom (segment : List UInt8) (fromOffset toOffset : Nat) : Nat → Nat → Nat →
    Except RecoveryError Nat
  | 0, _, count => .ok count
  | fuel + 1, cursor, count =>
    if cursor < toOffset then
      match decodeExactFrame segment cursor toOffset with
      | .error e => .error e
      | .ok (d, next) =>
        if d.header.eventType = eventTypeCompactionMarker
          then .error (.recursiveMarker fromOffset toOffset cursor)
        else countFrom segment fromOffset toOffset fuel next (count + 1)
    else .ok count

section
variable [Sha256]

/-- `verify_marker_bytes`. -/
def verifyMarkerBytes (segment key : List UInt8) (m : MarkerPayload) : Bool :=
  m.fromOffset < m.toOffset && m.toOffset ≤ segment.length &&
    hexEncode (hmacSha256 key (slice segment m.fromOffset (m.toOffset - m.fromOffset))) == m.hmacHex

/-- A window begins where the last marker ends; the first one may leave a prelude unsigned. -/
def validateAdjacency (segment : List UInt8) (headerLen markerOffset : Nat)
    (previousMarkerEnd : Option Nat) (fromOffset : Nat) : Except RecoveryError Unit :=
  match previousMarkerEnd with
  | some previousEnd =>
    require (fromOffset == previousEnd) (.unsignedGap markerOffset previousEnd fromOffset)
  | none => if headerLen < fromOffset then validateUnsignedMarkerPrefix segment headerLen fromOffset
    else .ok ()

def validateExistingCompactionMarker (segment : List UInt8) (headerLen markerOffset : Nat)
    (previousMarkerEnd : Option Nat) (m : MarkerPayload) (verificationKeys : List (List UInt8)) :
    Except RecoveryError Unit := do
  require (m.toOffset == markerOffset) (.nonAdjacent markerOffset m.toOffset)
  require (decide (headerLen ≤ m.fromOffset ∧ m.fromOffset < m.toOffset))
    (.invalidWindow markerOffset m.fromOffset m.toOffset)
  validateAdjacency segment headerLen markerOffset previousMarkerEnd m.fromOffset
  let frameCount ← countFrom segment m.fromOffset m.toOffset (segment.length + 1) m.fromOffset 0
  require (frameCount == m.frameCount) (.wrongFrameCount markerOffset m.frameCount frameCount)
  require (verificationKeys.any fun key => verifyMarkerBytes segment key m)
    (.unverified markerOffset)

/-- `HeaderParseError::BufferTooShort`, with which a segment may end. -/
def isTooShort : HeaderParseError → Bool
  | .bufferTooShort _ _ => true
  | _ => false

/-- The loop of `verify_existing_compaction_marker_windows`: where the last marker ends. -/
def verifyFrom (segment : List UInt8) (headerLen : Nat) (verificationKeys : List (List UInt8))
    (allowUnmarkedTail : Bool) : Nat → Nat → Option Nat → Except RecoveryError (Option Nat)
  | 0, _, previousMarkerEnd => .ok previousMarkerEnd
  | fuel + 1, cursor, previousMarkerEnd =>
    if cursor < segment.length then
      match Codec.decodeFrame (segment.drop cursor) with
      | .error e =>
        if allowUnmarkedTail && isTooShort e then .ok previousMarkerEnd
        else .error (.undecodable cursor e)
      | .ok d =>
        let next := cursor + d.header.totalLen.toNat
        if d.header.eventType = eventTypeCompactionMarker then do
          let m ← context (MarkerPayload.fromSlice d.payload) (.markerPayload cursor)
          validateExistingCompactionMarker segment headerLen cursor previousMarkerEnd m
            verificationKeys
          verifyFrom segment headerLen verificationKeys allowUnmarkedTail fuel next (some next)
        else verifyFrom segment headerLen verificationKeys allowUnmarkedTail fuel next
          previousMarkerEnd
    else .ok previousMarkerEnd

def verifyExistingCompactionMarkerWindows (segment : List UInt8) (headerLen : Nat)
    (verificationKeys : List (List UInt8)) (allowUnmarkedTail : Bool) :
      Except RecoveryError Nat := do
  require (decide (headerLen ≤ segment.length)) (.headerExceeds headerLen segment.length)
  let previousMarkerEnd ←
    verifyFrom segment headerLen verificationKeys allowUnmarkedTail (segment.length + 1)
      headerLen none
  let unmarkedFrom := previousMarkerEnd.getD headerLen
  if allowUnmarkedTail then pure unmarkedFrom
  else if previousMarkerEnd.isSome then
    if unmarkedFrom = segment.length then pure unmarkedFrom
      else .error (.unsignedTail unmarkedFrom segment.length)
  else do
    validateUnsignedMarkerPrefix segment headerLen segment.length
    pure unmarkedFrom

/-- The frames behind the last marker, fed to a fresh tracker. -/
def replayFrom (segment : List UInt8) : Nat → Nat → CompactionState →
    Except RecoveryError CompactionState
  | 0, _, c => .ok c
  | fuel + 1, cursor, c =>
    if cursor < segment.length then
      match decodeExactFrame segment cursor segment.length with
      | .error e => .error e
      | .ok (d, next) =>
        if d.header.eventType = eventTypeCompactionMarker then .error (.strayMarker cursor)
        else replayFrom segment fuel next (c.update (slice segment cursor d.header.totalLen.toNat))
    else .ok c

def recoverCompactionState (verificationKeys : List (List UInt8)) (segment : List UInt8) :
    Except RecoveryError CompactionState :=
  match parseSegmentHeader segment with
  | .error e => .error (.segmentHeader e)
  | .ok parsed =>
    if parsed.isCompressed || parsed.isSealed then .error .notRaw
    else do
      let windowStart ←
        verifyExistingCompactionMarkerWindows segment parsed.headerLen verificationKeys true
      replayFrom segment (segment.length + 1) windowStart (.new windowStart)
end

/-! ## Frames fed to a tracker -/

variable {segment : List UInt8} {a b headerLen : Nat} {ds es : List Codec.DecodedFrame}
  {d : Codec.DecodedFrame}

theorem slice_add (segment : List UInt8) (start m n : Nat) :
    slice segment start (m + n) = slice segment start m ++ slice segment (start + m) n := by
  simp only [slice, List.take_add, List.drop_drop]

theorem decodeExactFrame_of_ok {limit : Nat}
    (head : plausibleFraming.decode (segment.drop a) = .ok d)
    (hfit : a + d.header.totalLen.toNat ≤ limit) (hlimit : limit ≤ segment.length) :
    decodeExactFrame segment a limit = .ok (d, a + d.header.totalLen.toNat) := by
  have hreads : Reads plausibleFraming (segment.take limit) a [d] (a + d.header.totalLen.toNat) :=
    (Reads.cons head (.nil _)).take exact_plausibleFraming hfit
  have hdecode : Codec.decodeFrame (slice segment a (limit - a)) = .ok d := by
    cases hreads with
    | cons head tail =>
      rw [List.drop_take] at head
      exact (plausible_eq_ok_iff.mp head).1
  unfold decodeExactFrame
  rw [if_neg (by omega), hdecode]
  exact if_neg (by omega)

/-- What the tracker becomes when it is given the frames from `a` on. -/
def feed (segment : List UInt8) : CompactionState → Nat → List Codec.DecodedFrame → CompactionState
  | c, _, [] => c
  | c, a, d :: ds =>
    feed segment (c.update (slice segment a d.header.totalLen.toNat))
      (a + d.header.totalLen.toNat) ds

theorem feed_append (h : Reads plausibleFraming segment a ds b) (c : CompactionState) :
    feed segment c a (ds ++ es) = feed segment (feed segment c a ds) b es := by
  induction h generalizing c with
  | nil => rfl
  | cons head tail ih => exact ih _

theorem feed_spec (h : Reads plausibleFraming segment a ds b) (c : CompactionState) :
    (feed segment c a ds).mac = c.mac ++ slice segment a (b - a) ∧
      (feed segment c a ds).framesSinceMarker = c.framesSinceMarker + ds.length ∧
      (feed segment c a ds).fromOffset = c.fromOffset := by
  induction h generalizing c with
  | nil a =>
    rw [Nat.sub_self]
    exact ⟨(List.append_nil _).symm, rfl, rfl⟩
  | @cons a b d ds head tail ih =>
    obtain ⟨hmac, hframes, hfrom⟩ := ih (c.update (slice segment a d.header.totalLen.toNat))
    have hle := tail.le
    have hsize : plausibleFraming.size d = d.header.totalLen.toNat := rfl
    rw [hsize] at hle
    have hsplit : b - a = d.header.totalLen.toNat + (b - (a + d.header.totalLen.toNat)) := by omega
    refine ⟨?_, ?_, hfrom⟩
    · rw [hsplit, slice_add, ← List.append_assoc]
      exact hmac
    · have hcount : (c.update (slice segment a d.header.totalLen.toNat)).framesSinceMarker =
          c.framesSinceMarker + 1 := rfl
      refine hframes.trans ?_
      rw [hcount, List.length_cons]
      omega

theorem le_mul_length (h : Reads plausibleFraming segment a ds b) : 104 * ds.length ≤ b - a := by
  induction h with
  | nil => simp
  | @cons a b d ds head tail ih =>
    have hmin := (totalLen_of_decodeFrame (plausible_eq_ok_iff.mp head).1).1
    have hle := tail.le
    have hsize : plausibleFraming.size d = d.header.totalLen.toNat := rfl
    rw [hsize] at ih hle
    rw [List.length_cons]
    omega

/-- No frame is a marker. -/
def Operators (ds : List Codec.DecodedFrame) : Prop :=
  ∀ d ∈ ds, d.header.eventType ≠ eventTypeCompactionMarker

theorem countFrom_of_reads {fromOffset toOffset fuel count : Nat}
    (h : Reads plausibleFraming segment a ds toOffset)
    (hops : Operators ds) (hle : toOffset ≤ segment.length) (hfuel : segment.length < fuel + a) :
    countFrom segment fromOffset toOffset fuel a count = .ok (count + ds.length) := by
  induction h generalizing fuel count with
  | nil a =>
    cases fuel with
    | zero => rfl
    | succ fuel => exact if_neg (Nat.lt_irrefl a)
  | @cons a toOffset d ds head tail ih =>
    have hfit := tail.le
    have hpos := plausibleFraming.size_pos head
    have hsize : plausibleFraming.size d = d.header.totalLen.toNat := rfl
    rw [hsize] at hfit hpos
    cases fuel with
    | zero => omega
    | succ fuel =>
      obtain ⟨hd, hds⟩ := List.forall_mem_cons.mp hops
      unfold countFrom
      rw [if_pos (by omega), decodeExactFrame_of_ok head hfit hle]
      dsimp only
      rw [if_neg hd, List.length_cons, ← Nat.add_assoc, Nat.add_right_comm]
      exact @ih fuel (count + 1) hds hle (by rw [hsize]; omega)

theorem replayFrom_of_reads {fuel : Nat} {c : CompactionState}
    (h : Reads plausibleFraming segment a ds segment.length)
    (hops : Operators ds) (hfuel : segment.length < fuel + a) :
    replayFrom segment fuel a c = .ok (feed segment c a ds) := by
  generalize hend : segment.length = b at h hfuel
  induction h generalizing fuel c with
  | nil a =>
    cases fuel with
    | zero => rfl
    | succ fuel => exact if_neg (by omega)
  | @cons a b d ds head tail ih =>
    have hfit := tail.le
    have hpos := plausibleFraming.size_pos head
    have hsize : plausibleFraming.size d = d.header.totalLen.toNat := rfl
    rw [hsize] at hfit hpos
    cases fuel with
    | zero => omega
    | succ fuel =>
      obtain ⟨hd, hds⟩ := List.forall_mem_cons.mp hops
      unfold replayFrom
      rw [if_pos (by omega), decodeExactFrame_of_ok head (by omega) le_rfl]
      dsimp only
      rw [if_neg hd]
      exact @ih fuel _ hds hend (by rw [hsize]; omega)

/-! ## Windows -/

variable {c : CompactionState}

/-- The window that is open at `a`: the tracker is as the frames since the last marker have made
it. -/
structure OpenWindow (segment : List UInt8) (headerLen : Nat) (c : CompactionState) (a : Nat) :
    Prop where
  headerLen_le : headerLen ≤ c.fromOffset
  fed : ∃ ds, Reads plausibleFraming segment c.fromOffset ds a ∧ Operators ds ∧
    c = feed segment (.new c.fromOffset) c.fromOffset ds

theorem openWindow_new (h : headerLen ≤ a) : OpenWindow segment headerLen (.new a) a :=
  ⟨h, [], .nil _, (by simp [Operators]), rfl⟩

theorem OpenWindow.update (h : OpenWindow segment headerLen c a)
    (head : plausibleFraming.decode (segment.drop a) = .ok d)
    (operator : d.header.eventType ≠ eventTypeCompactionMarker) :
    OpenWindow segment headerLen (c.update (slice segment a d.header.totalLen.toNat))
      (a + d.header.totalLen.toNat) := by
  obtain ⟨ds, hreads, hops, hfeed⟩ := h.fed
  refine ⟨h.headerLen_le, ds ++ [d], hreads.trans (.cons head (.nil _)), ?_, ?_⟩
  · intro e he
    rcases List.mem_append.mp he with he | he
    · exact hops e he
    · rw [List.mem_singleton] at he
      exact he ▸ operator
  · show _ = feed segment (.new c.fromOffset) c.fromOffset (ds ++ [d])
    rw [feed_append hreads, ← hfeed]
    rfl

/-- What the open window says of the tracker. -/
theorem OpenWindow.spec (h : OpenWindow segment headerLen c a) :
    c.fromOffset ≤ a ∧ c.mac = slice segment c.fromOffset (a - c.fromOffset) ∧
      104 * c.framesSinceMarker ≤ a - c.fromOffset := by
  obtain ⟨ds, hreads, -, hfeed⟩ := h.fed
  obtain ⟨hmac, hframes, -⟩ := feed_spec hreads (.new c.fromOffset)
  rw [← hfeed] at hmac hframes
  refine ⟨hreads.le, hmac, ?_⟩
  rw [hframes]
  exact (Nat.zero_add ds.length).symm ▸ le_mul_length hreads

/-! ## Segments followed frame by frame -/

variable [Sha256] {key : List UInt8} {c' : CompactionState}

/-- Going from frame to frame leads from `a`, where the tracker is in the state `c`, to `b`, where
it is in the state `c'`: it is given every frame but the markers, each of which closes a window with
the tag of its bytes. -/
inductive Follows (key segment : List UInt8) : CompactionState → Nat → CompactionState → Nat → Prop
  | refl (c : CompactionState) (a : Nat) : Follows key segment c a c a
  | frame {c c' : CompactionState} {a b : Nat} {d : Codec.DecodedFrame}
      (head : plausibleFraming.decode (segment.drop a) = .ok d)
      (operator : d.header.eventType ≠ eventTypeCompactionMarker)
      (tail : Follows key segment (c.update (slice segment a d.header.totalLen.toNat))
        (a + d.header.totalLen.toNat) c' b) : Follows key segment c a c' b
  | marker {c c' : CompactionState} {a b : Nat} {d : Codec.DecodedFrame}
      (head : plausibleFraming.decode (segment.drop a) = .ok d)
      (type : d.header.eventType = eventTypeCompactionMarker)
      (payload : MarkerPayload.fromSlice d.payload = some (c.finaliseMarker key a).1)
      (nonempty : c.framesSinceMarker ≠ 0)
      (tail : Follows key segment (.new (a + d.header.totalLen.toNat))
        (a + d.header.totalLen.toNat) c' b) :
      Follows key segment c a c' b

namespace Follows

theorem trans {c'' : CompactionState} {e : Nat} (h : Follows key segment c a c' b)
    (h' : Follows key segment c' b c'' e) : Follows key segment c a c'' e := by
  induction h with
  | refl => exact h'
  | frame head operator tail ih => exact .frame head operator (ih h')
  | marker head type payload nonempty tail ih => exact .marker head type payload nonempty (ih h')

theorem reads (h : Follows key segment c a c' b) : ∃ ds, Reads plausibleFraming segment a ds b := by
  induction h with
  | refl => exact ⟨[], .nil _⟩
  | frame head operator tail ih =>
    obtain ⟨ds, hds⟩ := ih
    exact ⟨_, .cons head hds⟩
  | marker head type payload nonempty tail ih =>
    obtain ⟨ds, hds⟩ := ih
    exact ⟨_, .cons head hds⟩

theorem le (h : Follows key segment c a c' b) : a ≤ b := by
  obtain ⟨ds, hds⟩ := h.reads
  exact hds.le

/-- Two segments that agree up to the end are followed alike. -/
theorem congr {other : List UInt8} (h : Follows key segment c a c' b)
    (heq : segment.take b = other.take b)
    (hlen : b ≤ segment.length) : Follows key other c a c' b := by
  have hagree : ∀ {a : Nat} {d : Codec.DecodedFrame},
      plausibleFraming.decode (segment.drop a) = .ok d →
      a + d.header.totalLen.toNat ≤ b → plausibleFraming.decode (other.drop a) = .ok d ∧
        slice other a d.header.totalLen.toNat = slice segment a d.header.totalLen.toNat := by
    intro a d head hfit
    have hreads : Reads plausibleFraming (segment.take b) a [d] (a + d.header.totalLen.toNat) :=
      (Reads.cons head (.nil _)).take exact_plausibleFraming hfit
    rw [heq] at hreads
    have hmore := hreads.append (other.drop b)
    rw [List.take_append_drop] at hmore
    cases hmore with
    | cons head' tail' => exact ⟨head', slice_eq_of_take_eq heq.symm hfit⟩
  induction h with
  | refl => exact .refl _ _
  | frame head operator tail ih =>
    obtain ⟨head', hslice⟩ := hagree head tail.le
    refine .frame head' operator ?_
    rw [hslice]
    exact ih heq hlen @hagree
  | marker head type payload nonempty tail ih =>
    obtain ⟨head', hslice⟩ := hagree head tail.le
    exact .marker head' type payload nonempty (ih heq hlen @hagree)

theorem append (h : Follows key segment c a c' b) (hlen : b ≤ segment.length) (more : List UInt8) :
    Follows key (segment ++ more) c a c' b :=
  h.congr (List.take_append_of_le_length hlen).symm hlen

theorem take {n : Nat} (h : Follows key segment c a c' b) (hlen : b ≤ segment.length) (hn : b ≤ n) :
    Follows key (segment.take n) c a c' b :=
  h.congr (by rw [List.take_take, Nat.min_eq_left hn]) hlen

/-- What is read on the way is followed. -/
theorem of_reads {e : Nat} (h : Follows key segment c a c' b)
    (hreads : Reads plausibleFraming segment a ds e)
    (hle : e ≤ b) : ∃ c'', Follows key segment c a c'' e ∧ Follows key segment c'' e c' b := by
  induction h generalizing ds with
  | refl c a =>
    cases hreads with
    | nil => exact ⟨c, .refl _ _, .refl _ _⟩
    | cons head tail =>
      have hfit := tail.le
      have hpos := plausibleFraming.size_pos head
      omega
  | @frame c c' a b d head operator tail ih =>
    cases hreads with
    | nil => exact ⟨c, .refl _ _, .frame head operator tail⟩
    | cons head' tail' =>
      cases head.symm.trans head'
      obtain ⟨c'', hfirst, hrest⟩ := ih tail' hle
      exact ⟨c'', .frame head operator hfirst, hrest⟩
  | @marker c c' a b d head type payload nonempty tail ih =>
    cases hreads with
    | nil => exact ⟨c, .refl _ _, .marker head type payload nonempty tail⟩
    | cons head' tail' =>
      cases head.symm.trans head'
      obtain ⟨c'', hfirst, hrest⟩ := ih tail' hle
      exact ⟨c'', .marker head type payload nonempty hfirst, hrest⟩

end Follows

theorem OpenWindow.of_follows (hopen : OpenWindow segment headerLen c a)
    (h : Follows key segment c a c' b) : OpenWindow segment headerLen c' b := by
  induction h with
  | refl => exact hopen
  | frame head operator tail ih => exact ih (hopen.update head operator)
  | marker head type payload nonempty tail ih =>
    exact ih (openWindow_new (hopen.headerLen_le.trans (hopen.spec.1.trans (Nat.le_add_right _ _))))

/-! ## The verification of what was followed -/

/-- Where the last marker ends, as the loop keeps it: the open window begins there, or at the
header. -/
def BeginsAt (headerLen : Nat) (c : CompactionState) (previousMarkerEnd : Option Nat) : Prop :=
  previousMarkerEnd = some c.fromOffset ∨ (previousMarkerEnd = none ∧ c.fromOffset = headerLen)

theorem verifyMarkerBytes_of_openWindow (hopen : OpenWindow segment headerLen c a)
    (ha : a ≤ segment.length)
    (hlt : c.fromOffset < a) : verifyMarkerBytes segment key (c.finaliseMarker key a).1 = true := by
  obtain ⟨-, hmac, -⟩ := hopen.spec
  simp only [verifyMarkerBytes, CompactionState.finaliseMarker, hlt, ha, hmac, decide_true,
    Bool.and_self, beq_self_eq_true]

variable {previousMarkerEnd : Option Nat} {keys : List (List UInt8)}

theorem validate_of_openWindow (hopen : OpenWindow segment headerLen c a) (ha : a ≤ segment.length)
    (hnonempty : c.framesSinceMarker ≠ 0) (hkey : key ∈ keys)
    (hbegins : BeginsAt headerLen c previousMarkerEnd) :
    validateExistingCompactionMarker segment headerLen a previousMarkerEnd
      (c.finaliseMarker key a).1 keys = .ok () := by
  obtain ⟨hle, -, hbytes⟩ := hopen.spec
  obtain ⟨ds, hreads, hops, hfeed⟩ := hopen.fed
  have hlt : c.fromOffset < a := by omega
  have hframes : c.framesSinceMarker = ds.length := by
    have hspec := (feed_spec hreads (.new c.fromOffset)).2.1
    rw [← hfeed] at hspec
    exact hspec.trans (Nat.zero_add _)
  have hcount : countFrom segment c.fromOffset a (segment.length + 1) c.fromOffset 0 =
      .ok ds.length := by
    rw [countFrom_of_reads hreads hops ha (by omega), Nat.zero_add]
  have hverified : verifyMarkerBytes segment key (c.finaliseMarker key a).1 = true :=
    verifyMarkerBytes_of_openWindow hopen ha hlt
  have hany : (keys.any fun k => verifyMarkerBytes segment k (c.finaliseMarker key a).1) = true :=
    List.any_eq_true.mpr ⟨key, hkey, hverified⟩
  have hadjacent : validateAdjacency segment headerLen a previousMarkerEnd c.fromOffset =
      .ok () := by
    unfold validateAdjacency
    rcases hbegins with rfl | ⟨rfl, hfrom⟩
    · exact if_pos (beq_self_eq_true _)
    · exact if_neg (by omega)
  unfold validateExistingCompactionMarker
  simp only [bind_eq_ok_iff, require_eq_ok_iff]
  exact ⟨(), beq_self_eq_true a, (), decide_eq_true ⟨hopen.headerLen_le, hlt⟩, (), hadjacent,
    ds.length, hcount, (), beq_iff_eq.mpr hframes.symm, hany⟩

theorem verifyFrom_of_follows (allowUnmarkedTail : Bool) {fuel : Nat}
    (h : Follows key segment c a c' b)
    (hend : b = segment.length) (hopen : OpenWindow segment headerLen c a) (hkey : key ∈ keys)
    (hbegins : BeginsAt headerLen c previousMarkerEnd) (hfuel : segment.length < fuel + a) :
    ∃ lastMarkerEnd, verifyFrom segment headerLen keys allowUnmarkedTail fuel a previousMarkerEnd =
      .ok lastMarkerEnd ∧
      BeginsAt headerLen c' lastMarkerEnd := by
  induction h generalizing fuel previousMarkerEnd with
  | refl c a =>
    refine ⟨previousMarkerEnd, ?_, hbegins⟩
    cases fuel with
    | zero => rfl
    | succ fuel => exact if_neg (by omega)
  | @frame c c' a b d head operator tail ih =>
    have hpos := plausibleFraming.size_pos head
    have hsize : plausibleFraming.size d = d.header.totalLen.toNat := rfl
    have hfit := tail.le
    cases fuel with
    | zero => omega
    | succ fuel =>
      obtain ⟨last, hrun, hlast⟩ :=
        @ih previousMarkerEnd fuel hend (hopen.update head operator) hbegins (by omega)
      refine ⟨last, ?_, hlast⟩
      unfold verifyFrom
      rw [if_pos (by omega), (plausible_eq_ok_iff.mp head).1]
      dsimp only
      rw [if_neg operator, hrun]
  | @marker c c' a b d head type payload nonempty tail ih =>
    have hpos := plausibleFraming.size_pos head
    have hsize : plausibleFraming.size d = d.header.totalLen.toNat := rfl
    have hfit := tail.le
    have hfresh : OpenWindow segment headerLen (.new (a + d.header.totalLen.toNat))
        (a + d.header.totalLen.toNat) :=
      openWindow_new (hopen.headerLen_le.trans (hopen.spec.1.trans (Nat.le_add_right _ _)))
    cases fuel with
    | zero => omega
    | succ fuel =>
      obtain ⟨last, hrun, hlast⟩ :=
        @ih (some (a + d.header.totalLen.toNat)) fuel hend hfresh (.inl rfl) (by omega)
      refine ⟨last, ?_, hlast⟩
      unfold verifyFrom
      rw [if_pos (by omega), (plausible_eq_ok_iff.mp head).1]
      dsimp only
      rw [if_pos type, payload]
      show (validateExistingCompactionMarker segment headerLen a previousMarkerEnd
        (c.finaliseMarker key a).1 keys >>= fun _ => _) = _
      rw [validate_of_openWindow hopen (by omega) nonempty hkey hbegins, ← hrun]
      rfl

/-- **The markers verify**, and the last window is found where it begins. -/
theorem verify_of_follows (h : Follows key segment (.new headerLen) headerLen c segment.length)
    (hkey : key ∈ keys) :
    verifyExistingCompactionMarkerWindows segment headerLen keys true = .ok c.fromOffset := by
  obtain ⟨last, hrun, hlast⟩ := verifyFrom_of_follows true h rfl (openWindow_new le_rfl) hkey
    (.inr ⟨rfl, rfl⟩) (show segment.length < segment.length + 1 + headerLen by omega)
  have hlastEnd : last.getD headerLen = c.fromOffset := by
    rcases hlast with rfl | ⟨rfl, hfrom⟩
    · rfl
    · exact hfrom.symm
  unfold verifyExistingCompactionMarkerWindows
  rw [hrun]
  simp only [bind_eq_ok_iff, require_eq_ok_iff]
  exact ⟨(), decide_eq_true h.le, last, rfl, congrArg _ hlastEnd⟩

/-- A segment that ends with a marker is closed. -/
theorem verify_closed_of_follows
    (h : Follows key segment (.new headerLen) headerLen (.new segment.length) segment.length)
    (hkey : key ∈ keys) :
    verifyExistingCompactionMarkerWindows segment headerLen keys false = .ok segment.length := by
  obtain ⟨last, hrun, hlast⟩ := verifyFrom_of_follows false h rfl (openWindow_new le_rfl) hkey
    (.inr ⟨rfl, rfl⟩) (show segment.length < segment.length + 1 + headerLen by omega)
  unfold verifyExistingCompactionMarkerWindows
  rw [hrun]
  simp only [bind_eq_ok_iff, require_eq_ok_iff]
  refine ⟨(), decide_eq_true h.le, last, rfl, ?_⟩
  rcases hlast with rfl | ⟨rfl, hfrom⟩
  · exact if_pos rfl
  · have hempty : headerLen = segment.length := hfrom.symm
    have hprelude : validateUnsignedMarkerPrefix segment headerLen segment.length = .ok () :=
      if_neg (by omega)
    show (validateUnsignedMarkerPrefix segment headerLen segment.length >>= fun _ => _) = _
    rw [hprelude]
    exact congrArg _ hempty

/-- **The tracker is rebuilt as it was.** -/
theorem recover_of_follows {parsed : ParsedSegmentHeader}
    (hparse : parseSegmentHeader segment = .ok parsed)
    (hraw : (parsed.isCompressed || parsed.isSealed) = false)
    (h : Follows key segment (.new parsed.headerLen) parsed.headerLen c segment.length)
    (hkey : key ∈ keys) : recoverCompactionState keys segment = .ok c := by
  obtain ⟨ds, hreads, hops, hfeed⟩ := ((openWindow_new le_rfl).of_follows h).fed
  unfold recoverCompactionState
  rw [hparse]
  dsimp only
  rw [hraw, verify_of_follows h hkey]
  show replayFrom segment (segment.length + 1) c.fromOffset (.new c.fromOffset) = _
  rw [replayFrom_of_reads hreads hops (by omega), ← hfeed]

end Neoth.Wal
