import Neoth.Wal.Writer

/-!
# What the verified windows cover

The converse of `Wal/Compaction`: a segment on which `verify_existing_compaction_marker_windows`
succeeds is a prelude of rollover and recovery frames, then windows with their markers one behind
the other, then what no marker covers.

* `reads_of_unsignedPrefix`, `reads_of_countFrom`: the two inner loops have read frame by frame;
* `Chained`: windows, each with its marker, from one place to another;
* `found_of_verifyFrom`: the loop over the markers finds such a chain;
* **`verified_windows_cover`**: no frame before the end of the last marker is outside them but those
  of the prelude.
-/

open Lib.Encoding Lib.FrameLog Lib.Transaction Neoth.MeshSync

namespace Neoth.Wal

variable {segment : List UInt8} {a b headerLen markerFrom fromOffset toOffset : Nat}
  {ds : List Codec.DecodedFrame} {d : Codec.DecodedFrame}

/-! ## The inner loops -/

def IsPrelude (d : Codec.DecodedFrame) : Prop :=
  d.header.eventType = eventTypeSegmentRollover ∨ d.header.eventType = eventTypeRecoveryTruncated

theorem of_decodeExactFrame {limit next : Nat}
    (h : decodeExactFrame segment a limit = .ok (d, next)) :
    codecFraming.decode (segment.drop a) = .ok d ∧ next = a + codecFraming.size d ∧ next ≤ limit ∧
      limit ≤ segment.length := by
  unfold decodeExactFrame at h
  split at h
  · cases h
  · rename_i hrange
    split at h
    · cases h
    · rename_i decoded hdecode
      split at h
      · cases h
      · rename_i hfit
        cases h
        have hmore := codecFraming.decode_append ((segment.drop a).drop (limit - a)) hdecode
        have hwhole : slice segment a (limit - a) ++ (segment.drop a).drop (limit - a) =
            segment.drop a :=
          List.take_append_drop _ _
        rw [hwhole] at hmore
        exact ⟨hmore, rfl, by omega, by omega⟩

theorem reads_of_unsignedPrefixFrom {fuel : Nat}
    (h : unsignedPrefixFrom segment markerFrom fuel a = .ok ())
    (hle : a ≤ markerFrom) (ha : a ≤ segment.length) (hfuel : segment.length < fuel + a) :
    ∃ ds, Reads codecFraming segment a ds markerFrom ∧ ∀ d ∈ ds, IsPrelude d := by
  induction fuel generalizing a with
  | zero => omega
  | succ fuel ih =>
    unfold unsignedPrefixFrom at h
    split at h
    · split at h
      · cases h
      · rename_i d next hdecode
        obtain ⟨head, rfl, hnext, hlimit⟩ := of_decodeExactFrame hdecode
        have hpos := codecFraming.size_pos head
        split at h
        · rename_i hprelude
          obtain ⟨ds, tail, hds⟩ := ih h hnext (hnext.trans hlimit) (by omega)
          exact ⟨d :: ds, .cons head tail, List.forall_mem_cons.mpr ⟨hprelude, hds⟩⟩
        · cases h
    · obtain rfl : a = markerFrom := by omega
      exact ⟨[], .nil a, by simp⟩

theorem reads_of_unsignedPrefix
    (h : validateUnsignedMarkerPrefix segment headerLen markerFrom = .ok ())
    (hle : headerLen ≤ markerFrom) (hlen : headerLen ≤ segment.length) :
    ∃ ds, Reads codecFraming segment headerLen ds markerFrom ∧ ∀ d ∈ ds, IsPrelude d :=
  reads_of_unsignedPrefixFrom h hle hlen (by omega)

theorem reads_of_countFrom {fuel count total : Nat}
    (h : countFrom segment fromOffset toOffset fuel a count = .ok total) (hle : a ≤ toOffset)
    (ha : a ≤ segment.length) (hfuel : segment.length < fuel + a) :
    ∃ ds, Reads codecFraming segment a ds toOffset ∧ Operators ds ∧ total = count + ds.length := by
  induction fuel generalizing a count with
  | zero => omega
  | succ fuel ih =>
    unfold countFrom at h
    split at h
    · split at h
      · cases h
      · rename_i d next hdecode
        obtain ⟨head, rfl, hnext, hlimit⟩ := of_decodeExactFrame hdecode
        have hpos := codecFraming.size_pos head
        split at h
        · cases h
        · rename_i hoperator
          obtain ⟨ds, tail, hds, htotal⟩ := ih h hnext (hnext.trans hlimit) (by omega)
          refine ⟨d :: ds, .cons head tail, List.forall_mem_cons.mpr ⟨hoperator, hds⟩, ?_⟩
          rw [htotal, List.length_cons]
          omega
    · obtain rfl : a = toOffset := by omega
      cases h
      exact ⟨[], .nil a, by simp [Operators], rfl⟩

/-! ## Windows -/

/-- A window with its marker, and where that ends. -/
structure Window where
  marker : MarkerPayload
  markerEnd : Nat

variable [Sha256] {keys : List (List UInt8)} {windows : List Window}

/-- The frames of the window are no markers, its marker stands behind them, and a key verifies the
tag. -/
structure Window.Verified (segment : List UInt8) (keys : List (List UInt8)) (w : Window) :
    Prop where
  nonempty : w.marker.fromOffset < w.marker.toOffset
  frames : ∃ ds, Reads codecFraming segment w.marker.fromOffset ds w.marker.toOffset ∧
    Operators ds ∧
    ds.length = w.marker.frameCount
  marker : ∃ d, codecFraming.decode (segment.drop w.marker.toOffset) = .ok d ∧
    d.header.eventType = eventTypeCompactionMarker ∧
    MarkerPayload.fromSlice d.payload = some w.marker ∧
    w.markerEnd = w.marker.toOffset + codecFraming.size d
  tag : ∃ key ∈ keys, hexEncode (hmacSha256 key
    (slice segment w.marker.fromOffset (w.marker.toOffset - w.marker.fromOffset))) =
      w.marker.hmacHex

theorem Window.Verified.lt {w : Window} (h : w.Verified segment keys) :
    w.marker.toOffset < w.markerEnd := by
  obtain ⟨d, head, -, -, hend⟩ := h.marker
  have hpos := codecFraming.size_pos head
  omega

/-- The windows lie one behind the other from `a` to `b`, each beginning where the marker before it
ends. -/
def Chained (segment : List UInt8) (keys : List (List UInt8)) : Nat → List Window → Nat → Prop
  | a, [], b => a = b
  | a, w :: windows, b =>
    w.marker.fromOffset = a ∧ w.Verified segment keys ∧ Chained segment keys w.markerEnd windows b

theorem Chained.snoc (h : Chained segment keys a windows b) {w : Window}
    (hfrom : w.marker.fromOffset = b)
    (hverified : w.Verified segment keys) :
      Chained segment keys a (windows ++ [w]) w.markerEnd := by
  induction windows generalizing a with
  | nil =>
    obtain rfl : a = b := h
    exact ⟨hfrom, hverified, rfl⟩
  | cons v windows ih => exact ⟨h.1, h.2.1, ih h.2.2⟩

theorem Chained.from_le (h : Chained segment keys a windows b) :
    ∀ w ∈ windows, a ≤ w.marker.fromOffset := by
  induction windows generalizing a with
  | nil => exact fun _ hw => absurd hw List.not_mem_nil
  | cons w windows ih =>
    obtain ⟨rfl, hverified, hrest⟩ := h
    refine List.forall_mem_cons.mpr ⟨le_rfl, fun v hv => ?_⟩
    exact (hverified.nonempty.trans hverified.lt).le.trans (ih hrest v hv)

theorem Chained.verified (h : Chained segment keys a windows b) :
    ∀ w ∈ windows, w.Verified segment keys := by
  induction windows generalizing a with
  | nil => exact fun _ hw => absurd hw List.not_mem_nil
  | cons w windows ih => exact List.forall_mem_cons.mpr ⟨h.2.1, ih h.2.2⟩

/-- **Windows are ordered and have nothing in common.** -/
theorem Chained.pairwise (h : Chained segment keys a windows b) :
    windows.Pairwise fun w v => w.markerEnd ≤ v.marker.fromOffset := by
  induction windows generalizing a with
  | nil => exact List.Pairwise.nil
  | cons w windows ih => exact List.pairwise_cons.mpr ⟨h.2.2.from_le, ih h.2.2⟩

/-- Two windows with a place in common are one. -/
theorem Chained.eq_of_inside (h : Chained segment keys a windows b) {w v : Window}
    (hw : w ∈ windows)
    (hv : v ∈ windows) {e : Nat} (hinside : w.marker.fromOffset ≤ e ∧ e < w.marker.toOffset)
    (hinside' : v.marker.fromOffset ≤ e ∧ e < v.marker.toOffset) : w = v := by
  have hpair : ∀ x ∈ windows, ∀ y ∈ windows,
      x = y ∨ x.markerEnd ≤ y.marker.fromOffset ∨ y.markerEnd ≤ x.marker.fromOffset := by
    have hsymm : Std.Symm fun x y : Window =>
        x = y ∨ x.markerEnd ≤ y.marker.fromOffset ∨ y.markerEnd ≤ x.marker.fromOffset := by
      refine ⟨?_⟩
      rintro x y (rfl | h | h)
      · exact .inl rfl
      · exact .inr (.inr h)
      · exact .inr (.inl h)
    exact (h.pairwise.imp fun hle => .inr (.inl hle)).forall_of_forall (fun x _ => .inl rfl)
  have hwlt := (h.verified w hw).lt
  have hvlt := (h.verified v hv).lt
  rcases hpair w hw v hv with rfl | hle | hle
  · rfl
  · omega
  · omega

/-- A frame that is no marker is in one of the windows between whose ends it lies. -/
theorem Chained.covers (h : Chained segment keys a windows b) {e : Nat}
    (hreads : Reads codecFraming segment a ds e)
    (head : codecFraming.decode (segment.drop e) = .ok d)
    (operator : d.header.eventType ≠ eventTypeCompactionMarker)
    (hle : e + codecFraming.size d ≤ b) :
    ∃ w ∈ windows, w.marker.fromOffset ≤ e ∧ e + codecFraming.size d ≤ w.marker.toOffset := by
  have hpos := codecFraming.size_pos head
  induction windows generalizing a ds with
  | nil =>
    obtain rfl : a = b := h
    have := hreads.le
    omega
  | cons w windows ih =>
    obtain ⟨rfl, hverified, hrest⟩ := h
    obtain ⟨fs, hframes, -, -⟩ := hverified.frames
    obtain ⟨m, hmarker, htype, -, hend⟩ := hverified.marker
    rcases Nat.lt_trichotomy e w.marker.toOffset with hlt | rfl | hgt
    · -- the frames of the window go on from this one
      obtain ⟨hs, -, hinside⟩ := Reads.of_le hreads hframes hlt.le
      cases hinside with
      | nil => omega
      | cons head' tail =>
        cases head.symm.trans head'
        exact ⟨w, List.mem_cons_self, hreads.le, tail.le⟩
    · cases head.symm.trans hmarker
      exact absurd htype operator
    · obtain ⟨hs, -, hbehind⟩ := Reads.of_le hframes hreads hgt.le
      cases hbehind with
      | nil => omega
      | cons head' tail =>
        cases hmarker.symm.trans head'
        rw [← hend] at tail
        obtain ⟨v, hv, hinside⟩ := ih hrest tail
        exact ⟨v, List.mem_cons_of_mem _ hv, hinside⟩

/-! ## The loop over the markers -/

/-- What the loop has found when the last marker ends there. -/
def Found (segment : List UInt8) (headerLen : Nat) (keys : List (List UInt8)) : Option Nat → Prop
  | none => True
  | some last => ∃ prelude start windows, Reads codecFraming segment headerLen prelude start ∧
      (∀ d ∈ prelude, IsPrelude d) ∧ windows ≠ [] ∧ Chained segment keys start windows last

theorem of_validateExistingCompactionMarker {previousMarkerEnd : Option Nat} {m : MarkerPayload}
    (h : validateExistingCompactionMarker segment headerLen a previousMarkerEnd m keys = .ok ())
    (hlen : headerLen ≤ segment.length) (head : codecFraming.decode (segment.drop a) = .ok d)
    (htype : d.header.eventType = eventTypeCompactionMarker)
    (hpayload : MarkerPayload.fromSlice d.payload = some m) :
    (Window.mk m (a + codecFraming.size d)).Verified segment keys ∧
      (∀ last, previousMarkerEnd = some last → m.fromOffset = last) ∧
      (previousMarkerEnd = none → ∃ prelude,
        Reads codecFraming segment headerLen prelude m.fromOffset ∧
        ∀ d ∈ prelude, IsPrelude d) := by
  unfold validateExistingCompactionMarker at h
  simp only [bind_eq_ok_iff, require_eq_ok_iff] at h
  obtain ⟨_, hto, _, hwindow, _, hadjacent, count, hcount, _, hframes, hverified⟩ := h
  obtain ⟨hfrom, hlt⟩ := of_decide_eq_true hwindow
  obtain rfl := beq_iff_eq.mp hto
  obtain rfl := beq_iff_eq.mp hframes
  obtain ⟨key, hkey, htag⟩ := List.any_eq_true.mp hverified
  unfold verifyMarkerBytes at htag
  simp only [Bool.and_eq_true, decide_eq_true_eq, beq_iff_eq] at htag
  obtain ⟨⟨-, hfit⟩, htag⟩ := htag
  obtain ⟨ds, hreads, hops, hlength⟩ :=
    reads_of_countFrom hcount hlt.le (hlt.le.trans hfit) (by omega)
  refine ⟨⟨hlt, ⟨ds, hreads, hops, (Nat.zero_add _ ▸ hlength).symm⟩,
    ⟨d, head, htype, hpayload, rfl⟩, key, hkey, htag⟩, ?_, ?_⟩
  · rintro last rfl
    exact beq_iff_eq.mp (require_eq_ok_iff.mp hadjacent)
  · rintro rfl
    unfold validateAdjacency at hadjacent
    dsimp only at hadjacent
    split at hadjacent
    · exact reads_of_unsignedPrefix hadjacent hfrom hlen
    · obtain heq : headerLen = m.fromOffset := by omega
      exact ⟨[], heq ▸ .nil _, by simp⟩

theorem found_of_verifyFrom {allowUnmarkedTail : Bool} {fuel : Nat}
    {previousMarkerEnd last : Option Nat}
    (h : verifyFrom segment headerLen keys allowUnmarkedTail fuel a previousMarkerEnd = .ok last)
    (hlen : headerLen ≤ segment.length) (hfound : Found segment headerLen keys previousMarkerEnd) :
    Found segment headerLen keys last := by
  induction fuel generalizing a previousMarkerEnd with
  | zero =>
    cases h
    exact hfound
  | succ fuel ih =>
    unfold verifyFrom at h
    split at h
    · split at h
      · split at h
        · cases h
          exact hfound
        · cases h
      · rename_i d head
        dsimp only at h
        split at h
        · rename_i htype
          simp only [bind_eq_ok_iff, context_eq_ok_iff] at h
          obtain ⟨m, hpayload, _, hvalid, hrest⟩ := h
          obtain ⟨hverified, hnext, hfirst⟩ :=
            of_validateExistingCompactionMarker hvalid hlen head htype hpayload
          refine ih hrest ?_
          cases previousMarkerEnd with
          | none =>
            obtain ⟨prelude, hreads, hprelude⟩ := hfirst rfl
            exact ⟨prelude, m.fromOffset, [⟨m, _⟩], hreads, hprelude, by simp, rfl, hverified, rfl⟩
          | some previousEnd =>
            obtain ⟨prelude, start, windows, hreads, hprelude, -, hchain⟩ := hfound
            exact ⟨prelude, start, windows ++ [⟨m, _⟩], hreads, hprelude, by simp,
              hchain.snoc (hnext _ rfl) hverified⟩
        · exact ih h hfound
    · cases h
      exact hfound

/-- The frames of the segment up to `n`: rollover and recovery frames up to `start`, then windows,
disjoint and in their order, with every other frame that is no marker in one of them. -/
structure Coverage (segment : List UInt8) (headerLen : Nat) (keys : List (List UInt8))
    (allowUnmarkedTail : Bool) (n start : Nat) (windows : List Window) : Prop where
  leading : ∃ prelude, Reads codecFraming segment headerLen prelude start ∧ ∀ d ∈ prelude,
    IsPrelude d
  chained : Chained segment keys start windows n
  unmarked : windows = [] → n = headerLen
  verified : ∀ w ∈ windows, w.Verified segment keys
  ordered : windows.Pairwise fun w v => w.markerEnd ≤ v.marker.fromOffset
  covered : ∀ before a d, Reads codecFraming segment headerLen before a →
    codecFraming.decode (segment.drop a) = .ok d → d.header.eventType ≠ eventTypeCompactionMarker →
    a + codecFraming.size d ≤ n →
      (a + codecFraming.size d ≤ start ∧ IsPrelude d ∧ ∀ e ∈ before, IsPrelude e) ∨
      (start ≤ a ∧ ∃! w, w ∈ windows ∧ w.marker.fromOffset ≤ a ∧
        a + codecFraming.size d ≤ w.marker.toOffset)
  closed : allowUnmarkedTail = false → n = segment.length ∨
    (windows = [] ∧ ∃ all, Reads codecFraming segment headerLen all segment.length ∧ ∀ d ∈ all,
      IsPrelude d)

/-- With or without markers there is a chain to the end of the last one. -/
theorem chained_of_verify {n : Nat} {allowUnmarkedTail : Bool}
    (h : verifyExistingCompactionMarkerWindows segment headerLen keys allowUnmarkedTail = .ok n) :
    ∃ prelude start windows, Reads codecFraming segment headerLen prelude start ∧
      (∀ d ∈ prelude, IsPrelude d) ∧ Chained segment keys start windows n ∧
      (windows = [] → n = headerLen) ∧
      (allowUnmarkedTail = false → n = segment.length ∨ (windows = [] ∧
        ∃ all, Reads codecFraming segment headerLen all segment.length ∧ ∀ d ∈ all,
          IsPrelude d)) := by
  unfold verifyExistingCompactionMarkerWindows at h
  simp only [bind_eq_ok_iff, require_eq_ok_iff] at h
  obtain ⟨_, hlength, last, hrun, htail⟩ := h
  have hlen : headerLen ≤ segment.length := of_decide_eq_true hlength
  have hfound := found_of_verifyFrom hrun hlen (show Found segment headerLen keys none from trivial)
  cases last with
  | none =>
    cases allowUnmarkedTail with
    | true =>
      cases htail
      exact ⟨[], headerLen, [], .nil _, by simp, rfl, fun _ => rfl,
        fun hallow => absurd hallow (by simp)⟩
    | false =>
      obtain ⟨_, hvalid, hn⟩ := bind_eq_ok_iff.mp htail
      cases hn
      have hall := reads_of_unsignedPrefix hvalid hlen hlen
      exact ⟨[], headerLen, [], .nil _, by simp, rfl, fun _ => rfl, fun _ => .inr ⟨rfl, hall⟩⟩
  | some lastEnd =>
    obtain ⟨prelude, start, windows, hreads, hprelude, hnonempty, hchain⟩ := hfound
    cases allowUnmarkedTail with
    | true =>
      cases htail
      exact ⟨prelude, start, windows, hreads, hprelude, hchain, fun h => absurd h hnonempty,
        fun hallow => absurd hallow (by simp)⟩
    | false =>
      dsimp only [Option.isSome, Option.getD] at htail
      simp only [Bool.false_eq_true, if_false, if_true] at htail
      split at htail
      · rename_i hend
        cases htail
        exact ⟨prelude, start, windows, hreads, hprelude, hchain, fun h => absurd h hnonempty,
          fun _ => .inl hend⟩
      · cases htail

/-- **What the verification has covered.** -/
theorem verified_windows_cover {n : Nat} {allowUnmarkedTail : Bool}
    (h : verifyExistingCompactionMarkerWindows segment headerLen keys allowUnmarkedTail = .ok n) :
    ∃ start windows, Coverage segment headerLen keys allowUnmarkedTail n start windows := by
  obtain ⟨prelude, start, windows, hreads, hprelude, hchain, hempty, hclosed⟩ :=
    chained_of_verify h
  refine ⟨start, windows, ⟨prelude, hreads, hprelude⟩, hchain, hempty, hchain.verified,
    hchain.pairwise, ?_, hclosed⟩
  intro before a d hbefore head operator hle
  have hpos := codecFraming.size_pos head
  rcases Nat.lt_or_ge a start with hlt | hge
  · -- the frames of the prelude go on from this one
    obtain ⟨rest, rfl, hrest⟩ := Reads.of_le hbefore hreads hlt.le
    obtain ⟨hbeforePrelude, hrestPrelude⟩ := List.forall_mem_append.mp hprelude
    cases hrest with
    | nil => omega
    | cons head' tail =>
      cases head.symm.trans head'
      exact .inl ⟨tail.le, (List.forall_mem_cons.mp hrestPrelude).1, hbeforePrelude⟩
  · obtain ⟨inside, -, hinside⟩ := Reads.of_le hreads hbefore hge
    obtain ⟨w, hw, hfrom, hto⟩ := hchain.covers hinside head operator hle
    refine .inr ⟨hge, w, ⟨hw, hfrom, hto⟩, ?_⟩
    rintro v ⟨hv, hvfrom, hvto⟩
    exact hchain.eq_of_inside hv hw ⟨hvfrom, by omega⟩ ⟨hfrom, by omega⟩

end Neoth.Wal

namespace Neoth.Wal.Writer

section Samples

attribute [local instance] emptyXxh3 Sha256.fips

/-- The segment with an event without a payload behind it, and the marker over that. -/
def signed [Sha256] (segment : List UInt8) (eventType : UInt8) : List UInt8 :=
  let frame := encodeFrame ⟨(HeaderBuilder.new eventType []).build ⟨1, 0⟩, []⟩
  let toOffset := segment.length + frame.length
  let marker := (((CompactionState.new segment.length).update frame).finaliseMarker [] toOffset).1
  segment ++
    (frame ++ encodeFrame (syntheticEvent eventTypeCompactionMarker (marker.toVec 0) .epoch))

/-- Two windows behind the report of a recovery. -/
def sampleSigned [Sha256] : List UInt8 :=
  let prelude := encodeFrame ⟨(HeaderBuilder.new eventTypeRecoveryTruncated []).build ⟨1, 0⟩, []⟩
  signed (signed (newSegmentHeaderBytes 0 0 ++ prelude) eventTypeRawText) eventTypeRawText

theorem verified_windows_cover_sample :
    ∃ start windows, Coverage sampleSigned segmentHeaderLen [[]] false sampleSigned.length start
      windows := by
  -- the segment is a variable while the definitions are unfolded
  have hverify : ∀ segment, segment = sampleSigned →
      verifyExistingCompactionMarkerWindows segment segmentHeaderLen [[]] false =
        .ok segment.length := by
    intro segment hsegment
    delta verifyExistingCompactionMarkerWindows verifyFrom verifyFrom._f
    rw [hsegment, sampleSigned, signed, signed, MarkerPayload.toVec_eq, MarkerPayload.fromSlice_eq,
      Sha256.fips_eq]
    decide +kernel
  exact verified_windows_cover (hverify _ rfl)

end Samples

end Neoth.Wal.Writer
