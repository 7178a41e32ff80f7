import Neoth.Wal.SegmentReader
import Neoth.Wal.WindowCoverage
import Neoth.Wal.WriterWindows

/-!
# What the tags of a segment bind

A tag is over the bytes of a window.  Where the window lies, which marker comes before it and how
many there are is said by fields of the marker that the tag does not cover.

* `operatorsOf`, `markersOf`: what the reader of a closed segment delivers;
* **`accepted_windows_are_tagged`**: what an accepted segment holds are windows that were tagged,
  behind a prelude;
* `window_laid_twice`: a window with its tag behind itself is accepted;
* `windows_can_be_repeated`: such a segment for one that the writer has written.
-/

open Lib.Encoding Lib.FrameLog Lib.Transaction Neoth.MeshSync

namespace Neoth.Wal

variable {segment : List UInt8} {a b headerLen : Nat} {ds : List Codec.DecodedFrame}

/-! ## What a reader finds -/

/-- The frames that the reader of a closed segment delivers. -/
def framesOf (segment : List UInt8) (headerLen : Nat) : List Codec.DecodedFrame :=
  match forEachLogicalFrame segment headerLen false collect [] with
  | .ok frames => frames.map Prod.snd
  | .error _ => []

def operatorsOf (segment : List UInt8) (headerLen : Nat) : List Codec.DecodedFrame :=
  (framesOf segment headerLen).filter fun d => d.header.eventType ≠ eventTypeCompactionMarker

def markersOf (segment : List UInt8) (headerLen : Nat) : List MarkerPayload :=
  (framesOf segment headerLen).filterMap fun d =>
    if d.header.eventType = eventTypeCompactionMarker then MarkerPayload.fromSlice d.payload
    else none

/-- The bytes that the tag of the marker is over. -/
def MarkerPayload.window (m : MarkerPayload) (segment : List UInt8) : List UInt8 :=
  slice segment m.fromOffset (m.toOffset - m.fromOffset)

theorem map_snd_located (a : Nat) (ds : List Codec.DecodedFrame) :
    (located a ds).map Prod.snd = ds := by
  induction ds generalizing a with
  | nil => rfl
  | cons d ds ih => exact congrArg (d :: ·) (ih _)

theorem framesOf_of_reads (h : Reads codecFraming segment headerLen ds segment.length) :
    framesOf segment headerLen = ds := by
  have hframes : forEachLogicalFrame segment headerLen false collect [] =
      .ok (located headerLen ds) := by
    unfold forEachLogicalFrame
    rw [forEachFrom_of_reads h (by omega), deliver_collect, List.nil_append]
  unfold framesOf
  rw [hframes]
  exact map_snd_located headerLen ds

theorem exact_codecFraming : Reads.Exact codecFraming := by
  intro bytes d h
  obtain ⟨hadmitted, hlen, hpadding, hbytes⟩ := Codec.of_decodeFrame h
  have hexact := Codec.decodeFrame_checked hadmitted hlen hpadding []
  rw [List.append_nil, ← hbytes] at hexact
  exact hexact

theorem reads_drop {e : Nat} (h : Reads codecFraming segment e ds b) (hae : a ≤ e) :
    Reads codecFraming (segment.drop a) (e - a) ds (b - a) := by
  induction h with
  | nil => exact .nil _
  | @cons e b d ds head tail ih =>
    refine .cons ?_ ?_
    · rwa [List.drop_drop, Nat.add_sub_cancel' hae]
    · have hnext := ih (by omega)
      rwa [Nat.sub_add_comm hae] at hnext

/-- The frames between two places, read in the bytes between them. -/
theorem reads_slice (h : Reads codecFraming segment a ds b) (hb : b ≤ segment.length) :
    Reads codecFraming (slice segment a (b - a)) 0 ds (slice segment a (b - a)).length := by
  have hle := h.le
  have hlength : (slice segment a (b - a)).length = b - a := Codec.length_slice (by omega)
  have hstart := reads_drop h le_rfl
  rw [Nat.sub_self] at hstart
  rw [hlength]
  exact hstart.take exact_codecFraming le_rfl

theorem IsPrelude.operator {d : Codec.DecodedFrame} (h : IsPrelude d) :
    d.header.eventType ≠ eventTypeCompactionMarker := by
  rcases h with h | h
  · rw [h]
    decide
  · rw [h]
    decide

theorem filter_operators (h : Operators ds) :
    (ds.filter fun d => d.header.eventType ≠ eventTypeCompactionMarker) = ds :=
  List.filter_eq_self.mpr fun d hd => decide_eq_true (h d hd)

theorem operators_pieces {pieces : List (List Codec.DecodedFrame × Codec.DecodedFrame)}
    (h : ∀ p ∈ pieces, Operators p.1 ∧ p.2.header.eventType = eventTypeCompactionMarker) :
    ((pieces.flatMap fun p => p.1 ++ [p.2]).filter fun d => d.header.eventType ≠
      eventTypeCompactionMarker) = (pieces.map Prod.fst).flatten := by
  induction pieces with
  | nil => rfl
  | cons p pieces ih =>
    obtain ⟨⟨hops, htype⟩, hrest⟩ := List.forall_mem_cons.mp h
    rw [List.flatMap_cons, List.filter_append, List.filter_append, filter_operators hops, ih hrest,
      List.map_cons, List.flatten_cons, List.filter_singleton]
    simp [htype]

/-! ## Accepted segments -/

variable [Sha256] {keys : List (List UInt8)} {windows : List Window}

/-- The frames of a chain of windows, each with its marker behind it. -/
theorem Chained.reads (h : Chained segment keys a windows b) :
    ∃ pieces : List (List Codec.DecodedFrame × Codec.DecodedFrame),
      Reads codecFraming segment a (pieces.flatMap fun p => p.1 ++ [p.2]) b ∧
      ∀ p ∈ pieces, Operators p.1 ∧ p.2.header.eventType = eventTypeCompactionMarker ∧
        ∃ w ∈ windows, MarkerPayload.fromSlice p.2.payload = some w.marker ∧
        w.Verified segment keys ∧
          Reads codecFraming segment w.marker.fromOffset p.1 w.marker.toOffset := by
  induction windows generalizing a with
  | nil =>
    obtain rfl : a = b := h
    exact ⟨[], .nil a, by simp⟩
  | cons w windows ih =>
    obtain ⟨rfl, hverified, hrest⟩ := h
    obtain ⟨ds, hframes, hops, -⟩ := hverified.frames
    obtain ⟨m, hmarker, htype, hpayload, hend⟩ := hverified.marker
    obtain ⟨pieces, hreads, hpieces⟩ := ih hrest
    rw [hend] at hreads
    refine ⟨(ds, m) :: pieces, ?_, List.forall_mem_cons.mpr ⟨?_, fun p hp => ?_⟩⟩
    · rw [List.flatMap_cons, List.append_assoc]
      exact hframes.trans (.cons hmarker hreads)
    · exact ⟨hops, htype, w, List.mem_cons_self, hpayload, hverified, hframes⟩
    · obtain ⟨hops', htype', v, hv, hrest'⟩ := hpieces p hp
      exact ⟨hops', htype', v, List.mem_cons_of_mem _ hv, hrest'⟩

/-- **What is accepted was tagged.**  If a tag verifies for tagged strings only, the frames of an
accepted segment are a run of rollover and recovery frames and then those of whole tagged windows. 
Nothing is said of the order of the windows, and of how often one occurs. -/
theorem accepted_windows_are_tagged {tagged : List UInt8 → Prop} {n : Nat}
    (h : verifyExistingCompactionMarkerWindows segment headerLen keys false = .ok n)
    (honly : ∀ m ∈ markersOf segment headerLen, ∀ key ∈ keys,
      verifyMarkerBytes segment key m = true →
      tagged (m.window segment)) :
    ∃ (prelude : List Codec.DecodedFrame) (frames : List (List Codec.DecodedFrame)),
      operatorsOf segment headerLen = prelude ++ frames.flatten ∧ (∀ d ∈ prelude, IsPrelude d) ∧
      ∀ ds ∈ frames, ∃ bytes, tagged bytes ∧ Reads codecFraming bytes 0 ds bytes.length := by
  obtain ⟨prelude, start, windows, hreads, hprelude, hchain, -, hclosed⟩ := chained_of_verify h
  rcases hclosed rfl with rfl | ⟨-, all, hreads, hprelude⟩
  · obtain ⟨pieces, hpiecesReads, hpieces⟩ := hchain.reads
    have hframes : framesOf segment headerLen = prelude ++ pieces.flatMap fun p => p.1 ++ [p.2] :=
      framesOf_of_reads (hreads.trans hpiecesReads)
    refine ⟨prelude, pieces.map Prod.fst, ?_, hprelude, fun ds hds => ?_⟩
    · unfold operatorsOf
      rw [hframes, List.filter_append, filter_operators fun d hd => (hprelude d hd).operator,
        operators_pieces fun p hp => ⟨(hpieces p hp).1, (hpieces p hp).2.1⟩]
    · obtain ⟨p, hp, rfl⟩ := List.mem_map.mp hds
      obtain ⟨-, htype, w, hw, hpayload, hverified, hwindow⟩ := hpieces p hp
      have hmem : w.marker ∈ markersOf segment headerLen := by
        unfold markersOf
        rw [hframes, List.mem_filterMap]
        refine ⟨p.2, List.mem_append_right _ (List.mem_flatMap.mpr ⟨p, hp, ?_⟩), ?_⟩
        · exact List.mem_append_right _ List.mem_cons_self
        · rw [if_pos htype, hpayload]
      obtain ⟨m, hmarker, -⟩ := hverified.marker
      have hfit : w.marker.toOffset ≤ segment.length := by
        have := codecFraming.end_le hmarker
        omega
      obtain ⟨key, hkey, htag⟩ := hverified.tag
      refine ⟨w.marker.window segment, honly _ hmem key hkey ?_, reads_slice hwindow hfit⟩
      simp only [verifyMarkerBytes, hverified.nonempty, hfit, htag, decide_true, Bool.and_self,
        beq_self_eq_true]
  · refine ⟨all, [], ?_, hprelude, by simp⟩
    unfold operatorsOf
    rw [framesOf_of_reads hreads, filter_operators fun d hd => (hprelude d hd).operator,
      List.flatten_nil, List.append_nil]

end Neoth.Wal

namespace Neoth.Wal.Writer

/-! ## A window laid twice -/

variable [Xxh3] [Sha256] {key bytes : List UInt8} {event : Event}

def markerOver (key : List UInt8) (a : Nat) (event : Event) : MarkerPayload :=
  (((CompactionState.new a).update (encodeFrame event)).finaliseMarker key
    (a + (encodeFrame event).length)).1

def markerEvent (key : List UInt8) (a : Nat) (event : Event) : Event :=
  syntheticEvent eventTypeCompactionMarker ((markerOver key a event).toVec 0) .epoch

theorem payload_markerEvent (key : List UInt8) (a : Nat) (event : Event) :
    (markerEvent key a event).payload = (markerOver key a event).toVec 0 := by
  rw [markerEvent, syntheticEvent]

/-- A frame behind the bytes, and the marker over it. -/
def laid (key bytes : List UInt8) (event : Event) : List UInt8 :=
  bytes ++ encodeFrame event ++ encodeFrame (markerEvent key bytes.length event)

omit [Xxh3] in
theorem inRange_markerOver {a : Nat} (ha : a + (encodeFrame event).length < 2 ^ 64) :
    (markerOver key a event).InRange :=
  ⟨(Nat.le_add_right _ _).trans_lt ha, ha, (by decide : 1 < 2 ^ 32), (by decide : 0 < 2 ^ 32)⟩

omit [Xxh3] in
theorem length_markerOver_le (key : List UInt8) {a : Nat}
    (ha : a + (encodeFrame event).length < 2 ^ 64) :
    ((markerOver key a event).toVec 0).length ≤ 231 := by
  refine MarkerPayload.length_toVec_le (inRange_markerOver ha) ?_ (by decide)
  refine (utf8_hexEncode _).1.trans ?_
  rw [hmacSha256, (Sha256.digest _).property]

omit [Sha256] in
theorem readable_syntheticEvent {eventType : UInt8} {payload : List UInt8}
    (hfits : payload.length ≤ maxPayloadBytes) :
    Readable (syntheticEvent eventType payload .epoch) :=
  ⟨@sized_build _ { HeaderBuilder.new eventType payload with flags := syntheticFlag } hfits _,
    hfits, valid_epoch⟩

omit [Sha256] in
theorem length_syntheticFrame {eventType : UInt8} {payload : List UInt8}
    (hfits : payload.length ≤ maxPayloadBytes) :
    (encodeFrame (syntheticEvent eventType payload .epoch)).length = 104 + payload.length :=
  length_encodeFrame_eq (readable_syntheticEvent hfits).sized

theorem readable_markerEvent (key : List UInt8) {a : Nat}
    (ha : a + (encodeFrame event).length < 2 ^ 64) : Readable (markerEvent key a event) :=
  readable_syntheticEvent ((length_markerOver_le key ha).trans (by decide))

theorem length_laid_le (key : List UInt8)
    (hfit : bytes.length + (encodeFrame event).length < 2 ^ 64) :
    (laid key bytes event).length ≤ bytes.length + (encodeFrame event).length + 335 := by
  have hpayload := length_markerOver_le key hfit
  rw [laid, List.length_append, List.length_append, markerEvent,
    length_syntheticFrame (hpayload.trans (by decide : 231 ≤ maxPayloadBytes))]
  omega

theorem follows_laid {c₀ : CompactionState} {a : Nat} (hevent : Readable event)
    (hoperator : event.header.eventType ≠ eventTypeCompactionMarker)
    (hfit : bytes.length + (encodeFrame event).length < 2 ^ 64)
    (h : Follows key bytes c₀ a (.new bytes.length) bytes.length) :
    Follows key (laid key bytes event) c₀ a (.new (laid key bytes event).length)
      (laid key bytes event).length := by
  have hframe := (Continues.frame hoperator).follows hevent h
  rw [← List.length_append] at hframe
  have hmarker : Continues key ((CompactionState.new bytes.length).update (encodeFrame event))
      (bytes ++ encodeFrame event).length (markerEvent key bytes.length event)
      (.new ((bytes ++ encodeFrame event).length +
        (encodeFrame (markerEvent key bytes.length event)).length)) := by
    refine continues_marker (by decide : 1 < 2 ^ 32) ?_ ?_
      (by decide : 1 ≠ 0) rfl (?_ : _ = MarkerPayload.toVec _ 0)
    · rwa [List.length_append]
    · rw [List.length_append]
      exact Nat.le_add_right _ _
    · rw [List.length_append, payload_markerEvent, markerOver]
  have hlaid := hmarker.follows (readable_markerEvent key hfit) hframe
  rwa [← List.length_append] at hlaid

omit [Xxh3] [Sha256] in
theorem reads_two {second : Event} {a : Nat} {ds : List Codec.DecodedFrame}
    (hevent : Readable event)
    (hsecond : Readable second) (h : Reads plausibleFraming bytes a ds bytes.length) :
    Reads plausibleFraming (bytes ++ encodeFrame event ++ encodeFrame second) a
      (ds ++ [frameOf event, frameOf second])
        (bytes ++ encodeFrame event ++ encodeFrame second).length := by
  have hone := hevent.reads_append h
  rw [← List.length_append] at hone
  have htwo := hsecond.reads_append hone
  rwa [← List.length_append, List.append_assoc ds] at htwo

/-- The tag is over the frame, wherever the marker stands. -/
theorem window_markerOver (key bytes : List UInt8) (event : Event) (more : List UInt8) :
    (markerOver key bytes.length event).window (laid key bytes event ++ more) =
      encodeFrame event := by
  have hlength :
      (markerOver key bytes.length event).toOffset - (markerOver key bytes.length
        event).fromOffset =
      (encodeFrame event).length := Nat.add_sub_cancel_left _ _
  unfold MarkerPayload.window laid
  rw [hlength, List.append_assoc, List.append_assoc]
  show slice (bytes ++ _) bytes.length _ = _
  rw [slice_append_right le_rfl, Nat.sub_self]
  exact slice_append_left rfl

omit [Sha256] in
theorem payload_frameOf_syntheticEvent (eventType : UInt8) (payload : List UInt8) (stamp : Hlc) :
    (frameOf (syntheticEvent eventType payload stamp)).payload = payload := rfl

theorem marker_of_markerEvent {a : Nat} (ha : a + (encodeFrame event).length < 2 ^ 64) :
    MarkerPayload.fromSlice (frameOf (markerEvent key a event)).payload =
      some (markerOver key a event) := by
  rw [markerEvent, payload_frameOf_syntheticEvent]
  exact MarkerPayload.fromSlice_toVec (inRange_markerOver ha) (spells_hexEncode _) 0

/-- **A window may be laid again**: the segment is accepted, its tags are over the bytes that were
tagged, and the frame stands in it twice. -/
theorem window_laid_twice {keys : List (List UInt8)} (key header : List UInt8)
    (hevent : Readable event)
    (hoperator : event.header.eventType ≠ eventTypeCompactionMarker) (hkey : key ∈ keys)
    (hfit : (laid key header event).length + (encodeFrame event).length < 2 ^ 64) :
    verifyExistingCompactionMarkerWindows (laid key (laid key header event) event) header.length
        keys false = .ok (laid key (laid key header event) event).length ∧
      (∀ m ∈ markersOf (laid key (laid key header event) event) header.length,
        ∃ written ∈ markersOf (laid key header event) header.length,
          m.window (laid key (laid key header event) event) =
            written.window (laid key header event)) ∧
      operatorsOf (laid key header event) header.length = [frameOf event] ∧
      operatorsOf (laid key (laid key header event) event) header.length =
        [frameOf event, frameOf event] := by
  have hfirst : header.length + (encodeFrame event).length < 2 ^ 64 := by
    refine lt_of_le_of_lt (Nat.add_le_add_right ?_ _) hfit
    rw [laid, List.append_assoc, List.length_append]
    exact Nat.le_add_right _ _
  have hempty : Follows key header (.new header.length) header.length (.new header.length)
      header.length := .refl _ _
  have honce := follows_laid hevent hoperator hfirst hempty
  have htwice := follows_laid hevent hoperator hfit honce
  have hreads := reads_two hevent (readable_markerEvent key hfirst) (Reads.nil header.length)
  have hreadsTwice := reads_two hevent (readable_markerEvent key hfit) hreads
  have hframes : framesOf (laid key header event) header.length =
      [frameOf event, frameOf (markerEvent key header.length event)] :=
    framesOf_of_reads ( reads_of_plausible hreads)
  have hframesTwice : framesOf (laid key (laid key header event) event) header.length =
      [frameOf event, frameOf (markerEvent key header.length event), frameOf event,
        frameOf (markerEvent key (laid key header event).length event)] :=
    framesOf_of_reads ( reads_of_plausible hreadsTwice)
  have hnotMarker : (frameOf event).header.eventType ≠ eventTypeCompactionMarker := hoperator
  have hmarker : ∀ a, (frameOf (markerEvent key a event)).header.eventType =
      eventTypeCompactionMarker := fun _ => rfl
  have hmarkers : markersOf (laid key header event) header.length =
      [markerOver key header.length event] := by
    simp only [markersOf, hframes, List.filterMap_cons, List.filterMap_nil, hnotMarker, hmarker,
      if_true, if_false, marker_of_markerEvent hfirst]
  have hmarkersTwice : markersOf (laid key (laid key header event) event) header.length =
      [markerOver key header.length event,
        markerOver key (laid key header event).length event] := by
    simp only [markersOf, hframesTwice, List.filterMap_cons, List.filterMap_nil, hnotMarker,
      hmarker, if_true, if_false, marker_of_markerEvent hfirst, marker_of_markerEvent hfit]
  refine ⟨verify_closed_of_follows htwice hkey, ?_, ?_, ?_⟩
  · have hwritten := window_markerOver key header event []
    rw [List.append_nil] at hwritten
    rw [hmarkersTwice, hmarkers]
    intro m hm
    refine ⟨_, List.mem_cons_self, ?_⟩
    rw [hwritten]
    rcases List.mem_cons.mp hm with rfl | hm
    · have hmore := window_markerOver key header event
        (encodeFrame event ++ encodeFrame (markerEvent key (laid key header event).length event))
      rwa [← List.append_assoc] at hmore
    · obtain rfl := List.mem_singleton.mp hm
      have hlast := window_markerOver key (laid key header event) event []
      rwa [List.append_nil] at hlast
  · simp [operatorsOf, hframes, hnotMarker, hmarker]
  · simp [operatorsOf, hframesTwice, hnotMarker, hmarker]

end Neoth.Wal.Writer

namespace Neoth.Wal.Writer

/-! ## A segment that was written -/

section Samples

attribute [local instance] emptyXxh3 Sha256.fips

def sampleForced : Request := { sampleRequest 1 with forceAuthenticationMarker := true }

/-- A fresh segment with one window. -/
def sampleWindow [Sha256] : List UInt8 :=
  laid sampleConfig.key (newSegmentHeaderBytes 0 0) (sampleEvent 1)

def sampleRepeated [Sha256] : List UInt8 := laid sampleConfig.key sampleWindow (sampleEvent 1)

set_option maxRecDepth 20000 in
/-- It is what the writer makes of an append with a marker behind it. -/
theorem sampleWindow_written :
    (Home.after sampleConfig [.start ⟨[], [], [], []⟩,
      .request sampleForced ⟨[], [], [], []⟩]).active.map Segment.bytes = some sampleWindow := by
  have heval : ∀ inputs window,
      inputs = [.start ⟨[], [], [], []⟩, .request sampleForced ⟨[], [], [], []⟩] →
      window = sampleWindow →
      (Home.after sampleConfig inputs).active.map Segment.bytes = some window := by
    intro inputs window hinputs hwindow
    delta Home.after Home.step serve writeFrame markerBehind emitCompactionMarker
    rw [hinputs, hwindow, sampleWindow, laid, markerEvent, MarkerPayload.toVec_eq, Sha256.fips_eq]
    decide +kernel
  exact heval _ _ rfl rfl

theorem readable_sampleEvent : Readable (sampleEvent 1) :=
  ⟨(sampleRequest 1).sized, (sampleRequest 1).fits, (by decide : Hlc.Valid ⟨1, 0⟩)⟩

theorem length_sampleFrame : (encodeFrame (sampleEvent 1)).length = 104 :=
  length_encodeFrame_eq readable_sampleEvent.sized

theorem length_sampleWindow_lt : sampleWindow.length + 104 < 2 ^ 64 := by
  have hheader : (newSegmentHeaderBytes 0 0).length = 60 := length_newSegmentHeaderBytes 0 0
  have hframe := length_sampleFrame
  have hfit : (newSegmentHeaderBytes 0 0).length + (encodeFrame (sampleEvent 1)).length <
      2 ^ 64 := by
    rw [hheader, hframe]
    decide
  have hle := length_laid_le sampleConfig.key hfit
  rw [hheader, hframe, ← sampleWindow] at hle
  omega

theorem sampleRepeated_spec :
    verifyExistingCompactionMarkerWindows sampleRepeated segmentHeaderLen
        sampleConfig.verificationKeys false = .ok sampleRepeated.length ∧
      (∀ m ∈ markersOf sampleRepeated segmentHeaderLen,
        ∃ written ∈ markersOf sampleWindow segmentHeaderLen,
          m.window sampleRepeated = written.window sampleWindow) ∧
      operatorsOf sampleWindow segmentHeaderLen = [frameOf (sampleEvent 1)] ∧
      operatorsOf sampleRepeated segmentHeaderLen =
        [frameOf (sampleEvent 1), frameOf (sampleEvent 1)] := by
  have hoperator : (sampleEvent 1).header.eventType ≠ eventTypeCompactionMarker := by decide
  have htwice := window_laid_twice sampleConfig.key (newSegmentHeaderBytes 0 0) readable_sampleEvent
    hoperator (List.mem_cons_self (l := sampleConfig.archivedKeys))
    (by rw [length_sampleFrame, ← sampleWindow]; exact length_sampleWindow_lt)
  rwa [length_newSegmentHeaderBytes, ← sampleWindow, ← sampleRepeated] at htwice

theorem accepted_windows_are_tagged_sample :
    ∃ (prelude : List Codec.DecodedFrame) (frames : List (List Codec.DecodedFrame)),
      operatorsOf sampleRepeated segmentHeaderLen = prelude ++ frames.flatten ∧
      (∀ d ∈ prelude, IsPrelude d) ∧
      ∀ ds ∈ frames, ∃ bytes,
        (∃ written ∈ markersOf sampleWindow segmentHeaderLen, bytes = written.window sampleWindow) ∧
          Reads codecFraming bytes 0 ds bytes.length :=
  accepted_windows_are_tagged sampleRepeated_spec.1 fun m hm _ _ _ => sampleRepeated_spec.2.1 m hm

/-- A segment that the writer has written, with its window laid in it again: every tag that verifies
is over bytes that the writer has tagged, and the frames that the segment holds are no prefix of
what was written. -/
theorem windows_can_be_repeated :
    (Home.after sampleConfig [.start ⟨[], [], [], []⟩,
        .request sampleForced ⟨[], [], [], []⟩]).active.map Segment.bytes = some sampleWindow ∧
      verifyExistingCompactionMarkerWindows sampleRepeated segmentHeaderLen
        sampleConfig.verificationKeys false = .ok sampleRepeated.length ∧
      sampleRepeated.take segmentHeaderLen = sampleWindow.take segmentHeaderLen ∧
      (∀ m ∈ markersOf sampleRepeated segmentHeaderLen, ∀ key ∈ sampleConfig.verificationKeys,
        verifyMarkerBytes sampleRepeated key m = true →
        ∃ written ∈ markersOf sampleWindow segmentHeaderLen,
          m.window sampleRepeated = written.window sampleWindow) ∧
      ¬ operatorsOf sampleRepeated segmentHeaderLen <+:
      operatorsOf sampleWindow segmentHeaderLen := by
  obtain ⟨hverify, htagged, honce, htwice⟩ := sampleRepeated_spec
  refine ⟨sampleWindow_written, hverify, ?_, fun m hm _ _ _ => htagged m hm, ?_⟩
  · have hle : segmentHeaderLen ≤ sampleWindow.length := by
      rw [sampleWindow, laid, List.append_assoc, List.length_append, length_newSegmentHeaderBytes]
      exact Nat.le_add_right _ _
    rw [sampleRepeated, laid, List.append_assoc, List.take_append_of_le_length hle]
  · intro hprefix
    have hle := hprefix.length_le
    rw [honce, htwice] at hle
    exact absurd hle (by decide)

end Samples

end Neoth.Wal.Writer
