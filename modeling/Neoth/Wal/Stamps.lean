import Neoth.Wal.Codec

/-!
# The stamps of the builder

`HeaderBuilder::build` stamps a header with whatever the process clock has come to; the parser takes
the stamp through `Hlc::new`, which refuses a count at the epoch.

* `valid_tickGlobalHlc_iff`, `valid_mergeGlobalHlc_iff`: when a step leaves a clock that may be
  stamped;
* `headers_read_back_iff`: the runs in which every header is read back.
-/

open Lib.Machine Neoth.MeshSync

namespace Neoth.Wal

/-! ## Clocks that may be stamped -/

theorem nextLogical_ne_zero {logical next : UInt32} {node : Option (Vector UInt8 16)}
    (h : nextLogical logical node = .ok next) : next ≠ 0 := by
  unfold nextLogical at h
  split at h
  · cases h
  · rename_i hmax
    cases h
    intro hzero
    apply hmax
    have hsum : logical + 1 - 1 = 0 - 1 := by rw [hzero]
    rw [UInt32.add_sub_cancel] at hsum
    rw [hsum]
    rfl

/-- A count that has been taken at the epoch is refused, any other clock is not. -/
theorem valid_mk_next_iff {logical next physical} {node : Option (Vector UInt8 16)}
    (h : nextLogical logical node = .ok next) : (Hlc.mk physical next).Valid ↔ physical ≠ 0 :=
  ⟨fun hvalid hzero => nextLogical_ne_zero h (hvalid hzero), fun hne hzero => absurd hzero hne⟩

theorem valid_mk_zero (physical : UInt64) : (Hlc.mk physical 0).Valid := fun _ => rfl

theorem nextLogical_eq_error {logical : UInt32} {node : Option (Vector UInt8 16)} {e : HlcError}
    (h : nextLogical logical node = .error e) : logical = u32Max := by
  unfold nextLogical at h
  split at h
  · assumption
  · cases h

theorem valid_of_ne {hlc : Hlc} (h : hlc.physicalNs ≠ 0) : hlc.Valid := fun hzero => absurd hzero h

theorem valid_tickGlobalHlc_iff {current : Hlc} (hvalid : current.Valid) (nowNs : UInt64) :
    (tickGlobalHlc current nowNs).Valid ↔ current.physicalNs ≠ 0 ∨ nowNs ≠ 0 := by
  unfold tickGlobalHlc Hlc.tickLocal
  split_ifs with hlt
  · have hne : nowNs ≠ 0 := ((UInt64.zero_le).trans_lt hlt).ne'
    exact iff_of_true (valid_mk_zero _) (.inr hne)
  · have hnow : current.physicalNs = 0 → nowNs = 0 := by
      intro hzero
      rw [hzero, not_lt] at hlt
      exact le_antisymm hlt UInt64.zero_le
    cases hnext : nextLogical current.logical none with
    | error e =>
      refine iff_of_true (valid_mk_zero _) (.inl ?_)
      intro hzero
      have hmax := nextLogical_eq_error hnext
      rw [hvalid hzero] at hmax
      exact absurd hmax (by decide)
    | ok next =>
      rw [Except.map, valid_mk_next_iff hnext]
      constructor
      · exact .inl
      · rintro (hne | hne)
        · exact hne
        · exact fun hzero => hne (hnow hzero)

theorem valid_mergeGlobalHlc_iff {current : Hlc} (hvalid : current.Valid) (nowNs : UInt64)
    (peer : Hlc) (peerNodeId : Vector UInt8 16) :
    (mergeGlobalHlc current nowNs peer peerNodeId).Valid ↔
      current.physicalNs ≠ 0 ∨ nowNs ≠ 0 ∨ peer.physicalNs ≠ 0 ∨ peer.logical = u32Max := by
  have hcurrent : current.physicalNs ≤ max (max current.physicalNs peer.physicalNs) nowNs :=
    (le_max_left _ _).trans (le_max_left _ _)
  have hpeer : peer.physicalNs ≤ max (max current.physicalNs peer.physicalNs) nowNs :=
    (le_max_right _ _).trans (le_max_left _ _)
  have hnow : nowNs ≤ max (max current.physicalNs peer.physicalNs) nowNs := le_max_right _ _
  unfold mergeGlobalHlc Hlc.tickReceive
  dsimp only
  split_ifs with hboth hown hother
  · by_cases hzero : current.physicalNs = 0
    · -- nobody has left the epoch, and the count of the peer decides
      have hlogical : max current.logical peer.logical = peer.logical := by
        rw [hvalid hzero]
        exact if_pos UInt32.zero_le
      have hpeerZero : peer.physicalNs = 0 := hboth.2.symm.trans (hboth.1.trans hzero)
      have hnowZero : nowNs = 0 := le_antisymm (hnow.trans (hboth.1.trans hzero).le) UInt64.zero_le
      simp only [hzero, hpeerZero, hnowZero, ne_eq, not_true_eq_false, false_or]
      rw [hlogical]
      cases hnext : nextLogical peer.logical (some peerNodeId) with
      | error e => exact iff_of_true hvalid (nextLogical_eq_error hnext)
      | ok next =>
        refine iff_of_false (fun h => (valid_mk_next_iff hnext).mp h rfl) ?_
        intro hmax
        rw [nextLogical, if_pos hmax] at hnext
        cases hnext
    · refine iff_of_true ?_ (.inl hzero)
      cases nextLogical (max current.logical peer.logical) (some peerNodeId) with
      | error e => exact hvalid
      | ok next => exact valid_of_ne hzero
  · have hne : current.physicalNs ≠ 0 := by
      rw [hown] at hpeer hboth
      intro hzero
      exact hboth ⟨rfl, le_antisymm (hzero ▸ UInt64.zero_le) hpeer⟩
    refine iff_of_true ?_ (.inl hne)
    cases nextLogical current.logical (some peerNodeId) with
    | error e => exact hvalid
    | ok next => exact valid_of_ne hne
  · have hne : peer.physicalNs ≠ 0 := by
      rw [hother] at hcurrent hown
      intro hzero
      exact hown (le_antisymm (hzero ▸ UInt64.zero_le) hcurrent)
    refine iff_of_true ?_ (.inr (.inr (.inl hne)))
    cases nextLogical peer.logical (some peerNodeId) with
    | error e => exact hvalid
    | ok next => exact valid_of_ne hne
  · refine iff_of_true (valid_mk_zero _) (.inr (.inl ?_))
    rintro rfl
    rw [max_eq_left UInt64.zero_le] at hown hother
    rcases max_choice current.physicalNs peer.physicalNs with h | h
    · exact hown h
    · exact hother h

/-! ## Headers on the wire -/

/-- The header of an event with the fields that the builder fixes. -/
def EventHeader.wire (h : EventHeader) : Codec.EventHeaderV2 where
  walFormatVersion := MeshSync.walFormatVersion
  eventSchemaVersion := MeshSync.eventSchemaVersion
  eventType := h.eventType
  eventSubtype := h.eventSubtype
  flags := ⟨h.flags, h.flags_ok⟩
  headerLen := 96
  reservedLen := 0
  totalLen := h.totalLen
  payloadLen := h.payloadLen
  generation := h.generation
  eventId := h.eventId
  hlc := h.hlc
  importance := ⟨h.importance, h.importance_ok⟩
  scope := h.scope
  category := h.category
  sessionId := h.sessionId
  nodeId := h.nodeId
  payloadHash := h.payloadHash

/-- The frame of the event is read back as it was written. -/
def Event.ReadsBack (event : Event) : Prop :=
  ∃ frame, Codec.encodeFrame event.header.wire event.payload = some frame ∧
    Codec.decodeFrame frame = .ok ⟨event.header.wire, event.payload⟩

theorem wire_describes {event : Event} (h : event.Sized) :
    event.header.wire.Describes event.payload.length := by
  refine ⟨?_, h.2⟩
  show event.header.totalLen.toNat = preambleLen + headerBodyLen + 0 + event.payload.length + crcLen
  rw [h.1]
  rfl

/-- `Wal.Frames` writes the same bytes. -/
theorem encodeFrame_wire {event : Event} (h : event.Sized) :
    Codec.encodeFrame event.header.wire event.payload = some (encodeFrame event) :=
  Codec.encodeFrame_eq_some_iff.mpr ⟨wire_describes h, rfl⟩

theorem readsBack_iff {event : Event} (h : event.Sized) : event.ReadsBack ↔
    event.header.hlc.Valid := by
  constructor
  · rintro ⟨frame, -, hdecode⟩
    exact (Codec.of_decodeFrame hdecode).1.hlc
  · intro hvalid
    refine ⟨_, encodeFrame_wire h, ?_⟩
    have hadmitted : event.header.wire.Admitted := ⟨rfl, rfl, rfl, hvalid⟩
    have hpadding : ([] : List UInt8).length = event.header.wire.reservedLen.toNat := rfl
    have hdecode := Codec.decodeFrame_checked hadmitted (wire_describes h) hpadding []
    rwa [List.append_nil] at hdecode

/-! ## Runs -/

section
variable [Xxh3]

theorem sized_build {builder : HeaderBuilder} (h : builder.payload.length ≤ maxPayloadBytes)
    (hlc : Hlc) : Event.Sized ⟨builder.build hlc, builder.payload⟩ := by
  have hmax : maxPayloadBytes = 16777216 := rfl
  refine ⟨?_, ?_⟩
  · show (UInt32.ofNat (preambleLen + headerBodyLen + builder.payload.length + crcLen)).toNat = _
    rw [UInt32.toNat_ofNat', Nat.mod_eq_of_lt]
    simp only [preambleLen, headerBodyLen, crcLen]
    omega
  · show (UInt32.ofNat builder.payload.length).toNat = _
    rw [UInt32.toNat_ofNat', Nat.mod_eq_of_lt]
    omega

/-- The payload is one that the writer takes. -/
def ClockEvent.Fits : ClockEvent → Prop
  | .build _ builder => builder.payload.length ≤ maxPayloadBytes
  | .merge _ _ _ => True

namespace ClockState

omit [Xxh3] in
/-- Somebody has left the epoch, or the merge is refused. -/
def HasLeftEpoch (s : ClockState) : ClockEvent → Prop
  | .build nowNs _ => s.hlc.physicalNs ≠ 0 ∨ nowNs ≠ 0
  | .merge nowNs peer _ => s.hlc.physicalNs ≠ 0 ∨ nowNs ≠ 0 ∨ peer.physicalNs ≠ 0 ∨
    peer.logical = u32Max

/-- A step from a valid clock leaves a valid one exactly if it meets the condition. -/
theorem valid_step_iff {s : ClockState} (hvalid : s.hlc.Valid) (e : ClockEvent) :
    (s.step e).1.hlc.Valid ↔ s.HasLeftEpoch e := by
  cases e with
  | build nowNs builder => exact valid_tickGlobalHlc_iff hvalid nowNs
  | merge nowNs peer peerNodeId => exact valid_mergeGlobalHlc_iff hvalid nowNs peer peerNodeId

omit [Xxh3] in
structure Sound (s : ClockState) : Prop where
  valid : s.hlc.Valid
  readBack : ∀ event ∈ s.built, event.ReadsBack

theorem sound_step {s : ClockState} (hs : Sound s) {e : ClockEvent} (hleft : s.HasLeftEpoch e)
    (hfits : e.Fits) : Sound (s.step e).1 := by
  refine ⟨(valid_step_iff hs.valid e).mpr hleft, ?_⟩
  intro event hevent
  cases e with
  | merge nowNs peer peerNodeId => exact hs.readBack event hevent
  | build nowNs builder =>
    rcases List.mem_append.mp hevent with hold | hnew
    · exact hs.readBack event hold
    · rw [List.mem_singleton] at hnew
      subst hnew
      exact (readsBack_iff (sized_build hfits _)).mpr
        ((valid_tickGlobalHlc_iff hs.valid nowNs).mpr hleft)

omit [Xxh3] in
theorem sound_boot : Sound boot := ⟨fun _ => rfl, by simp [boot]⟩

/-- **Every header is read back**, and the clock is always one that may be stamped, in exactly the
runs that leave the epoch before they count. -/
theorem headers_read_back_iff (es : List ClockEvent) (hfits : ∀ e ∈ es, e.Fits) :
    (∀ before rest, es = before ++ rest →
        (after before).hlc.Valid ∧ ∀ event ∈ (after before).built, event.ReadsBack) ↔
      ∀ before e rest, es = before ++ e :: rest → (after before).HasLeftEpoch e := by
  constructor
  · rintro h before e rest rfl
    have hnext := (h (before ++ [e]) rest (by simp)).1
    rw [after_append_singleton] at hnext
    exact (valid_step_iff (h before (e :: rest) rfl).1 e).mp hnext
  · rintro h before rest rfl
    have hsound : Sound (after before) := by
      refine run_invariant_of_meets (P := Sound) (M := fun s e => s.HasLeftEpoch e ∧ e.Fits)
        (fun s e hs hm => sound_step hs hm.1 hm.2) boot sound_boot before ?_
      rintro a e b rfl
      exact ⟨h a e (b ++ rest) (by simp), hfits e (by simp)⟩
    exact ⟨hsound.valid, hsound.readBack⟩

end ClockState
end

section Samples
open ClockState

/-- `xxh3_64` on the empty payload. -/
@[reducible] def emptyXxh3 : Xxh3 := ⟨fun _ => 0x2d06800538d394c2⟩

attribute [local instance] emptyXxh3

theorem headers_read_back_sample :
    (after [.build 1 (.new 0x01 []), .build 0 (.new 0x02 [])]).hlc.Valid ∧
      ∀ event ∈ (after [.build 1 (.new 0x01 []), .build 0 (.new 0x02 [])]).built,
      event.ReadsBack := by
  refine (headers_read_back_iff [.build 1 (.new 0x01 []), .build 0 (.new 0x02 [])] ?_).mpr ?_
    _ [] rfl
  · intro e he
    simp only [List.mem_cons, List.not_mem_nil, or_false] at he
    rcases he with rfl | rfl <;> exact Nat.zero_le _
  · exact meets_cons (M := HasLeftEpoch) (.inr (by decide))
      (meets_cons (M := HasLeftEpoch) (.inl (by decide)) meets_nil)

/-- A wall clock at or before the epoch: the first header of the process counts at the epoch. -/
theorem epoch_header_refused :
    (after [.build 0 (.new 0x01 [])]).hlc = ⟨0, 1⟩ ∧
      ¬ ∀ es : List ClockEvent, (∀ e ∈ es, e.Fits) → ∀ before rest, es = before ++ rest →
        (after before).hlc.Valid ∧ ∀ event ∈ (after before).built, event.ReadsBack := by
  refine ⟨by decide, ?_⟩
  intro h
  obtain ⟨hvalid, -⟩ := h [.build 0 (.new 0x01 [])] (by simp [ClockEvent.Fits, HeaderBuilder.new])
    [.build 0 (.new 0x01 [])] [] rfl
  exact absurd hvalid (by decide)

end Samples

end Neoth.Wal
