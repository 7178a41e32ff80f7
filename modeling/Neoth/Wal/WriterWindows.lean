import Neoth.Wal.WriterDurability

/-!
# The authentication windows of the writer

The writer gives its tracker every frame that it writes, and each marker closes a window: as long as
no barrier goes on after its marker has failed, and nothing is written behind what a failed write
has left, the tracker covers what stands behind the last marker, and the segments verify.

* `Continues`: what a frame makes of the tracker;
* `Segment.Settled`, `Segment.Closed`: segments that are followed up to the last frame, or closed by
  a marker;
* `meets_emitMarker`, `meets_rotateKept`, `meets_serveCovered`: what the operations of the task
  keep;
* `windows_are_kept`: the runs.
-/

open Lib.Effects Lib.Encoding Lib.FrameLog Lib.JsonDecode Lib.Transaction Neoth.MeshSync

namespace Neoth.Wal.Writer

variable [Sha256] {key bytes : List UInt8} {c c' : CompactionState}

/-! ## Frames and the tracker -/

/-- The frame of the event goes on from `a`, and leaves the tracker as `c'`. -/
inductive Continues (key : List UInt8) (c : CompactionState) (a : Nat) (event : Event) :
    CompactionState → Prop
  | frame (operator : event.header.eventType ≠ eventTypeCompactionMarker) :
      Continues key c a event (c.update (encodeFrame event))
  | marker (type : event.header.eventType = eventTypeCompactionMarker)
      (payload : MarkerPayload.fromSlice event.payload = some (c.finaliseMarker key a).1)
      (nonempty : c.framesSinceMarker ≠ 0) :
        Continues key c a event (.new (a + (encodeFrame event).length))

variable {event : Event}

theorem Continues.follows (h : Continues key c bytes.length event c') (hevent : Readable event)
    {c₀ : CompactionState} {a : Nat} (hfollows : Follows key bytes c₀ a c bytes.length) :
    Follows key (bytes ++ encodeFrame event) c₀ a c'
      (bytes.length + (encodeFrame event).length) := by
  have hhead : plausibleFraming.decode ((bytes ++ encodeFrame event).drop bytes.length) =
      .ok (frameOf event) := by
    have hdecode := hevent.decode []
    rw [List.append_nil] at hdecode
    rwa [List.drop_left]
  have hlength : (encodeFrame event).length = (frameOf event).header.totalLen.toNat :=
    length_encodeFrame_event hevent.sized
  have hslice :
      slice (bytes ++ encodeFrame event) bytes.length (frameOf event).header.totalLen.toNat =
      encodeFrame event := by
    rw [slice_append_right le_rfl, Nat.sub_self, slice_self hlength]
  refine (hfollows.append le_rfl _).trans ?_
  cases h with
  | frame operator =>
    refine .frame hhead operator ?_
    rw [hslice, hlength]
    exact .refl _ _
  | marker type payload nonempty =>
    refine .marker hhead type payload nonempty ?_
    rw [hlength]
    exact .refl _ _

/-- With no frame since the last marker, the window begins at its end. -/
theorem eq_new_of_follows {headerLen a : Nat} (h : Follows key bytes (.new headerLen) headerLen c a)
    (hframes : c.framesSinceMarker = 0) : c = .new a := by
  obtain ⟨ds, hreads, -, hfeed⟩ := ((openWindow_new le_rfl).of_follows h).fed
  have hcount := (feed_spec hreads (.new c.fromOffset)).2.1
  rw [← hfeed, hframes] at hcount
  have hnone : ds = [] :=
    List.eq_nil_of_length_eq_zero (by simpa [CompactionState.new] using hcount.symm)
  subst hnone
  cases hreads
  exact hfeed

/-! ## Segments -/

/-- Going from frame to frame leads to a place where no frame begins. -/
structure Segment.Settled (key : List UInt8) (s : Segment) : Prop where
  begun : ∃ seq openedAtNs rest, s.bytes = newSegmentHeaderBytes seq openedAtNs ++ rest
  follows : ∃ c b, Follows key s.bytes (.new segmentHeaderLen) segmentHeaderLen c b ∧
    ∀ d, plausibleFraming.decode (s.bytes.drop b) ≠ .ok d

/-- The last frame is the marker that closes the last window. -/
structure Segment.Closed (key : List UInt8) (s : Segment) : Prop where
  begun : ∃ seq openedAtNs rest, s.bytes = newSegmentHeaderBytes seq openedAtNs ++ rest
  follows : Follows key s.bytes (.new segmentHeaderLen) segmentHeaderLen (.new s.bytes.length)
    s.bytes.length

omit [Sha256] in
theorem no_frame_at_end (bytes : List UInt8) (d : Codec.DecodedFrame) :
    plausibleFraming.decode (bytes.drop bytes.length) ≠ .ok d := by
  intro hdecode
  have hend := plausibleFraming.end_le hdecode
  have hpos := plausibleFraming.size_pos hdecode
  omega

omit [Sha256] in
theorem headerLen_le_of_begun {bytes : List UInt8}
    (h : ∃ seq openedAtNs rest, bytes = newSegmentHeaderBytes seq openedAtNs ++ rest) :
    segmentHeaderLen ≤ bytes.length := by
  obtain ⟨seq, openedAtNs, rest, rfl⟩ := h
  rw [List.length_append, length_newSegmentHeaderBytes]
  exact Nat.le_add_right _ _

namespace Segment.Settled

variable {s : Segment}

theorem of_follows_end
    (hbegun : ∃ seq openedAtNs rest, s.bytes = newSegmentHeaderBytes seq openedAtNs ++ rest)
    (h : Follows key s.bytes (.new segmentHeaderLen) segmentHeaderLen c s.bytes.length) :
      s.Settled key :=
  ⟨hbegun, c, _, h, no_frame_at_end _⟩

/-- Some of the bytes of the next frame have reached the file. -/
theorem of_part (hevent : Readable event)
    (hbegun : ∃ seq openedAtNs rest, s.bytes = newSegmentHeaderBytes seq openedAtNs ++ rest)
    (h : Follows key s.bytes (.new segmentHeaderLen) segmentHeaderLen c s.bytes.length)
    (hnext : Continues key c s.bytes.length event c') (reached : Nat) :
    (s.extend ((encodeFrame event).take reached)).Settled key := by
  obtain ⟨seq, openedAtNs, rest, hbytes⟩ := hbegun
  have hbegun' : ∃ seq openedAtNs rest, (s.extend ((encodeFrame event).take reached)).bytes =
      newSegmentHeaderBytes seq openedAtNs ++ rest :=
    ⟨seq, openedAtNs, rest ++ (encodeFrame event).take reached, by
      simp only [extend, hbytes, List.append_assoc]⟩
  by_cases hwhole : (encodeFrame event).take reached = encodeFrame event
  · refine of_follows_end hbegun' (c := c') ?_
    have hfollows := hnext.follows hevent h
    rw [← List.length_append] at hfollows
    simp only [extend, hwhole]
    exact hfollows
  · refine ⟨hbegun', c, s.bytes.length, h.append le_rfl _, ?_⟩
    intro d
    show plausibleFraming.decode ((s.bytes ++ (encodeFrame event).take reached).drop
      s.bytes.length) ≠ .ok d
    rw [List.drop_left]
    exact hevent.decode_cut (List.take_prefix _ _) hwhole d

/-- A crash leaves a segment that is followed again. -/
theorem truncate (h : s.Settled key) {n : Nat} (hn : segmentHeaderLen ≤ n) :
    (s.truncate n).Settled key := by
  obtain ⟨c, b, hfollows, hstop⟩ := h.follows
  have hheader := headerLen_le_of_begun h.begun
  obtain ⟨seq, openedAtNs, rest, hbytes⟩ := h.begun
  refine ⟨⟨seq, openedAtNs, rest.take (n - segmentHeaderLen), ?_⟩, ?_⟩
  · show s.bytes.take n = _
    rw [hbytes, List.take_append, length_newSegmentHeaderBytes,
      List.take_of_length_le ((length_newSegmentHeaderBytes _ _).trans_le hn)]
  · obtain ⟨ds, e, hreads, hcut⟩ :=
      Reads.exists_complete plausibleFraming (s.bytes.take n) segmentHeaderLen
    have he : e ≤ n ∧ e ≤ s.bytes.length := by
      have hle := hreads.le_length (by rw [List.length_take]; omega)
      rw [List.length_take] at hle
      omega
    have hmore := hreads.append (s.bytes.drop n)
    rw [List.take_append_drop] at hmore
    obtain ⟨es, hall⟩ := hfollows.reads
    obtain ⟨c', hfirst, -⟩ := hfollows.of_reads hmore (hall.complete hstop hmore)
    exact ⟨c', e, hfirst.take he.2 he.1, hcut⟩

end Segment.Settled

/-! ## What the task keeps -/

/-- What an ended task leaves. -/
structure Ended (cfg : Config) (r : Running) : Prop where
  closed : ∀ s ∈ r.closed, s.Closed cfg.key
  active : r.active.Settled cfg.key

/-- The tracker `c` covers what stands before the offset; the task is in the state `st`, and a write
has failed or has not been counted yet. -/
structure Torn (cfg : Config) (c : CompactionState) (st : WriterState) (r : Running) : Prop where
  ended : Ended cfg r
  follows : Follows cfg.key r.active.bytes (.new segmentHeaderLen) segmentHeaderLen c st.offset
  within : st.offset ≤ r.active.bytes.length
  told : st.lastWriteErr = false
  state : r.state = st
  regular : r.script.Regular

/-- The file ends `n` bytes behind the offset, and the tracker `c` covers it up to there. -/
structure Tight (cfg : Config) (c : CompactionState) (n : Nat) (st : WriterState) (r : Running) :
    Prop where
  closed : ∀ s ∈ r.closed, s.Closed cfg.key
  begun : ∃ seq openedAtNs rest, r.active.bytes = newSegmentHeaderBytes seq openedAtNs ++ rest
  follows : Follows cfg.key r.active.bytes (.new segmentHeaderLen) segmentHeaderLen c
    r.active.bytes.length
  atEnd : r.active.bytes.length = st.offset + n
  told : st.lastWriteErr = false
  state : r.state = st
  regular : r.script.Regular

variable {cfg : Config} {n : Nat} {st : WriterState} {r : Running}

theorem tight_scripted : Scripted (Tight cfg c n st) :=
  ⟨fun h hwithin => ⟨h.closed, h.begun, h.follows, h.atEnd, h.told, h.state,
    h.regular.within hwithin⟩⟩

theorem torn_scripted : Scripted (Torn cfg c st) :=
  ⟨fun h hwithin =>
    ⟨⟨h.ended.closed, h.ended.active⟩, h.follows, h.within, h.told, h.state,
      h.regular.within hwithin⟩⟩

theorem Tight.ended (h : Tight cfg c n st r) : Ended cfg r :=
  ⟨h.closed, .of_follows_end h.begun h.follows⟩

theorem Tight.torn (h : Tight cfg c 0 st r) : Torn cfg c st r := by
  have hend : r.active.bytes.length = st.offset := h.atEnd
  exact ⟨h.ended, hend.subst (motive := fun a => Follows cfg.key r.active.bytes _ _ c a) h.follows,
    hend.ge, h.told, h.state, h.regular⟩

theorem Torn.sync (h : Torn cfg c st r) : Torn cfg c st (r.setActive r.active.sync) :=
  ⟨⟨h.ended.closed, ⟨h.ended.active.begun, h.ended.active.follows⟩⟩, h.follows, h.within, h.told,
    h.state, h.regular⟩

theorem Tight.sync (h : Tight cfg c n st r) : Tight cfg c n st (r.setActive r.active.sync) :=
  ⟨h.closed, h.begun, h.follows, h.atEnd, h.told, h.state, h.regular⟩

/-- Some or all of the next frame has reached the file. -/
theorem Tight.leave (h : Tight cfg c 0 st r) (hevent : Readable event)
    (hnext : Continues cfg.key c st.offset event c') (reached : Nat) :
    Torn cfg c st (r.setActive (r.active.extend ((encodeFrame event).take reached))) := by
  have hend : r.active.bytes.length = st.offset := h.atEnd
  refine ⟨⟨h.closed, .of_part hevent h.begun h.follows (hend.symm ▸ hnext) reached⟩, ?_, ?_, h.told,
    h.state, h.regular⟩
  · rw [← hend]
    exact h.follows.append le_rfl _
  · rw [← hend]
    show _ ≤ (r.active.bytes ++ _).length
    rw [List.length_append]
    exact Nat.le_add_right _ _

theorem Tight.extend (h : Tight cfg c 0 st r) (hevent : Readable event)
    (hnext : Continues cfg.key c st.offset event c') :
    Tight cfg c' (encodeFrame event).length st
      (r.setActive (r.active.extend (encodeFrame event))) := by
  have hend : r.active.bytes.length = st.offset := h.atEnd
  have hlength : (r.active.bytes ++ encodeFrame event).length =
      r.active.bytes.length + (encodeFrame event).length :=
    List.length_append
  obtain ⟨seq, openedAtNs, rest, hbytes⟩ := h.begun
  refine ⟨h.closed, ⟨seq, openedAtNs, rest ++ encodeFrame event, ?_⟩, ?_, ?_, h.told, h.state,
    h.regular⟩
  · show r.active.bytes ++ encodeFrame event = _
    rw [hbytes, List.append_assoc]
  · show Follows cfg.key (r.active.bytes ++ encodeFrame event) _ _ c'
      (r.active.bytes ++ encodeFrame event).length
    rw [hlength]
    exact (hend.symm ▸ hnext : Continues cfg.key c r.active.bytes.length event c').follows hevent
      h.follows
  · show (r.active.bytes ++ encodeFrame event).length = _
    rw [hlength, hend]

/-! ## Frames -/

theorem meets_writeOnly_tight (hevent : Readable event)
    (hnext : Continues cfg.key c st.offset event c') :
    Meets (Tight cfg c 0 st) (writeOnly (encodeFrame event))
      (fun _ r => Tight cfg c' (encodeFrame event).length st r ∧ Torn cfg c st r)
        (fun _ => Torn cfg c st) := by
  have hdone : ∀ r, Tight cfg c 0 st r →
      Tight cfg c' (encodeFrame event).length st
        (r.setActive (r.active.extend (encodeFrame event))) ∧
        Torn cfg c st (r.setActive (r.active.extend (encodeFrame event))) := by
    intro r h
    refine ⟨h.extend hevent hnext, ?_⟩
    have hwhole := h.leave hevent hnext (encodeFrame event).length
    rwa [List.take_length] at hwhole
  refine Meets.bind Meets.get fun r => Meets.ite (fun herr => ?_) fun _ => ?_
  · rintro s ⟨rfl, h⟩
    rw [h.state, h.told] at herr
    exact absurd herr Bool.false_ne_true
  refine Meets.bind (Q := fun written r => written.isTold ∧ Tight cfg c 0 st r) ?_ fun written =>
    Meets.given fun htold => ?_
  · exact tight_scripted.nextWritten_of rfl fun s hs =>
      ⟨hs.2, fun written hhead => hs.2.regular.2 written (List.mem_of_mem_head? hhead)⟩
  cases written with
  | done => exact Meets.modify hdone
  | partFailed reached =>
    refine Meets.ite (fun _ => Meets.modify hdone) fun _ => ?_
    exact Meets.bind (Meets.modify fun r h => h.leave hevent hnext _) fun _ =>
      Meets.throw fun r h => h
  | lastFailed reached => exact absurd htold Bool.false_ne_true

omit [Sha256] in
theorem meets_syncData_of {P : Running → Prop} (hP : Scripted P)
    (hsync : ∀ r, P r → P (r.setActive r.active.sync)) :
    Meets P syncData (fun _ => P) (fun _ => P) := by
  refine Meets.bind hP.nextIo fun outcome => ?_
  cases outcome with
  | done => exact Meets.modify hsync
  | failed reached => exact Meets.throw fun r h => h

theorem meets_writeAndSync_tight (hevent : Readable event)
    (hnext : Continues cfg.key c st.offset event c') :
    Meets (Tight cfg c 0 st) (writeAndSync (encodeFrame event))
      (fun _ r => Tight cfg c' (encodeFrame event).length st r ∧ Torn cfg c st r)
        (fun _ => Torn cfg c st) := by
  have hboth : Scripted fun r => Tight cfg c' (encodeFrame event).length st r ∧ Torn cfg c st r :=
    ⟨fun h hwithin => ⟨tight_scripted.keep h.1 hwithin, torn_scripted.keep h.2 hwithin⟩⟩
  refine Meets.bind (meets_writeOnly_tight hevent hnext) fun _ => ?_
  exact (meets_syncData_of hboth fun r h => ⟨h.1.sync, h.2.sync⟩).fails fun _ _ h => h.2

/-! ## Markers -/

omit [Sha256] in
theorem ceilingOf_lt (policy : SegmentPolicy) : ceilingOf policy < 2 ^ 64 := by
  cases policy with
  | rotating policy => exact (by decide : legacySafeMaxSegmentPhysicalBytes < 2 ^ 64)
  | fixed maxBytes => exact maxBytes.toNat_lt

/-- The numbers of the tracker and the offset are such that a marker carries. -/
def WriterState.InRange (st : WriterState) : Prop :=
  st.compaction.framesSinceMarker + 1 < 2 ^ 32 ∧ st.offset < 2 ^ 64

/-- The task runs, its tracker covers what stands behind the last marker, and nothing stands behind
its offset. -/
structure Kept (cfg : Config) (r : Running) : Prop where
  tight : Tight cfg r.state.compaction 0 r.state r
  inRange : r.state.InRange

theorem kept_scripted : Scripted (Kept cfg) :=
  ⟨fun h hwithin => ⟨tight_scripted.keep h.tight hwithin, h.inRange⟩⟩

theorem Kept.ended (h : Kept cfg r) : Ended cfg r := h.tight.ended

theorem Kept.withScript (h : Kept cfg r) {script : Script} (hregular : script.Regular) :
    Kept cfg { r with script := script } :=
  ⟨⟨h.tight.closed, h.tight.begun, h.tight.follows, h.tight.atEnd, h.tight.told, rfl, hregular⟩,
    h.inRange⟩

/-- A marker may be written: one more frame than between the requests does not matter. -/
structure Due (cfg : Config) (r : Running) : Prop where
  tight : Tight cfg r.state.compaction 0 r.state r
  frames : r.state.compaction.framesSinceMarker < 2 ^ 32
  offset : r.state.offset < 2 ^ 64

theorem due_scripted : Scripted (Due cfg) :=
  ⟨fun h hwithin => ⟨tight_scripted.keep h.tight hwithin, h.frames, h.offset⟩⟩

theorem Kept.due (h : Kept cfg r) : Due cfg r :=
  ⟨h.tight, (Nat.lt_succ_self _).trans h.inRange.1, h.inRange.2⟩

variable {A : Type}

theorem ended {P Q' : Running → Prop} {x : Task A} {Q : A → Running → Prop}
    (h : Meets P x Q (fun _ => Q'))
    (hQ : ∀ r, Q' r → Ended cfg r) : Meets P x Q (fun _ => Ended cfg) :=
  h.fails fun _ r hr => hQ r hr

/-- The marker of the window that is open is read back as it was made. -/
theorem continues_marker {a tsNs : Nat} (hframes : c.framesSinceMarker < 2 ^ 32) (ha : a < 2 ^ 64)
    (hfrom : c.fromOffset ≤ a) (hnonempty : c.framesSinceMarker ≠ 0)
    (htype : event.header.eventType = eventTypeCompactionMarker)
    (hpayload : event.payload = (c.finaliseMarker key a).1.toVec tsNs) :
    Continues key c a event (.new (a + (encodeFrame event).length)) := by
  have hhex : ∀ x ∈ (c.finaliseMarker key a).1.hmacHex.toList, Spells [x] x := by
    rw [show (c.finaliseMarker key a).1.hmacHex = _ from rfl]
    exact spells_hexEncode _
  refine .marker htype ?_ hnonempty
  rw [hpayload]
  exact MarkerPayload.fromSlice_toVec ⟨hfrom.trans_lt ha, ha, hframes, (by decide : 0 < 2 ^ 32)⟩
    hhex tsNs

theorem Tight.fromOffset_le (h : Tight cfg c 0 st r) : c.fromOffset ≤ st.offset := by
  have hend : r.active.bytes.length = st.offset := h.atEnd
  have hopen := (openWindow_new le_rfl).of_follows h.follows
  exact hopen.spec.1.trans hend.le

/-- With its last window closed, the active segment may be closed. -/
theorem Kept.closed {r : Running} (h : Kept cfg r)
    (hnone : r.state.compaction.framesSinceMarker = 0) :
    ∀ s ∈ r.closed ++ [r.active], s.Closed cfg.key := by
  intro s hs
  rcases List.mem_append.mp hs with hs | hs
  · exact h.tight.closed s hs
  · rw [List.mem_singleton.mp hs]
    refine ⟨h.tight.begun, ?_⟩
    rw [← eq_new_of_follows h.tight.follows hnone]
    exact h.tight.follows

variable [Xxh3]

theorem meets_emitMarker (cfg : Config) : Meets (Due cfg) (emitCompactionMarker cfg)
    (fun _ r => r.state.compaction.framesSinceMarker = 0 ∧ Kept cfg r) (fun _ => Ended cfg) := by
  refine Meets.bind Meets.get fun r => Meets.ite (fun hnone => Meets.pure ?_) fun hnonempty =>
    Meets.forall_eq ?_
  · rintro s ⟨rfl, h⟩
    exact ⟨hnone, h.tight, (by rw [hnone]; decide), h.offset⟩
  rintro start ⟨rfl, h⟩
  -- the tracker is given away before the marker is written, so it is no longer that of the state
  let given : WriterState := { r.state with compaction := .new r.state.offset }
  refine Meets.bind (Q := fun _ => Tight cfg r.state.compaction 0 given) ?_ fun _ => ?_
  · refine Meets.modify ?_
    rintro _ rfl
    exact ⟨h.tight.closed, h.tight.begun, h.tight.follows, h.tight.atEnd, h.tight.told, rfl,
      h.tight.regular⟩
  refine Meets.bind tight_scripted.nextTime fun tsNs => ?_
  refine Meets.bind ((tight_scripted.syntheticFrame (fun _ hs => hs.regular.1) _ _).fails
    fun _ _ hs => hs.ended) fun frame =>
    Meets.given fun hframe => ?_
  refine Meets.bind (Q := fun _ s => frame.length ≤ maxCompactionMarkerFrameBytes ∧
    Tight cfg r.state.compaction 0 given s)
    (Meets.check (fun hle s hs => ⟨of_decide_eq_true hle, hs⟩) fun _ s hs => hs.ended) fun _ =>
      Meets.given fun hle => ?_
  have hlength := hframe.length_eq
  obtain ⟨event, hevent, htype, hpayload, rfl⟩ := hframe.readable (by
    simp only [maxCompactionMarkerFrameBytes, maxPayloadBytes] at hle ⊢
    omega)
  have hnext : Continues cfg.key r.state.compaction given.offset event
      (.new (given.offset + (encodeFrame event).length)) :=
    continues_marker h.frames h.offset h.tight.fromOffset_le hnonempty htype hpayload
  refine Meets.bind ((meets_ensureFrameFits cfg _).fails fun _ _ hs => hs.ended) fun _ =>
    Meets.forall_eq ?_
  rintro s ⟨hfits, hs⟩
  refine Meets.bind (((meets_writeAndSync_tight hevent hnext).pre ?_).fails fun _ _ hs => hs.ended)
    fun _ =>
    Meets.modify fun t ht => ?_
  · rintro _ rfl
    exact hs
  · have hoffset : t.state.offset = given.offset := congrArg WriterState.offset ht.1.state
    have hs' : s.state.offset = given.offset := congrArg WriterState.offset hs.state
    have hceiling := ceilingOf_lt cfg.policy
    refine ⟨rfl, ⟨ht.1.closed, ht.1.begun, ?_, ?_, ?_, rfl, ht.1.regular⟩,
      (by decide : 0 + 1 < 2 ^ 32), ?_⟩
    · show Follows _ _ _ _ (.new (t.state.offset + (encodeFrame event).length)) _
      rw [hoffset]
      exact ht.1.follows
    · show _ = t.state.offset + _ + 0
      rw [hoffset]
      exact ht.1.atEnd
    · show t.state.lastWriteErr = false
      rw [ht.1.state]
      exact ht.1.told
    · show t.state.offset + _ < 2 ^ 64
      omega

/-! ## Rotation -/

/-- The successor begins with a closed window. -/
theorem IsSuccessor.follows {link : SegmentLink} {bytes : List UInt8}
    (h : IsSuccessor cfg link bytes) (hle : bytes.length ≤ maxRotationSuccessorPrefixBytes) :
    Follows cfg.key bytes (.new segmentHeaderLen) segmentHeaderLen (.new bytes.length)
      bytes.length := by
  obtain ⟨first, second, hfirst, hsecond, hrollover, htype, hpayload, rfl⟩ := h.frames hle
  generalize hheader : newSegmentHeaderBytes link.openedSeq link.openedStartTsNs = header at hle ⊢
  have hheaderLen : header.length = segmentHeaderLen := hheader ▸ length_newSegmentHeaderBytes _ _
  have hlen : (header ++ encodeFrame first).length =
      segmentHeaderLen + (encodeFrame first).length := by
    rw [List.length_append, hheaderLen]
  rw [← List.append_assoc, List.length_append, hlen] at hle
  have hone : Follows cfg.key (header ++ encodeFrame first) (.new segmentHeaderLen) segmentHeaderLen
      ((CompactionState.new segmentHeaderLen).update (encodeFrame first))
        (header ++ encodeFrame first).length := by
    have hoperator : first.header.eventType ≠ eventTypeCompactionMarker := by
      rw [hrollover]
      decide
    have hstart : Follows cfg.key header (.new segmentHeaderLen) segmentHeaderLen
        (.new segmentHeaderLen) header.length := by
      rw [hheaderLen]
      exact .refl _ _
    rw [List.length_append]
    exact (Continues.frame hoperator).follows hfirst hstart
  have hmax : maxRotationSuccessorPrefixBytes < 2 ^ 64 := by decide
  have hmarker :
      Continues cfg.key ((CompactionState.new segmentHeaderLen).update (encodeFrame first))
      (header ++ encodeFrame first).length second
      (.new ((header ++ encodeFrame first).length + (encodeFrame second).length)) := by
    refine continues_marker (by decide : 1 < 2 ^ 32) ?_ ?_
      (by decide : 1 ≠ 0) htype (by rw [hlen]; exact hpayload)
    · omega
    · rw [hlen]
      exact Nat.le_add_right _ _
  have htwo := hmarker.follows hsecond hone
  rwa [← List.length_append, List.append_assoc] at htwo

/-- The successor is the active segment, and the state has not followed yet. -/
structure Followed (cfg : Config) (bytes : List UInt8) (r : Running) : Prop where
  closed : ∀ s ∈ r.closed, s.Closed cfg.key
  active : r.active = .published bytes
  regular : r.script.Regular

omit [Xxh3] in
theorem meets_publish_kept {bytes : List UInt8}
    (hsettled : (Segment.published bytes).Settled cfg.key) :
    Meets (fun r => Kept cfg r ∧ r.state.compaction.framesSinceMarker = 0) (publish bytes)
      (fun _ => Followed cfg bytes) (fun _ => Ended cfg) := by
  have hscripted : Scripted fun r => Kept cfg r ∧ r.state.compaction.framesSinceMarker = 0 :=
    kept_scripted.and fun h => h
  have hpublished : ∀ r : Running, Kept cfg r ∧ r.state.compaction.framesSinceMarker = 0 →
      Followed cfg bytes { r with closed := r.closed ++ [r.active], active := .published bytes } :=
    fun r h => ⟨h.1.closed h.2, rfl, h.1.tight.regular⟩
  refine Meets.bind hscripted.nextIo fun outcome => ?_
  cases outcome with
  | done => exact Meets.modify hpublished
  | failed reached =>
    cases reached with
    | zero => exact Meets.throw fun r h => h.1.ended
    | succ reached =>
      refine Meets.bind (Q := fun _ => Followed cfg bytes) (Meets.modify hpublished) fun _ =>
        Meets.throw fun r h => ?_
      exact ⟨h.closed, h.active ▸ hsettled⟩

theorem meets_rotateKept (cfg : Config) (reason : RotationReason) :
    Meets (Kept cfg) (rotate cfg reason) (fun _ => Kept cfg) (fun _ => Ended cfg) := by
  -- the last window stays closed up to the publication
  have hscripted : Scripted fun r => Kept cfg r ∧ r.state.compaction.framesSinceMarker = 0 :=
    kept_scripted.and fun h => h
  have hended : ∀ r, (Kept cfg r ∧ r.state.compaction.framesSinceMarker = 0) → Ended cfg r :=
    fun r h => h.1.ended
  have hsync : ∀ r, (Kept cfg r ∧ r.state.compaction.framesSinceMarker = 0) →
      Kept cfg (r.setActive r.active.sync) ∧ r.state.compaction.framesSinceMarker = 0 :=
    fun r h => ⟨⟨h.1.tight.sync, h.1.inRange⟩, h.2⟩
  refine Meets.bind ((meets_emitMarker cfg).mono (fun _ h => h.due) (fun _ _ h => h.symm)
    fun _ _ h => h) fun _ => ?_
  refine Meets.bind (ended (meets_syncData_of hscripted hsync) hended) fun _ => ?_
  refine Meets.bind (ended (hscripted.tryIo _) hended) fun _ => ?_
  refine Meets.bind (Q := fun a r => a = r ∧ Kept cfg r ∧ r.state.compaction.framesSinceMarker = 0)
    Meets.get fun r => ?_
  refine Meets.bind (Q := fun _ r => Kept cfg r ∧ r.state.compaction.framesSinceMarker = 0)
    (Meets.check (fun _ s h => h.2) fun _ s h => h.2.1.ended) fun _ => ?_
  cases parseSegmentHeader r.active.bytes with
  | error e => exact Meets.throw fun s h => h.1.ended
  | ok predecessor =>
    refine Meets.bind (Q := fun _ r => Kept cfg r ∧ r.state.compaction.framesSinceMarker = 0)
      (Meets.check (fun _ s h => h) fun _ s h => h.1.ended) fun _ => ?_
    refine Meets.bind hscripted.nextTime fun nowNs => ?_
    refine Meets.bind (ended (hscripted.successorPrefix (fun _ h => h.1.tight.regular.1) cfg _)
      hended) fun bytes => Meets.given fun hsuccessor => ?_
    refine Meets.bind (Q := fun _ s => bytes.length ≤ maxRotationSuccessorPrefixBytes ∧
      Kept cfg s ∧ s.state.compaction.framesSinceMarker = 0)
      (Meets.check (fun hle s h => ⟨of_decide_eq_true hle, h⟩) fun _ s h => h.1.ended) fun _ => ?_
    refine Meets.given fun hle => ?_
    have hfollows := hsuccessor.follows hle
    have hbegun : ∃ seq openedAtNs rest, bytes = newSegmentHeaderBytes seq openedAtNs ++ rest := by
      obtain ⟨linkFrame, markerFrame, -, -, rfl⟩ := hsuccessor
      exact ⟨_, _, _, rfl⟩
    refine Meets.bind (meets_publish_kept (.of_follows_end hbegun hfollows)) fun _ =>
      Meets.modify fun s h => ?_
    have hbytes : s.active.bytes = bytes := congrArg Segment.bytes h.active
    refine ⟨⟨h.closed, ?_, ?_, ?_, rfl, rfl, h.regular⟩, (by decide : 0 + 1 < 2 ^ 32), ?_⟩
    · exact hbytes.symm ▸ hbegun
    · show Follows _ s.active.bytes _ _ (.new bytes.length) s.active.bytes.length
      rw [hbytes]
      exact hfollows
    · exact congrArg List.length hbytes
    · exact hle.trans_lt (by decide)

/-! ## Barriers -/

omit [Xxh3] in
theorem kept_ended : ∀ r, Kept cfg r → Ended cfg r := fun _ h => h.ended

omit [Xxh3] in
theorem Kept.setPending {r : Running} (h : Kept cfg r) (pending : Bool) :
    Kept cfg (r.setPending pending) :=
  ⟨⟨h.tight.closed, h.tight.begun, h.tight.follows, h.tight.atEnd, h.tight.told, rfl,
    h.tight.regular⟩, h.inRange⟩

theorem meets_markerBehindKept (cfg : Config) :
    Meets (Due cfg) (markerBehind cfg) (fun _ => Kept cfg) (fun _ => Ended cfg) := by
  refine Meets.bind (ended due_scripted.validate fun r h => h.tight.ended) fun _ => ?_
  exact Meets.bind (meets_emitMarker cfg) fun _ => Meets.modify fun r h => h.2.setPending false

variable {start : Running}

/-- A barrier that goes on after its marker has failed is one whose marker does not fail. -/
theorem meets_barrierKept (once : Once) (hstart : Kept cfg start)
    (hmarker : once.kind.goesOn → once.matchesRequest → once.authorityAcquired →
      ∀ e r, emitCompactionMarker cfg start ≠ (.error e, r)) :
    Meets (· = start) (barrier cfg once) (fun _ => Kept cfg) (fun _ => Ended cfg) := by
  have hvalidate : ∀ c : Bool, Meets (Kept cfg) (Prog.when validate c) (fun _ => Kept cfg)
      (fun _ => Ended cfg) :=
    fun c => Meets.when (fun _ => ended kept_scripted.validate kept_ended) fun _ r h => h
  refine Meets.ite (fun _ => Meets.pure fun r h => h ▸ hstart) fun hserved => ?_
  obtain ⟨hmatches, hauthority⟩ : once.matchesRequest = true ∧ once.authorityAcquired = true := by
    simpa using hserved
  -- only the barriers that do not go on validate first
  refine Meets.bind (Q := fun _ r => Kept cfg r ∧ (once.kind.goesOn → r = start)) ?_ fun _ => ?_
  · cases hkind : once.kind.validates with
    | true =>
      have hnot : once.kind.goesOn = false := by
        revert hkind
        cases once.kind <;> decide
      refine (hvalidate true).mono (fun r (h : r = start) => h ▸ hstart) (fun _ r h => ⟨h, ?_⟩)
        fun _ _ h => h
      simp [hnot]
    | false => exact Meets.pure fun r h => ⟨h ▸ hstart, fun _ => h⟩
  refine Meets.bind (Q := fun a r => a = r ∧ Kept cfg r ∧ (once.kind.goesOn → r = start)) Meets.get
    fun r => ?_
  refine Meets.bind (Q := fun result s => (∀ e, result = .error e → once.kind.goesOn = false) ∧
    if result.isOk then Kept cfg s else Ended cfg s) ?_ fun result => Meets.given fun hresult => ?_
  · rintro s ⟨-, hs, hsame⟩
    have hemit := meets_emitMarker cfg s hs.due
    show (∀ e, (emitCompactionMarker cfg s).1 = .error e → _) ∧
      if (emitCompactionMarker cfg s).1.isOk then _ else _
    rcases houtcome : emitCompactionMarker cfg s with ⟨e | done, next⟩ <;> rw [houtcome] at hemit
    · refine ⟨fun e' _ => ?_, hemit⟩
      by_contra hgoes
      rw [Bool.not_eq_false] at hgoes
      rw [hsame hgoes] at houtcome
      exact hmarker hgoes hmatches hauthority _ _ houtcome
    · exact ⟨(fun e h => by cases h), hemit.2⟩
  · cases result with
    | error e =>
      refine Meets.ite (fun hgoes => ?_) fun _ => Meets.throw fun s h => h
      exact absurd hgoes (by rw [hresult e rfl]; decide)
    | ok done =>
      refine Meets.bind (Q := fun _ => Kept cfg) ?_ fun _ => Meets.bind (hvalidate _) fun _ => ?_
      · exact Meets.when (fun _ => Meets.modify fun s h => h.setPending false) fun _ s h => h
      · exact Meets.pure fun s h => h

/-! ## Requests -/

/-- The request does not meet with a barrier that goes on after its marker has failed. -/
def Request.BarrierHolds (cfg : Config) (req : Request) (start : Running) : Prop :=
  req.isAdmissible → ∀ once ∈ req.once, once.kind.goesOn → once.matchesRequest →
  once.authorityAcquired →
    ∀ r, validate start = (.ok (), r) → ∀ e s, emitCompactionMarker cfg r ≠ (.error e, s)

theorem meets_makeRoomKept (cfg : Config) (req : Request) :
    Meets (Kept cfg) (makeRoom cfg req)
      (fun _ r => r.state.offset + (encodeFrame req.event).length < 2 ^ 64 ∧ Kept cfg r)
        (fun _ => Ended cfg) := by
  have hrotate : ∀ reason, Meets (Kept cfg) (rotateFor cfg reason) (fun _ => Kept cfg)
      (fun _ => Ended cfg) := by
    intro reason
    cases reason with
    | none => exact Meets.pure fun r h => h
    | some reason =>
      refine Meets.bind (ended kept_scripted.validate kept_ended) fun _ => ?_
      refine Meets.bind (Q := fun a r => a = r ∧ Kept cfg r) Meets.get fun r => ?_
      refine Meets.bind (Q := fun _ => Kept cfg) ?_ fun _ => meets_rotateKept cfg reason
      refine Meets.when (fun _ => ?_) fun _ s h => h.2
      have hsync := meets_syncData_of kept_scripted fun r (h : Kept cfg r) =>
        ⟨h.tight.sync, h.inRange⟩
      exact Meets.bind ((ended hsync kept_ended).pre fun s h => h.2) fun _ =>
        Meets.modify fun s h => h.setPending false
  refine Meets.bind (Q := fun a r => a = r ∧ Kept cfg r) Meets.get fun r => ?_
  refine Meets.bind (kept_scripted.nextTime.pre fun s h => h.2) fun nowNs => ?_
  refine Meets.bind (hrotate _) fun _ => Meets.bind (ended kept_scripted.validate kept_ended)
    fun _ => ?_
  refine (meets_ensureFrameFits cfg _).mono (fun _ h => h) (fun _ s h => ⟨?_, h.2⟩) fun _ s h =>
    h.ended
  have hceiling := ceilingOf_lt cfg.policy
  omega

variable {req : Request}

theorem meets_prepareKept (hstart : Kept cfg start) (hbarrier : req.BarrierHolds cfg start) :
    Meets (· = start) (prepare cfg req)
      (fun answer r => (answer = none → r.state.offset + (encodeFrame req.event).length < 2 ^ 64) ∧
        Kept cfg r)
      (fun _ => Ended cfg) := by
  have hroom : Meets (Kept cfg) (makeRoom cfg req >>= fun _ => pure (none : Option Answer))
      (fun answer r => (answer = none → r.state.offset + (encodeFrame req.event).length < 2 ^ 64) ∧
        Kept cfg r)
      (fun _ => Ended cfg) :=
    Meets.bind (meets_makeRoomKept cfg req) fun _ => Meets.pure fun r h => ⟨fun _ => h.1, h.2⟩
  have hanswer : ∀ answer : Answer, Meets (Kept cfg) (pure (some answer) : Task (Option Answer))
      (fun answer r => (answer = none → r.state.offset + (encodeFrame req.event).length < 2 ^ 64) ∧
        Kept cfg r)
      (fun _ => Ended cfg) := fun answer => Meets.pure fun r h => ⟨(fun h => by cases h), h⟩
  refine Meets.ite (fun _ => Meets.pure fun r h => ⟨(fun h => by cases h), h ▸ hstart⟩)
    fun hadmissible => ?_
  have hadmissible : req.isAdmissible = true := by simpa using hadmissible
  -- a barrier of the first kind does not go on, and one of the second kind starts behind the
  -- validation
  have hearly : Meets (· = start) (barrierOf cfg req true)
      (fun answer r => Kept cfg r ∧ (∀ once ∈ req.once, once.kind.goesOn → r = start))
        (fun _ => Ended cfg) := by
    unfold barrierOf
    cases honce : req.once with
    | none => exact Meets.pure fun r h => ⟨h ▸ hstart, by simp⟩
    | some once =>
      refine Meets.ite (fun hkind => ?_) fun _ => Meets.pure fun r h => ⟨h ▸ hstart, fun _ _ _ => h⟩
      have hnot : once.kind.goesOn = false := by
        revert hkind
        cases once.kind <;> decide
      refine (meets_barrierKept once hstart ?_).mono (fun _ h => h) (fun _ r h => ⟨h, ?_⟩)
        fun _ _ h => h
      · simp [hnot]
      · rintro other ⟨⟩
        simp [hnot]
  refine Meets.bind hearly fun early => ?_
  cases early with
  | some answer => exact (hanswer answer).pre fun r h => h.1
  | none =>
    refine Meets.bind (Q := fun _ r => Kept cfg r ∧
      (∀ once ∈ req.once, once.kind.goesOn → validate start = (.ok (), r))) ?_ fun _ =>
        Meets.forall_eq ?_
    · rintro r ⟨hr, hsame⟩
      have hvalidate := kept_scripted.validate r hr
      rcases houtcome : validate r with ⟨e | done, next⟩ <;> rw [houtcome] at hvalidate
      · exact (hvalidate : Kept cfg next).ended
      · refine ⟨hvalidate, fun once honce hgoes => ?_⟩
        rw [← hsame once honce hgoes]
        exact houtcome
    · rintro r ⟨hr, hsame⟩
      have hlate : Meets (· = r) (barrierOf cfg req false) (fun _ => Kept cfg)
          (fun _ => Ended cfg) := by
        unfold barrierOf
        cases honce : req.once with
        | none => exact Meets.pure fun s h => h ▸ hr
        | some once =>
          refine Meets.ite (fun _ => ?_) fun _ => Meets.pure fun s h => h ▸ hr
          refine meets_barrierKept once hr fun hgoes hmatches hauthority => ?_
          exact hbarrier hadmissible once honce hgoes hmatches hauthority r (hsame once honce hgoes)
      refine Meets.bind hlate fun late => ?_
      cases late with
      | some answer => exact hanswer answer
      | none => exact hroom

/-! ## Behind a failed write -/

/-- The file ends at the offset of the writer, where the next frame is expected. -/
def Running.AtEnd (r : Running) : Prop := r.active.bytes.length = r.state.offset

/-- The task runs, and its tracker covers what stands before its offset; a failed write may have
left bytes behind it. -/
structure Alive (cfg : Config) (r : Running) : Prop where
  torn : Torn cfg r.state.compaction r.state r
  inRange : r.state.InRange

omit [Xxh3] in
theorem alive_scripted : Scripted (Alive cfg) :=
  ⟨fun h hwithin => ⟨torn_scripted.keep h.torn hwithin, h.inRange⟩⟩

omit [Xxh3] in
theorem Alive.withScript {r : Running} (h : Alive cfg r) {script : Script}
    (hregular : script.Regular) : Alive cfg { r with script := script } :=
  ⟨⟨⟨h.torn.ended.closed, h.torn.ended.active⟩, h.torn.follows, h.torn.within, h.torn.told, rfl,
    hregular⟩, h.inRange⟩

omit [Xxh3] in
theorem alive_ended : ∀ r, Alive cfg r → Ended cfg r := fun _ h => h.torn.ended

omit [Xxh3] in
theorem Kept.alive {r : Running} (h : Kept cfg r) : Alive cfg r := ⟨h.tight.torn, h.inRange⟩

omit [Xxh3] in
theorem Alive.kept {r : Running} (h : Alive cfg r) (hend : r.AtEnd) : Kept cfg r := by
  refine ⟨⟨h.torn.ended.closed, h.torn.ended.active.begun, ?_, hend, h.torn.told, rfl,
    h.torn.regular⟩, h.inRange⟩
  rw [show r.active.bytes.length = r.state.offset from hend]
  exact h.torn.follows

omit [Xxh3] in
theorem Alive.setPending {r : Running} (h : Alive cfg r) (pending : Bool) :
    Alive cfg (r.setPending pending) :=
  ⟨⟨⟨h.torn.ended.closed, h.torn.ended.active⟩, h.torn.follows, h.torn.within, h.torn.told, rfl,
    h.torn.regular⟩, h.inRange⟩

omit [Xxh3] in
theorem meets_syncAlive : Meets (Alive cfg) syncData (fun _ => Alive cfg) (fun _ => Alive cfg) :=
  meets_syncData_of alive_scripted fun _ h => ⟨h.torn.sync, h.inRange⟩

/-- The request is answered without a byte being written: it may not write its event, its descriptor
does not fit, or its lookup has found something when no window is open. -/
def Request.WritesNothing (req : Request) (compaction : CompactionState) : Prop :=
  req.isAdmissible = false ∨ ∃ once ∈ req.once, once.matchesRequest = false ∨
  once.authorityAcquired = false ∨
    (compaction.framesSinceMarker = 0 ∧ once.lookup.answer.isSome)

/-- The tracker is left as it is. -/
def Idle (cfg : Config) (c : CompactionState) (r : Running) : Prop :=
  Alive cfg r ∧ r.state.compaction = c

omit [Xxh3] in
theorem idle_scripted : Scripted (Idle cfg c) := alive_scripted.and fun h => h

omit [Xxh3] in
theorem idle_ended : ∀ r, Idle cfg c r → Ended cfg r := fun r h => alive_ended r h.1

theorem meets_emitIdle (cfg : Config) (hnone : c.framesSinceMarker = 0) :
    Meets (Idle cfg c) (emitCompactionMarker cfg) (fun _ => Idle cfg c) (fun _ _ => False) := by
  refine Meets.bind Meets.get fun r => Meets.ite (fun _ => Meets.pure fun s h => h.2)
    fun hnonempty => ?_
  rintro s ⟨rfl, h⟩
  exact absurd (h.2 ▸ hnone) hnonempty

theorem meets_barrierIdle {once : Once}
    (hnothing : once.matchesRequest = false ∨ once.authorityAcquired = false ∨
      (c.framesSinceMarker = 0 ∧ once.lookup.answer.isSome)) :
    Meets (Idle cfg c) (barrier cfg once) (fun answer r => answer.isSome ∧ Alive cfg r)
      (fun _ => Ended cfg) := by
  have hvalidate : ∀ b : Bool, Meets (Idle cfg c) (Prog.when validate b) (fun _ => Idle cfg c)
      (fun _ => Ended cfg) :=
    fun b => Meets.when (fun _ => ended idle_scripted.validate idle_ended) fun _ r h => h
  refine Meets.ite (fun _ => Meets.pure fun r h => ⟨rfl, h.1⟩) fun hserved => ?_
  obtain ⟨hmatches, hauthority⟩ : once.matchesRequest = true ∧ once.authorityAcquired = true := by
    simpa using hserved
  obtain ⟨hnone, hanswer⟩ : c.framesSinceMarker = 0 ∧ once.lookup.answer.isSome := by
    simpa [hmatches, hauthority] using hnothing
  refine Meets.bind (hvalidate _) fun _ => ?_
  refine Meets.bind (Q := fun a r => a = r ∧ Idle cfg c r) Meets.get fun r => ?_
  refine Meets.bind (Q := fun result s => result.isOk = true ∧ Idle cfg c s) ?_ fun result =>
    Meets.given fun hok => ?_
  · exact Meets.attempt ((meets_emitIdle cfg hnone).mono (fun s h => h.2) (fun _ s h => ⟨rfl, h⟩)
      fun _ _ h => h.elim)
  · cases result with
    | error e => exact absurd hok Bool.false_ne_true
    | ok done =>
      refine Meets.bind (Q := fun _ => Idle cfg c) ?_ fun _ => Meets.bind (hvalidate _) fun _ => ?_
      · exact Meets.when (fun _ => Meets.modify fun s h => ⟨h.1.setPending false, h.2⟩) fun _ s h =>
          h
      · exact Meets.pure fun s h => ⟨hanswer, h.1⟩

theorem meets_prepareIdle (hstart : Alive cfg start)
    (hnothing : req.WritesNothing start.state.compaction) :
    Meets (· = start) (prepare cfg req) (fun answer r => answer.isSome ∧ Alive cfg r)
      (fun _ => Ended cfg) := by
  refine Meets.ite (fun _ => Meets.pure fun r h => ⟨rfl, h ▸ hstart⟩) fun hadmissible => ?_
  rcases hnothing with hrefused | ⟨once, honce, hnothing⟩
  · exact absurd hrefused (by simpa using hadmissible)
  have hbarrier : Meets (Idle cfg start.state.compaction) (barrier cfg once)
      (fun answer r => answer.isSome ∧ Alive cfg r) (fun _ => Ended cfg) :=
        meets_barrierIdle hnothing
  have hidle : ∀ r, r = start → Idle cfg start.state.compaction r :=
    fun r h => ⟨h ▸ hstart, h ▸ rfl⟩
  have hnever : ∀ (x : Task (Option Answer)),
      Meets (fun r => (none : Option Answer).isSome = true ∧ Alive cfg r) x
      (fun answer r => answer.isSome ∧ Alive cfg r) (fun _ => Ended cfg) :=
        fun x r h => absurd h.1 (by decide)
  have hof : ∀ early, barrierOf cfg req early = if once.kind.isEarly = early then barrier cfg once
      else pure none := by
    intro early
    unfold barrierOf
    rw [Option.mem_def.mp honce]
  rw [hof true, hof false]
  cases once.kind.isEarly with
  | true =>
    refine Meets.bind (hbarrier.pre hidle) fun early => ?_
    cases early with
    | some answer => exact Meets.pure fun r h => h
    | none => exact hnever _
  | false =>
    refine Meets.bind (Q := fun answer r => answer = none ∧ Idle cfg start.state.compaction r)
      (Meets.pure fun r h => ⟨rfl, hidle r h⟩) fun early => Meets.given fun hnone => ?_
    subst hnone
    refine Meets.bind (ended idle_scripted.validate idle_ended) fun _ =>
      Meets.bind hbarrier fun late => ?_
    cases late with
    | some answer => exact Meets.pure fun r h => h
    | none => exact hnever _

/-! ## Frames of requests -/

/-- The request carries an event of its own, not a marker. -/
def Request.IsOperator (req : Request) : Prop :=
  req.event.header.eventType ≠ eventTypeCompactionMarker

theorem meets_writeFrameKept (hstamped : req.Stamped) (hoperator : req.IsOperator) :
    Meets (fun r => r.state.offset + (encodeFrame req.event).length < 2 ^ 64 ∧ Kept cfg r)
      (writeFrame cfg req) (fun _ => Alive cfg) (fun _ => Ended cfg) := by
  have hreadable := Request.readable hstamped
  refine Meets.forall_eq ?_
  rintro start ⟨hfits, hstart⟩
  have hnext : Continues cfg.key start.state.compaction start.state.offset req.event
      (start.state.compaction.update (encodeFrame req.event)) := .frame hoperator
  have hwrite : Meets (· = start)
      (if needsImmediateSync req.event.header.eventType then writeAndSync (encodeFrame req.event)
        else writeOnly (encodeFrame req.event))
      (fun _ => Tight cfg (start.state.compaction.update (encodeFrame req.event))
        (encodeFrame req.event).length
        start.state) (fun _ => Torn cfg start.state.compaction start.state) := by
    refine Meets.ite (fun _ => ?_) fun _ => ?_
    · exact (meets_writeAndSync_tight hreadable hnext).mono
        (fun r (h : r = start) => h ▸ hstart.tight) (fun _ r h => h.1) fun _ r h => h
    · exact (meets_writeOnly_tight hreadable hnext).mono (fun r (h : r = start) => h ▸ hstart.tight)
        (fun _ r h => h.1) fun _ r h => h
  refine Meets.bind (Q := fun result r => if result.isOk then
    Tight cfg (start.state.compaction.update (encodeFrame req.event)) (encodeFrame req.event).length
      start.state r
    else Torn cfg start.state.compaction start.state r) (Meets.attempt hwrite) fun result => ?_
  cases result with
  | error e =>
    refine Meets.ite (fun _ => Meets.throw fun r h => h.ended) fun _ => Meets.pure fun r h => ?_
    have hstate : r.state = start.state := h.state
    refine ⟨?_, ?_⟩
    · rw [hstate]
      exact h
    · rw [hstate]
      exact hstart.inRange
  | ok written =>
    refine Meets.bind Meets.get fun before => ?_
    refine Meets.bind (Q := fun _ => Due cfg) (Meets.modify ?_) fun _ => ?_
    · rintro r ⟨-, h⟩
      have hstate : r.state = start.state := h.state
      refine ⟨⟨h.closed, h.begun, ?_, ?_, ?_, rfl, h.regular⟩, ?_, ?_⟩
      · show Follows _ _ _ _ (r.state.compaction.update _) _
        rw [hstate]
        exact h.follows
      · show _ = r.state.offset + _
        rw [hstate]
        exact h.atEnd
      · show r.state.lastWriteErr = false
        rw [hstate]
        exact hstart.tight.told
      · show r.state.compaction.framesSinceMarker + 1 < 2 ^ 32
        rw [hstate]
        exact hstart.inRange.1
      · show r.state.offset + _ < 2 ^ 64
        rw [hstate]
        exact hfits
    refine Meets.bind Meets.get fun r => ?_
    refine Meets.bind (Q := fun _ => Kept cfg) (Meets.when (fun _ => ?_) fun hnot s h => ?_)
      fun _ => ?_
    · exact (meets_markerBehindKept cfg).pre fun s h => h.2
    · obtain ⟨rfl, h⟩ := h
      refine ⟨h.tight, ?_, h.offset⟩
      have hfew : ¬ maxFramesBetweenMarkers ≤ r.state.compaction.framesSinceMarker := by
        intro hmany
        simp [CompactionState.shouldEmit, hmany] at hnot
      have hmax : maxFramesBetweenMarkers + 1 < 2 ^ 32 := by decide
      omega
    · refine Meets.bind (Q := fun _ => Alive cfg) (Meets.modify fun s h => ?_) fun _ =>
        Meets.pure fun s h => h
      have halive := h.alive
      exact ⟨⟨⟨halive.torn.ended.closed,
        ⟨halive.torn.ended.active.begun, halive.torn.ended.active.follows⟩⟩, halive.torn.follows,
        halive.torn.within, halive.torn.told, rfl, halive.torn.regular⟩, halive.inRange⟩

/-- What a request to a running task must meet. -/
def Request.Covered (cfg : Config) (req : Request) (start : Running) : Prop :=
  (start.AtEnd ∧ req.BarrierHolds cfg start) ∨ req.WritesNothing start.state.compaction

/-- Where its frame is written, the file ends at the offset. -/
theorem meets_prepareCovered (hstart : Alive cfg start) (hcovered : req.Covered cfg start) :
    Meets (· = start) (prepare cfg req)
      (fun answer r => Alive cfg r ∧ (answer = none →
        r.state.offset + (encodeFrame req.event).length < 2 ^ 64 ∧ Kept cfg r)) (fun _ =>
          Ended cfg) := by
  rcases hcovered with ⟨hend, hbarrier⟩ | hnothing
  · exact (meets_prepareKept (hstart.kept hend) hbarrier).mono (fun _ h => h)
      (fun _ r h => ⟨h.2.alive, fun hnone => ⟨h.1 hnone, h.2⟩⟩) fun _ _ h => h
  · refine (meets_prepareIdle hstart hnothing).mono (fun _ h => h) (fun answer r h => ⟨h.2, ?_⟩)
      fun _ _ h => h
    rintro rfl
    exact absurd h.1 (by decide)

theorem meets_serveCovered (hstamped : req.Stamped) (hoperator : req.IsOperator)
    (hstart : Alive cfg start) (hcovered : req.Covered cfg start) :
    Meets (· = start) (serve cfg req) (fun _ => Alive cfg) (fun _ => Ended cfg) := by
  refine Meets.bind (meets_prepareCovered hstart hcovered) fun answer => ?_
  cases answer with
  | some answer => exact Meets.pure fun r h => h.1
  | none => exact (meets_writeFrameKept hstamped hoperator).pre fun r h => h.2 rfl

omit [Xxh3] in
theorem meets_flushAlive (cfg : Config) :
    Meets (Alive cfg) (flush cfg) (fun _ => Alive cfg) (fun _ => Ended cfg) := by
  refine Meets.bind (ended alive_scripted.validate alive_ended) fun _ => ?_
  refine Meets.bind (Q := fun _ => Alive cfg) (Meets.attempt meets_syncAlive) fun result => ?_
  cases result with
  | error e =>
    exact Meets.ite (fun _ => Meets.throw fun r h => alive_ended r h) fun _ =>
      Meets.pure fun r h => h
  | ok done =>
    exact Meets.bind (Q := fun _ => Alive cfg) (Meets.modify fun r h => h.setPending false) fun _ =>
      Meets.pure fun r h => h

theorem meets_shutdownAlive (hstart : Alive cfg start)
    (hclosing : start.AtEnd ∨ start.state.compaction.framesSinceMarker = 0) :
    Meets (· = start) (shutdown cfg) (fun _ => Alive cfg) (fun _ => Ended cfg) := by
  have hmarker : Meets (· = start) (markerBehind cfg) (fun _ => Alive cfg)
      (fun _ => Ended cfg) := by
    rcases hclosing with hend | hnone
    · exact (meets_markerBehindKept cfg).mono (fun r (h : r = start) => h ▸ (hstart.kept hend).due)
        (fun _ r h => h.alive) fun _ _ h => h
    · refine Meets.bind
        ((ended (idle_scripted (c := start.state.compaction)).validate idle_ended).pre ?_) fun _ =>
          ?_
      · rintro r rfl
        exact ⟨hstart, rfl⟩
      · refine Meets.bind ((meets_emitIdle cfg hnone).fails fun _ _ h => h.elim) fun _ => ?_
        exact Meets.modify fun r h => h.1.setPending false
  have hfinal : Meets (Alive cfg) (finalSync cfg) (fun _ => Alive cfg) (fun _ => Ended cfg) := by
    refine Meets.bind (Q := fun _ => Alive cfg) (Meets.attempt meets_syncAlive) fun result => ?_
    cases result with
    | error e =>
      exact Meets.ite (fun _ => Meets.throw fun r h => alive_ended r h) fun _ =>
        Meets.pure fun r h => h
    | ok done => exact Meets.pure fun r h => h
  refine Meets.bind (Q := fun _ => Alive cfg)
    (Meets.when (fun _ => hmarker) fun _ r h => h ▸ hstart) fun _ => ?_
  refine Meets.bind (ended alive_scripted.validate alive_ended) fun _ => ?_
  refine Meets.bind (Q := fun a r => a = r ∧ Alive cfg r) Meets.get fun r => ?_
  refine Meets.bind (Q := fun _ => Alive cfg) ?_ fun _ => ended alive_scripted.validate alive_ended
  exact Meets.when (fun _ => hfinal.pre fun s h => h.2) fun _ s h => h.2

/-! ## Starting -/

omit [Sha256] [Xxh3] in
theorem parse_of_begun {bytes : List UInt8}
    (h : ∃ seq openedAtNs rest, bytes = newSegmentHeaderBytes seq openedAtNs ++ rest) :
    ∃ header, parseSegmentHeader bytes = .ok (.v1 header) := by
  obtain ⟨seq, openedAtNs, rest, rfl⟩ := h
  obtain ⟨header, hparse, -⟩ := parse_newSegmentHeaderBytes seq openedAtNs
  refine ⟨header, parseSegmentHeader_congr (n := segmentHeaderLen) ?_ ?_ ?_ le_rfl hparse⟩
  · rw [List.take_append_of_le_length (length_newSegmentHeaderBytes _ _).ge]
  · exact (length_newSegmentHeaderBytes _ _).ge
  · rw [List.length_append, length_newSegmentHeaderBytes]
    exact Nat.le_add_right _ _

omit [Xxh3] in
/-- The tracker of a segment that is followed to its end is rebuilt. -/
theorem recover_of_begun {bytes : List UInt8} {keys : List (List UInt8)}
    (hbegun : ∃ seq openedAtNs rest, bytes = newSegmentHeaderBytes seq openedAtNs ++ rest)
    (h : Follows key bytes (.new segmentHeaderLen) segmentHeaderLen c bytes.length)
    (hkey : key ∈ keys) : recoverCompactionState keys bytes = .ok c := by
  obtain ⟨header, hparse⟩ := parse_of_begun hbegun
  exact recover_of_follows hparse rfl h hkey

omit [Xxh3] in
/-- The scan resumes behind what is followed. -/
theorem Segment.Settled.scan {s : Segment} (h : s.Settled key) :
    ∃ c b, Follows key s.bytes (.new segmentHeaderLen) segmentHeaderLen c b ∧ b ≤ s.bytes.length ∧
      scanTailFile s.bytes = if b < s.bytes.length then .tornAt b b else .clean b := by
  obtain ⟨c, b, hfollows, hstop⟩ := h.follows
  have hlen := headerLen_le_of_begun h.begun
  obtain ⟨header, hparse⟩ := parse_of_begun h.begun
  have hheader : headerLenOf s.bytes = segmentHeaderLen := by
    rw [headerLenOf, hparse]
    rfl
  obtain ⟨ds, hreads⟩ := hfollows.reads
  exact ⟨c, b, hfollows, hreads.le_length hlen,
    scanTailFile_of_reads hlen (hheader.symm ▸ hreads) hstop⟩

omit [Xxh3] in
/-- The file of a task that has kept its window scans clean. -/
theorem Kept.scan {r : Running} (h : Kept cfg r) :
    scanTailFile r.active.bytes = .clean r.state.offset := by
  have hend : r.active.bytes.length = r.state.offset := h.tight.atEnd
  have hsettled : r.active.Settled cfg.key := h.ended.active
  obtain ⟨header, hparse⟩ := parse_of_begun h.tight.begun
  have hheader : headerLenOf r.active.bytes = segmentHeaderLen := by
    rw [headerLenOf, hparse]
    rfl
  obtain ⟨ds, hreads⟩ := h.tight.follows.reads
  rw [scanTailFile_of_reads (headerLen_le_of_begun h.tight.begun) (hheader.symm ▸ hreads)
    (no_frame_at_end _), if_neg (lt_irrefl _), hend]

/-- A task that has not set its state yet. -/
structure Started (cfg : Config) (r : Running) : Prop where
  ended : Ended cfg r
  regular : r.script.Regular

/-- What was dropped lies in the file. -/
def Dropped (length : Nat) (dropped : Option (Nat × Nat × Nat)) : Prop :=
  ∀ d ∈ dropped, d.1 ≤ length ∧ d.2.1 ≤ length ∧ d.2.2 ≤ length

/-- The segment is followed to its end. -/
structure Cut (cfg : Config) (c : CompactionState) (r : Running) : Prop where
  started : Started cfg r
  follows : Follows cfg.key r.active.bytes (.new segmentHeaderLen) segmentHeaderLen c
    r.active.bytes.length

omit [Xxh3] in
theorem started_scripted : Scripted (Started cfg) :=
  ⟨fun h hwithin => ⟨⟨h.ended.closed, h.ended.active⟩, h.regular.within hwithin⟩⟩

omit [Xxh3] in
theorem cut_scripted : Scripted (Cut cfg c) :=
  ⟨fun h hwithin => ⟨started_scripted.keep h.started hwithin, h.follows⟩⟩

omit [Xxh3] in
theorem meets_truncateTailCut {length : Nat} :
    Meets (fun r => r.active.bytes.length ≤ length ∧ Started cfg r) truncateTail
      (fun dropped r => Dropped length dropped ∧ ∃ c, r.active.bytes.length ≤ length ∧ Cut cfg c r)
      (fun _ => Ended cfg) := by
  refine Meets.bind Meets.get fun r => Meets.forall_eq ?_
  rintro start ⟨rfl, hle, h⟩
  obtain ⟨c, b, hfollows, hb, hscan⟩ := h.ended.active.scan
  rw [hscan]
  split_ifs with hlt
  · have htruncated : (r.active.truncate b).Settled cfg.key := h.ended.active.truncate hfollows.le
    have hlength : (r.active.truncate b).bytes.length = b := by
      show (r.active.bytes.take b).length = b
      rw [List.length_take, Nat.min_eq_left hb]
    have hcut : Follows cfg.key (r.active.truncate b).bytes (.new segmentHeaderLen)
        segmentHeaderLen c (r.active.truncate b).bytes.length := by
      rw [hlength]
      exact hfollows.take hb le_rfl
    refine Meets.bind (Q := fun _ s => Started cfg s ∧ s.active = r.active) ?_ fun _ => ?_
    · have hsame : Scripted fun s => Started cfg s ∧ s.active = r.active :=
        started_scripted.and fun hs => hs
      refine ((hsame.tryIo .io).pre ?_).fails fun _ _ hs => hs.1.ended
      rintro _ rfl
      exact ⟨h, rfl⟩
    refine Meets.bind (Q := fun _ s => Cut cfg c s ∧ s.active.bytes.length ≤ length)
      (Meets.modify fun s hs => ?_) fun _ => ?_
    · rw [hs.2]
      exact ⟨⟨⟨⟨hs.1.ended.closed, htruncated⟩, hs.1.regular⟩, hcut⟩,
        hlength.le.trans (hb.trans hle)⟩
    have hcutScripted : Scripted fun s => Cut cfg c s ∧ s.active.bytes.length ≤ length :=
      cut_scripted.and fun hs => hs
    refine Meets.bind (Q := fun _ s => Cut cfg c s ∧ s.active.bytes.length ≤ length) ?_ fun _ =>
      Meets.pure fun s hs => ⟨?_, c, hs.2, hs.1⟩
    · refine (meets_syncData_of hcutScripted fun s hs =>
        ⟨⟨⟨?_, hs.1.started.regular⟩, hs.1.follows⟩, hs.2⟩).fails fun _ s hs => hs.1.started.ended
      exact ⟨hs.1.started.ended.closed,
        ⟨hs.1.started.ended.active.begun, hs.1.started.ended.active.follows⟩⟩
    · rintro d hd
      obtain rfl := Option.some.inj hd
      exact ⟨hb.trans hle, hb.trans hle, (Nat.sub_le _ _).trans hle⟩
  · have hb' : b = r.active.bytes.length := by omega
    refine Meets.pure ?_
    rintro _ rfl
    exact ⟨(fun d hd => by simp at hd), c, hle, h, hb' ▸ hfollows⟩

omit [Xxh3] in
/-- The task takes over what it has found. -/
theorem Cut.kept {r : Running} (h : Cut cfg c r)
    (hle : r.active.bytes.length ≤ legacySafeMaxSegmentPhysicalBytes)
    {st : WriterState} (hoffset : st.offset = r.active.bytes.length)
    (hcompaction : st.compaction = c) (htold : st.lastWriteErr = false) :
    Kept cfg (r.setState st) := by
  subst hcompaction
  refine ⟨⟨h.started.ended.closed, h.started.ended.active.begun, h.follows, hoffset.symm, htold,
    rfl, h.started.regular⟩, ?_, ?_⟩
  · have hspec := ((openWindow_new le_rfl).of_follows h.follows).spec.2.2
    have hmax : legacySafeMaxSegmentPhysicalBytes + 1 < 2 ^ 32 := by decide
    show st.compaction.framesSinceMarker + 1 < 2 ^ 32
    omega
  · show st.offset < 2 ^ 64
    rw [hoffset]
    exact hle.trans_lt (by decide)

theorem meets_auditKept {dropped : Option (Nat × Nat × Nat)}
    (hdropped : Dropped legacySafeMaxSegmentPhysicalBytes dropped) :
    Meets (fun r => r.state.offset ≤ legacySafeMaxSegmentPhysicalBytes ∧ Kept cfg r)
      (auditDropped cfg dropped) (fun _ => Due cfg) (fun _ => Ended cfg) := by
  cases dropped with
  | none => exact Meets.pure fun r h => h.2.due
  | some d =>
    obtain ⟨hgood, htorn, hbytes⟩ := hdropped d rfl
    have hscripted : Scripted fun r => Kept cfg r ∧
        r.state.offset ≤ legacySafeMaxSegmentPhysicalBytes :=
      kept_scripted.and fun h => h
    have hended : ∀ r, (Kept cfg r ∧ r.state.offset ≤ legacySafeMaxSegmentPhysicalBytes) →
        Ended cfg r :=
      fun r h => h.1.ended
    refine Meets.bind ((ended hscripted.validate hended).pre fun r h => h.symm) fun _ => ?_
    refine Meets.bind hscripted.nextTime fun tsUnix => ?_
    refine Meets.bind Meets.get fun r => ?_
    refine Meets.bind
      ((ended (hscripted.syntheticFrame (fun _ hs => hs.1.tight.regular.1) _ _) hended).pre
        fun s h => h.2) fun frame =>
      Meets.given fun hframe => Meets.forall_eq ?_
    rintro start ⟨hstart, hoffset⟩
    have hpayload : (recoveryPayload (cfg.segmentPath r.state.seq) d.1 d.2.1 d.2.2 tsUnix).length ≤
        maxPayloadBytes :=
      length_recoveryPayload_le (cfg.path_fits _) hgood htorn hbytes
    have hlength : frame.length ≤ 104 + maxPayloadBytes :=
      hframe.length_eq.le.trans (Nat.add_le_add_left hpayload 104)
    obtain ⟨event, hevent, htype, -, rfl⟩ := hframe.readable hpayload
    have hoperator : event.header.eventType ≠ eventTypeCompactionMarker := by
      rw [htype]
      decide
    have hnext : Continues cfg.key start.state.compaction start.state.offset event
      (start.state.compaction.update (encodeFrame event)) := .frame hoperator
    refine Meets.bind (((meets_writeAndSync_tight hevent hnext).pre ?_).fails fun _ _ hs =>
      hs.ended) fun _ =>
      Meets.modify fun s hs => ?_
    · rintro _ rfl
      exact hstart.tight
    have hstate : s.state = start.state := hs.1.state
    refine ⟨⟨hs.1.closed, hs.1.begun, ?_, ?_, ?_, rfl, hs.1.regular⟩, ?_, ?_⟩
    · show Follows _ _ _ _ (s.state.compaction.update _) _
      rw [hstate]
      exact hs.1.follows
    · show _ = s.state.offset + _
      rw [hstate]
      exact hs.1.atEnd
    · show s.state.lastWriteErr = false
      rw [hstate]
      exact hstart.tight.told
    · show s.state.compaction.framesSinceMarker + 1 < 2 ^ 32
      rw [hstate]
      exact hstart.inRange.1
    · show s.state.offset + _ < 2 ^ 64
      rw [hstate]
      have hmax : legacySafeMaxSegmentPhysicalBytes + (104 + maxPayloadBytes) < 2 ^ 64 := by decide
      omega

theorem meets_resumeKept (cfg : Config) :
    Meets (Started cfg) (resume cfg) (fun _ => Kept cfg) (fun _ => Ended cfg) := by
  refine Meets.bind ((started_scripted.tryIo _).fails fun _ _ h => h.ended) fun _ => ?_
  refine Meets.bind (Q := fun _ => Started cfg) (Meets.check (fun _ r h => h) fun _ r h => h.ended)
    fun _ => ?_
  refine Meets.bind (Q := fun a r => a = r ∧ Started cfg r) Meets.get fun r => ?_
  refine Meets.bind (Q := fun _ s => s.active.bytes.length ≤ legacySafeMaxSegmentPhysicalBytes ∧
    Started cfg s) (Meets.check (fun hle s h => ⟨?_, h.2⟩) fun _ s h => h.2.ended) fun _ => ?_
  · rw [← h.1]
    exact of_decide_eq_true hle
  cases parseSegmentHeader r.active.bytes with
  | error e => exact Meets.throw fun s h => h.2.ended
  | ok parsed =>
    refine Meets.bind (Q := fun _ s => s.active.bytes.length ≤ legacySafeMaxSegmentPhysicalBytes ∧
      Started cfg s) (Meets.check (fun _ s h => h) fun _ s h => h.2.ended) fun _ => ?_
    refine Meets.bind meets_truncateTailCut fun dropped => Meets.given fun hdropped => ?_
    refine Meets.bind Meets.get fun s => Meets.forall_eq ?_
    rintro start ⟨rfl, c, hle, hcut⟩
    have hkey : cfg.key ∈ cfg.verificationKeys := List.mem_cons_self
    rw [recover_of_begun hcut.started.ended.active.begun hcut.follows hkey]
    refine Meets.bind (Q := fun _ s => s.state.offset ≤ legacySafeMaxSegmentPhysicalBytes ∧
      Kept cfg s) (Meets.modify ?_) fun _ => ?_
    · rintro _ rfl
      exact ⟨hle, hcut.kept hle rfl rfl rfl⟩
    refine Meets.bind (meets_auditKept hdropped) fun _ => ?_
    refine Meets.bind (ended due_scripted.validate fun r h => h.tight.ended) fun _ => ?_
    exact (meets_emitMarker cfg).mono (fun _ h => h) (fun _ _ h => h.2) fun _ _ h => h

/-! ## Runs -/

/-- The input does not make the task go on without its window: a request meets with no barrier that
goes on after its marker has failed, no write fails without telling, and a task whose file is longer
than its offset writes nothing any more. -/
def Input.Covered (cfg : Config) (h : Home) : Input → Prop
  | .start script | .flush script => script.Regular
  | .shutdown script => script.Regular ∧ ∀ active ∈ h.active, ∀ state ∈ h.task,
      (⟨h.closed, active, state, script⟩ : Running).AtEnd ∨ state.compaction.framesSinceMarker = 0
  | .request req script => req.Stamped ∧ script.Regular ∧ req.IsOperator ∧
      ∀ active ∈ h.active, ∀ state ∈ h.task, req.Covered cfg ⟨h.closed, active, state, script⟩
  | .crash _ => True

namespace Home

/-- What holds of the windows between the inputs. -/
structure Windowed (cfg : Config) (h : Home) : Prop where
  closed : ∀ s ∈ h.closed, s.Closed cfg.key
  active : ∀ s ∈ h.active, s.Settled cfg.key
  /-- The task goes on with whatever the script is. -/
  task : ∀ s ∈ h.active, ∀ state ∈ h.task, ∀ script : Script, script.Regular →
    Alive cfg ⟨h.closed, s, state, script⟩

omit [Xxh3] in
theorem windowed_empty (cfg : Config) : Windowed cfg .empty :=
  ⟨by simp [empty], by simp [empty], by simp [empty]⟩

omit [Xxh3] in
theorem windowed_resumeWith {answer : A → Answer} {goesOn : Bool}
    {outcome : Except Stop A × Running}
    (h : After (fun _ => Alive cfg) (fun _ => Ended cfg) outcome) :
    Windowed cfg (resumeWith answer goesOn outcome).1 := by
  rcases outcome with ⟨e | a, r⟩
  · have hended : Ended cfg r := h
    refine ⟨hended.closed, ?_, by simp [resumeWith]⟩
    rintro s ⟨⟩
    exact hended.active
  · have halive : Alive cfg r := h
    refine ⟨halive.torn.ended.closed, ?_, ?_⟩
    · rintro s ⟨⟩
      exact halive.torn.ended.active
    · rintro s ⟨⟩ state hstate script hregular
      cases goesOn with
      | false => simp [resumeWith] at hstate
      | true =>
        cases hstate
        exact halive.withScript hregular

variable {h : Home}

omit [Xxh3] in
theorem windowed_runTask (hwindowed : Windowed cfg h) {x : Task A} {script : Script}
    {answer : A → Answer} {goesOn : Bool} (hregular : script.Regular)
    (hx : ∀ active ∈ h.active, ∀ state ∈ h.task, Alive cfg ⟨h.closed, active, state, script⟩ →
      After (fun _ => Alive cfg) (fun _ => Ended cfg) (x ⟨h.closed, active, state, script⟩)) :
    Windowed cfg (h.runTask x script answer goesOn).1 := by
  unfold runTask
  split
  · rename_i active state hactive htask
    exact windowed_resumeWith (hx _ hactive _ htask (hwindowed.task _ hactive _ htask _ hregular))
  · exact hwindowed

omit [Xxh3] in
theorem windowed_startFresh (hwindowed : Windowed cfg h) (script : Script) :
    Windowed cfg (h.startFresh cfg script).1 := by
  have hbegun : ∃ seq openedAtNs rest, newSegmentHeaderBytes cfg.seq (script.times.headD 0) =
      newSegmentHeaderBytes seq openedAtNs ++ rest := ⟨_, _, [], (List.append_nil _).symm⟩
  have hlength := length_newSegmentHeaderBytes cfg.seq (script.times.headD 0)
  have hfollows : Follows cfg.key (newSegmentHeaderBytes cfg.seq (script.times.headD 0))
      (.new segmentHeaderLen)
      segmentHeaderLen (.new (newSegmentHeaderBytes cfg.seq (script.times.headD 0)).length)
      (newSegmentHeaderBytes cfg.seq (script.times.headD 0)).length := by
    rw [hlength]
    exact .refl _ _
  have hsettled : (Segment.published (newSegmentHeaderBytes cfg.seq (script.times.headD 0))).Settled
      cfg.key :=
    .of_follows_end hbegun hfollows
  unfold startFresh
  dsimp only
  split
  · refine ⟨hwindowed.closed, ?_, ?_⟩
    · rintro s ⟨⟩
      exact hsettled
    · rintro s ⟨⟩ state ⟨⟩ script hregular
      refine Kept.alive ⟨⟨hwindowed.closed, hbegun, hfollows, rfl, rfl, rfl, hregular⟩,
        (by decide : 0 + 1 < 2 ^ 32), ?_⟩
      show (newSegmentHeaderBytes _ _).length < 2 ^ 64
      rw [length_newSegmentHeaderBytes]
      decide
  · exact hwindowed
  · refine ⟨hwindowed.closed, ?_, by simp⟩
    rintro s ⟨⟩
    exact hsettled

theorem windowed_start (hwindowed : Windowed cfg h) {script : Script} (hregular : script.Regular) :
    Windowed cfg (h.start cfg script).1 := by
  unfold start
  split
  · exact windowed_startFresh hwindowed script
  · rename_i active hactive htask
    have hresume := meets_resumeKept cfg ⟨h.closed, active, .unset, script⟩
      ⟨⟨hwindowed.closed, hwindowed.active _ hactive⟩, hregular⟩
    exact windowed_resumeWith (hresume.mono (fun _ _ hr => hr.alive) fun _ _ hr => hr)
  · exact hwindowed

/-- An input that keeps the windows is clean. -/
theorem clean_of_covered (hwindowed : Windowed cfg h) {input : Input}
    (hcovered : input.Covered cfg h) : input.Clean cfg h := by
  cases input with
  | request req script =>
    obtain ⟨hstamped, hregular, -, hreq⟩ := hcovered
    intro active hactive state hstate r hprepare _
    have halive := hwindowed.task active hactive state hstate script hregular
    have hafter := meets_prepareCovered halive (hreq active hactive state hstate) _ rfl
    rw [hprepare] at hafter
    have hkept : Kept cfg r := (hafter.2 rfl).2
    refine ⟨hstamped, fun _ => ⟨hkept.scan, fun written hhead => ?_⟩⟩
    exact hkept.tight.regular.2 written (List.mem_of_mem_head? hhead)
  | _ => trivial

/-- **What one input keeps.** -/
theorem windowed_step (hsound : h.Sound) (hwindowed : Windowed cfg h) {input : Input}
    (hcovered : input.Covered cfg h) : Windowed cfg (h.step cfg input).1 := by
  cases input with
  | start script => exact windowed_start hwindowed hcovered
  | request req script =>
    obtain ⟨hstamped, hscript, hoperator, hreq⟩ := hcovered
    refine windowed_runTask hwindowed hscript fun active hactive state htask halive => ?_
    exact meets_serveCovered hstamped hoperator halive (hreq active hactive state htask) _ rfl
  | flush script =>
    exact windowed_runTask hwindowed hcovered fun _ _ _ _ halive => meets_flushAlive cfg _ halive
  | shutdown script =>
    obtain ⟨hscript, hclosing⟩ := hcovered
    refine windowed_runTask hwindowed hscript fun active hactive state htask halive => ?_
    exact meets_shutdownAlive halive (hclosing active hactive state htask) _ rfl
  | crash kept =>
    refine ⟨hwindowed.closed, ?_, by simp [step]⟩
    rintro s hs
    obtain ⟨s, hactive, rfl⟩ := Option.mem_map.mp hs
    exact (hwindowed.active s hactive).truncate
      ((hsound.active s hactive).header_synced.trans (le_max_left _ _))

/-- Every input of the run keeps the windows in the state it meets. -/
def CoveredRun (cfg : Config) (inputs : List Input) : Prop :=
  ∀ before input rest, inputs = before ++ input :: rest → input.Covered cfg (after cfg before)

theorem windowed_after {inputs : List Input} (hcovered : CoveredRun cfg inputs) :
    (after cfg inputs).Sound ∧ Windowed cfg (after cfg inputs) := by
  have hkeep : ∀ h input, (Sound h ∧ Windowed cfg h) → Input.Covered cfg h input →
      Sound (h.step cfg input).1 ∧ Windowed cfg (h.step cfg input).1 := by
    rintro h input ⟨hsound, hwindowed⟩ hinput
    exact ⟨sound_step hsound (clean_of_covered hwindowed hinput),
      windowed_step hsound hwindowed hinput⟩
  exact Lib.Machine.run_invariant_of_meets hkeep .empty ⟨sound_empty, windowed_empty cfg⟩ inputs
    hcovered

end Home

/-- What a start makes of what a crash has left of the segment: its tracker is rebuilt. -/
def Segment.Reopens (cfg : Config) (s : Segment) : Prop :=
  ∀ kept, s.synced ≤ kept → ∃ c,
    recoverCompactionState cfg.verificationKeys (recovered (s.bytes.take kept)) = .ok c

omit [Xxh3] in
theorem Segment.Settled.reopens {s : Segment} (h : s.Settled cfg.key)
    (hsynced : segmentHeaderLen ≤ s.synced) : s.Reopens cfg := by
  intro kept hkept
  have hcrashed : (s.truncate kept).Settled cfg.key := h.truncate (hsynced.trans hkept)
  obtain ⟨c, b, hfollows, hb, hscan⟩ := hcrashed.scan
  have hresume : (scanTailFile (s.bytes.take kept)).resumeOffset = b := by
    change (scanTailFile (s.truncate kept).bytes).resumeOffset = b
    rw [hscan]
    split_ifs
    · rfl
    · rfl
  have hcut : ((s.truncate kept).truncate b).Settled cfg.key := hcrashed.truncate hfollows.le
  refine ⟨c, ?_⟩
  rw [recovered, hresume]
  refine recover_of_begun hcut.begun ?_ List.mem_cons_self
  show Follows cfg.key ((s.truncate kept).bytes.take b) _ _ c
    ((s.truncate kept).bytes.take b).length
  rw [List.length_take, Nat.min_eq_left hb]
  exact hfollows.take hb le_rfl

/-- **No run loses a window**: every closed segment lies under its markers up to its end, what is
left of the active one is taken over by the next start, the tracker of a running task is the one
that a start would rebuild, and the acknowledged appends are read back. -/
theorem windows_are_kept (cfg : Config) (inputs : List Input)
    (hcovered : Home.CoveredRun cfg inputs) : (∀ s ∈ (Home.after cfg inputs).closed,
      verifyExistingCompactionMarkerWindows s.bytes segmentHeaderLen cfg.verificationKeys false =
        .ok s.bytes.length) ∧
    (∀ s ∈ (Home.after cfg inputs).active, s.Reopens cfg) ∧
    (∀ s ∈ (Home.after cfg inputs).active, ∀ state ∈ (Home.after cfg inputs).task,
      recoverCompactionState cfg.verificationKeys (s.bytes.take state.offset) =
        .ok state.compaction) ∧
    ∀ s ∈ (Home.after cfg inputs).closed ++ (Home.after cfg inputs).active.toList, s.Survives := by
  obtain ⟨hsound, hwindowed⟩ := Home.windowed_after hcovered
  refine ⟨?_, ?_, ?_, fun s hs => (hsound.all s hs).survives⟩
  · intro s hs
    exact verify_closed_of_follows (hwindowed.closed s hs).follows List.mem_cons_self
  · intro s hs
    exact (hwindowed.active s hs).reopens (hsound.active s hs).header_synced
  · intro s hs state hstate
    have halive :=
      hwindowed.task s hs state hstate ⟨[], [], [], []⟩ (by simp [Script.Regular, Script.Stamped])
    have hfollows : Follows cfg.key s.bytes (.new segmentHeaderLen) segmentHeaderLen
        state.compaction state.offset :=
      halive.torn.follows
    have hcut : (s.truncate state.offset).Settled cfg.key :=
      (hwindowed.active s hs).truncate hfollows.le
    refine recover_of_begun hcut.begun ?_ List.mem_cons_self
    show Follows cfg.key (s.bytes.take state.offset) _ _ state.compaction
      (s.bytes.take state.offset).length
    have hwithin : state.offset ≤ s.bytes.length := halive.torn.within
    rw [List.length_take, Nat.min_eq_left hwithin]
    exact hfollows.take hwithin le_rfl

end Neoth.Wal.Writer

namespace Neoth.Wal.Writer

/-! ## A barrier that goes on without its marker -/

section Samples

attribute [local instance] emptyXxh3 Sha256.fips

/-- The receipt of a companion mutation. -/
def sampleReceiptEvent (physicalNs : UInt64) : Event :=
  ⟨({ HeaderBuilder.new eventTypeExtended [] with eventSubtype := 0x3b } : HeaderBuilder).build
    ⟨physicalNs, 0⟩, []⟩

def sampleReceipt (physicalNs : UInt64) : Request where
  event := sampleReceiptEvent physicalNs
  forceAuthenticationMarker := true
  once := some ⟨.companionMutation, true, true, .absentComplete⟩
  durableTrust := none
  sized := @sized_build emptyXxh3
    { HeaderBuilder.new eventTypeExtended [] with eventSubtype := 0x3b } (Nat.zero_le _)
    ⟨physicalNs, 0⟩
  fits := Nat.zero_le _

/-- A request is covered where the file ends at the offset and the marker of its barrier does not
fail. -/
theorem covered_of_marker {req : Request} {start : Running}
    (hend : start.active.bytes.length = start.state.offset)
    (hmarker : (emitCompactionMarker sampleConfig (validate start).2).1.isOk = true) :
    req.Covered sampleConfig start := by
  refine .inl ⟨hend, fun _ once _ _ _ _ r hvalidate e s hfailed => ?_⟩
  rw [hvalidate, hfailed] at hmarker
  exact Bool.false_ne_true hmarker

/-- An append, a receipt behind it with its barrier, and a crash. -/
def sampleReceiptRun : List Input :=
  [.start ⟨[], [], [], []⟩, .request (sampleRequest 1) ⟨[], [], [], []⟩,
    .request (sampleReceipt 2) ⟨[], [], [], []⟩, .crash 0]

theorem windows_are_kept_sample :
    (∀ s ∈ (Home.after sampleConfig sampleReceiptRun).closed,
      verifyExistingCompactionMarkerWindows s.bytes segmentHeaderLen sampleConfig.verificationKeys
        false = .ok s.bytes.length) ∧
    (∀ s ∈ (Home.after sampleConfig sampleReceiptRun).active, s.Reopens sampleConfig) ∧
    (∀ s ∈ (Home.after sampleConfig sampleReceiptRun).active,
      ∀ state ∈ (Home.after sampleConfig sampleReceiptRun).task,
      recoverCompactionState sampleConfig.verificationKeys (s.bytes.take state.offset) =
        .ok state.compaction) ∧
    ∀ s ∈ (Home.after sampleConfig sampleReceiptRun).closed ++
      (Home.after sampleConfig sampleReceiptRun).active.toList, s.Survives := by
  have hrequest : ∀ (h : Home) (req : Request), req.Stamped → req.IsOperator →
      (∀ active ∈ h.active, ∀ state ∈ h.task, active.bytes.length = state.offset ∧
        (emitCompactionMarker sampleConfig
          (validate ⟨h.closed, active, state, ⟨[], [], [], []⟩⟩).2).1.isOk = true) →
      Input.Covered sampleConfig h (.request req ⟨[], [], [], []⟩) := by
    intro h req hstamped hoperator hstate
    refine ⟨hstamped, by simp [Script.Regular, Script.Stamped], hoperator,
      fun active hactive state htask => ?_⟩
    obtain ⟨hend, hmarker⟩ := hstate active hactive state htask
    exact covered_of_marker hend hmarker
  have hmarked : ∀ h, h = Home.after sampleConfig (sampleReceiptRun.take 1) ∨
      h = Home.after sampleConfig (sampleReceiptRun.take 2) →
      ∀ active ∈ h.active, ∀ state ∈ h.task, active.bytes.length = state.offset ∧
        (emitCompactionMarker sampleConfig
          (validate ⟨h.closed, active, state, ⟨[], [], [], []⟩⟩).2).1.isOk = true := by
    intro h hh
    delta emitCompactionMarker
    rcases hh with rfl | rfl <;> rw [MarkerPayload.toVec_eq, Sha256.fips_eq] <;> decide +kernel
  refine windows_are_kept sampleConfig sampleReceiptRun ?_
  refine Lib.Machine.meets_cons (M := fun h input => Input.Covered sampleConfig h input)
    (by simp [Input.Covered, Script.Regular, Script.Stamped]) ?_
  refine Lib.Machine.meets_cons (M := fun h input => Input.Covered sampleConfig h input)
    (hrequest _ _ (by decide : Hlc.Valid ⟨1, 0⟩) (by unfold Request.IsOperator; decide)
      (hmarked _ (.inl rfl))) ?_
  refine Lib.Machine.meets_cons (M := fun h input => Input.Covered sampleConfig h input)
    (hrequest _ _ (by decide : Hlc.Valid ⟨2, 0⟩) (by unfold Request.IsOperator; decide)
      (hmarked _ (.inr rfl))) ?_
  exact Lib.Machine.meets_cons (M := fun h input => Input.Covered sampleConfig h input) trivial
    Lib.Machine.meets_nil

/-- An append is acknowledged, the sync of the marker of the barrier behind it fails, and the task
goes on: one more append, and the end of the task. -/
def sampleLostWindow : List Input :=
  [.start ⟨[], [], [], []⟩, .request (sampleRequest 1) ⟨[], [], [], []⟩,
    .request (sampleReceipt 2) ⟨[.done, .failed 0], [], [], []⟩,
    .request (sampleRequest 3) ⟨[], [], [], []⟩, .shutdown ⟨[], [], [], []⟩,
    .start ⟨[], [], [], []⟩]

/-- The last marker does not cover the append behind the one that failed, and the next start refuses
the segment. -/
theorem window_lost :
    (Lib.Machine.run (Home.step sampleConfig) .empty sampleLostWindow).2 =
        [.flushed, .appended 60, .refused, .appended 164, .closed, .closed] ∧
      ¬ ∀ s ∈ (Home.after sampleConfig sampleLostWindow).active, s.Reopens sampleConfig := by
  -- the inputs are a variable while the definitions are unfolded
  have heval : ∀ inputs, inputs = sampleLostWindow →
      (Lib.Machine.run (Home.step sampleConfig) .empty inputs).2 =
          [.flushed, .appended 60, .refused, .appended 164, .closed, .closed] ∧
        ∃ s ∈ (Home.after sampleConfig inputs).active.toList, s.synced ≤ s.bytes.length ∧
          (recoverCompactionState sampleConfig.verificationKeys
            (recovered (s.bytes.take s.bytes.length))).isOk = false := by
    intro inputs hinputs
    delta Home.after Home.step Home.start Home.startFresh resume shutdown finalSync serve writeFrame
      markerBehind
      prepare barrierOf barrier emitCompactionMarker recoverCompactionState
        verifyExistingCompactionMarkerWindows
      verifyFrom verifyFrom._f
    rw [hinputs, MarkerPayload.toVec_eq, MarkerPayload.fromSlice_eq, Sha256.fips_eq]
    decide +kernel
  obtain ⟨hrun, hrefused⟩ := heval _ rfl
  refine ⟨hrun, ?_⟩
  intro h
  obtain ⟨s, hs, hsynced, hrecover⟩ := hrefused
  obtain ⟨c, hc⟩ := h s (Option.mem_toList.mp hs) _ hsynced
  rw [hc] at hrecover
  exact Bool.false_ne_true hrecover.symm

end Samples

end Neoth.Wal.Writer
