import Neoth.Wal.WriterWindows

/-!
# What the writer holds and what recovery rebuilds

Appends and markers on one segment whose attempts all succeed, and crashes that cut the file at a
frame; a rotating writer then rebuilds its tracker from the bytes.

* `SegmentRun`: the machine; it notes which tracker the writer has held at which offset;
* `serve_here`: how it stands to the loop of the writer;
* `Quiet`: the rules of tasks whose attempts all succeed;
* `isBoundary_extend`: where a file that has grown by a frame may be cut;
* **`writer_and_verifier_agree`**: the file verifies wherever it is cut, and what is rebuilt is what
  was held.
-/

open Lib.Effects Lib.Encoding Lib.FrameLog Lib.Machine Neoth.MeshSync

namespace Neoth.Wal.Writer

variable [Xxh3] [Sha256]

/-! ## The machine -/

/-- `makeRoom` before a request that does not rotate the segment: `serve` comes down to it
(`serve_here`). -/
def makeRoomHere (cfg : Config) (req : Request) : Task Unit := do
  let r ← Prog.get
  validate
  ensureFrameFits cfg ((encodeFrame req.event).length + markerReserve cfg req r.state.compaction)

/-- The task, the file under it, and the trackers that it has held, by the offsets at which it
did. -/
structure SegmentRun where
  writer : Running
  alive : Bool
  held : List (Nat × CompactionState)

inductive SegmentEvent
  | append (req : Request) (stamps : List Hlc) (times : List UInt64)
  | emit (stamps : List Hlc) (times : List UInt64)
  | crash (boundary : Nat)

/-- The stamps are those of the clock, and a request brings no marker of its own. -/
def SegmentEvent.Sound : SegmentEvent → Prop
  | .append req stamps _ => req.Stamped ∧ req.IsOperator ∧ ∀ stamp ∈ stamps, stamp.Valid
  | .emit stamps _ => ∀ stamp ∈ stamps, stamp.Valid
  | .crash _ => True

/-- The cut leaves the header and whole frames. -/
def isBoundary (bytes : List UInt8) (boundary : Nat) : Bool :=
  decide (segmentHeaderLen ≤ boundary ∧ boundary ≤ bytes.length) &&
    match scanTailFile (bytes.take boundary) with
    | .clean _ => true
    | .tornAt _ _ => false

/-- An ordinary request that does not rotate the segment is served as the machine serves it. -/
theorem serve_here {cfg : Config} {req : Request} {r r' : Running} {nowNs : UInt64}
    (hadmissible : req.isAdmissible = true)
    (honce : req.once = none) (hio : r.script.io = []) (htime : nextTime r = (.ok nowNs, r'))
    (hstays : shouldRotate cfg.policy r.state nowNs (encodeFrame req.event).length
      (markerReserve cfg req r.state.compaction) = none) :
    serve cfg req r = (makeRoomHere cfg req >>= fun _ => writeFrame cfg req) r' := by
  have hdone : nextIo r = (.ok .done, r) := by
    unfold nextIo
    rw [hio]
  have hget : ∀ r : Running, (Prog.get : Task Running) r = (.ok r, r) := fun _ => rfl
  have hskip : ∀ {A : Type} (a : A), (pure a : Task A) r = (.ok a, r) := fun _ => rfl
  have hvalidate : validate r = (.ok (), r) := by
    unfold validate tryIo
    rw [Prog.bind_of_ok hdone]
    rfl
  have hsame : r'.state = r.state := by
    unfold nextTime at htime
    split at htime <;> cases htime <;> rfl
  have hroom : makeRoom cfg req r = makeRoomHere cfg req r' := by
    have hnone : rotateFor cfg none r' = (.ok (), r') := rfl
    unfold makeRoom makeRoomHere
    rw [Prog.bind_of_ok (hget r), Prog.bind_of_ok htime, hstays, Prog.bind_of_ok hnone,
      Prog.bind_of_ok (hget r'), hsame]
  have hprepare : prepare cfg req r = (makeRoomHere cfg req >>= fun _ => pure none) r' := by
    unfold prepare barrierOf
    rw [honce, hadmissible, if_neg (by decide), Prog.bind_of_ok (hskip none)]
    dsimp only
    rw [Prog.bind_of_ok hvalidate, Prog.bind_of_ok (hskip none)]
    exact Prog.bind_congr hroom
  unfold serve
  cases houtcome : makeRoomHere cfg req r' with
  | mk result next =>
    cases result with
    | error e =>
      rw [Prog.bind_of_error houtcome,
        Prog.bind_of_error (hprepare.trans (Prog.bind_of_error houtcome))]
    | ok done =>
      rw [Prog.bind_of_ok houtcome, Prog.bind_of_ok (hprepare.trans (Prog.bind_of_ok houtcome))]

namespace SegmentRun

def bytes (s : SegmentRun) : List UInt8 := s.writer.active.bytes

/-- The offset of the task and its tracker. -/
def holds (r : Running) : Nat × CompactionState := (r.state.offset, r.state.compaction)

/-- What it holds when the frame of the request has been counted. -/
def counted (r : Running) (req : Request) : Nat × CompactionState :=
  (r.state.offset + (encodeFrame req.event).length,
    r.state.compaction.update (encodeFrame req.event))

/-- The task with a script that fails nothing. -/
def scripted (s : SegmentRun) (stamps : List Hlc) (times : List UInt64) : Running :=
  { s.writer with script := ⟨[], [], stamps, times⟩ }

def append (cfg : Config) (s : SegmentRun) (req : Request) (stamps : List Hlc)
    (times : List UInt64) : SegmentRun :=
  match makeRoomHere cfg req (s.scripted stamps times) with
  | (.error _, r) => ⟨r, false, s.held⟩
  | (.ok _, r) =>
    match writeFrame cfg req r with
    | (.error _, r') => ⟨r', false, s.held ++ [counted r req]⟩
    | (.ok _, r') => ⟨r', true, s.held ++ [counted r req, holds r']⟩

def emit (cfg : Config) (s : SegmentRun) (stamps : List Hlc) (times : List UInt64) : SegmentRun :=
  match emitCompactionMarker cfg (s.scripted stamps times) with
  | (.error _, r) => ⟨r, false, s.held⟩
  | (.ok _, r) => ⟨r, true, s.held ++ [holds r]⟩

/-- The file is cut; a writer with a fixed segment does not resume it, a rotating one does. -/
def crash (cfg : Config) (s : SegmentRun) (boundary : Nat) : SegmentRun :=
  let left := s.bytes.take boundary
  let held := s.held.filter fun entry => decide (entry.1 ≤ boundary)
  let writer := fun compaction : CompactionState => (⟨[], .published left,
    ⟨boundary, s.writer.state.seq, s.writer.state.openedAtNs, compaction, false, false⟩,
    ⟨[], [], [], []⟩⟩ : Running)
  if cfg.policy.isFixed then ⟨writer (.new boundary), false, held⟩
  else
    match recoverCompactionState cfg.verificationKeys left with
    | .error _ => ⟨writer (.new boundary), false, held⟩
    | .ok compaction => ⟨writer compaction, true, held ++ [(boundary, compaction)]⟩

def step (cfg : Config) (s : SegmentRun) (event : SegmentEvent) : SegmentRun × Unit :=
  match event with
  | .append req stamps times => (if s.alive then s.append cfg req stamps times else s, ())
  | .emit stamps times => (if s.alive then s.emit cfg stamps times else s, ())
  | .crash boundary => (if isBoundary s.bytes boundary then s.crash cfg boundary else s, ())

/-- A segment that has just been opened. -/
def opened (bytes : List UInt8) (seq openedAtNs : UInt64) : SegmentRun where
  writer := ⟨[], .published bytes, ⟨bytes.length, seq, openedAtNs, .new bytes.length, false, false⟩,
    ⟨[], [], [], []⟩⟩
  alive := true
  held := [(bytes.length, .new bytes.length)]

def after (cfg : Config) (bytes : List UInt8) (seq openedAtNs : UInt64)
    (events : List SegmentEvent) : SegmentRun :=
  (run (step cfg) (opened bytes seq openedAtNs) events).1

end SegmentRun

/-- The bytes with which the first segment begins, or one behind a rotation. -/
inductive IsOpening (cfg : Config) : List UInt8 → Prop
  | fresh (seq openedAtNs : UInt64) : IsOpening cfg (newSegmentHeaderBytes seq openedAtNs)
  | successor {link : SegmentLink} {bytes : List UInt8} (prefixed : IsSuccessor cfg link bytes)
      (short : bytes.length ≤ maxRotationSuccessorPrefixBytes) : IsOpening cfg bytes

/-! ## Attempts that succeed -/

section

/-- Nothing that is attempted fails, and nothing that was written has. -/
structure Unfailing (script : Script) (lastWriteErr : Bool) : Prop where
  io : script.io = []
  writes : script.writes = []
  told : lastWriteErr = false

variable {P K : Running → Prop} {F : Stop → Running → Prop}
  (hquiet : ∀ r, P r → Unfailing r.script r.state.lastWriteErr)

include hquiet

omit [Xxh3] [Sha256] in
theorem nextIo_done : Meets P nextIo (fun outcome r => outcome = .done ∧ P r) F := by
  intro r h
  unfold nextIo
  rw [(hquiet r h).io]
  exact ⟨rfl, h⟩

omit [Xxh3] [Sha256] in
theorem tryIo_done (e : Stop) : Meets P (tryIo e) (fun _ => P) F := by
  refine Meets.bind (nextIo_done hquiet) fun outcome => Meets.given fun hdone => ?_
  subst hdone
  exact Meets.pure fun r h => h

omit [Xxh3] [Sha256] in
theorem writeOnly_done {frame : List UInt8}
    (h : ∀ r, P r → K (r.setActive (r.active.extend frame))) :
    Meets P (writeOnly frame) (fun _ => K) F := by
  intro r hr
  unfold writeOnly nextWritten
  show After _ _ (Prog.andThen Prog.get _ r)
  simp only [Prog.andThen, Prog.get, (hquiet r hr).told, Bool.false_eq_true, if_false]
  show After _ _ (Prog.andThen _ _ r)
  simp only [Prog.andThen, (hquiet r hr).writes]
  exact h r hr

omit [Xxh3] [Sha256] in
theorem syncData_done (h : ∀ r, P r → K (r.setActive r.active.sync)) :
    Meets P syncData (fun _ => K) F := by
  refine Meets.bind (nextIo_done hquiet) fun outcome => Meets.given fun hdone => ?_
  subst hdone
  exact Meets.modify h

end

/-- The predicate does not look at stamps and times, and nothing that is attempted fails. -/
structure Quiet (P : Running → Prop) : Prop where
  quiet : ∀ r, P r → Unfailing r.script r.state.lastWriteErr
  stamps : ∀ r, P r → ∀ stamp ∈ r.script.stamps, stamp.Valid
  keep : ∀ {r : Running} {stamps : List Hlc} {times : List UInt64}, P r →
    (∀ stamp ∈ stamps, stamp.Valid) →
    P { r with script := ⟨[], [], stamps, times⟩ }

namespace Quiet

variable {P : Running → Prop} {F : Stop → Running → Prop}

omit [Xxh3] [Sha256] in
theorem nextStamp (hP : Quiet P) : Meets P nextStamp (fun stamp r => stamp.Valid ∧ P r) F := by
  intro r h
  unfold Writer.nextStamp
  split
  · exact ⟨valid_epoch, h⟩
  · rename_i stamp stamps hscript
    obtain ⟨hstamp, hstamps⟩ := List.forall_mem_cons.mp (hscript ▸ hP.stamps r h)
    have hkept := @hP.keep r stamps r.script.times h hstamps
    rw [← (hP.quiet r h).io, ← (hP.quiet r h).writes] at hkept
    exact ⟨hstamp, hkept⟩

omit [Xxh3] [Sha256] in
theorem nextTime (hP : Quiet P) : Meets P nextTime (fun _ => P) F := by
  intro r h
  unfold Writer.nextTime
  split
  · exact h
  · rename_i time times _
    have hkept := @hP.keep r r.script.stamps times h (hP.stamps r h)
    rw [← (hP.quiet r h).io, ← (hP.quiet r h).writes] at hkept
    exact hkept

omit [Sha256] in
/-- The header of a frame of the writer's own carries its length. -/
theorem syntheticFrame (hP : Quiet P) {eventType : UInt8} {payload : List UInt8}
    (hfits : payload.length ≤ maxPayloadBytes) :
    Meets P (syntheticFrame eventType payload) (fun frame r => IsSynthetic eventType payload frame ∧
      P r) F := by
  refine Meets.bind hP.nextStamp fun stamp => Meets.ite (fun hsized => ?_) fun hnot => ?_
  · exact Meets.pure fun r ⟨hvalid, h⟩ => ⟨⟨stamp, hvalid, hsized, rfl⟩, h⟩
  · exact absurd (@sized_build _ { HeaderBuilder.new eventType payload with flags := syntheticFlag }
      hfits stamp) hnot

end Quiet

/-- The file holds the bytes, the offset is at their end, and `n` more frames may be counted. -/
structure Standing (bytes : List UInt8) (n : Nat) (r : Running) : Prop where
  quiet : Unfailing r.script r.state.lastWriteErr
  stamps : ∀ stamp ∈ r.script.stamps, stamp.Valid
  file : r.active.bytes = bytes
  offset : r.state.offset = bytes.length
  frames : r.state.compaction.framesSinceMarker + n < 2 ^ 32
  fromOffset : r.state.compaction.fromOffset ≤ bytes.length

/-- The frame stands in the file, and has not been counted. -/
structure Uncounted (bytes frame : List UInt8) (r : Running) : Prop where
  quiet : Unfailing r.script r.state.lastWriteErr
  stamps : ∀ stamp ∈ r.script.stamps, stamp.Valid
  file : r.active.bytes = bytes ++ frame
  offset : r.state.offset = bytes.length
  frames : r.state.compaction.framesSinceMarker + 1 < 2 ^ 32
  fromOffset : r.state.compaction.fromOffset ≤ bytes.length

variable {bytes frame : List UInt8} {n : Nat} {r : Running} {cfg : Config} {req : Request}

omit [Xxh3] [Sha256] in
theorem quiet_standing : Quiet (Standing bytes n) :=
  ⟨fun _ h => h.quiet, fun _ h => h.stamps,
    fun h hstamps => ⟨⟨rfl, rfl, h.quiet.told⟩, hstamps, h.file, h.offset, h.frames, h.fromOffset⟩⟩

omit [Xxh3] [Sha256] in
theorem quiet_uncounted : Quiet (Uncounted bytes frame) :=
  ⟨fun _ h => h.quiet, fun _ h => h.stamps,
    fun h hstamps => ⟨⟨rfl, rfl, h.quiet.told⟩, hstamps, h.file, h.offset, h.frames, h.fromOffset⟩⟩

omit [Xxh3] [Sha256] in
theorem Standing.extend (h : Standing bytes 1 r) (frame : List UInt8) :
    Uncounted bytes frame (r.setActive (r.active.extend frame)) := by
  refine ⟨h.quiet, h.stamps, ?_, h.offset, h.frames, h.fromOffset⟩
  show r.active.bytes ++ frame = _
  rw [h.file]

omit [Xxh3] [Sha256] in
/-- The frame is counted, in the same window or behind it. -/
theorem Uncounted.count (h : Uncounted bytes frame r) {c : CompactionState} {pending : Bool}
    (hframes : c.framesSinceMarker < 2 ^ 32) (hfrom : c.fromOffset ≤ (bytes ++ frame).length) :
    Standing (bytes ++ frame) 0
      (((r.advance frame.length).setCompaction c).setPending pending) := by
  refine ⟨h.quiet, h.stamps, h.file, ?_, hframes, hfrom⟩
  show r.state.offset + frame.length = _
  rw [h.offset, List.length_append]

omit [Xxh3] [Sha256] in
theorem meets_writeAndSync_quiet (frame : List UInt8) {F : Stop → Running → Prop} :
    Meets (Standing bytes 1) (writeAndSync frame) (fun _ => Uncounted bytes frame) F :=
  Meets.bind (writeOnly_done quiet_standing.quiet fun _ h => h.extend frame) fun _ =>
    syncData_done quiet_uncounted.quiet fun _ h =>
      ⟨h.quiet, h.stamps, h.file, h.offset, h.frames, h.fromOffset⟩

omit [Xxh3] [Sha256] in
theorem Standing.fewer (h : Standing bytes n r) {m : Nat} (hle : m ≤ n) : Standing bytes m r :=
  ⟨h.quiet, h.stamps, h.file, h.offset, (Nat.add_le_add_left hle _).trans_lt h.frames, h.fromOffset⟩

/-- Behind the bytes comes no more than one frame, which is within the ceiling. -/
def Grown (cfg : Config) (bytes : List UInt8) (r : Running) : Prop :=
  Standing bytes 0 r ∨ ∃ event,
    Readable event ∧ (bytes ++ encodeFrame event).length ≤ ceilingOf cfg.policy ∧
    Standing (bytes ++ encodeFrame event) 0 r

omit [Xxh3] in
/-- The marker of the window that is open is short. -/
theorem length_finaliseMarker_le {c : CompactionState} (key : List UInt8) {a : Nat} (tsNs : UInt64)
    (hframes : c.framesSinceMarker < 2 ^ 32) (hfrom : c.fromOffset ≤ a) (ha : a < 2 ^ 64) :
    ((c.finaliseMarker key a).1.toVec tsNs.toNat).length ≤ 231 := by
  refine MarkerPayload.length_toVec_le ⟨hfrom.trans_lt ha, ha, hframes, (by decide : 0 < 2 ^ 32)⟩ ?_
    tsNs.toNat_lt
  refine (utf8_hexEncode _).1.trans ?_
  rw [hmacSha256, (Sha256.digest _).property]

/-- A marker is written if there is room for it. -/
theorem meets_emit_quiet (cfg : Config) (hlt : bytes.length < 2 ^ 64) :
    Meets (Standing bytes 0) (emitCompactionMarker cfg) (fun _ => Grown cfg bytes)
      (fun _ r => r.active.bytes = bytes ∧
        ceilingOf cfg.policy < bytes.length + maxCompactionMarkerFrameBytes) := by
  refine Meets.bind Meets.get fun r => Meets.ite (fun _ => Meets.pure fun s h => .inl h.2) fun _ =>
    Meets.forall_eq ?_
  rintro start ⟨rfl, h⟩
  refine Meets.bind (Q := fun _ => Standing bytes 1) (Meets.modify ?_) fun _ => ?_
  · rintro _ rfl
    exact ⟨h.quiet, h.stamps, h.file, h.offset, (by decide : 0 + 1 < 2 ^ 32), h.offset.le⟩
  refine Meets.bind quiet_standing.nextTime fun tsNs => ?_
  have hpayload := length_finaliseMarker_le cfg.key tsNs h.frames (h.offset ▸ h.fromOffset)
    (h.offset ▸ hlt)
  refine Meets.bind (quiet_standing.syntheticFrame (hpayload.trans (by decide))) fun frame =>
    Meets.given fun hframe => ?_
  have hshort : frame.length ≤ maxCompactionMarkerFrameBytes := by
    rw [hframe.length_eq]
    exact (Nat.add_le_add_left hpayload 104).trans (by decide)
  obtain ⟨event, hevent, -, -, rfl⟩ := hframe.readable (hpayload.trans (by decide))
  refine Meets.bind (Q := fun _ => Standing bytes 1) (Meets.check (fun _ _ hs => hs) fun hnot => ?_)
    fun _ => ?_
  · exact absurd hshort (of_decide_eq_false hnot)
  refine Meets.bind (Q := fun _ s => (bytes ++ encodeFrame event).length ≤ ceilingOf cfg.policy ∧
    Standing bytes 1 s) ?_ fun _ => Meets.given fun hfits => ?_
  · refine Meets.bind Meets.get fun t => Meets.check (fun hle s hs => ?_) fun hnot s hs => ?_
    · obtain ⟨rfl, hs⟩ := hs
      rw [List.length_append, ← hs.offset]
      exact ⟨of_decide_eq_true hle, hs⟩
    · obtain ⟨rfl, hs⟩ := hs
      have hoffset := hs.offset
      have hover := of_decide_eq_false hnot
      exact ⟨hs.file, by omega⟩
  refine Meets.bind (meets_writeAndSync_quiet _) fun _ => Meets.modify fun t ht =>
    .inr ⟨event, hevent, hfits, ?_⟩
  refine @Uncounted.count _ _ t ht (.new (t.state.offset + (encodeFrame event).length))
    t.state.pendingUnsynced (by decide : 0 < 2 ^ 32) ?_
  show t.state.offset + _ ≤ _
  rw [ht.offset, List.length_append]

omit [Xxh3] in
theorem Kept.standing (h : Kept cfg r) (hio : r.script.io = []) (hwrites : r.script.writes = []) :
    Standing r.active.bytes 1 r := by
  have hend : r.active.bytes.length = r.state.offset := h.tight.atEnd
  exact ⟨⟨hio, hwrites, h.tight.told⟩, h.tight.regular.1, rfl, hend.symm, h.inRange.1,
    hend ▸ h.tight.fromOffset_le⟩

omit [Xxh3] in
variable (cfg req) in
theorem meets_makeRoomHere : Meets (fun r => Standing bytes 1 r ∧ Kept cfg r) (makeRoomHere cfg req)
    (fun _ r => bytes.length + (encodeFrame req.event).length ≤ ceilingOf cfg.policy ∧
      Standing bytes 1 r ∧ Kept cfg r)
    (fun _ r => r.active.bytes = bytes) := by
  refine Meets.bind (Q := fun _ r => Standing bytes 1 r ∧ Kept cfg r) (fun _ h => h) fun r => ?_
  refine Meets.bind (tryIo_done (fun _ h => h.1.quiet) _) fun _ => ?_
  refine (meets_ensureFrameFits cfg _).mono (fun _ h => h) ?_ fun _ _ h => h.1.file
  rintro _ s ⟨hfits, hstanding, hkept⟩
  have hoffset := hstanding.offset
  exact ⟨by omega, hstanding, hkept⟩

variable (cfg) in
/-- The frame is written, and the marker that it triggers if there is room for it. -/
theorem meets_writeFrame_quiet (hlt : (bytes ++ encodeFrame req.event).length < 2 ^ 64) :
    Meets (Standing bytes 1) (writeFrame cfg req)
      (fun _ => Grown cfg (bytes ++ encodeFrame req.event))
      (fun _ r => r.active.bytes = bytes ++ encodeFrame req.event) := by
  have hwrite : ∀ F : Stop → Running → Prop, Meets (Standing bytes 1)
      (if needsImmediateSync req.event.header.eventType then writeAndSync (encodeFrame req.event)
        else writeOnly (encodeFrame req.event)) (fun _ =>
          Uncounted bytes (encodeFrame req.event)) F := by
    intro F
    refine Meets.ite (fun _ => meets_writeAndSync_quiet _) fun _ => ?_
    exact writeOnly_done quiet_standing.quiet fun _ h => h.extend _
  have hacked : ∀ r : Running, Grown cfg (bytes ++ encodeFrame req.event) r → ∀ a,
      Grown cfg (bytes ++ encodeFrame req.event) (r.setActive (r.active.ack a)) := by
    rintro r (h | ⟨event, hevent, hfits, h⟩) a
    · exact .inl ⟨h.quiet, h.stamps, h.file, h.offset, h.frames, h.fromOffset⟩
    · exact .inr ⟨event, hevent, hfits, h.quiet, h.stamps, h.file, h.offset, h.frames, h.fromOffset⟩
  have hcleared : ∀ r : Running, Grown cfg (bytes ++ encodeFrame req.event) r →
      Grown cfg (bytes ++ encodeFrame req.event) (r.setPending false) := by
    rintro r (h | ⟨event, hevent, hfits, h⟩)
    · exact .inl ⟨h.quiet, h.stamps, h.file, h.offset, h.frames, h.fromOffset⟩
    · exact .inr ⟨event, hevent, hfits, h.quiet, h.stamps, h.file, h.offset, h.frames, h.fromOffset⟩
  refine Meets.bind (Q := fun result r => result.isOk = true ∧
    Uncounted bytes (encodeFrame req.event) r)
    (Meets.attempt ?_) fun result => Meets.given fun hok => ?_
  · exact (hwrite fun _ _ => False).mono (fun _ h => h) (fun _ r h => ⟨rfl, h⟩) fun _ _ h => h.elim
  cases result with
  | error e => cases hok
  | ok written =>
    refine Meets.bind (Q := fun _ => Uncounted bytes (encodeFrame req.event)) (fun _ h => h)
      fun before => ?_
    refine Meets.bind (Q := fun _ => Standing (bytes ++ encodeFrame req.event) 0)
      (Meets.modify fun r h => ?_) fun _ => ?_
    · refine h.count h.frames (h.fromOffset.trans ?_)
      rw [List.length_append]
      exact Nat.le_add_right _ _
    refine Meets.bind (Q := fun _ => Standing (bytes ++ encodeFrame req.event) 0) (fun _ h => h)
      fun r => ?_
    refine Meets.bind (Q := fun _ => Grown cfg (bytes ++ encodeFrame req.event))
      (Meets.when (fun _ => ?_) fun _ s h => .inl h) fun _ => ?_
    · refine Meets.bind (tryIo_done quiet_standing.quiet _) fun _ => ?_
      exact Meets.bind ((meets_emit_quiet cfg hlt).fails fun _ _ h => h.1) fun _ =>
        Meets.modify hcleared
    · exact Meets.bind (Meets.modify fun r h => hacked r h _) fun _ => Meets.pure fun s h => h

/-! ## Following a run -/

namespace IsOpening

theorem begun (h : IsOpening cfg bytes) :
    ∃ seq openedAtNs rest, bytes = newSegmentHeaderBytes seq openedAtNs ++ rest := by
  cases h with
  | fresh seq openedAtNs => exact ⟨seq, openedAtNs, [], (List.append_nil _).symm⟩
  | successor prefixed short =>
    obtain ⟨linkFrame, markerFrame, -, -, rfl⟩ := prefixed
    exact ⟨_, _, _, rfl⟩

theorem follows (h : IsOpening cfg bytes) :
    Follows cfg.key bytes (.new segmentHeaderLen) segmentHeaderLen (.new bytes.length)
      bytes.length := by
  cases h with
  | fresh seq openedAtNs =>
    rw [length_newSegmentHeaderBytes]
    exact .refl _ _
  | successor prefixed short => exact prefixed.follows short

theorem short (h : IsOpening cfg bytes) : bytes.length ≤ maxRotationSuccessorPrefixBytes := by
  cases h with
  | fresh seq openedAtNs =>
    rw [length_newSegmentHeaderBytes]
    decide
  | successor prefixed short => exact short

end IsOpening

section Boundaries

variable {key : List UInt8} {c : CompactionState} {b : Nat}

omit [Xxh3] [Sha256] in
/-- A file that is cut behind its header still begins with one. -/
theorem begun_take (h : ∃ seq openedAtNs rest, bytes = newSegmentHeaderBytes seq openedAtNs ++ rest)
    (hb : segmentHeaderLen ≤ b) : ∃ seq openedAtNs rest,
      bytes.take b = newSegmentHeaderBytes seq openedAtNs ++ rest := by
  obtain ⟨seq, openedAtNs, rest, rfl⟩ := h
  refine ⟨seq, openedAtNs, rest.take (b - segmentHeaderLen), ?_⟩
  rw [List.take_append, length_newSegmentHeaderBytes, List.take_of_length_le]
  rwa [length_newSegmentHeaderBytes]

omit [Xxh3] [Sha256] in
/-- Frames are read up to a boundary. -/
theorem reads_boundary
    (hbegun : ∃ seq openedAtNs rest, bytes = newSegmentHeaderBytes seq openedAtNs ++ rest)
    (hb : isBoundary bytes b = true) :
    segmentHeaderLen ≤ b ∧ b ≤ bytes.length ∧ ∃ ds,
      Reads plausibleFraming bytes segmentHeaderLen ds b := by
  obtain ⟨hfits, hscan⟩ := Bool.and_eq_true_iff.mp hb
  obtain ⟨hheaderLen, hle⟩ := of_decide_eq_true hfits
  refine ⟨hheaderLen, hle, ?_⟩
  have hlen : (bytes.take b).length = b := List.length_take_of_le hle
  obtain ⟨header, hparse⟩ := parse_of_begun (begun_take hbegun hheaderLen)
  have hheader : headerLenOf (bytes.take b) = segmentHeaderLen := by
    rw [headerLenOf, hparse]
    rfl
  obtain ⟨ds, e, hreads, hstop⟩ :=
    Reads.exists_complete plausibleFraming (bytes.take b) segmentHeaderLen
  have hend := hreads.le_length (hlen.symm ▸ hheaderLen)
  rw [scanTailFile_of_reads (hlen.symm ▸ hheaderLen) (hheader.symm ▸ hreads) hstop] at hscan
  have hclean : ¬ e < (bytes.take b).length := by
    intro hlt
    rw [if_pos hlt] at hscan
    cases hscan
  obtain rfl : e = b := by omega
  have hwhole := hreads.append (bytes.drop e)
  rw [List.take_append_drop] at hwhole
  exact ⟨ds, hwhole⟩

omit [Xxh3] [Sha256] in
/-- Boundaries are a matter of the bytes before them. -/
theorem isBoundary_of_take {n : Nat} (hb : isBoundary (bytes.take n) b = true) :
    b ≤ n ∧ isBoundary bytes b = true :=
  by
  obtain ⟨hfits, hscan⟩ := Bool.and_eq_true_iff.mp hb
  obtain ⟨hheaderLen, hle⟩ := of_decide_eq_true hfits
  rw [List.length_take] at hle
  refine ⟨by omega, Bool.and_eq_true_iff.mpr ⟨decide_eq_true ⟨hheaderLen, by omega⟩, ?_⟩⟩
  rwa [List.take_take, Nat.min_eq_left (by omega)] at hscan

omit [Xxh3] in
/-- A frame at the end brings one boundary, behind it. -/
theorem isBoundary_extend {event : Event} (hevent : Readable event)
    (hbegun : ∃ seq openedAtNs rest, bytes = newSegmentHeaderBytes seq openedAtNs ++ rest)
    (h : Follows key bytes (.new segmentHeaderLen) segmentHeaderLen c bytes.length)
    (hb : isBoundary (bytes ++ encodeFrame event) b = true) :
    isBoundary bytes b = true ∨ b = (bytes ++ encodeFrame event).length := by
  have hbegun' : ∃ seq openedAtNs rest,
      bytes ++ encodeFrame event = newSegmentHeaderBytes seq openedAtNs ++ rest := by
    obtain ⟨seq, openedAtNs, rest, rfl⟩ := hbegun
    exact ⟨seq, openedAtNs, rest ++ encodeFrame event, List.append_assoc _ _ _⟩
  obtain ⟨-, hle, ds, hreads⟩ := reads_boundary hbegun' hb
  rcases Nat.lt_or_ge bytes.length b with hlt | hge
  · -- what is read behind the old end begins with the frame
    obtain ⟨es, hes⟩ := h.reads
    obtain ⟨rest, -, htail⟩ := (hes.append (encodeFrame event)).of_le hreads hlt.le
    have hhead := hevent.decode []
    rw [List.append_nil, ← @List.drop_left _ bytes (encodeFrame event)] at hhead
    cases htail with
    | nil => exact absurd hlt (Nat.lt_irrefl _)
    | cons head tail =>
      cases head.symm.trans hhead
      have hend : bytes.length + (encodeFrame event).length ≤ b := by
        rw [length_encodeFrame_event hevent.sized]
        exact tail.le
      rw [List.length_append] at hle ⊢
      exact .inr (by omega)
  · have hcut : bytes = (bytes ++ encodeFrame event).take bytes.length := List.take_left.symm
    refine .inl (Bool.and_eq_true_iff.mpr ?_)
    obtain ⟨hfits, hscan⟩ := Bool.and_eq_true_iff.mp hb
    rw [List.take_append_of_le_length hge] at hscan
    exact ⟨decide_eq_true ⟨(of_decide_eq_true hfits).1, hge⟩, hscan⟩

end Boundaries

namespace SegmentRun

/-- Going through the file leads to its end and past everything that has been held; from the end of
the opening on, something was held at every boundary. -/
structure Sound (cfg : Config) (opening : Nat) (s : SegmentRun) : Prop where
  begun : ∃ seq openedAtNs rest, s.bytes = newSegmentHeaderBytes seq openedAtNs ++ rest
  followed : ∃ c, Follows cfg.key s.bytes (.new segmentHeaderLen) segmentHeaderLen c s.bytes.length
  held : ∀ entry ∈ s.held, entry.1 ≤ s.bytes.length ∧
    Follows cfg.key s.bytes (.new segmentHeaderLen) segmentHeaderLen entry.2 entry.1
  covered : ∀ b, isBoundary s.bytes b = true → opening ≤ b → b ∈ s.held.map Prod.fst
  fits : cfg.policy.isFixed = false → s.bytes.length ≤ legacySafeMaxSegmentPhysicalBytes
  within : s.bytes.length < 2 ^ 64
  live : s.alive = true → Kept cfg s.writer ∧ holds s.writer ∈ s.held

variable {s : SegmentRun} {opening : Nat} {stamps : List Hlc} {times : List UInt64}

omit [Xxh3] [Sha256] in
theorem le_ceiling (hrotating : cfg.policy.isFixed = false) :
    ceilingOf cfg.policy = legacySafeMaxSegmentPhysicalBytes := by
  cases hpolicy : cfg.policy with
  | rotating policy => rfl
  | fixed maxBytes =>
    rw [hpolicy] at hrotating
    cases hrotating

omit [Xxh3] in
/-- The file has grown, and more has been held. -/
theorem Sound.grow (hs : s.Sound cfg opening) {r : Running} {alive : Bool} {more : List UInt8}
    {c : CompactionState}
    {entries : List (Nat × CompactionState)} (hbytes : r.active.bytes = s.bytes ++ more)
    (hfollowed : Follows cfg.key r.active.bytes (.new segmentHeaderLen) segmentHeaderLen c
      r.active.bytes.length)
    (hentries : ∀ entry ∈ entries, entry.1 ≤ r.active.bytes.length ∧
      Follows cfg.key r.active.bytes (.new segmentHeaderLen) segmentHeaderLen entry.2 entry.1)
    (hcovered : ∀ b, isBoundary r.active.bytes b = true →
      isBoundary s.bytes b = true ∨ b ∈ entries.map Prod.fst)
    (hfits : more = [] ∨ r.active.bytes.length ≤ ceilingOf cfg.policy)
    (hlive : alive = true → Kept cfg r ∧ holds r ∈ s.held ++ entries) :
    Sound cfg opening ⟨r, alive, s.held ++ entries⟩ := by
  have hlength : r.active.bytes.length = s.bytes.length + more.length := by
    rw [hbytes, List.length_append]
  obtain ⟨seq, openedAtNs, rest, hbegun⟩ := hs.begun
  refine ⟨⟨seq, openedAtNs, rest ++ more, ?_⟩, ⟨c, hfollowed⟩, fun entry hentry => ?_,
    fun b hb hopening => ?_, fun hrotating => ?_, ?_, hlive⟩
  · rw [← List.append_assoc, ← hbegun]
    exact hbytes
  · rcases List.mem_append.mp hentry with hold | hnew
    · obtain ⟨hle, hfollows⟩ := hs.held entry hold
      refine ⟨hle.trans (by show _ ≤ r.active.bytes.length; omega), ?_⟩
      show Follows cfg.key r.active.bytes _ _ _ _
      rw [hbytes]
      exact hfollows.append hle more
    · exact hentries entry hnew
  · rw [List.map_append]
    rcases hcovered b hb with hold | hnew
    · exact List.mem_append_left _ (hs.covered b hold hopening)
    · exact List.mem_append_right _ hnew
  · rcases hfits with rfl | hceiling
    · rw [List.append_nil] at hbytes
      exact (congrArg List.length hbytes).trans_le (hs.fits hrotating)
    · exact hceiling.trans (le_ceiling hrotating).le
  · rcases hfits with rfl | hceiling
    · rw [List.append_nil] at hbytes
      exact (congrArg List.length hbytes).trans_lt hs.within
    · exact hceiling.trans_lt (ceilingOf_lt _)

omit [Xxh3] in
/-- The task has ended, and has left the file as it was. -/
theorem Sound.down (hs : s.Sound cfg opening) {r : Running} (hbytes : r.active.bytes = s.bytes) :
    Sound cfg opening ⟨r, false, s.held⟩ := by
  obtain ⟨c, hfollowed⟩ := hs.followed
  have hsame : r.active.bytes = s.bytes ++ [] := by rw [hbytes, List.append_nil]
  have hgrown : Sound cfg opening ⟨r, false, s.held ++ []⟩ :=
    hs.grow hsame (by rwa [hbytes]) (by simp) (fun b hb => .inl (hbytes ▸ hb)) (.inl rfl) (by simp)
  rwa [List.append_nil] at hgrown

omit [Xxh3] in
theorem holds_followed (h : Kept cfg r) : (holds r).1 ≤ r.active.bytes.length ∧
    Follows cfg.key r.active.bytes (.new segmentHeaderLen) segmentHeaderLen (holds r).2
      (holds r).1 := by
  have hend : r.active.bytes.length = r.state.offset := h.tight.atEnd
  refine ⟨hend.ge, ?_⟩
  show Follows _ _ _ _ r.state.compaction r.state.offset
  rw [← hend]
  exact h.tight.follows

omit [Xxh3] in
theorem Sound.scripted (hs : s.Sound cfg opening) (halive : s.alive = true)
    (hstamps : ∀ stamp ∈ stamps, stamp.Valid) (times : List UInt64) :
    Standing s.bytes 1 (s.scripted stamps times) ∧ Kept cfg (s.scripted stamps times) := by
  have hkept := (hs.live halive).1
  have hscripted : Kept cfg (s.scripted stamps times) := hkept.withScript ⟨hstamps, by simp⟩
  exact ⟨hscripted.standing rfl rfl, hscripted⟩

theorem sound_emit (hs : s.Sound cfg opening) (halive : s.alive = true)
    (hstamps : ∀ stamp ∈ stamps, stamp.Valid) : (s.emit cfg stamps times).Sound cfg opening := by
  obtain ⟨hstanding, hkept⟩ := hs.scripted halive hstamps times
  have hquiet := meets_emit_quiet cfg hs.within _ (hstanding.fewer (Nat.zero_le 1))
  have hemit := meets_emitMarker cfg _ hkept.due
  unfold emit
  generalize emitCompactionMarker cfg (s.scripted stamps times) = result at hquiet hemit ⊢
  obtain ⟨_ | _, r⟩ := result
  · exact hs.down hquiet.1
  · obtain ⟨-, hkept'⟩ := hemit
    have hlast := holds_followed hkept'
    have hentries : ∀ entry ∈ [holds r], entry.1 ≤ r.active.bytes.length ∧
        Follows cfg.key r.active.bytes (.new segmentHeaderLen) segmentHeaderLen entry.2
          entry.1 := by
      intro entry hentry
      rwa [List.mem_singleton.mp hentry]
    have hlive : true = true → Kept cfg r ∧ holds r ∈ s.held ++ [holds r] :=
      fun _ => ⟨hkept', List.mem_append_right _ List.mem_cons_self⟩
    obtain ⟨c, hfollowed⟩ := hs.followed
    rcases hquiet with h | ⟨event, hevent, hfits, h⟩
    · refine hs.grow (h.file.trans (List.append_nil _).symm) hkept'.tight.follows hentries ?_
        (.inl rfl) hlive
      exact fun b hb => .inl (h.file ▸ hb)
    · refine hs.grow h.file hkept'.tight.follows hentries (fun b hb => ?_)
        (.inr (h.file ▸ hfits)) hlive
      rw [h.file] at hb
      refine (isBoundary_extend hevent hs.begun hfollowed hb).imp_right fun hend => ?_
      rw [List.map_singleton, List.mem_singleton, hend, ← h.offset]
      rfl

theorem sound_append (hs : s.Sound cfg opening) (halive : s.alive = true) (hstamped : req.Stamped)
    (hoperator : req.IsOperator) (hstamps : ∀ stamp ∈ stamps, stamp.Valid) :
    (s.append cfg req stamps times).Sound cfg opening := by
  have hroom := meets_makeRoomHere cfg req _ (hs.scripted halive hstamps times)
  unfold append
  generalize makeRoomHere cfg req (s.scripted stamps times) = result at hroom ⊢
  obtain ⟨_ | _, r⟩ := result
  · exact hs.down hroom
  obtain ⟨hceiling, hstanding, hkept⟩ := hroom
  rw [← List.length_append] at hceiling
  have hlt := hceiling.trans_lt (ceilingOf_lt cfg.policy)
  have hquiet := meets_writeFrame_quiet cfg hlt r hstanding
  have hwrite := meets_writeFrameKept hstamped hoperator r
    ⟨by rwa [hstanding.offset, ← List.length_append], hkept⟩
  -- the tracker behind the frame, whether the marker that it triggers is written or not
  have hcounted : Follows cfg.key (s.bytes ++ encodeFrame req.event) (.new segmentHeaderLen)
      segmentHeaderLen (counted r req).2 (s.bytes ++ encodeFrame req.event).length := by
    rw [List.length_append, ← hstanding.file]
    exact (Continues.frame hoperator).follows (Request.readable hstamped) hkept.tight.follows
  have hplace : (counted r req).1 = (s.bytes ++ encodeFrame req.event).length := by
    rw [List.length_append, ← hstanding.offset]
    rfl
  obtain ⟨seq, openedAtNs, rest, hbegun⟩ := hs.begun
  obtain ⟨c, hfollowed⟩ := hs.followed
  have hnew : ∀ b, isBoundary (s.bytes ++ encodeFrame req.event) b = true →
      isBoundary s.bytes b = true ∨ b = (counted r req).1 := by
    intro b hb
    rw [hplace]
    exact isBoundary_extend (Request.readable hstamped) hs.begun hfollowed hb
  dsimp only
  generalize writeFrame cfg req r = result at hquiet hwrite ⊢
  obtain ⟨_ | _, r'⟩ := result
  · have hbytes : r'.active.bytes = s.bytes ++ encodeFrame req.event := hquiet
    refine hs.grow hbytes (by rwa [hbytes]) (fun entry hentry => ?_) (fun b hb => ?_)
      (.inr (by rwa [hbytes])) (by simp)
    · rw [List.mem_singleton.mp hentry, hplace, hbytes]
      exact ⟨le_rfl, hcounted⟩
    · rw [hbytes] at hb
      exact (hnew b hb).imp_right fun h => List.mem_singleton.mpr h
  · have hgrown : ∃ more, r'.active.bytes = s.bytes ++ encodeFrame req.event ++ more ∧
        r'.active.bytes.length = r'.state.offset ∧ r'.active.bytes.length ≤ ceilingOf cfg.policy ∧
        ∀ b, isBoundary r'.active.bytes b = true →
          isBoundary (s.bytes ++ encodeFrame req.event) b = true ∨ b = r'.active.bytes.length := by
      rcases hquiet with h | ⟨event, hevent, hfits, h⟩
      · refine ⟨[], h.file.trans (List.append_nil _).symm,
          (congrArg List.length h.file).trans h.offset.symm, h.file ▸ hceiling, fun b hb =>
            .inl (h.file ▸ hb)⟩
      · refine ⟨encodeFrame event, h.file, (congrArg List.length h.file).trans h.offset.symm,
          h.file ▸ hfits, fun b hb => ?_⟩
        rw [h.file] at hb ⊢
        refine isBoundary_extend hevent ⟨seq, openedAtNs, rest ++ encodeFrame req.event, ?_⟩
          hcounted hb
        rw [← List.append_assoc, ← hbegun]
    obtain ⟨more, hbytes, hend, hfits, hboundary⟩ := hgrown
    have hkept' : Kept cfg r' := Alive.kept hwrite hend
    rw [List.append_assoc] at hbytes
    refine hs.grow hbytes hkept'.tight.follows (fun entry hentry => ?_) (fun b hb => ?_)
      (.inr hfits) fun _ => ⟨hkept', ?_⟩
    · rcases List.mem_cons.mp hentry with rfl | hlast
      · rw [hplace, hbytes, ← List.append_assoc]
        exact ⟨List.length_append.ge.trans' (Nat.le_add_right _ _), hcounted.append le_rfl more⟩
      · rw [List.mem_singleton.mp hlast]
        exact holds_followed hkept'
    · rcases hboundary b hb with hold | rfl
      · rcases hnew b hold with hold | rfl
        · exact .inl hold
        · exact .inr List.mem_cons_self
      · refine .inr (List.mem_cons_of_mem _ (List.mem_singleton.mpr ?_))
        exact hend
    · exact List.mem_append_right _ (List.mem_cons_of_mem _ List.mem_cons_self)

omit [Xxh3] in
theorem sound_crash (hs : s.Sound cfg opening) {b : Nat} (hb : isBoundary s.bytes b = true) :
    (s.crash cfg b).Sound cfg opening := by
  obtain ⟨hheader, hle, ds, hreads⟩ := reads_boundary hs.begun hb
  obtain ⟨c, hfollowed⟩ := hs.followed
  obtain ⟨c', hfirst, -⟩ := hfollowed.of_reads hreads hle
  have hbegun := begun_take hs.begun hheader
  have hlen : (s.bytes.take b).length = b := List.length_take_of_le hle
  have hleft : Follows cfg.key (s.bytes.take b) (.new segmentHeaderLen) segmentHeaderLen c' b :=
    hfirst.take hle le_rfl
  have hcut : Follows cfg.key (s.bytes.take b) (.new segmentHeaderLen) segmentHeaderLen c'
      (s.bytes.take b).length :=
    hlen.symm ▸ hleft
  have hold : ∀ entry ∈ s.held.filter fun entry => decide (entry.1 ≤ b),
      entry.1 ≤ (s.bytes.take b).length ∧
      Follows cfg.key (s.bytes.take b) (.new segmentHeaderLen) segmentHeaderLen entry.2
        entry.1 := by
    intro entry hentry
    obtain ⟨hmem, hbefore⟩ := List.mem_filter.mp hentry
    have hbefore := of_decide_eq_true hbefore
    obtain ⟨hwithin, hfollows⟩ := hs.held entry hmem
    exact ⟨hlen.symm ▸ hbefore, hfollows.take hwithin hbefore⟩
  have hcovered : ∀ a, isBoundary (s.bytes.take b) a = true → opening ≤ a →
      a ∈ (s.held.filter fun entry => decide (entry.1 ≤ b)).map Prod.fst := by
    intro a ha hopening
    obtain ⟨hbefore, ha⟩ := isBoundary_of_take ha
    obtain ⟨entry, hentry, rfl⟩ := List.mem_map.mp (hs.covered a ha hopening)
    exact List.mem_map_of_mem (List.mem_filter.mpr ⟨hentry, decide_eq_true hbefore⟩)
  have hfits : cfg.policy.isFixed = false →
      (s.bytes.take b).length ≤ legacySafeMaxSegmentPhysicalBytes :=
    fun hrotating => (hlen.trans_le hle).trans (hs.fits hrotating)
  have hwithin : (s.bytes.take b).length < 2 ^ 64 := (hlen.trans_le hle).trans_lt hs.within
  have hrecover : recoverCompactionState cfg.verificationKeys (s.bytes.take b) = .ok c' :=
    recover_of_begun hbegun hcut List.mem_cons_self
  unfold crash
  dsimp only
  split
  · exact ⟨hbegun, ⟨c', hcut⟩, hold, hcovered, hfits, hwithin, by simp⟩
  rename_i hrotating
  rw [Bool.not_eq_true] at hrotating
  rw [hrecover]
  refine ⟨hbegun, ⟨c', hcut⟩, fun entry hentry => ?_, fun a ha hopening => ?_, hfits, hwithin,
    fun _ => ⟨?_, ?_⟩⟩
  · rcases List.mem_append.mp hentry with hentry | hentry
    · exact hold entry hentry
    · rw [List.mem_singleton.mp hentry]
      exact ⟨hlen.ge, hleft⟩
  · rw [List.map_append]
    exact List.mem_append_left _ (hcovered a ha hopening)
  · have hended : Ended cfg ⟨[], .published (s.bytes.take b), s.writer.state, ⟨[], [], [], []⟩⟩ :=
      ⟨by simp, .of_follows_end hbegun hcut⟩
    exact Cut.kept ⟨⟨hended, by simp [Script.Regular, Script.Stamped]⟩, hcut⟩ (hfits hrotating)
      hlen.symm rfl rfl
  · exact List.mem_append_right _ List.mem_cons_self

theorem sound_opened (h : IsOpening cfg bytes) (seq openedAtNs : UInt64) :
    (opened bytes seq openedAtNs).Sound cfg bytes.length := by
  have hshort : bytes.length ≤ legacySafeMaxSegmentPhysicalBytes := h.short.trans (by decide)
  refine ⟨h.begun, ⟨_, h.follows⟩, fun entry hentry => ?_, fun b hb hopening => ?_, fun _ => hshort,
    hshort.trans_lt (by decide), fun _ => ⟨⟨⟨by simp [opened], h.begun, h.follows, rfl, rfl, rfl,
      by simp [opened, Script.Regular, Script.Stamped]⟩,
      (by decide : 0 + 1 < 2 ^ 32), hshort.trans_lt (by decide)⟩, List.mem_cons_self⟩⟩
  · rw [List.mem_singleton.mp hentry]
    exact ⟨le_rfl, h.follows⟩
  · obtain ⟨-, hle, -⟩ := reads_boundary h.begun hb
    rw [Nat.le_antisymm hle hopening]
    exact List.mem_cons_self

/-- **What one event keeps.** -/
theorem sound_step (hs : s.Sound cfg opening) {event : SegmentEvent} (hevent : event.Sound) :
    (s.step cfg event).1.Sound cfg opening := by
  cases event with
  | append req stamps times =>
    obtain ⟨hstamped, hoperator, hstamps⟩ := hevent
    show (if s.alive then _ else _ : SegmentRun).Sound cfg opening
    split
    · rename_i halive
      exact sound_append hs halive hstamped hoperator hstamps
    · exact hs
  | emit stamps times =>
    show (if s.alive then _ else _ : SegmentRun).Sound cfg opening
    split
    · rename_i halive
      exact sound_emit hs halive hevent
    · exact hs
  | crash b =>
    show (if isBoundary s.bytes b then _ else _ : SegmentRun).Sound cfg opening
    split
    · rename_i hb
      exact sound_crash hs hb
    · exact hs

theorem sound_after (h : IsOpening cfg bytes) (seq openedAtNs : UInt64) {events : List SegmentEvent}
    (hevents : ∀ event ∈ events, event.Sound) :
      (after cfg bytes seq openedAtNs events).Sound cfg bytes.length := by
  refine run_invariant_of_meets (P := Sound cfg bytes.length) (M := fun _ event => event.Sound)
    (fun s event hs hevent => sound_step hs hevent) _ (sound_opened h seq openedAtNs) events ?_
  rintro before event rest rfl
  exact hevents event (List.mem_append_right _ List.mem_cons_self)

/-- The writer and the verifier agree on the windows of the segment. -/
structure Agrees (cfg : Config) (opening : Nat) (s : SegmentRun) : Prop where
  accepted : ∃ unmarkedFrom,
    verifyExistingCompactionMarkerWindows s.bytes segmentHeaderLen cfg.verificationKeys true =
      .ok unmarkedFrom
  /-- Wherever the file is cut, the tracker is rebuilt that the writer has held there. -/
  rebuilt : ∀ b, isBoundary s.bytes b = true → ∃ c,
    recoverCompactionState cfg.verificationKeys (s.bytes.take b) = .ok c ∧
    (opening ≤ b → (b, c) ∈ s.held) ∧
      ∀ entry ∈ s.held, entry.1 = b → entry.2 = c
  live : s.alive = true →
    recoverCompactionState cfg.verificationKeys s.bytes = .ok s.writer.state.compaction
  /-- The next marker closes the segment, unless there is no room for it. -/
  next : s.alive = true → ∀ (stamps : List Hlc) (times : List UInt64),
    (∀ stamp ∈ stamps, stamp.Valid) →
    if (s.emit cfg stamps times).alive then
      verifyExistingCompactionMarkerWindows (s.emit cfg stamps times).bytes segmentHeaderLen
        cfg.verificationKeys false = .ok (s.emit cfg stamps times).bytes.length
    else ceilingOf cfg.policy < s.bytes.length + maxCompactionMarkerFrameBytes

theorem Sound.next (hs : s.Sound cfg opening) (halive : s.alive = true)
    (hstamps : ∀ stamp ∈ stamps, stamp.Valid) : if (s.emit cfg stamps times).alive then
      verifyExistingCompactionMarkerWindows (s.emit cfg stamps times).bytes segmentHeaderLen
        cfg.verificationKeys false = .ok (s.emit cfg stamps times).bytes.length
    else ceilingOf cfg.policy < s.bytes.length + maxCompactionMarkerFrameBytes := by
  obtain ⟨hstanding, hkept⟩ := hs.scripted halive hstamps times
  have hquiet := meets_emit_quiet cfg hs.within _ (hstanding.fewer (Nat.zero_le 1))
  have hemit := meets_emitMarker cfg _ hkept.due
  unfold emit
  generalize emitCompactionMarker cfg (s.scripted stamps times) = result at hquiet hemit ⊢
  obtain ⟨_ | _, r⟩ := result
  · exact hquiet.2
  · obtain ⟨hnone, hkept'⟩ := hemit
    have hclosed := (hkept'.closed hnone) r.active (List.mem_append_right _ List.mem_cons_self)
    exact verify_closed_of_follows hclosed.follows List.mem_cons_self

theorem Sound.agrees (hs : s.Sound cfg opening) : s.Agrees cfg opening := by
  obtain ⟨c, hfollowed⟩ := hs.followed
  have hkey : cfg.key ∈ cfg.verificationKeys := List.mem_cons_self
  refine ⟨⟨_, verify_of_follows hfollowed hkey⟩, fun b hb => ?_, fun halive => ?_,
    fun halive stamps times hstamps => hs.next halive hstamps⟩
  · obtain ⟨hheader, hle, ds, hreads⟩ := reads_boundary hs.begun hb
    have hlen : (s.bytes.take b).length = b := List.length_take_of_le hle
    have hrecover : ∀ c, Follows cfg.key s.bytes (.new segmentHeaderLen) segmentHeaderLen c b →
        recoverCompactionState cfg.verificationKeys (s.bytes.take b) = .ok c := by
      intro c hfollows
      refine recover_of_begun (begun_take hs.begun hheader) ?_ hkey
      rw [hlen]
      exact hfollows.take hle le_rfl
    obtain ⟨c', hfirst, -⟩ := hfollowed.of_reads hreads hle
    have hheld : ∀ entry ∈ s.held, entry.1 = b → entry.2 = c' := by
      rintro entry hentry rfl
      exact Except.ok.inj ((hrecover _ (hs.held entry hentry).2).symm.trans (hrecover c' hfirst))
    refine ⟨c', hrecover c' hfirst, fun hopening => ?_, hheld⟩
    obtain ⟨entry, hentry, hplace⟩ := List.mem_map.mp (hs.covered b hb hopening)
    have hsame : entry = (b, c') := Prod.ext hplace (hheld entry hentry hplace)
    exact hsame ▸ hentry
  · exact recover_of_begun hs.begun (hs.live halive).1.tight.follows hkey

end SegmentRun

/-- **The writer and the verifier agree** after every run of appends, markers and cuts at frame
boundaries whose stamps are those that decoders take and whose requests bring no markers of their
own. -/
theorem writer_and_verifier_agree (cfg : Config) (bytes : List UInt8)
    (hopening : IsOpening cfg bytes)
    (seq openedAtNs : UInt64) (events : List SegmentEvent)
    (hevents : ∀ event ∈ events, event.Sound) :
    (SegmentRun.after cfg bytes seq openedAtNs events).Agrees cfg bytes.length :=
  (SegmentRun.sound_after hopening seq openedAtNs hevents).agrees

end Neoth.Wal.Writer

namespace Neoth.Wal.Writer

/-! ## A stamp that no decoder takes -/

section Samples

attribute [local instance] emptyXxh3 Sha256.fips

/-- Two appends with a marker between them, a cut before the marker, and one more append with its
marker. -/
def sampleSegmentEvents : List SegmentEvent :=
  [.append (sampleRequest 1) [] [], .emit [] [], .append (sampleRequest 2) [] [], .crash 164,
    .append (sampleRequest 3) [] [], .emit [] []]

theorem writer_and_verifier_agree_sample :
    (SegmentRun.after sampleConfig (newSegmentHeaderBytes 0 0) 0 0 sampleSegmentEvents).alive =
      true ∧
      (SegmentRun.after sampleConfig (newSegmentHeaderBytes 0 0) 0 0 sampleSegmentEvents).Agrees
        sampleConfig (newSegmentHeaderBytes 0 0).length := by
  have halive : ∀ events, events = sampleSegmentEvents →
      (SegmentRun.after sampleConfig (newSegmentHeaderBytes 0 0) 0 0 events).alive = true := by
    intro events hevents
    delta SegmentRun.after SegmentRun.step SegmentRun.append SegmentRun.emit SegmentRun.crash
      writeFrame markerBehind
      emitCompactionMarker recoverCompactionState verifyExistingCompactionMarkerWindows verifyFrom
        verifyFrom._f
    rw [hevents, MarkerPayload.toVec_eq, MarkerPayload.fromSlice_eq, Sha256.fips_eq]
    decide +kernel
  refine ⟨halive _ rfl, writer_and_verifier_agree sampleConfig _ (.fresh 0 0) 0 0
    sampleSegmentEvents ?_⟩
  have hrequest : ∀ physicalNs : UInt64, (sampleRequest physicalNs).Stamped →
      SegmentEvent.Sound (.append (sampleRequest physicalNs) [] []) :=
    fun _ hstamped => ⟨hstamped, (by decide : eventTypeRawText ≠ eventTypeCompactionMarker), by
      simp⟩
  simp only [sampleSegmentEvents, List.forall_mem_cons]
  refine ⟨hrequest 1 (by decide : Hlc.Valid ⟨1, 0⟩), by simp [SegmentEvent.Sound],
    hrequest 2 (by decide : Hlc.Valid ⟨2, 0⟩), trivial, hrequest 3 (by decide : Hlc.Valid ⟨3, 0⟩),
    by simp [SegmentEvent.Sound], by simp⟩

/-- The first header that is built while the clock of the system reads the epoch. -/
def epochRequest : Request where
  event := ⟨(HeaderBuilder.new eventTypeRawText []).build ⟨0, 1⟩, []⟩
  forceAuthenticationMarker := false
  once := none
  durableTrust := none
  sized := @sized_build emptyXxh3 (.new eventTypeRawText []) (Nat.zero_le _) ⟨0, 1⟩
  fits := Nat.zero_le _

/-- The writer counts the frame, and the verifier does not decode it. -/
theorem epoch_frame_rejected :
    (SegmentRun.after sampleConfig (newSegmentHeaderBytes 0 0) 0 0 [.append epochRequest []
      []]).alive = true ∧
      ¬ (SegmentRun.after sampleConfig (newSegmentHeaderBytes 0 0) 0 0 [.append epochRequest []
        []]).Agrees sampleConfig (newSegmentHeaderBytes 0 0).length := by
  have hrefused : (verifyExistingCompactionMarkerWindows
      (SegmentRun.after sampleConfig (newSegmentHeaderBytes 0 0) 0 0 [.append epochRequest []
        []]).bytes segmentHeaderLen
      sampleConfig.verificationKeys true).isOk = false := by
    rw [Sha256.fips_eq]
    decide +kernel
  refine ⟨by rw [Sha256.fips_eq]; decide +kernel, fun h => ?_⟩
  obtain ⟨unmarkedFrom, haccepted⟩ := h.accepted
  rw [haccepted] at hrefused
  exact Bool.false_ne_true hrefused.symm

end Samples

end Neoth.Wal.Writer
