import Neoth.Lib.FrameTrail
import Neoth.Memory.Resume

/-!
# Indexing past damage

The passes of `memory/indexer.rs` over a segment one frame of which has been overwritten.  A pass
that meets bytes that are no frame moves its cursor by one, except that a frame which seems to reach
past the end of the segment is taken for one that is still being written.

* `Indexing.pass`: a pass from the file on;
* `pass_trail`, `passes_trail`: a pass, and then any number of them, goes on along one trail through
  the segment;
* `passes_advance`: the cursor moves as long as the trail goes on;
* **`resyncs_iff`**: the passes index every frame behind the damage if and only if no length that
  they read in the damaged bytes leads out of them, and nothing they read on the way stops them for
  another reason.

Opening a sealed body is a parameter.
-/

open Lib Lib.Encoding Lib.FrameLog Neoth.MeshSync Neoth.Wal

namespace Neoth.Memory

/-! ## A pass from the file on -/

section
variable [SealedBodies] [WrapperTags] [SerdeJson] {O : Type} [OriginReceipts O]

/-- The frames that the loop hands out, with their offsets. -/
def placesFrom (logical : List UInt8) (offset : Nat) : List (Nat × IndexedFrame) :=
  ((replayFrom (fun (log : Nat × List (Nat × IndexedFrame)) f =>
    .ok (log.1 + f.header.totalLen, log.2 ++ [(log.1, f)]))
    logical (logical.length + 1) (offset, []) offset 0).toOption.map (·.1.2)).getD []

/-- The index, with what has been handed to `index_frame` by the passes that have committed. -/
structure Indexing (O : Type) where
  db : IndexDb O
  handed : List (Nat × IndexedFrame)

namespace Indexing

/-- A pass; one that fails is rolled back and tried again. -/
def pass (path : String) (raw : List UInt8) (s : Indexing O) (nowUnix : Int) : Indexing O :=
  match s.db.replayRaw path raw nowUnix, logicalSegmentBytes raw with
  | .ok (db, _), some (headerLen, logical) =>
    ⟨db, s.handed ++ placesFrom logical (max (s.db.loadCursor path) headerLen)⟩
  | _, _ => s

def passes (path : String) (raw : List UInt8) (s : Indexing O) (times : List Int) : Indexing O :=
  times.foldl (pass path raw) s

end Indexing

/-! ## One pass -/

omit [SealedBodies] [WrapperTags] [SerdeJson] [OriginReceipts O] in
theorem foldlM_places (fs : List IndexedFrame) (offset : Nat) (log : List (Nat × IndexedFrame)) :
    ∃ stop, fs.foldlM (fun (log : Nat × List (Nat × IndexedFrame)) f =>
      (.ok (log.1 + f.header.totalLen, log.2 ++ [(log.1, f)]) : Except String _)) (offset, log) =
        .ok (stop, log ++ placed readFraming offset fs) := by
  induction fs generalizing offset log with
  | nil => exact ⟨offset, by rw [placed, List.append_nil]; rfl⟩
  | cons f fs ih =>
    obtain ⟨stop, hstop⟩ := ih (offset + f.header.totalLen) (log ++ [(offset, f)])
    refine ⟨stop, ?_⟩
    rw [List.foldlM_cons]
    show List.foldlM _ (offset + f.header.totalLen, log ++ [(offset, f)]) fs = _
    rw [hstop, List.append_assoc]
    rfl

omit [SealedBodies] [WrapperTags] [SerdeJson] [OriginReceipts O] in
theorem placesFrom_eq {logical : List UInt8} {offset b : Nat} {fs : List IndexedFrame}
    (hreads : Reads readFraming logical offset fs b)
    (hstop : ∀ f, readFrame (logical.drop b) ≠ .ok f) :
    placesFrom logical offset = placed readFraming offset fs := by
  obtain ⟨gs, c, hgs, hstop', hreplay⟩ := replayFrom_spec
    (fun (log : Nat × List (Nat × IndexedFrame)) f =>
      .ok (log.1 + f.header.totalLen, log.2 ++ [(log.1, f)])) logical
    (by omega : logical.length < logical.length + 1 + offset) (offset, []) 0
  have hbc : b = c := Nat.le_antisymm (hgs.complete hstop' hreads) (hreads.complete hstop hgs)
  subst hbc
  obtain ⟨stop, hplaces⟩ := foldlM_places gs offset []
  rw [placesFrom, hreplay, hplaces, hgs.unique hreads]
  rfl

/-- The row of a frame can be stored. -/
def Indexable (f : IndexedFrame) : Prop := ∃ row, providerOf f = .ok row

omit [SealedBodies] in
theorem indexFrame_ok_iff {views : Views O} {f : IndexedFrame} :
    (∃ views', views.indexFrame f = .ok views') ↔ Indexable f := by
  unfold Indexable Views.indexFrame
  cases providerOf f with
  | error e =>
    constructor
    · rintro ⟨_, h⟩
      cases h
    · rintro ⟨_, h⟩
      cases h
  | ok row => exact ⟨fun _ => ⟨row, rfl⟩, fun _ => ⟨_, rfl⟩⟩

omit [SealedBodies] in
theorem indexAll_ok_iff {fs : List IndexedFrame} {views : Views O} :
    (∃ views', fs.foldlM Views.indexFrame views = .ok views') ↔ ∀ f ∈ fs, Indexable f := by
  induction fs generalizing views with
  | nil => simp [pure, Except.pure]
  | cons f fs ih =>
    rw [List.forall_mem_cons, List.foldlM_cons, ← @indexFrame_ok_iff _ _ _ _ views]
    cases hindex : views.indexFrame f with
    | error e =>
      constructor
      · rintro ⟨_, h⟩
        cases h
      · rintro ⟨⟨_, h⟩, -⟩
        cases h
    | ok views₁ =>
      rw [and_iff_right ⟨views₁, rfl⟩, ← @ih views₁]
      rfl

omit [SealedBodies] [WrapperTags] [SerdeJson] [OriginReceipts O] in
def IndexDb.cursorOf (db : IndexDb O) (path : String) (headerLen : Nat) : Nat :=
  max (db.loadCursor path) headerLen

/-- Any error but that of a buffer that is too short moves the cursor on. -/
def Skipped (e : HeaderParseError) : Prop := ∀ got need, e ≠ .bufferTooShort got need

namespace Indexing

variable {path : String} {raw logical : List UInt8} {headerLen : Nat} {s : Indexing O}

/-- A pass that fails changes nothing; another one hands out the frames up to where none begins. -/
theorem pass_spec (hlogical : logicalSegmentBytes raw = some (headerLen, logical)) (nowUnix : Int) :
    ∃ fs b, Reads readFraming logical (s.db.cursorOf path headerLen) fs b ∧
      (∀ f, readFrame (logical.drop b) ≠ .ok f) ∧
      ((¬ ∀ f ∈ fs, Indexable f) ∧ s.pass path raw nowUnix = s ∨
        (∀ f ∈ fs, Indexable f) ∧
          (s.pass path raw nowUnix).handed = s.handed ++ placed readFraming
            (s.db.cursorOf path headerLen) fs ∧
          (s.pass path raw nowUnix).db.cursorOf path headerLen = resumeAt logical b) := by
  obtain ⟨fs, b, hfs, hstop, hreplay⟩ := replayFrom_spec Views.indexFrame logical
    (by omega : logical.length < logical.length + 1 + s.db.cursorOf path headerLen) s.db.views 0
  refine ⟨fs, b, hfs, hstop, ?_⟩
  have hplaces := placesFrom_eq hfs hstop
  unfold IndexDb.cursorOf at hfs hreplay hplaces ⊢
  unfold pass IndexDb.replayRaw IndexDb.replayFile
  rw [hlogical]
  dsimp only
  unfold IndexDb.replayRead
  dsimp only
  by_cases hempty : logical.length ≤ max (s.db.loadCursor path) headerLen
  · -- nothing is left to read
    have hdrop : logical.drop (max (s.db.loadCursor path) headerLen) = [] :=
      List.drop_eq_nil_of_le hempty
    rw [if_pos hempty]
    cases hfs with
    | cons head tail =>
      change readFrame _ = _ at head
      rw [hdrop, readFrame_nil] at head
      cases head
    | nil =>
      refine .inr ⟨by simp, congrArg (s.handed ++ ·) hplaces, ?_⟩
      rw [resumeAt, hdrop, readFrame_nil]
  · rw [if_neg hempty, hreplay]
    cases hindex : fs.foldlM Views.indexFrame s.db.views with
    | error e =>
      refine .inl ⟨fun hall => ?_, rfl⟩
      obtain ⟨views', hviews⟩ := (@indexAll_ok_iff _ _ _ _ fs s.db.views).mpr hall
      cases hindex.symm.trans hviews
    | ok views =>
      refine .inr ⟨indexAll_ok_iff.mp ⟨views, hindex⟩, ?_, ?_⟩
      · exact congrArg (s.handed ++ ·) hplaces
      · show max (IndexDb.loadCursor (IndexDb.saveCursor _ path (resumeAt logical b) nowUnix) path)
          headerLen = _
        have hresume : b ≤ resumeAt logical b := by
          unfold resumeAt
          split <;> omega
        rw [SegmentSystem.loadCursor_saveCursor]
        exact max_eq_left ((le_max_right _ _).trans (hfs.le.trans hresume))

omit [SealedBodies] [WrapperTags] [SerdeJson] [OriginReceipts O] in
theorem resumeAt_trail {b : Nat} (hstop : ∀ f, readFrame (logical.drop b) ≠ .ok f) :
    Trail readFraming Skipped logical b [] (resumeAt logical b) := by
  unfold resumeAt
  cases hread : readFrame (logical.drop b) with
  | ok f => exact absurd hread (hstop f)
  | error e =>
    cases e with
    | bufferTooShort got need => exact .refl b
    | _ => exact .skip hread (fun _ _ => by simp) (.refl _)

omit [SealedBodies] [WrapperTags] [SerdeJson] [OriginReceipts O] in
theorem lt_resumeAt {b : Nat} {e : HeaderParseError} (hread : readFrame (logical.drop b) = .error e)
    (he : Skipped e) :
    b < resumeAt logical b := by
  unfold resumeAt
  rw [hread]
  cases e with
  | bufferTooShort got need => exact absurd rfl (he got need)
  | _ => exact Nat.lt_succ_self b

/-- A pass goes on along the trail through the segment. -/
theorem pass_trail (hlogical : logicalSegmentBytes raw = some (headerLen, logical))
    (nowUnix : Int) : ∃ ps, Trail readFraming Skipped logical (s.db.cursorOf path headerLen) ps
        ((s.pass path raw nowUnix).db.cursorOf path headerLen) ∧
      (s.pass path raw nowUnix).handed = s.handed ++ ps ∧ ∀ place ∈ ps, Indexable place.2 := by
  obtain ⟨fs, b, hfs, hstop, ⟨-, hpass⟩ | ⟨hindexable, hhanded, hcursor⟩⟩ :=
    @pass_spec _ _ _ _ _ path _ _ _ s hlogical nowUnix
  · rw [hpass]
    exact ⟨[], .refl _, by simp, by simp⟩
  · refine ⟨_, ?_, hhanded, fun place hplace => hindexable _ (mem_of_placed hplace)⟩
    have htrail := (Trail.of_reads hfs).trans (resumeAt_trail hstop)
    rwa [List.append_nil, ← hcursor] at htrail

/-- It moves on, if it can. -/
theorem pass_advances (hlogical : logicalSegmentBytes raw = some (headerLen, logical))
    (nowUnix : Int)
    (hindexable : ∀ p f, Arrives readFraming Skipped logical (s.db.cursorOf path headerLen) p →
      readFrame (logical.drop p) = .ok f → Indexable f)
    (hgoes : ∀ e, readFrame (logical.drop (s.db.cursorOf path headerLen)) = .error e → Skipped e) :
    s.db.cursorOf path headerLen < (s.pass path raw nowUnix).db.cursorOf path headerLen := by
  obtain ⟨fs, b, hfs, hstop, ⟨hnot, -⟩ | ⟨-, -, hcursor⟩⟩ :=
    @pass_spec _ _ _ _ _ path _ _ _ s hlogical nowUnix
  · refine absurd (fun f hf => ?_) hnot
    obtain ⟨p, hp⟩ := exists_placed hf (s.db.cursorOf path headerLen)
    obtain ⟨hread, ⟨gs, hgs⟩, -⟩ := hfs.mem_placed hp
    exact hindexable p f ⟨_, .of_reads hgs⟩ hread
  · rw [hcursor]
    cases hfs with
    | nil =>
      cases hread : readFrame (logical.drop (s.db.cursorOf path headerLen)) with
      | ok f => exact absurd hread (hstop f)
      | error e => exact lt_resumeAt hread (hgoes e hread)
    | cons head tail =>
      have hpos := readFraming.size_pos head
      have htail := tail.le
      have hresume := (resumeAt_trail hstop).le
      omega

/-! ## Any number of passes -/

theorem passes_trail (hlogical : logicalSegmentBytes raw = some (headerLen, logical))
    (times : List Int) : ∃ ps, Trail readFraming Skipped logical (s.db.cursorOf path headerLen) ps
        ((s.passes path raw times).db.cursorOf path headerLen) ∧
      (s.passes path raw times).handed = s.handed ++ ps ∧ ∀ place ∈ ps, Indexable place.2 := by
  induction times generalizing s with
  | nil => exact ⟨[], .refl _, by simp [passes], by simp⟩
  | cons nowUnix times ih =>
    obtain ⟨ps, hps, hhanded, hindexable⟩ := @pass_trail _ _ _ _ _ path _ _ _ s hlogical nowUnix
    obtain ⟨qs, hqs, hrest, hindexable'⟩ := @ih (s.pass path raw nowUnix)
    refine ⟨ps ++ qs, hps.trans hqs, ?_, fun place hplace => ?_⟩
    · rw [← List.append_assoc, ← hhanded]
      exact hrest
    · rcases List.mem_append.mp hplace with hplace | hplace
      · exact hindexable place hplace
      · exact hindexable' place hplace

/-- Each pass brings the cursor nearer to the end. -/
theorem passes_advance (hlogical : logicalSegmentBytes raw = some (headerLen, logical))
    (times : List Int)
    (hindexable : ∀ p f, Arrives readFraming Skipped logical (s.db.cursorOf path headerLen) p →
      readFrame (logical.drop p) = .ok f → Indexable f)
    (hgoes : ∀ p, Arrives readFraming Skipped logical (s.db.cursorOf path headerLen) p →
      p < logical.length →
      ∀ e, readFrame (logical.drop p) = .error e → Skipped e) :
    min logical.length (s.db.cursorOf path headerLen + times.length) ≤
      (s.passes path raw times).db.cursorOf path headerLen := by
  induction times generalizing s with
  | nil => exact min_le_right _ _
  | cons nowUnix times ih =>
    obtain ⟨ps, hps, -⟩ := @pass_trail _ _ _ _ _ path _ _ _ s hlogical nowUnix
    have harrives : Arrives readFraming Skipped logical (s.db.cursorOf path headerLen)
        ((s.pass path raw nowUnix).db.cursorOf path headerLen) := ⟨ps, hps⟩
    have hrest := @ih (s.pass path raw nowUnix) (fun p f hp => hindexable p f (harrives.trans hp))
      fun p hp => hgoes p (harrives.trans hp)
    refine le_trans ?_ hrest
    rcases Nat.lt_or_ge (s.db.cursorOf path headerLen) logical.length with hlt | hge
    · have hmoved := @pass_advances _ _ _ _ _ path _ _ _ s hlogical nowUnix hindexable
        (hgoes _ ⟨[], .refl _⟩ hlt)
      rw [List.length_cons]
      omega
    · have hmoved := hps.le
      omega

end Indexing

/-! ## Damaged segments -/

/-- A frame with its bytes. -/
structure LaidFrame where
  frame : IndexedFrame
  bytes : List UInt8
  size : bytes.length = frame.header.totalLen
  decodes : readFrame bytes = .ok frame

def bytesOf (frames : List LaidFrame) : List UInt8 := frames.flatMap (·.bytes)

/-- A segment of plain frames, one of which has been overwritten, with frames behind it.  `parsed`:
the header is one of a segment that is neither compressed nor, as the key has not made its bytes,
encrypted. -/
structure DamagedSegment where
  header : List UInt8
  before : List LaidFrame
  original : LaidFrame
  damage : List UInt8
  after : List LaidFrame
  sameLength : damage.length = original.bytes.length
  followed : after ≠ []
  parsed : ∀ body, ∃ h, parseSegmentHeader (header ++ body) = .ok h ∧ h.headerLen = header.length ∧
    h.isCompressed = false
  unsealed : SealedBodies.decrypt header (bytesOf before ++ (damage ++ bytesOf after)) = none

namespace DamagedSegment

variable (seg : DamagedSegment)

def body : List UInt8 := bytesOf seg.before ++ (seg.damage ++ bytesOf seg.after)

def bytes : List UInt8 := seg.header ++ seg.body

def damageStart : Nat := seg.header.length + (bytesOf seg.before).length

def damageEnd : Nat := seg.damageStart + seg.damage.length

/-- The intact frames behind the damage, with their offsets. -/
def following : List (Nat × IndexedFrame) :=
  placed readFraming seg.damageEnd (seg.after.map (·.frame))

/-- A frame of the segment, as it was, begins at `c`. -/
def Begins (c : Nat) : Prop :=
  c ∈ (placed readFraming seg.header.length (seg.before.map (·.frame))).map Prod.fst ∨
  c = seg.damageStart ∨
    c ∈ seg.following.map Prod.fst

/-- Enough further passes index every intact frame behind the damage that was not indexed yet, and
leave the cursor at the end of the segment. -/
def Resyncs (path : String) (db : IndexDb O) : Prop :=
  ∃ n, ∀ times : List Int, n ≤ times.length →
    (∀ place ∈ seg.following, db.cursorOf path seg.header.length ≤ place.1 →
      place ∈ (Indexing.passes path seg.bytes ⟨db, []⟩ times).handed) ∧
    (Indexing.passes path seg.bytes ⟨db, []⟩ times).db.cursorOf path seg.header.length =
      seg.bytes.length

/-- What lets the passes through that begin at `c`. -/
structure Passable (c : Nat) : Prop where
  plain : ¬ encMagic <+: seg.body
  small : seg.body.length ≤ maxDecompressedBytes
  lengths : ∀ p, Arrives readFraming Skipped seg.bytes c p → seg.damageStart ≤ p →
    p < seg.damageEnd →
    (∀ got need, readFrame (seg.bytes.drop p) ≠ .error (.bufferTooShort got need)) ∧
      ∀ f, readFrame (seg.bytes.drop p) = .ok f → p + f.header.totalLen ≤ seg.damageEnd
  indexable : ∀ p f, Arrives readFraming Skipped seg.bytes c p →
    readFrame (seg.bytes.drop p) = .ok f → Indexable f

omit [SealedBodies] [WrapperTags] [SerdeJson] [OriginReceipts O] in
theorem reads_laid (frames : List LaidFrame) (header more : List UInt8) :
    Reads readFraming (header ++ (bytesOf frames ++ more)) header.length (frames.map (·.frame))
      (header.length + (bytesOf frames).length) := by
  have hlaid := @Reads.laid _ _ _ readFraming (frames.map fun x => (x.frame, x.bytes))
    (by
      intro p hp
      obtain ⟨x, -, rfl⟩ := List.mem_map.mp hp
      exact ⟨x.size, fun more => readFraming.decode_append more x.decodes⟩) header more
  rwa [List.flatMap_map, List.map_map] at hlaid

omit [WrapperTags] [SerdeJson] [OriginReceipts O] in
theorem reads_before :
    Reads readFraming seg.bytes seg.header.length (seg.before.map (·.frame)) seg.damageStart :=
  reads_laid seg.before seg.header _

omit [WrapperTags] [SerdeJson] [OriginReceipts O] in
theorem reads_after :
    Reads readFraming seg.bytes seg.damageEnd (seg.after.map (·.frame)) seg.bytes.length := by
  have hlaid := reads_laid seg.after (seg.header ++ (bytesOf seg.before ++ seg.damage)) []
  have hstart : (seg.header ++ (bytesOf seg.before ++ seg.damage)).length = seg.damageEnd := by
    simp [damageEnd, damageStart, Nat.add_assoc]
  have hend : seg.damageEnd + (bytesOf seg.after).length = seg.bytes.length := by
    simp only [damageEnd, damageStart, bytes, body, List.length_append]
    omega
  rwa [hstart, hend, List.append_nil, List.append_assoc, List.append_assoc] at hlaid

omit [WrapperTags] [SerdeJson] [OriginReceipts O] in
theorem logical_eq : logicalSegmentBytes seg.bytes =
    if encMagic.isPrefixOf seg.body = true ∨ maxDecompressedBytes < seg.body.length then none
    else some (seg.header.length, seg.bytes) := by
  obtain ⟨h, hparse, hlen, hplain⟩ := seg.parsed seg.body
  have htake : seg.bytes.take h.headerLen = seg.header := by rw [bytes, hlen, List.take_left]
  have hdrop : seg.bytes.drop h.headerLen = seg.body := by rw [bytes, hlen, List.drop_left]
  unfold logicalSegmentBytes
  rw [show parseSegmentHeader seg.bytes = .ok h from hparse]
  dsimp only
  rw [htake, hdrop, hplain, hlen]
  by_cases henc : encMagic.isPrefixOf seg.body = true
  · rw [if_pos henc, if_pos (.inl henc), show SealedBodies.decrypt seg.header seg.body =
      none from seg.unsealed]
    rfl
  · rw [if_neg henc]
    by_cases hlarge : maxDecompressedBytes < seg.body.length
    · rw [if_pos (.inr hlarge)]
      exact if_pos hlarge
    · rw [if_neg (by simp [henc, hlarge])]
      exact if_neg hlarge

omit [WrapperTags] [SerdeJson] [OriginReceipts O] in
/-- The first frame behind the damage, and the last. -/
theorem exists_following : (∃ f, (seg.damageEnd, f) ∈ seg.following) ∧
    ∃ place ∈ seg.following, place.1 + place.2.header.totalLen = seg.bytes.length ∧
      ∀ c ∈ seg.following.map Prod.fst, c ≤ place.1 := by
  obtain ⟨x, rest, hafter⟩ := List.exists_cons_of_ne_nil seg.followed
  refine ⟨⟨x.frame, by simp [following, hafter, placed]⟩, ?_⟩
  exact seg.reads_after.exists_last (by simp [hafter])

variable {seg} {path : String} {c : Nat}

omit [WrapperTags] [OriginReceipts O] in
/-- Behind what lets it through, reading comes to the frames that follow, and to the end. -/
theorem Passable.arrives (h : seg.Passable c) (hbegins : seg.Begins c) :
    (∀ place ∈ seg.following, c ≤ place.1 → Arrives readFraming Skipped seg.bytes c place.1) ∧
      Arrives readFraming Skipped seg.bytes c seg.bytes.length := by
  have hfollowing : ∀ place ∈ seg.following, ∃ gs,
      Reads readFraming seg.bytes seg.damageEnd gs place.1 :=
    fun place hplace => (seg.reads_after.mem_placed hplace).2.1
  have hacross : Arrives readFraming Skipped seg.bytes c seg.damageStart →
      Arrives readFraming Skipped seg.bytes c seg.damageEnd := by
    intro hstart
    refine hstart.trans (Trail.reaches (fun p hp hlt => ?_) (Nat.le_add_right _ _))
    obtain ⟨ps, hps⟩ := hp
    obtain ⟨hgoes, hframe⟩ := h.lengths p (hstart.trans ⟨ps, hps⟩) hps.le hlt
    exact ⟨fun e hread got need he => hgoes got need (he ▸ hread), hframe⟩
  have hbehind : Arrives readFraming Skipped seg.bytes c seg.damageEnd →
      (∀ place ∈ seg.following, c ≤ place.1 → Arrives readFraming Skipped seg.bytes c place.1) ∧
        Arrives readFraming Skipped seg.bytes c seg.bytes.length := by
    intro hend
    refine ⟨fun place hplace _ => ?_, hend.trans ⟨_, .of_reads seg.reads_after⟩⟩
    obtain ⟨gs, hgs⟩ := hfollowing place hplace
    exact hend.trans ⟨_, .of_reads hgs⟩
  rcases hbegins with hin | rfl | hin
  · obtain ⟨⟨p, f⟩, hplace, rfl⟩ := List.mem_map.mp hin
    obtain ⟨hread, -, gs, hgs⟩ := seg.reads_before.mem_placed hplace
    exact hbehind (hacross ⟨_, .frame hread (.of_reads hgs)⟩)
  · exact hbehind (hacross ⟨[], .refl _⟩)
  · obtain ⟨⟨p, f⟩, hplace, rfl⟩ := List.mem_map.mp hin
    obtain ⟨-, ⟨gs, hgs⟩, gs', hrest⟩ := seg.reads_after.mem_placed hplace
    constructor
    · intro place hplace' hle
      obtain ⟨gs', hgs'⟩ := hfollowing place hplace'
      obtain ⟨hs, -, hrest⟩ := hgs.of_le hgs' hle
      exact ⟨_, .of_reads hrest⟩
    · obtain ⟨hs, -, hrest⟩ := hgs.of_le seg.reads_after ((Nat.le_add_right _ _).trans hrest.le)
      exact ⟨_, .of_reads hrest⟩

omit [WrapperTags] [SerdeJson] [OriginReceipts O] in
theorem logical_of_plain (hplain : ¬ encMagic <+: seg.body)
    (hsmall : seg.body.length ≤ maxDecompressedBytes) :
    logicalSegmentBytes seg.bytes = some (seg.header.length, seg.bytes) := by
  rw [logical_eq, if_neg]
  rintro (henc | hlarge)
  · exact hplain (List.isPrefixOf_iff_prefix.mp henc)
  · omega

theorem resyncs_of_passable {db : IndexDb O}
    (hbegins : seg.Begins (db.cursorOf path seg.header.length))
    (h : seg.Passable (db.cursorOf path seg.header.length)) : seg.Resyncs path db := by
  have hlogical := logical_of_plain h.plain h.small
  obtain ⟨hfollowing, ps, hall⟩ := h.arrives hbegins
  refine ⟨seg.bytes.length, fun times htimes => ?_⟩
  obtain ⟨qs, hqs, hhanded, -⟩ :=
    @Indexing.passes_trail _ _ _ _ _ path _ _ _ ⟨db, []⟩ hlogical times
  have hadvance :=
    @Indexing.passes_advance _ _ _ _ _ path _ _ _ ⟨db, []⟩ hlogical times h.indexable (by
    rintro p ⟨rs, hrs⟩ hlt e hread
    obtain ⟨more, -, hrest⟩ := hrs.of_le hall hlt.le
    cases hrest with
    | refl => exact absurd hlt (lt_irrefl _)
    | frame head => cases head.symm.trans hread
    | skip head hskips =>
      cases head.symm.trans hread
      exact hskips)
  have hnil : ∀ e, readFraming.decode [] = .error e → ¬ Skipped e := by
    intro e he hskips
    cases readFrame_nil.symm.trans he
    exact hskips 0 104 rfl
  have hle := hqs.le_length hnil hall.le
  have hend : (Indexing.passes path seg.bytes ⟨db, []⟩ times).db.cursorOf path seg.header.length =
      seg.bytes.length := by omega
  refine ⟨fun place hplace hfrom => ?_, hend⟩
  obtain ⟨rs, hrs⟩ := hfollowing place hplace hfrom
  obtain ⟨hread, -, gs, hgs⟩ := seg.reads_after.mem_placed hplace
  rw [hend] at hqs
  rw [hhanded, List.nil_append]
  refine hqs.mem_of_decode hrs ?_ hread
  have hpos := readFraming.size_pos hread
  have hrest := hgs.le
  omega

theorem passable_of_resyncs {db : IndexDb O}
    (hbegins : seg.Begins (db.cursorOf path seg.header.length))
    (h : seg.Resyncs path db) : seg.Passable (db.cursorOf path seg.header.length) := by
  obtain ⟨n, hn⟩ := h
  obtain ⟨hhanded, -⟩ := hn (List.replicate n 0) (by simp)
  obtain ⟨⟨f₀, hfirst⟩, last, hlast, hend, hmax⟩ := seg.exists_following
  have hfrom : db.cursorOf path seg.header.length ≤ last.1 := by
    have hbefore : seg.damageEnd ≤ last.1 := hmax _ (List.mem_map_of_mem hfirst)
    have hstart : seg.damageStart ≤ seg.damageEnd := Nat.le_add_right _ _
    rcases hbegins with hin | heq | hin
    · obtain ⟨⟨p, f⟩, hplace, hp⟩ := List.mem_map.mp hin
      obtain ⟨-, -, gs, hgs⟩ := seg.reads_before.mem_placed hplace
      have hle := hgs.le
      dsimp only at hp
      omega
    · omega
    · exact hmax _ hin
  cases hlogical : logicalSegmentBytes seg.bytes with
  | none =>
    -- the passes leave everything as it is
    have hnone : ∀ (s : Indexing O) times, (s.passes path seg.bytes times) = s := by
      intro s times
      induction times generalizing s with
      | nil => rfl
      | cons nowUnix times ih =>
        have hpass : s.pass path seg.bytes nowUnix = s := by
          unfold Indexing.pass IndexDb.replayRaw IndexDb.replayFile
          rw [hlogical]
        show (s.pass path seg.bytes nowUnix).passes path seg.bytes times = s
        rw [hpass, ih]
    have hmem := hhanded last hlast hfrom
    rw [hnone] at hmem
    simp at hmem
  | some found =>
    rw [logical_eq] at hlogical
    split_ifs at hlogical with hopen
    rw [not_or] at hopen
    have hplain : ¬ encMagic <+: seg.body := mt List.isPrefixOf_iff_prefix.mpr hopen.1
    have hsmall : seg.body.length ≤ maxDecompressedBytes := not_lt.mp hopen.2
    obtain ⟨ps, hps, hall, hindexable⟩ := @Indexing.passes_trail _ _ _ _ _ path _ _ _ ⟨db, []⟩
      (logical_of_plain hplain hsmall) (List.replicate n 0)
    rw [hall, List.nil_append] at hhanded
    refine ⟨hplain, hsmall, ?_, ?_⟩
    · rintro p ⟨rs, hrs⟩ - hlt
      have hle : db.cursorOf path seg.header.length ≤ seg.damageEnd := hrs.le.trans hlt.le
      obtain ⟨before, after, rfl, hbefore, -⟩ := hps.mem_split (hhanded _ hfirst hle)
      obtain ⟨more, -, hrest⟩ := hrs.of_le hbefore hlt.le
      cases hrest with
      | refl => exact absurd hlt (lt_irrefl _)
      | frame head tail =>
        refine ⟨fun got need hread => (by cases head.symm.trans hread), fun f hread => ?_⟩
        cases head.symm.trans hread
        exact tail.le
      | skip head hskips =>
        refine ⟨fun got need hread => ?_, fun f hread => (by cases head.symm.trans hread)⟩
        cases head.symm.trans hread
        exact hskips got need rfl
    · rintro p f ⟨rs, hrs⟩ hread
      obtain ⟨before, after, rfl, hbefore, hlastRead, -⟩ := hps.mem_split (hhanded last hlast hfrom)
      have hwhole : Trail readFraming Skipped seg.bytes (db.cursorOf path seg.header.length)
          (before ++ [last]) seg.bytes.length := hend ▸ hbefore.trans (.frame hlastRead (.refl _))
      have hin : (p, f) ∈ before ++ [last] := by
        refine hwhole.mem_of_decode hrs ?_ hread
        have hpos := readFraming.size_pos hread
        have hle := readFraming.end_le hread
        omega
      refine hindexable (p, f) ?_
      rw [List.append_cons]
      exact List.mem_append_left _ hin

/-- **The passes index what follows the damage if and only if they are let through.** -/
theorem resyncs_iff (db : IndexDb O) (path : String) (seg : DamagedSegment)
    (hbegins : seg.Begins (db.cursorOf path seg.header.length)) :
    seg.Resyncs path db ↔ seg.Passable (db.cursorOf path seg.header.length) :=
  ⟨passable_of_resyncs hbegins, resyncs_of_passable hbegins⟩

end DamagedSegment

end

/-! ## Samples -/

section Samples
open DamagedSegment

attribute [local instance] noKey sampleXxh3 sampleTags sampleJson sampleReceipts

def laidA : LaidFrame :=
  ⟨sampleA.indexed, encodeFrame sampleA, by decide +kernel, by decide +kernel⟩

def laidAbc : LaidFrame :=
  ⟨sampleAbc.indexed, encodeFrame sampleAbc, by decide +kernel, by decide +kernel⟩

theorem parsed_sampleSegment (body : List UInt8) :
    ∃ h, parseSegmentHeader (sampleHeader ++ body) = .ok h ∧
    h.headerLen = sampleHeader.length ∧ h.isCompressed = false := by
  obtain ⟨h, hparse, hlen, hplain⟩ := parsed_sampleHeader
  have hfits : sampleHeader.length ≤ (sampleHeader ++ body).length := by simp
  exact ⟨h, parseSegmentHeader_congr (by simp) le_rfl hfits hlen.le hparse, hlen, hplain⟩

/-- The first of two frames, overwritten. -/
def damaged (damage : List UInt8) (h : damage.length = laidA.bytes.length) : DamagedSegment where
  header := sampleHeader
  before := []
  original := laidA
  damage := damage
  after := [laidAbc]
  sameLength := h
  followed := List.cons_ne_nil _ _
  parsed := parsed_sampleSegment
  unsealed := rfl

/-- The lengths of the first frame say that it is a frame of 1104 bytes. -/
def longDamage : List UInt8 :=
  laidA.bytes.take 13 ++ (leBytes 4 1104 ++ (leBytes 4 1000 ++ laidA.bytes.drop 21))

def stalled : DamagedSegment := damaged longDamage (by decide +kernel)

theorem damaged_length_stalls :
    (∀ times, (Indexing.passes "000001.wal" stalled.bytes ⟨IndexDb.empty (), []⟩ times).handed =
      []) ∧
      ¬ ∀ seg : DamagedSegment,
        seg.Begins ((IndexDb.empty ()).cursorOf "000001.wal" seg.header.length) →
        seg.Resyncs "000001.wal" (IndexDb.empty ()) := by
  have hstop : readFraming.decode (stalled.bytes.drop 60) = .error (.bufferTooShort 212 1104) := by
    rw [decode_readFraming]
    decide +kernel
  have hnothing : ∀ times,
      (Indexing.passes "000001.wal" stalled.bytes ⟨IndexDb.empty (), []⟩ times).handed = [] := by
    intro times
    have hlogical : logicalSegmentBytes stalled.bytes =
        some (stalled.header.length, stalled.bytes) :=
      logical_of_plain (by decide +kernel) (by decide +kernel)
    obtain ⟨ps, hps, hhanded, -⟩ :=
      @Indexing.passes_trail _ _ _ _ _ "000001.wal" _ _ _ ⟨IndexDb.empty (), []⟩ hlogical times
    have hstart : (IndexDb.empty ()).cursorOf "000001.wal" stalled.header.length = 60 := by
      decide +kernel
    dsimp only at hps
    rw [hstart] at hps
    rw [hhanded, List.nil_append]
    exact hps.of_stuck hstop fun hskips => hskips 212 1104 rfl
  refine ⟨hnothing, fun hall => ?_⟩
  obtain ⟨n, hn⟩ := hall stalled (.inr (.inl (by decide +kernel)))
  obtain ⟨f, hf⟩ := stalled.exists_following.1
  have hbegun : (IndexDb.empty ()).cursorOf "000001.wal" stalled.header.length ≤
      stalled.damageEnd := by decide +kernel
  have hmem := (hn (List.replicate n 0) (by simp)).1 _ hf hbegun
  rw [hnothing] at hmem
  simp at hmem

def zeroed : DamagedSegment := damaged (List.replicate 105 0) (by decide +kernel)

/-- No frame, and none that is still being written. -/
def isNoise (bytes : List UInt8) : Bool :=
  match readFrame bytes with
  | .error (.invalidMagic _) => true
  | _ => false

theorem of_isNoise {bytes : List UInt8} (h : isNoise bytes = true) :
    (∀ f, readFrame bytes ≠ .ok f) ∧ ∀ got need,
      readFrame bytes ≠ .error (.bufferTooShort got need) := by
  unfold isNoise at h
  split at h
  · rename_i hread
    simp [hread]
  · cases h

/-- Zeros are passed byte by byte. -/
theorem resyncs_iff_sample : zeroed.Resyncs "000001.wal" (IndexDb.empty ()) := by
  have hstart : (IndexDb.empty ()).cursorOf "000001.wal" zeroed.header.length = 60 := by
    decide +kernel
  have hplaces : zeroed.damageStart = 60 ∧ zeroed.damageEnd = 165 ∧ zeroed.bytes.length = 272 := by
    decide +kernel
  have hzeros : ∀ p, 60 ≤ p → p < 165 → isNoise (zeroed.bytes.drop p) = true := by
    have hall : ((List.range 105).all fun i => isNoise (zeroed.bytes.drop (60 + i))) = true := by
      decide +kernel
    intro p hle hlt
    have hp := List.all_eq_true.mp hall (p - 60) (List.mem_range.mpr (by omega))
    rwa [Nat.add_sub_cancel' hle] at hp
  refine (resyncs_iff (IndexDb.empty ()) "000001.wal" zeroed ?_).mpr ?_
  · exact .inr (.inl (by rw [hstart, hplaces.1]))
  · rw [hstart]
    refine ⟨by decide +kernel, by decide +kernel, fun p _ hle hlt => ?_, fun p f _ _ => ?_⟩
    · rw [hplaces.1] at hle
      rw [hplaces.2.1] at hlt
      obtain ⟨hnone, hgoes⟩ := of_isNoise (hzeros p hle hlt)
      exact ⟨hgoes, fun f hread => absurd hread (hnone f)⟩
    · exact exists_providerOf fun v hv => absurd hv (by simp [SerdeJson.fromSlice])

end Samples

end Neoth.Memory
