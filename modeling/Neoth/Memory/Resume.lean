import Neoth.Memory.EventIds
import Neoth.Wal.SegmentReader

/-!
# Resuming the index

One segment, its writer, and the indexers that read it: the daemon and any number of command line
calls.  A pass loads the cursor and reads the segment, and commits later; a crash leaves any bytes
behind the last frame, and the next writer truncates the segment to what `scan_tail` calls good.

* `SegmentSystem.step`: the events;
* `SegmentSystem.Kept`: the frames handed out so far are those of the segment up to the cursor;
* `index_resumes`: no frame is skipped or handed out twice as long as no two passes overlap and no
  pass meets a tail that is not merely short;
* `frame_skipped_and_repeated`: such a tail, cut off later, takes the place of frames that are never
  handed out.

Opening a sealed body is a parameter.
-/

open Lib Lib.FrameLog Lib.Machine Lib.Transaction Neoth.MeshSync Neoth.Wal

namespace Neoth.Memory

/-! ## The system -/

/-- A pass under way: the cursor it has loaded and the bytes it has read. -/
structure Reading where
  startOffset : Nat
  bytes : List UInt8

/-- `live`: a writer has the segment open.  `handed`: the frames that were handed to `index_frame`
by the passes that have committed. -/
structure SegmentSystem (O : Type) where
  bytes : List UInt8
  live : Bool
  db : IndexDb O
  passes : Nat → Option Reading
  handed : List IndexedFrame

inductive SegmentEvent
  | append (event : Event)
  | crash (tail : List UInt8)
  | recover
  | beginPass (pass : Nat)
  | commitPass (pass : Nat) (nowUnix : Int)

/-- The frames that the loop hands out. -/
def framesFrom (logical : List UInt8) (offset : Nat) : List IndexedFrame :=
  ((replayFrom (fun log f => .ok (log ++ [f])) logical (logical.length + 1)
    [] offset 0).toOption.map (·.1)).getD []

theorem foldlM_log (fs log : List IndexedFrame) :
    fs.foldlM (fun log f => (.ok (log ++ [f]) : Except String (List IndexedFrame))) log =
      .ok (log ++ fs) := by
  induction fs generalizing log with
  | nil => simp [pure, Except.pure]
  | cons f fs ih =>
    rw [List.foldlM_cons]
    show List.foldlM _ (log ++ [f]) fs = _
    rw [ih, List.append_assoc]
    rfl

theorem framesFrom_eq {logical : List UInt8} {offset b : Nat} {fs : List IndexedFrame}
    (hreads : Reads readFraming logical offset fs b)
    (hstop : ∀ f, readFrame (logical.drop b) ≠ .ok f) : framesFrom logical offset = fs := by
  obtain ⟨gs, c, hgs, hstop', hreplay⟩ := replayFrom_spec (fun log f => .ok (log ++ [f])) logical
    (by omega : logical.length < logical.length + 1 + offset) [] 0
  have hbc : b = c := Nat.le_antisymm (hgs.complete hstop' hreads) (hreads.complete hstop hgs)
  subst hbc
  rw [framesFrom, hreplay, foldlM_log, hgs.unique hreads]
  rfl

instance (event : Event) : Decidable event.Sized := inferInstanceAs (Decidable (_ ∧ _))

section
variable {O : Type} [WrapperTags] [SerdeJson] [OriginReceipts O] [SealedBodies]

/-- `replay_once_audited_at_home`, which passes over a segment that it cannot reconstruct, for a
pass that has loaded the cursor `startOffset` and has read the file. -/
def IndexDb.replayFile (db : IndexDb O) (path : String) (startOffset : Nat) (raw : List UInt8)
    (nowUnix : Int) : Except String (IndexDb O × Nat) :=
  match logicalSegmentBytes raw with
  | none => .ok (db, 0)
  | some (headerLen, logical) => db.replayRead path startOffset headerLen logical nowUnix

def IndexDb.replayRaw (db : IndexDb O) (path : String) (raw : List UInt8) (nowUnix : Int) :
    Except String (IndexDb O × Nat) :=
  db.replayFile path (db.loadCursor path) raw nowUnix

/-- The frames that a pass over the file hands out. -/
def framesOfFile (raw : List UInt8) (startOffset : Nat) : List IndexedFrame :=
  match logicalSegmentBytes raw with
  | none => []
  | some (headerLen, logical) => framesFrom logical (max startOffset headerLen)

namespace SegmentSystem

variable (path : String) (header : List UInt8) (headerLen : Nat)

/-- One event.  An event whose lengths are wrong does not get past `encode_frame`. -/
def step (s : SegmentSystem O) : SegmentEvent → SegmentSystem O × Unit
  | .append event =>
    (if s.live ∧ event.Sized then { s with bytes := s.bytes ++ event.append } else s, ())
  | .crash tail => ({ s with bytes := s.bytes ++ tail, live := false }, ())
  | .recover =>
    ({ s with bytes := s.bytes.take (scanTailFile s.bytes).resumeOffset, live := true }, ())
  | .beginPass pass =>
    ({ s with passes := Function.update s.passes pass (some ⟨s.db.loadCursor path, s.bytes⟩) }, ())
  | .commitPass pass nowUnix =>
    match s.passes pass with
    | none => (s, ())
    | some r =>
      let s := { s with passes := Function.update s.passes pass none }
      match s.db.replayFile path r.startOffset r.bytes nowUnix with
      | .ok (db, _) => ({ s with db, handed := s.handed ++ framesOfFile r.bytes r.startOffset }, ())
      | .error _ => (s, ())

/-- A segment of nothing but its header, never indexed. -/
def fresh (header : List UInt8) (origins : O) : SegmentSystem O :=
  ⟨header, true, .empty origins, fun _ => none, []⟩

def after (origins : O) (es : List SegmentEvent) : SegmentSystem O :=
  (run (step path) (fresh header origins) es).1

/-- Where the next pass starts. -/
def cursor (s : SegmentSystem O) : Nat := max (s.db.loadCursor path) headerLen

/-- Every frame is of a plausible length, and the bytes behind the frames are too few for one. -/
def EndsShort (bytes : List UInt8) : Prop :=
  ∀ fs b, Reads readFraming bytes headerLen fs b → (∀ f ∈ fs, f.header.totalLen ≤ maxFrameLen) ∧
    ∀ e, readFrame (bytes.drop b) = .error e → ∃ got need, e = .bufferTooShort got need

/-- The reader takes the segment as it stands, or not at all: it is not sealed, and not
compressed. -/
def AsItStands (bytes : List UInt8) : Prop :=
  ∀ taken ∈ logicalSegmentBytes bytes, taken = (headerLen, bytes)

/-- What a pass has to find when it commits: no other pass has committed since it began, and the
segment it has read stands as it was written and ends with a frame or with the beginning of one. -/
def CleanAt (s : SegmentSystem O) : SegmentEvent → Prop
  | .commitPass pass _ => ∀ r ∈ s.passes pass, r.startOffset = s.db.loadCursor path ∧
    AsItStands headerLen r.bytes ∧
      EndsShort headerLen r.bytes
  | _ => True

variable {headerLen} in
omit [WrapperTags] [SerdeJson] [OriginReceipts O] [SealedBodies] in
/-- One reading up to a short end tells of all others. -/
theorem endsShort_of_reads {bytes : List UInt8} {fs : List IndexedFrame} {b got need : Nat}
    (hreads : Reads readFraming bytes headerLen fs b)
    (hsize : ∀ f ∈ fs, f.header.totalLen ≤ maxFrameLen)
    (hshort : readFrame (bytes.drop b) = .error (.bufferTooShort got need)) :
      EndsShort headerLen bytes := by
  intro gs c hgs
  have hle : c ≤ b := hreads.complete (fun f hf => by cases hshort.symm.trans hf) hgs
  obtain ⟨hs, rfl, hrest⟩ := hgs.of_le hreads hle
  refine ⟨fun f hf => hsize f (List.mem_append_left _ hf), ?_⟩
  intro e he
  cases hrest with
  | nil => exact ⟨got, need, Except.error.inj (he.symm.trans hshort)⟩
  | cons head tail => cases he.symm.trans head

/-! ## The invariant -/

/-- What the segment keeps of what was read of it before. -/
def Keeps (bytes later : List UInt8) : Prop :=
  ∀ fs b, Reads readFraming bytes headerLen fs b → (∀ f ∈ fs, f.header.totalLen ≤ maxFrameLen) →
    Reads readFraming later headerLen fs b

structure Kept (origins : O) (s : SegmentSystem O) : Prop where
  begins : header <+: s.bytes
  handed : Reads readFraming s.bytes header.length s.handed (s.cursor path header.length)
  sized : ∀ f ∈ s.handed, f.header.totalLen ≤ maxFrameLen
  views : (IndexDb.empty origins).views.indexAll s.handed = .ok s.db.views
  passes : ∀ pass, ∀ r ∈ s.passes pass, Keeps header.length r.bytes s.bytes ∧
    ∃ fs, Reads readFraming r.bytes header.length fs (max r.startOffset header.length) ∧
      ∀ f ∈ fs, f.header.totalLen ≤ maxFrameLen

/-- The header is one that the parser takes, and nothing more. -/
def IsHeader : Prop := ∃ parsed, parseSegmentHeader header = .ok parsed ∧
    header.length = parsed.headerLen

variable {path header headerLen} {origins : O} {s : SegmentSystem O}

omit [WrapperTags] [SerdeJson] [OriginReceipts O] [SealedBodies] in
theorem loadCursor_saveCursor (db : IndexDb O) (path : String) (offset : Nat) (nowUnix : Int) :
    (db.saveCursor path offset nowUnix).loadCursor path = offset := by
  have hfind : (db.saveCursor path offset nowUnix).cursors.find path =
      some ⟨path, offset, nowUnix⟩ :=
    Table.find_eq_some_iff.mpr ⟨Table.mem_put.mpr (.inl rfl), rfl⟩
  rw [IndexDb.loadCursor, hfind]
  rfl

omit [SealedBodies] in
/-- More bytes behind the segment. -/
theorem Kept.grow (h : Kept path header origins s) (more : List UInt8) (live : Bool) :
    Kept path header origins { s with bytes := s.bytes ++ more, live } where
  begins := h.begins.trans (List.prefix_append _ _)
  handed := h.handed.append more
  sized := h.sized
  views := h.views
  passes pass r hr :=
    ⟨fun fs b hreads hsize => ((h.passes pass r hr).1 fs b hreads hsize).append more,
      (h.passes pass r hr).2⟩

omit [SealedBodies] in
theorem Kept.truncate (h : Kept path header origins s) (hheader : IsHeader header) :
    Kept path header origins
      { s with bytes := s.bytes.take (scanTailFile s.bytes).resumeOffset, live := true } := by
  obtain ⟨parsed, hparse, hparsed⟩ := hheader
  have hlen : headerLenOf s.bytes = header.length := by
    obtain ⟨rest, hrest⟩ := h.begins
    rw [← hrest, headerLenOf_append hparse hparsed]
  have hfits : segmentHeaderLen ≤ s.bytes.length :=
    (hparsed ▸ parsed.le_headerLen).trans h.begins.length_le
  unfold scanTailFile
  rw [hlen]
  have hresume : header.length ≤ (scanTail s.bytes header.length).resumeOffset :=
    le_resumeOffset hfits
  refine ⟨List.prefix_of_prefix_length_le h.begins (List.take_prefix _ _) ?_,
    reads_truncate hfits h.handed h.sized, h.sized, h.views, fun pass r hr =>
      ⟨fun fs b hreads hsize => ?_, (h.passes pass r hr).2⟩⟩
  · rw [List.length_take]
    exact le_min hresume h.begins.length_le
  · exact reads_truncate hfits ((h.passes pass r hr).1 fs b hreads hsize) hsize

omit [SealedBodies] in
theorem Kept.begin (h : Kept path header origins s) (pass : Nat) :
    Kept path header origins
      { s with passes := Function.update s.passes pass (some ⟨s.db.loadCursor path, s.bytes⟩)
        } where
  begins := h.begins
  handed := h.handed
  sized := h.sized
  views := h.views
  passes other r hr := by
    dsimp only at hr
    by_cases hpass : other = pass
    · subst hpass
      rw [Function.update_self, Option.mem_some_iff] at hr
      subst hr
      exact ⟨fun fs b hreads _ => hreads, s.handed, h.handed, h.sized⟩
    · rw [Function.update_of_ne hpass] at hr
      exact h.passes other r hr

omit [SealedBodies] in
theorem Kept.drop (h : Kept path header origins s) (pass : Nat) :
    Kept path header origins { s with passes := Function.update s.passes pass none } where
  begins := h.begins
  handed := h.handed
  sized := h.sized
  views := h.views
  passes other r hr := by
    dsimp only at hr
    by_cases hpass : other = pass
    · subst hpass
      simp at hr
    · rw [Function.update_of_ne hpass] at hr
      exact h.passes other r hr

omit [WrapperTags] [SerdeJson] [OriginReceipts O] [SealedBodies] in
/-- Behind a short end the cursor stays where it is. -/
theorem resumeAt_of_endsShort {bytes : List UInt8} {fs : List IndexedFrame} {b : Nat}
    (hshort : EndsShort headerLen bytes) (hreads : Reads readFraming bytes headerLen fs b)
    (hstop : ∀ f, readFrame (bytes.drop b) ≠ .ok f) : resumeAt bytes b = b := by
  unfold resumeAt
  cases hread : readFrame (bytes.drop b) with
  | ok f => exact absurd hread (hstop f)
  | error e =>
    obtain ⟨got, need, rfl⟩ := (hshort fs b hreads).2 e hread
    rfl

omit [SealedBodies] in
/-- What a pass leaves that commits on the cursor it has loaded. -/
theorem Kept.commit (h : Kept path header origins s) {pass : Nat} {r : Reading}
    (hr : s.passes pass = some r)
    (hstart : r.startOffset = s.db.loadCursor path) (hshort : EndsShort header.length r.bytes)
    {db : IndexDb O} {n : Nat} {nowUnix : Int}
    (hread : s.db.replayRead path r.startOffset header.length r.bytes nowUnix = .ok (db, n)) :
    Kept path header origins
        { s with db, handed := s.handed ++ framesFrom r.bytes (max r.startOffset header.length) } ∧
      ∀ f, readFrame (r.bytes.drop (max (db.loadCursor path) header.length)) ≠ .ok f := by
  obtain ⟨hkeeps, fs₀, hfs₀, hsize₀⟩ := h.passes pass r hr
  have hcursor : max r.startOffset header.length = s.cursor path header.length := by
    rw [hstart, cursor]
  -- the frames before the cursor are the same in what was read and in what is there
  obtain rfl : fs₀ = s.handed := (hkeeps fs₀ _ hfs₀ hsize₀).unique (by rw [hcursor]; exact h.handed)
  obtain ⟨fs, b, hfs, hstop, hreplay⟩ := replayFrom_spec Views.indexFrame r.bytes
    (by omega : r.bytes.length < r.bytes.length + 1 + max r.startOffset header.length) s.db.views 0
  have hall := hfs₀.trans hfs
  rw [framesFrom_eq hfs hstop]
  unfold IndexDb.replayRead at hread
  dsimp only at hread
  split_ifs at hread with hempty
  · -- the pass has found nothing behind the cursor
    cases hread
    have hdrop : r.bytes.drop (max r.startOffset header.length) = [] :=
      List.drop_eq_nil_of_le hempty
    have hnone : fs = [] := by
      cases hfs with
      | nil => rfl
      | cons head tail =>
        change readFrame (r.bytes.drop _) = _ at head
        rw [hdrop, readFrame_nil] at head
        cases head
    refine ⟨by rw [hnone, List.append_nil]; exact h, ?_⟩
    rw [← hstart, hdrop, readFrame_nil]
    simp
  · rw [hreplay] at hread
    obtain ⟨views, hviews⟩ : ∃ views, fs.foldlM Views.indexFrame s.db.views = .ok views := by
      cases hfold : fs.foldlM Views.indexFrame s.db.views with
      | error e =>
        rw [hfold] at hread
        cases hread
      | ok views => exact ⟨views, rfl⟩
    rw [hviews] at hread
    cases hread
    have hresume := resumeAt_of_endsShort hshort hall hstop
    have hload :
        max ((IndexDb.saveCursor ⟨views, s.db.cursors⟩ path (resumeAt r.bytes b) nowUnix).loadCursor
          path)
        header.length = b := by
      rw [loadCursor_saveCursor, hresume]
      exact max_eq_left ((le_max_right _ _).trans hfs.le)
    refine ⟨⟨h.begins, ?_, (hshort _ _ hall).1, ?_, h.passes⟩, ?_⟩
    · show Reads readFraming s.bytes header.length (s.handed ++ fs)
        (max (IndexDb.loadCursor _ path) header.length)
      rw [hload]
      exact hkeeps _ _ hall (hshort _ _ hall).1
    · have hbefore := h.views
      unfold Views.indexAll at hbefore ⊢
      rw [List.foldlM_append, hbefore]
      exact hviews
    · rw [hload]
      exact hstop

/-- A pass that does not commit on a segment that stands as it was written changes nothing. -/
theorem Kept.commitFile (h : Kept path header origins s) {pass : Nat} {r : Reading}
    (hr : s.passes pass = some r)
    (hstart : r.startOffset = s.db.loadCursor path) (hstands : AsItStands header.length r.bytes)
    (hshort : EndsShort header.length r.bytes) {db : IndexDb O} {n : Nat} {nowUnix : Int}
    (hread : s.db.replayFile path r.startOffset r.bytes nowUnix = .ok (db, n)) :
    Kept path header origins
      { s with db, handed := s.handed ++ framesOfFile r.bytes r.startOffset } := by
  unfold IndexDb.replayFile at hread
  unfold framesOfFile
  cases htaken : logicalSegmentBytes r.bytes with
  | none =>
    rw [htaken] at hread
    cases hread
    rw [List.append_nil]
    exact h
  | some taken =>
    obtain rfl := hstands taken htaken
    rw [htaken] at hread
    exact (h.commit hr hstart hshort hread).1

theorem Kept.step (h : Kept path header origins s) (hheader : IsHeader header) (e : SegmentEvent)
    (hclean : CleanAt path header.length s e) : Kept path header origins (s.step path e).1 := by
  cases e with
  | append event =>
    simp only [SegmentSystem.step]
    split_ifs with hlive
    · exact h.grow _ _
    · exact h
  | crash tail => exact h.grow _ _
  | recover => exact h.truncate hheader
  | beginPass pass => exact h.begin pass
  | commitPass pass nowUnix =>
    simp only [SegmentSystem.step]
    cases hr : s.passes pass with
    | none => exact h
    | some r =>
      obtain ⟨hstart, hstands, hshort⟩ := hclean r hr
      dsimp only
      split
      · rename_i db n hread
        exact (h.commitFile hr hstart hstands hshort hread).drop pass
      · exact h.drop pass

/-- Every event of the run is clean in the state it meets. -/
def CleanRun (path : String) (header : List UInt8) (origins : O) (es : List SegmentEvent) : Prop :=
  ∀ before e rest, es = before ++ e :: rest →
  CleanAt path header.length (after path header origins before) e

theorem kept_after (hheader : IsHeader header) {es : List SegmentEvent}
    (hclean : CleanRun path header origins es) :
    Kept path header origins (after path header origins es) := by
  refine run_invariant_of_meets (fun s e h hmeets => h.step hheader e hmeets) _ ?_ es hclean
  have hcursor : (fresh header origins).cursor path header.length = header.length := Nat.zero_max _
  refine ⟨List.prefix_rfl, ?_, by simp [fresh], rfl, by simp [fresh]⟩
  rw [hcursor]
  exact .nil _

end SegmentSystem

open SegmentSystem

/-- **In every run in which no pass commits over another and no pass finds more behind the frames
than the beginning of one, the frames handed out are those of the segment up to the cursor, each
once; once a pass has reached the end, they are all its frames, and the views are those of a single
pass over the segment; a pass that can store its rows reaches the end.** -/
theorem index_resumes (path : String) (header : List UInt8) (hheader : IsHeader header)
    (origins : O) (es : List SegmentEvent) (hclean : CleanRun path header origins es) :
    let s := after path header origins es
    Reads readFraming s.bytes header.length s.handed (s.cursor path header.length) ∧
    ((∀ f, readFrame (s.bytes.drop (s.cursor path header.length)) ≠ .ok f) →
      s.handed = framesFrom s.bytes header.length ∧
      (logicalSegmentBytes s.bytes = some (header.length, s.bytes) →
        ∀ nowUnix, ∃ db n, (IndexDb.empty origins).replayRaw path s.bytes nowUnix = .ok (db, n) ∧
          db.views = s.db.views)) ∧
    ∀ pass nowUnix views, EndsShort header.length s.bytes →
      logicalSegmentBytes s.bytes = some (header.length, s.bytes) →
      (IndexDb.empty origins).views.indexAll (framesFrom s.bytes header.length) = .ok views →
      let t := after path header origins (es ++ [.beginPass pass, .commitPass pass nowUnix])
      t.bytes = s.bytes ∧ ∀ f, readFrame (t.bytes.drop (t.cursor path header.length)) ≠ .ok f := by
  intro s
  have h : SegmentSystem.Kept path header origins s := kept_after hheader hclean
  refine ⟨h.handed, ?_, ?_⟩
  · intro hend
    refine ⟨(framesFrom_eq h.handed hend).symm, ?_⟩
    intro htaken nowUnix
    have hload : (IndexDb.empty origins).loadCursor path = 0 := rfl
    unfold IndexDb.replayRaw IndexDb.replayFile
    rw [htaken]
    dsimp only
    unfold IndexDb.replayRead
    rw [hload, Nat.zero_max]
    dsimp only
    obtain ⟨fs, b, hfs, hstop, hreplay⟩ := replayFrom_spec Views.indexFrame s.bytes
      (by omega : s.bytes.length < s.bytes.length + 1 + header.length)
        (IndexDb.empty origins).views 0
    have hviews := h.views
    have hhanded : s.handed = fs := by
      rw [← framesFrom_eq h.handed hend, framesFrom_eq hfs hstop]
    rw [hhanded] at hviews
    split_ifs with hempty
    · refine ⟨_, _, rfl, ?_⟩
      have hnone : fs = [] := by
        cases hfs with
        | nil => rfl
        | cons head tail =>
          change readFrame (s.bytes.drop _) = _ at head
          rw [List.drop_eq_nil_of_le hempty, readFrame_nil] at head
          cases head
      rw [hnone] at hviews
      exact Except.ok.inj hviews
    · rw [hreplay, show fs.foldlM Views.indexFrame _ = _ from hviews]
      exact ⟨_, _, rfl, rfl⟩
  · intro pass nowUnix views hshort htaken hindex t
    have hrun :
        t = (((s.step path (.beginPass pass)).1).step path (.commitPass pass nowUnix)).1 := by
      simp only [t, s, after, run_append, run_cons, run_nil]
    obtain ⟨fs, b, hfs, hstop, hreplay⟩ := replayFrom_spec Views.indexFrame s.bytes
      (by omega : s.bytes.length < s.bytes.length + 1 + s.cursor path header.length) s.db.views 0
    obtain ⟨db, n, hread⟩ :
        ∃ db n, s.db.replayRead path (s.db.loadCursor path) header.length s.bytes nowUnix =
        .ok (db, n) := by
      rw [framesFrom_eq (h.handed.trans hfs) hstop] at hindex
      have hviews := h.views
      unfold Views.indexAll at hindex hviews
      rw [List.foldlM_append, hviews] at hindex
      change fs.foldlM Views.indexFrame s.db.views = .ok views at hindex
      unfold IndexDb.replayRead
      dsimp only
      split_ifs
      · exact ⟨_, _, rfl⟩
      · change ∃ db n,
          (replayFrom Views.indexFrame s.bytes _ s.db.views (s.cursor path header.length) 0 >>= _) =
            _
        rw [hreplay, hindex]
        exact ⟨_, _, rfl⟩
    obtain ⟨-, hreached⟩ := (h.begin pass).commit (Function.update_self pass _ _) rfl hshort hread
    have ht : t.bytes = s.bytes ∧ t.db = db := by
      rw [hrun]
      simp only [SegmentSystem.step, Function.update_self]
      unfold IndexDb.replayFile
      rw [htaken]
      dsimp only
      rw [hread]
      exact ⟨rfl, rfl⟩
    refine ⟨ht.1, ?_⟩
    rw [ht.1, cursor, ht.2]
    exact hreached

end

/-! ## Samples -/

section Samples
open SegmentSystem

attribute [local instance] noKey sampleXxh3 sampleTags sampleJson sampleReceipts

/-- A segment header of the first format. -/
def sampleHeader : List UInt8 :=
  let covered := Lib.Encoding.utf8 "NEOT-SEG" ++ Lib.Encoding.leBytes 4 1 ++
    Lib.Encoding.leBytes 4 1 ++ Lib.Encoding.leBytes 8 1 ++ List.replicate 32 0
  covered ++ Lib.Encoding.leBytes 4 (Lib.Crc32c.crc32c covered)

def sampleEvent (text : String) (physicalNs : UInt64) : Event :=
  ⟨(sampleText text).build ⟨physicalNs, 0⟩, Lib.Encoding.utf8 text⟩

def samplePass (pass : Nat) : List SegmentEvent := [.beginPass pass, .commitPass pass 1700000000]

def sampleAfter (es : List SegmentEvent) : SegmentSystem Unit :=
  after "000001.wal" sampleHeader () es

def sampleA : Event := sampleEvent "a" 1700000000000000000
def sampleAbc : Event := sampleEvent "abc" 1700000000000000001

/-- A tail that begins with two stray bytes leads the cursor into bytes that recovery cuts off. -/
def tornRun : List SegmentEvent :=
  [.crash ([0, 0] ++ encodeFrame sampleA)] ++ samplePass 0 ++ samplePass 0 ++ samplePass 0 ++
    [.recover, .append sampleAbc] ++ samplePass 0

/-- A second indexer loads the cursor before the first commits. -/
def overlapRun : List SegmentEvent :=
  [.append sampleA, .beginPass 0, .beginPass 1, .commitPass 0 1700000000, .commitPass 1 1700000000]

def atEnd (s : SegmentSystem Unit) : Prop :=
  s.cursor "000001.wal" sampleHeader.length = s.bytes.length

instance (s : SegmentSystem Unit) : Decidable (atEnd s) := inferInstanceAs (Decidable (_ = _))

/-- In the first run the only frame of the segment is never handed out, in the second it is handed
out twice. -/
theorem frame_skipped_and_repeated :
    atEnd (sampleAfter tornRun) ∧
      framesFrom (sampleAfter tornRun).bytes sampleHeader.length = [sampleAbc.indexed] ∧
      (sampleAfter tornRun).handed = [sampleA.indexed] ∧
    atEnd (sampleAfter overlapRun) ∧
      framesFrom (sampleAfter overlapRun).bytes sampleHeader.length = [sampleA.indexed] ∧
      (sampleAfter overlapRun).handed = [sampleA.indexed, sampleA.indexed] := by
  decide +kernel

/-- An append, a torn tail that a pass meets, recovery, and another append. -/
def tornTailRun : List SegmentEvent :=
  [.append sampleA] ++ samplePass 0 ++ [.crash ((encodeFrame sampleAbc).take 50)] ++ samplePass 1 ++
    [.recover, .append sampleAbc] ++ samplePass 2

theorem decode_readFraming (bytes : List UInt8) : readFraming.decode bytes = readFrame bytes := rfl

theorem parsed_sampleHeader : ∃ h, parseSegmentHeader sampleHeader = .ok h ∧
    h.headerLen = sampleHeader.length ∧ h.isCompressed = false := by
  cases hparse : parseSegmentHeader sampleHeader with
  | error e =>
    have hok : (parseSegmentHeader sampleHeader).toOption.isSome = true := by decide +kernel
    rw [hparse] at hok
    cases hok
  | ok h =>
    have hv1 : (parseSegmentHeader sampleHeader).toOption.map
        (fun h => (h.headerLen == sampleHeader.length && !h.isCompressed)) = some true := by
      decide +kernel
    rw [hparse] at hv1
    have hboth := Option.some.inj hv1
    rw [Bool.and_eq_true, beq_iff_eq, Bool.not_eq_true'] at hboth
    exact ⟨h, rfl, hboth⟩

theorem isHeader_sampleHeader : IsHeader sampleHeader := by
  obtain ⟨h, hparse, hlen, -⟩ := parsed_sampleHeader
  exact ⟨h, hparse, hlen.symm⟩

/-- The pass has read some frames and the beginning of one. -/
theorem cleanAt_sample {s : SegmentSystem Unit} {pass : Nat} {nowUnix : Int}
    {fs : List IndexedFrame} {b : Nat} (bytes : List UInt8) (got need : Nat)
    (hbytes : (s.passes pass).map Reading.bytes = some bytes)
    (hstart : (s.passes pass).map Reading.startOffset = some (s.db.loadCursor "000001.wal"))
    (hstands : logicalSegmentBytes bytes = some (sampleHeader.length, bytes))
    (hreads : Reads readFraming bytes sampleHeader.length fs b)
    (hsize : ∀ f ∈ fs, f.header.totalLen ≤ maxFrameLen)
    (hshort : readFrame (bytes.drop b) = .error (.bufferTooShort got need)) :
    CleanAt "000001.wal" sampleHeader.length s (.commitPass pass nowUnix) := by
  intro r hr
  rw [Option.mem_def.mp hr] at hbytes hstart
  cases hbytes
  refine ⟨Option.some.inj hstart, fun taken htaken => ?_, endsShort_of_reads hreads hsize hshort⟩
  exact Option.some.inj (htaken.symm.trans hstands)

def sampleOne : List UInt8 := sampleHeader ++ encodeFrame sampleA

theorem reads_sampleOne (more : List UInt8) :
    Reads readFraming (sampleOne ++ more) sampleHeader.length [sampleA.indexed]
      sampleOne.length := by
  have hend : sampleOne.length = sampleHeader.length + readFraming.size sampleA.indexed := by
    decide +kernel
  have hone : Reads readFraming sampleOne sampleHeader.length [sampleA.indexed]
      sampleOne.length := by
    rw [hend]
    exact .cons (by rw [decode_readFraming]; decide +kernel) (.nil _)
  exact hone.append more

theorem reads_sampleTwo :
    Reads readFraming (sampleOne ++ encodeFrame sampleAbc) sampleHeader.length
      [sampleA.indexed, sampleAbc.indexed] (sampleOne ++ encodeFrame sampleAbc).length := by
  have hend : (sampleOne ++ encodeFrame sampleAbc).length =
      sampleOne.length + readFraming.size sampleAbc.indexed := by
    decide +kernel
  have hmore : Reads readFraming (sampleOne ++ encodeFrame sampleAbc) sampleOne.length
      [sampleAbc.indexed] (sampleOne ++ encodeFrame sampleAbc).length := by
    rw [hend]
    exact .cons (by rw [decode_readFraming]; decide +kernel) (.nil _)
  exact (reads_sampleOne _).trans hmore

theorem cleanRun_sample : CleanRun "000001.wal" sampleHeader () tornTailRun := by
  have hfirst := reads_sampleOne []
  rw [List.append_nil] at hfirst
  refine meets_cons trivial <| meets_cons trivial <| meets_cons ?_ <| meets_cons trivial <|
    meets_cons trivial <| meets_cons ?_ <| meets_cons trivial <| meets_cons trivial <|
    meets_cons trivial <| meets_cons ?_ meets_nil
  · exact cleanAt_sample sampleOne 0 104 (by decide +kernel) (by decide +kernel) (by decide +kernel)
      hfirst (by decide +kernel) (by decide +kernel)
  · exact cleanAt_sample (sampleOne ++ (encodeFrame sampleAbc).take 50) 50 104 (by decide +kernel)
      (by decide +kernel) (by decide +kernel) (reads_sampleOne _) (by decide +kernel)
        (by decide +kernel)
  · exact cleanAt_sample (sampleOne ++ encodeFrame sampleAbc) 0 104 (by decide +kernel)
      (by decide +kernel) (by decide +kernel) reads_sampleTwo (by decide +kernel)
        (by decide +kernel)

theorem index_resumes_sample :
    (sampleAfter tornTailRun).handed =
        framesFrom (sampleAfter tornTailRun).bytes sampleHeader.length ∧
      (sampleAfter tornTailRun).handed = [sampleA.indexed, sampleAbc.indexed] := by
  obtain ⟨-, hend, -⟩ :=
    index_resumes "000001.wal" sampleHeader isHeader_sampleHeader () tornTailRun cleanRun_sample
  refine ⟨(hend ?_).1, by decide +kernel⟩
  intro f hf
  have hstop : (readFrame ((sampleAfter tornTailRun).bytes.drop
      ((sampleAfter tornTailRun).cursor "000001.wal" sampleHeader.length))).toOption = none := by
    decide +kernel
  rw [sampleAfter, hf] at hstop
  cases hstop

end Samples

end Neoth.Memory
