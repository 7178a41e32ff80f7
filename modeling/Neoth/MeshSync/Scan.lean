import Neoth.MeshSync.Gossip
import Neoth.MeshSync.WalFrame

/-!
# Scanning the WAL

The scanner of `cluster/wal_sync.rs`.  The WAL directory is a map from the names of
its segments to their logical bodies; the scanner lists the names once, in order, and
then reads one segment after the other while the writers go on writing, so
`openSegments` and `scanSegment` are the two steps a carrier takes.  It looks for one
frame (`max = 1`), the only batch size the durable sync asks for.

* `collectFrom_one`: what a segment is searched for, and where the search stops;
* `scanSegment_more`, `scanSegment_done`: the scan position passes no replicable event
  but the one it reports, as long as the listing is still the whole directory.
-/

open Std Lib.FrameLog Lib.TreeMap

namespace Neoth.MeshSync

abbrev Wal := ExtTreeMap String (List UInt8)

structure GossipWalCursor where
  segment : Option String
  offset : Nat
  deriving DecidableEq

/-- `GossipWalCursor::default()`. -/
def GossipWalCursor.start : GossipWalCursor := ⟨none, 0⟩

/-! ## One segment -/

/-- The loop of `collect_gossipable_frames`: `room` frames may still be collected. -/
def collectFrom (body : List UInt8) (policy : GossipPolicy) :
    Nat → Nat → Nat → List (UInt8 × List UInt8) × Nat
  | 0, cursor, _ => ([], cursor)
  | fuel + 1, cursor, room =>
    if cursor < body.length ∧ 0 < room then
      match decodeFrame (body.drop cursor) with
      | .error _ => ([], cursor)
      | .ok decoded =>
        let total := decoded.header.totalLen
        if total = 0 ∨ body.length < cursor + total then ([], cursor)
        else if isReplicableExt decoded.header.eventType decoded.header.eventSubtype policy then
          let rest := collectFrom body policy fuel (cursor + total) (room - 1)
          ((decoded.header.eventType, slice body cursor total) :: rest.1, rest.2)
        else collectFrom body policy fuel (cursor + total) room
    else ([], cursor)

/-- `collect_gossipable_frames`.  Every frame takes a byte, so the fuel lasts. -/
def collectGossipableFrames (body : List UInt8) (fromOffset : Nat) (policy : GossipPolicy)
    (max : Nat) : List (UInt8 × List UInt8) × Nat :=
  collectFrom body policy (body.length + 1) (min fromOffset body.length) max

def DecodedFrame.replicable (policy : GossipPolicy) (d : DecodedFrame) : Bool :=
  isReplicableExt d.header.eventType d.header.eventSubtype policy

theorem collectFrom_zero (body : List UInt8) (policy : GossipPolicy) (fuel a : Nat) :
    collectFrom body policy fuel a 0 = ([], a) := by
  cases fuel <;> simp [collectFrom]

/-- One turn of the loop, with room for one frame. -/
theorem collectFrom_succ_one (body : List UInt8) (policy : GossipPolicy) (fuel a : Nat) :
    (collectFrom body policy (fuel + 1) a 1 = ([], a) ∧
      ∀ d, decodeFrame (body.drop a) ≠ .ok d) ∨
    ∃ d, decodeFrame (body.drop a) = .ok d ∧
      collectFrom body policy (fuel + 1) a 1 =
        if d.replicable policy then
          ([(d.header.eventType, slice body a d.header.totalLen)], a + d.header.totalLen)
        else collectFrom body policy fuel (a + d.header.totalLen) 1 := by
  cases hdecode : decodeFrame (body.drop a) with
  | error e =>
    refine .inl ⟨?_, by simp⟩
    simp [collectFrom, hdecode]
  | ok d =>
    refine .inr ⟨d, rfl, ?_⟩
    have hend : a + d.header.totalLen ≤ body.length := walFraming.end_le hdecode
    have hpos := (decodeFrame_totalLen hdecode).1
    rw [collectFrom, if_pos (by omega), hdecode]
    dsimp only
    rw [if_neg (by omega), collectFrom_zero]
    rfl

/-- The search walks from frame to frame over events that may not be gossiped, and ends
behind the first that may. -/
theorem collectFrom_one (body : List UInt8) (policy : GossipPolicy) (fuel a : Nat) :
    let r := collectFrom body policy fuel a 1
    Walk walFraming body a r.2 ∧
    ((r.1 = [] ∧ ∀ off d, Walk walFraming body a off → off < r.2 →
        decodeFrame (body.drop off) = .ok d → d.replicable policy = false) ∨
      ∃ off d, r.1 = [(d.header.eventType, slice body off d.header.totalLen)] ∧
        Walk walFraming body a off ∧ decodeFrame (body.drop off) = .ok d ∧
        d.replicable policy = true ∧ r.2 = off + d.header.totalLen ∧
        ∀ off' d', Walk walFraming body a off' → off' < r.2 →
          decodeFrame (body.drop off') = .ok d' → d'.replicable policy = true → off' = off) := by
  induction fuel generalizing a with
  | zero =>
    refine ⟨.refl a, .inl ⟨rfl, ?_⟩⟩
    intro off d hwalk hlt
    exact absurd hwalk.le (by simp [collectFrom] at hlt; omega)
  | succ fuel ih =>
    rcases collectFrom_succ_one body policy fuel a with ⟨hstop, -⟩ | ⟨d, hd, hturn⟩
    · rw [hstop]
      refine ⟨.refl a, .inl ⟨rfl, ?_⟩⟩
      intro off d hwalk hlt
      exact absurd hwalk.le (Nat.not_le.mpr hlt)
    · -- a later frame of the walk is reached through the frame at `a`
      have hsplit : ∀ off, Walk walFraming body a off →
          off = a ∨ Walk walFraming body (a + d.header.totalLen) off := by
        intro off hwalk
        cases hwalk with
        | refl => exact .inl rfl
        | step head tail =>
          cases hd.symm.trans head
          exact .inr tail
      have hpos := (decodeFrame_totalLen hd).1
      dsimp only
      rw [hturn]
      by_cases hrep : d.replicable policy = true
      · rw [if_pos hrep]
        refine ⟨.step hd (.refl _), .inr ⟨a, d, rfl, .refl a, hd, hrep, rfl, ?_⟩⟩
        intro off' d' hwalk hlt hd' hrep'
        rcases hsplit off' hwalk with rfl | htail
        · rfl
        · exact absurd htail.le (Nat.not_le.mpr hlt)
      · rw [if_neg hrep]
        obtain ⟨hwalk, hcase⟩ := ih (a + d.header.totalLen)
        refine ⟨.step hd hwalk, ?_⟩
        rcases hcase with ⟨hnil, hnone⟩ | ⟨off, d₁, hone, hw, hd₁, hrep₁, hend, huniq⟩
        · refine .inl ⟨hnil, ?_⟩
          intro off d' hw hlt hd'
          rcases hsplit off hw with rfl | htail
          · cases hd.symm.trans hd'
            exact Bool.eq_false_iff.mpr hrep
          · exact hnone off d' htail hlt hd'
        · refine .inr ⟨off, d₁, hone, .step hd hw, hd₁, hrep₁, hend, ?_⟩
          intro off' d' hw' hlt hd' hrep'
          rcases hsplit off' hw' with rfl | htail
          · cases hd.symm.trans hd'
            exact absurd hrep' hrep
          · exact huniq off' d' htail hlt hd' hrep'

theorem length_slice_frame {body : List UInt8} {off : Nat} {d : DecodedFrame}
    (h : decodeFrame (body.drop off) = .ok d) :
    (slice body off d.header.totalLen).length = d.header.totalLen := by
  have hfit : off + d.header.totalLen ≤ body.length := walFraming.end_le h
  rw [slice, List.length_take, List.length_drop]
  omega

/-! ## The directory -/

/-- The start of `collect_gossipable_from_wal_dir`: the names from the cursor's segment on, and
the offset in the first; `none` for a directory without segments. -/
def openSegments (wal : Wal) (cursor : GossipWalCursor) :
    Except String (Option (String × List String × Nat)) :=
  match wal.keys with
  | [] => .ok none
  | first :: rest =>
    match cursor.segment with
    | none => .ok (some (first, rest, 0))
    | some current =>
      match (first :: rest).dropWhile (· != current) with
      | [] =>
        .error
          s!"cluster anti-entropy cursor segment {current} no longer exists; refusing an implicit full-history rescan"
      | path :: rest => .ok (some (path, rest, cursor.offset))

/-- A frame that was found: its place, and what the scanner returns of it. -/
structure Found where
  segment : String
  offset : Nat
  eventType : UInt8
  raw : List UInt8
  deriving DecidableEq

inductive ScanStep
  | done (found : Option Found) (next : GossipWalCursor)
  | more (path : String) (rest : List String)

/-- Where the scan goes on: in the same segment before its end, else in the following one,
and at the end of the last. -/
def nextPosition (path : String) (rest : List String) (body : List UInt8) (stop : Nat) :
    String × Nat :=
  if stop < body.length then (path, stop)
  else match rest with
    | [] => (path, body.length)
    | following :: _ => (following, 0)

/-- One turn of the loop of `collect_gossipable_from_wal_dir`. -/
def scanSegment (policy : GossipPolicy) (body : List UInt8) (path : String) (rest : List String)
    (offset : Nat) : ScanStep :=
  let r := collectGossipableFrames body offset policy 1
  let found := r.1.head?.map fun frame => ⟨path, r.2 - frame.2.length, frame.1, frame.2⟩
  let next := nextPosition path rest body r.2
  match rest with
  | following :: later =>
    if r.2 < body.length ∨ 1 ≤ r.1.length then .done found ⟨some next.1, next.2⟩
    else .more following later
  | [] => .done found ⟨some next.1, next.2⟩

/-! ## Positions and events -/

theorem compare_lt_irrefl {s : String} : ¬ compare s s = .lt := by
  have heq : compare s s = .eq := ReflCmp.compare_self
  rw [heq]
  simp

/-- The position `(seg, off)` lies before `(segment, offset)`. -/
def Precedes (seg : String) (off : Nat) (segment : String) (offset : Nat) : Prop :=
  compare seg segment = .lt ∨ (seg = segment ∧ off < offset)

/-- The event `d` stands in the WAL at `(seg, off)`. -/
def EventAt (wal : Wal) (seg : String) (off : Nat) (d : DecodedFrame) : Prop :=
  ∃ body, wal[seg]? = some body ∧ Walk walFraming body 0 off ∧ decodeFrame (body.drop off) = .ok d

/-- A frame ends, or the segment starts, at this place. -/
def OnFrame (wal : Wal) (segment : String) (offset : Nat) : Prop :=
  ∃ body, wal[segment]? = some body ∧ Walk walFraming body 0 offset

/-- The listing a scan goes by: `path` is read next, then `rest`, and the directory holds
nothing else from there to the end of the listing. -/
structure Listed (wal : Wal) (path : String) (rest : List String) : Prop where
  sorted : (path :: rest).Pairwise (compare · · = .lt)
  rest_mem : ∀ s ∈ rest, s ∈ wal
  complete : ∀ s ∈ wal, compare path s = .lt → s ∈ rest ∨ ∀ t ∈ path :: rest, compare t s = .lt

theorem Listed.tail {wal : Wal} {path next : String} {rest : List String}
    (h : Listed wal path (next :: rest)) : Listed wal next rest := by
  obtain ⟨hpath, hsorted⟩ := List.pairwise_cons.mp h.sorted
  refine ⟨hsorted, fun s hs => h.rest_mem s (List.mem_cons_of_mem _ hs), ?_⟩
  intro s hs hlt
  have hpathlt : compare path s = .lt := TransCmp.lt_trans (hpath next (List.mem_cons_self ..)) hlt
  rcases h.complete s hs hpathlt with hmem | hafter
  · rcases List.mem_cons.mp hmem with rfl | hmem
    · exact absurd hlt compare_lt_irrefl
    · exact .inl hmem
  · exact .inr fun t ht => hafter t (List.mem_cons_of_mem _ ht)

/-- Nothing of the directory lies between a segment and the one listed after it. -/
theorem Listed.between {wal : Wal} {path next seg : String} {rest : List String}
    (h : Listed wal path (next :: rest)) (hseg : seg ∈ wal) (hnext : compare seg next = .lt) :
    compare seg path = .lt ∨ seg = path := by
  rcases hcmp : compare seg path with _ | _ | _
  · exact .inl rfl
  · exact .inr (LawfulEqOrd.eq_of_compare hcmp)
  · exfalso
    have hlt : compare path seg = .lt := OrientedCmp.lt_of_gt hcmp
    have hgt : ¬ compare next seg = .lt :=
      fun hc => compare_lt_irrefl (TransCmp.lt_trans hnext hc)
    rcases h.complete seg hseg hlt with hmem | hafter
    · rcases List.mem_cons.mp hmem with rfl | hmem
      · exact compare_lt_irrefl hnext
      · exact hgt ((List.pairwise_cons.mp (List.pairwise_cons.mp h.sorted).2).1 seg hmem)
    · exact hgt (hafter next (by simp))

/-- What the scan passes in one turn lies in the segment it has read. -/
theorem precedes_nextPosition {wal : Wal} {path seg : String} {rest : List String}
    {body : List UInt8} {stop off : Nat} {d : DecodedFrame} (offset : Nat)
    (hlist : Listed wal path rest) (hbody : wal[path]? = some body) (hevent : EventAt wal seg off d)
    (h : Precedes seg off (nextPosition path rest body stop).1
      (nextPosition path rest body stop).2) :
    Precedes seg off path offset ∨ (seg = path ∧ offset ≤ off ∧ off < stop) := by
  obtain ⟨segBody, hseg, hwalk, hd⟩ := hevent
  have hinside : seg = path → (body.length ≤ stop ∨ off < stop) →
      Precedes seg off path offset ∨ (seg = path ∧ offset ≤ off ∧ off < stop) := by
    rintro rfl hoff
    have hsame : segBody = body := Option.some.inj (hseg.symm.trans hbody)
    have hend := walFraming.end_le hd
    have hpos := (decodeFrame_totalLen hd).1
    have hlt : off < stop := by
      have hend : off + d.header.totalLen ≤ segBody.length := hend
      rw [hsame] at hend
      omega
    rcases Nat.lt_or_ge off offset with hbefore | hafter
    · exact .inl (.inr ⟨rfl, hbefore⟩)
    · exact .inr ⟨rfl, hafter, hlt⟩
  unfold nextPosition at h
  split at h
  · rcases h with hlt | ⟨heq, hoff⟩
    · exact .inl (.inl hlt)
    · exact hinside heq (.inr hoff)
  · rename_i hge
    cases rest with
    | nil =>
      rcases h with hlt | ⟨heq, hoff⟩
      · exact .inl (.inl hlt)
      · exact hinside heq (.inl (Nat.not_lt.mp hge))
    | cons following later =>
      rcases h with hlt | ⟨heq, hoff⟩
      · have hmem : seg ∈ wal := mem_of_getElem? hseg
        rcases hlist.between hmem hlt with hlt | heq
        · exact .inl (.inl hlt)
        · exact hinside heq (.inl (Nat.not_lt.mp hge))
      · exact absurd hoff (Nat.not_lt_zero _)

theorem onFrame_nextPosition {wal : Wal} {path : String} {rest : List String} {body : List UInt8}
    {stop : Nat} (hlist : Listed wal path rest) (hbody : wal[path]? = some body)
    (hstop : Walk walFraming body 0 stop) :
    OnFrame wal (nextPosition path rest body stop).1 (nextPosition path rest body stop).2 := by
  have hle := hstop.le_length (Nat.zero_le _)
  unfold nextPosition
  split
  · exact ⟨body, hbody, hstop⟩
  · rename_i hge
    cases rest with
    | nil =>
      have hend : stop = body.length := by omega
      exact ⟨body, hbody, hend ▸ hstop⟩
    | cons following later =>
      have hmem := hlist.rest_mem following (List.mem_cons_self ..)
      obtain ⟨next, hnext⟩ := exists_getElem?_of_mem hmem
      exact ⟨next, hnext, .refl 0⟩

/-! ## What a turn of the scan achieves -/

section Turn
variable {wal : Wal} {policy : GossipPolicy} {path : String} {rest : List String}
  {body : List UInt8} {offset : Nat}

theorem collectGossipableFrames_one (hwalk : Walk walFraming body 0 offset) :
    collectGossipableFrames body offset policy 1 =
      collectFrom body policy (body.length + 1) offset 1 := by
  have hle := hwalk.le_length (Nat.zero_le _)
  rw [collectGossipableFrames, Nat.min_eq_left hle]

/-- The scan goes on with the next segment only when it has passed nothing replicable. -/
theorem scanSegment_more {next : String} {later : List String} (hlist : Listed wal path rest)
    (hbody : wal[path]? = some body) (hwalk : Walk walFraming body 0 offset)
    (h : scanSegment policy body path rest offset = .more next later) :
    Listed wal next later ∧ OnFrame wal next 0 ∧
      ∀ seg off d, EventAt wal seg off d → Precedes seg off next 0 → d.replicable policy = true →
        Precedes seg off path offset := by
  obtain ⟨hstop, hcase⟩ := collectFrom_one body policy (body.length + 1) offset
  rw [scanSegment.eq_def, collectGossipableFrames_one hwalk] at h
  cases rest with
  | nil => cases h
  | cons following rest =>
    dsimp only at h
    split at h
    · cases h
    · rename_i hgo
      cases h
      have hend : body.length ≤ (collectFrom body policy (body.length + 1) offset 1).2 := by omega
      have hnext : nextPosition path (next :: later) body
          (collectFrom body policy (body.length + 1) offset 1).2 = (next, 0) := by
        rw [nextPosition, if_neg (Nat.not_lt.mpr hend)]
      have hon := onFrame_nextPosition hlist hbody (hwalk.trans hstop)
      rw [hnext] at hon
      refine ⟨hlist.tail, hon, ?_⟩
      intro seg off d hevent hbefore hrep
      have hpassed := precedes_nextPosition offset hlist hbody hevent (by rw [hnext]; exact hbefore)
      rcases hpassed with hdone | ⟨rfl, hge, hlt⟩
      · exact hdone
      · obtain ⟨segBody, hseg, hw, hd⟩ := hevent
        cases hseg.symm.trans hbody
        rcases hcase with ⟨-, hnone⟩ | ⟨off₁, d₁, hone, -⟩
        · rw [hnone off d (hwalk.of_le hw hge) hlt hd] at hrep
          cases hrep
        · rw [hone] at hgo
          simp at hgo

/-- The frame and the cursor a scan ends with, in terms of the search of its last segment. -/
theorem scanSegment_eq_done {found : Option Found} {next : GossipWalCursor}
    (hwalk : Walk walFraming body 0 offset)
    (h : scanSegment policy body path rest offset = .done found next) :
    let r := collectFrom body policy (body.length + 1) offset 1
    found = r.1.head?.map (fun frame => ⟨path, r.2 - frame.2.length, frame.1, frame.2⟩) ∧
      next = ⟨some (nextPosition path rest body r.2).1, (nextPosition path rest body r.2).2⟩ := by
  rw [scanSegment.eq_def, collectGossipableFrames_one hwalk] at h
  cases rest with
  | nil =>
    obtain ⟨hfound, hnext⟩ := ScanStep.done.inj h
    exact ⟨hfound.symm, hnext.symm⟩
  | cons following later =>
    dsimp only at h
    split at h
    · obtain ⟨hfound, hnext⟩ := ScanStep.done.inj h
      exact ⟨hfound.symm, hnext.symm⟩
    · cases h

/-- At the end of a scan the position has passed nothing replicable but the frame found. -/
theorem scanSegment_done {found : Option Found} {next : GossipWalCursor}
    (hlist : Listed wal path rest) (hbody : wal[path]? = some body)
    (hwalk : Walk walFraming body 0 offset)
    (h : scanSegment policy body path rest offset = .done found next) :
    ∃ segment', next.segment = some segment' ∧ OnFrame wal segment' next.offset ∧
      ∀ seg off d, EventAt wal seg off d → Precedes seg off segment' next.offset →
        d.replicable policy = true →
        Precedes seg off path offset ∨ ∃ f, found = some f ∧ f.segment = seg ∧ f.offset = off := by
  obtain ⟨hstop, hcase⟩ := collectFrom_one body policy (body.length + 1) offset
  obtain ⟨hfound, rfl⟩ := scanSegment_eq_done hwalk h
  generalize collectFrom body policy (body.length + 1) offset 1 = r at hfound hstop hcase ⊢
  refine ⟨_, rfl, onFrame_nextPosition hlist hbody (hwalk.trans hstop), ?_⟩
  intro seg off d hevent hbefore hrep
  rcases precedes_nextPosition offset hlist hbody hevent hbefore with hdone | ⟨rfl, hge, hlt⟩
  · exact .inl hdone
  · obtain ⟨segBody, hseg, hw, hd⟩ := hevent
    cases hseg.symm.trans hbody
    rcases hcase with ⟨-, hnone⟩ | ⟨off₁, d₁, hone, hw₁, hd₁, -, hend, huniq⟩
    · rw [hnone off d (hwalk.of_le hw hge) hlt hd] at hrep
      cases hrep
    · refine .inr ⟨_, by rw [hfound, hone]; rfl, rfl, ?_⟩
      dsimp only
      rw [hend, length_slice_frame hd₁, Nat.add_sub_cancel,
        huniq off d (hwalk.of_le hw hge) hlt hd hrep]

/-- The frame found is an event of the WAL at the place it names. -/
theorem scanSegment_found {f : Found} {next : GossipWalCursor} (hbody : wal[path]? = some body)
    (hwalk : Walk walFraming body 0 offset)
    (h : scanSegment policy body path rest offset = .done (some f) next) :
    ∃ d, EventAt wal f.segment f.offset d ∧ decodeFrame f.raw = .ok d := by
  obtain ⟨-, hcase⟩ := collectFrom_one body policy (body.length + 1) offset
  obtain ⟨hfound, -⟩ := scanSegment_eq_done hwalk h
  generalize collectFrom body policy (body.length + 1) offset 1 = r at hfound hcase
  rcases hcase with ⟨hnil, -⟩ | ⟨off, d, hone, hw, hd, -, hend, -⟩
  · rw [hnil] at hfound
    cases hfound
  · rw [hone] at hfound
    cases hfound
    dsimp only
    rw [hend, length_slice_frame hd, Nat.add_sub_cancel]
    exact ⟨d, ⟨body, hbody, hwalk.trans hw, hd⟩, decodeFrame_take hd⟩

end Turn

/-- A listing is sorted, holds only segments of the directory, and misses none after its start. -/
theorem openSegments_listed {wal : Wal} {cursor : GossipWalCursor} {path : String}
    {rest : List String} {offset : Nat}
    (h : openSegments wal cursor = .ok (some (path, rest, offset))) :
    Listed wal path rest ∧ path ∈ wal ∧
      ((cursor.segment = some path ∧ offset = cursor.offset) ∨
        (cursor.segment = none ∧ offset = 0 ∧ ∀ s ∈ wal, ¬ compare s path = .lt)) := by
  have hsorted : wal.keys.Pairwise (compare · · = .lt) := ExtTreeMap.ordered_keys
  -- a listing is a suffix of the sorted names
  have hsuffix : ∀ before, wal.keys = before ++ path :: rest →
      Listed wal path rest ∧ path ∈ wal := by
    intro before hkeys
    have hmem : ∀ s ∈ path :: rest, s ∈ wal := by
      intro s hs
      rw [← ExtTreeMap.mem_keys, hkeys]
      exact List.mem_append_right _ hs
    rw [hkeys] at hsorted
    refine ⟨⟨(List.pairwise_append.mp hsorted).2.1,
      fun s hs => hmem s (List.mem_cons_of_mem _ hs), ?_⟩, hmem path (List.mem_cons_self ..)⟩
    intro s hs hlt
    rw [← ExtTreeMap.mem_keys, hkeys] at hs
    rcases List.mem_append.mp hs with hs | hs
    · have := (List.pairwise_append.mp hsorted).2.2 s hs path (List.mem_cons_self ..)
      exact absurd (TransCmp.lt_trans this hlt) compare_lt_irrefl
    · rcases List.mem_cons.mp hs with rfl | hs
      · exact absurd hlt compare_lt_irrefl
      · exact .inl hs
  unfold openSegments at h
  cases hkeys : wal.keys with
  | nil =>
    rw [hkeys] at h
    cases h
  | cons first names =>
    rw [hkeys] at h
    cases hsegment : cursor.segment with
    | none =>
      simp only [hsegment] at h
      cases h
      obtain ⟨hlisted, hmem⟩ := hsuffix [] hkeys
      refine ⟨hlisted, hmem, .inr ⟨rfl, rfl, ?_⟩⟩
      intro s hs hlt
      rw [← ExtTreeMap.mem_keys, hkeys] at hs
      rw [hkeys] at hsorted
      rcases List.mem_cons.mp hs with rfl | hs
      · exact compare_lt_irrefl hlt
      · exact compare_lt_irrefl (TransCmp.lt_trans hlt ((List.pairwise_cons.mp hsorted).1 s hs))
    | some current =>
      simp only [hsegment] at h
      have hdrop := List.takeWhile_append_dropWhile (p := (· != current)) (l := first :: names)
      cases hrest : (first :: names).dropWhile (· != current) with
      | nil =>
        rw [hrest] at h
        cases h
      | cons p later =>
        rw [hrest] at h
        cases h
        have hp : path = current := by
          have hne := List.head_dropWhile_not (p := (· != current)) (l := first :: names)
            (by rw [hrest]; simp)
          simp only [hrest, List.head_cons] at hne
          simpa using hne
        obtain ⟨hlisted, hmem⟩ := hsuffix _ (by rw [hkeys, ← hdrop, hrest])
        exact ⟨hlisted, hmem, .inl ⟨by rw [hp], rfl⟩⟩

end Neoth.MeshSync
