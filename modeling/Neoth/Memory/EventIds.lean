import Neoth.Memory.Indexer

/-!
# Event ids and the rows they key

The rows of `idx_episode` are keyed by the event id, which `HeaderBuilder::build` takes from the
physical half of the clock alone.  Two events between which the clock only counts on get one id, and
of two rows of one id `INSERT OR IGNORE` keeps the first.

* `indexAll_of_fresh`: frames with new ids get a row each;
* `replay_segment`: so do the frames of a segment;
* `event_ids_own_rows`: when the ids of a run are distinct, and that the replay of such a run loses
  nothing;
* `two_events_one_id`: a wall clock that is read twice in one tick.
-/

open Lib Lib.Encoding Lib.FrameLog Lib.Transaction Neoth.MeshSync Neoth.Wal

namespace Neoth.Memory

section
variable [Xxh3] [WrapperTags] [SerdeJson] {O : Type} [OriginReceipts O]

/-! ## Indexing frames with new ids -/

omit [Xxh3] in
theorem eventId_of_episodeOf {f : IndexedFrame} {row : Episode} (h : episodeOf f = some row) :
    row.eventId = asI64 f.eventId := by
  unfold episodeOf rawEpisode channelEpisode at h
  split_ifs at h
  · dsimp only at h
    split_ifs at h
    cases h
    rfl
  · obtain ⟨v, -, rfl⟩ := Option.map_eq_some_iff.mp h
    rfl

omit [Xxh3] [WrapperTags] [OriginReceipts O] in
/-- The counts of a provider frame are `i64`s. -/
def Storable (f : IndexedFrame) : Prop :=
  ∀ v ∈ SerdeJson.fromSlice f.payload,
    ∀ key ∈ ["prompt_bytes", "response_bytes", "latency_ns", "input_tokens", "output_tokens"],
    ∀ n ∈ (v.get key).bind JsonValue.asU64, n.toNat < 2 ^ 63

omit [Xxh3] [WrapperTags] in
theorem exists_providerOf {f : IndexedFrame} (h : Storable f) : ∃ row, providerOf f = .ok row := by
  unfold providerOf
  split
  · cases hparse : SerdeJson.fromSlice f.payload with
    | none => exact ⟨none, rfl⟩
    | some v =>
      have hnumber : ∀ key ∈ ["prompt_bytes", "response_bytes", "latency_ns", "input_tokens",
          "output_tokens"], ∃ n, ((v.get key).bind JsonValue.asU64).mapM toSql = (.ok n :
            Except String (Option Int)) := by
        intro key hkey
        cases hn : (v.get key).bind JsonValue.asU64 with
        | none => exact ⟨none, rfl⟩
        | some n =>
          refine ⟨some n.toNat, ?_⟩
          show (do let m ← toSql n; pure (some m)) = _
          rw [toSql, if_pos (h v hparse key hkey n hn)]
          rfl
      obtain ⟨bytes, hbytes⟩ := hnumber
        (if f.header.eventType = eventTypeProviderRequest then "prompt_bytes" else "response_bytes")
        (by split <;> simp)
      obtain ⟨latency, hlatency⟩ := hnumber "latency_ns" (by simp)
      obtain ⟨inputTokens, hinput⟩ := hnumber "input_tokens" (by simp)
      obtain ⟨outputTokens, houtput⟩ := hnumber "output_tokens" (by simp)
      obtain ⟨row, hrow⟩ : ∃ row, providerRow f v = .ok row := by
        unfold providerRow
        simp only [hbytes, hlatency, hinput, houtput]
        exact ⟨_, rfl⟩
      refine ⟨some row, ?_⟩
      show (do let row ← providerRow f v; pure (some row)) = _
      rw [hrow]
      rfl
  · exact ⟨none, rfl⟩

omit [Xxh3] in
/-- A frame with a new id adds the row it asks for. -/
theorem indexFrame_of_fresh {views : Views O} {f : IndexedFrame} (hstorable : Storable f)
    (hfresh : ∀ row ∈ views.episodes, row.eventId ≠ asI64 f.eventId) :
    ∃ views', views.indexFrame f = .ok views' ∧
      views'.episodes.rows = views.episodes.rows ++ (episodeOf f).toList := by
  obtain ⟨provider, hprovider⟩ := exists_providerOf hstorable
  unfold Views.indexFrame
  rw [hprovider]
  refine ⟨_, rfl, ?_⟩
  cases hrow : episodeOf f with
  | none => simp [insertRow]
  | some row =>
    have hkey := eventId_of_episodeOf hrow
    obtain ⟨t, ht⟩ := Table.exists_insert (t := views.episodes) (r := row) (by rwa [hkey])
    show (views.episodes.insertOrIgnore row).rows = _
    rw [Table.insertOrIgnore, ht, Option.getD_some, (Table.insert_eq_some ht).2]
    rfl

omit [Xxh3] in
theorem indexAll_of_fresh {fs : List IndexedFrame} (hstorable : ∀ f ∈ fs, Storable f)
    (hnodup : (fs.map (·.eventId)).Nodup) {views : Views O}
    (hfresh : ∀ row ∈ views.episodes, ∀ f ∈ fs, row.eventId ≠ asI64 f.eventId) :
    ∃ views', views.indexAll fs = .ok views' ∧
      views'.episodes.rows = views.episodes.rows ++ fs.filterMap episodeOf := by
  induction fs generalizing views with
  | nil => exact ⟨views, rfl, by simp⟩
  | cons f fs ih =>
    rw [List.map_cons, List.nodup_cons] at hnodup
    rw [List.forall_mem_cons] at hstorable
    obtain ⟨views₁, hindex, hrows⟩ := indexFrame_of_fresh hstorable.1
      fun row hrow => hfresh row hrow f List.mem_cons_self
    have hfresh₁ : ∀ row ∈ views₁.episodes, ∀ g ∈ fs, row.eventId ≠ asI64 g.eventId := by
      intro row hrow g hg
      rw [← Table.mem_rows, hrows, List.mem_append, Option.mem_toList] at hrow
      rcases hrow with hold | hnew
      · exact hfresh row hold g (List.mem_cons_of_mem _ hg)
      · rw [eventId_of_episodeOf hnew]
        intro heq
        exact hnodup.1 (List.mem_map.mpr ⟨g, hg, (asI64_injective heq).symm⟩)
    obtain ⟨views', hall, hrows'⟩ := ih hstorable.2 hnodup.2 hfresh₁
    refine ⟨views', ?_, ?_⟩
    · rw [← hall]
      simp only [Views.indexAll, List.foldlM_cons, hindex]
      rfl
    · rw [hrows', hrows, List.append_assoc]
      cases h : episodeOf f <;> simp [h]

/-! ## Replaying segments -/

/-- A segment as it is read, with the time of the pass. -/
structure Segment where
  path : String
  header : List UInt8
  events : List Event
  indexedAt : Int

namespace Segment

def logical (seg : Segment) : List UInt8 := seg.header ++ segmentBytes seg.events

/-- The events that the writer did not refuse. -/
def written (seg : Segment) : List Event := seg.events.filter fun event =>
  event.payload.length ≤ maxPayloadBytes

end Segment

/-- One pass over each segment. -/
def IndexDb.replaySegments (db : IndexDb O) (segments : List Segment) : Except String (IndexDb O) :=
  segments.foldlM (fun db seg =>
    (db.replayOnceAuditedAtHome seg.path seg.header.length seg.logical seg.indexedAt).map (·.1)) db

/-- An event whose frame is read back and whose rows can be stored. -/
structure Readable (event : Event) : Prop where
  sized : event.payload.length ≤ maxPayloadBytes → event.Sized
  clock : event.header.hlc.Valid
  storable : Storable event.indexed

omit [Xxh3] [WrapperTags] in
theorem reads_segmentBytes {events : List Event} (h : ∀ event ∈ events, Readable event)
    (header more : List UInt8) :
    Reads readFraming (header ++ segmentBytes events ++ more) header.length
      ((events.filter fun event => event.payload.length ≤ maxPayloadBytes).map Event.indexed)
      (header.length + (segmentBytes events).length) := by
  induction events generalizing header with
  | nil => simpa [segmentBytes] using Reads.nil _
  | cons event events ih =>
    rw [List.forall_mem_cons] at h
    have hbytes : segmentBytes (event :: events) = event.append ++ segmentBytes events := rfl
    have hrest := ih h.2 (header ++ event.append)
    rw [hbytes, ← List.append_assoc]
    rw [List.length_append] at hrest ⊢
    rw [← Nat.add_assoc]
    by_cases hle : event.payload.length ≤ maxPayloadBytes
    · have happend : event.append = encodeFrame event := if_neg (by omega)
      have hread :
          readFrame ((header ++ event.append ++ segmentBytes events ++ more).drop header.length) =
          .ok event.indexed := by
        rw [happend, List.append_assoc, List.append_assoc, List.drop_left]
        exact readFrame_encodeFrame (h.1.sized hle) h.1.clock _
      have hlen : event.append.length = event.indexed.header.totalLen := by
        rw [happend]
        exact length_encodeFrame (h.1.sized hle)
      rw [List.filter_cons_of_pos (by simpa using hle), List.map_cons]
      refine .cons hread ?_
      rw [hlen] at hrest ⊢
      exact hrest
    · have happend : event.append = [] := if_pos (by omega)
      rw [happend, List.append_nil] at hrest ⊢
      rw [List.filter_cons_of_neg (by simpa using hle)]
      simpa using hrest

omit [Xxh3] in
/-- One segment, not read before. -/
theorem replay_segment {db : IndexDb O} {seg : Segment}
    (hcursor : ∀ cursor ∈ db.cursors, cursor.segmentPath ≠ seg.path)
    (hreadable : ∀ event ∈ seg.events, Readable event)
    (hnodup : (seg.written.map fun event => event.header.eventId).Nodup)
    (hfresh : ∀ row ∈ db.views.episodes, ∀ event ∈ seg.written,
      row.eventId ≠ asI64 event.header.eventId) :
    ∃ db' n, db.replayOnceAuditedAtHome seg.path seg.header.length seg.logical seg.indexedAt =
      .ok (db', n) ∧
      db'.views.episodes.rows =
        db.views.episodes.rows ++ (seg.written.map Event.indexed).filterMap episodeOf ∧
      ∀ cursor ∈ db'.cursors, cursor ∈ db.cursors ∨ cursor.segmentPath = seg.path := by
  have hload : db.loadCursor seg.path = 0 := by
    rw [IndexDb.loadCursor, Table.find_eq_none_iff.mpr hcursor]
    rfl
  have hreads := reads_segmentBytes hreadable seg.header []
  rw [List.append_nil, ← List.length_append] at hreads
  unfold IndexDb.replayOnceAuditedAtHome IndexDb.replayRead
  rw [hload, Nat.zero_max]
  dsimp only
  split_ifs with hempty
  · -- nothing stands behind the header
    refine ⟨db, 0, rfl, ?_, fun cursor hmem => .inl hmem⟩
    have hnone : seg.written.map Event.indexed = [] := by
      have hle : (seg.header ++ segmentBytes seg.events).length ≤ seg.header.length := hempty
      cases hmap : seg.written.map Event.indexed with
      | nil => rfl
      | cons f fs =>
        rw [Segment.written] at hmap
        rw [hmap] at hreads
        cases hreads with
        | cons head tail =>
          have htail := tail.le
          have hpos := readFraming.size_pos head
          omega
    rw [hnone, List.filterMap_nil, List.append_nil]
  · obtain ⟨fs, b, hfs, hstop, hreplay⟩ :=
      replayFrom_spec Views.indexFrame seg.logical
        (by omega : seg.logical.length < seg.logical.length + 1 + seg.header.length) db.views 0
    have hb : b = seg.logical.length := by
      refine Nat.le_antisymm (hfs.le_length (by omega)) ?_
      exact hfs.complete hstop hreads
    subst hb
    obtain rfl : fs = seg.written.map Event.indexed := hfs.unique hreads
    have hstorable : ∀ f ∈ seg.written.map Event.indexed, Storable f := by
      intro f hf
      obtain ⟨event, hevent, rfl⟩ := List.mem_map.mp hf
      exact (hreadable event (List.mem_of_mem_filter hevent)).storable
    have hnew : ∀ row ∈ db.views.episodes, ∀ f ∈ seg.written.map Event.indexed,
        row.eventId ≠ asI64 f.eventId := by
      intro row hrow f hf
      obtain ⟨event, hevent, rfl⟩ := List.mem_map.mp hf
      exact hfresh row hrow event hevent
    obtain ⟨views, hall, hrows⟩ := indexAll_of_fresh hstorable (by rwa [List.map_map]) hnew
    rw [Views.indexAll] at hall
    rw [hreplay, hall]
    refine ⟨_, _, rfl, hrows, ?_⟩
    intro cursor hmem
    rcases Table.mem_put.mp hmem with rfl | ⟨hold, -⟩
    · exact .inr rfl
    · exact .inl hold

omit [Xxh3] in
theorem replay_segments {db : IndexDb O} {segments : List Segment}
    (hpaths : (segments.map (·.path)).Nodup)
    (hcursor : ∀ cursor ∈ db.cursors, ∀ seg ∈ segments, cursor.segmentPath ≠ seg.path)
    (hreadable : ∀ seg ∈ segments, ∀ event ∈ seg.events, Readable event)
    (hnodup : ((segments.flatMap Segment.written).map fun event => event.header.eventId).Nodup)
    (hfresh : ∀ row ∈ db.views.episodes, ∀ event ∈ segments.flatMap Segment.written,
      row.eventId ≠ asI64 event.header.eventId) :
    ∃ db', db.replaySegments segments = .ok db' ∧
      db'.views.episodes.rows =
        db.views.episodes.rows ++ ((segments.flatMap Segment.written).map Event.indexed).filterMap
          episodeOf := by
  induction segments generalizing db with
  | nil => exact ⟨db, rfl, by simp⟩
  | cons seg segments ih =>
    rw [List.map_cons, List.nodup_cons] at hpaths
    rw [List.forall_mem_cons] at hreadable
    rw [List.flatMap_cons, List.map_append, List.nodup_append] at hnodup
    rw [List.flatMap_cons] at hfresh
    obtain ⟨db₁, n, hpass, hrows, hcursors⟩ := replay_segment
      (fun cursor hmem => hcursor cursor hmem seg List.mem_cons_self) hreadable.1 hnodup.1
      fun row hrow event hevent => hfresh row hrow event (List.mem_append_left _ hevent)
    have hcursor₁ : ∀ cursor ∈ db₁.cursors, ∀ next ∈ segments, cursor.segmentPath ≠ next.path := by
      intro cursor hmem next hnext
      rcases hcursors cursor hmem with hold | hpath
      · exact hcursor cursor hold next (List.mem_cons_of_mem _ hnext)
      · rw [hpath]
        exact fun heq => hpaths.1 (List.mem_map.mpr ⟨next, hnext, heq.symm⟩)
    have hfresh₁ : ∀ row ∈ db₁.views.episodes, ∀ event ∈ segments.flatMap Segment.written,
        row.eventId ≠ asI64 event.header.eventId := by
      intro row hrow event hevent
      rw [← Table.mem_rows, hrows, List.mem_append, List.mem_filterMap] at hrow
      rcases hrow with hold | ⟨f, hf, hnew⟩
      · exact hfresh row hold event (List.mem_append_right _ hevent)
      · obtain ⟨before, hbefore, rfl⟩ := List.mem_map.mp hf
        rw [eventId_of_episodeOf hnew]
        exact fun heq => hnodup.2.2 _ (List.mem_map_of_mem hbefore) _ (List.mem_map_of_mem hevent)
          (asI64_injective heq)
    obtain ⟨db', hrest, hrows'⟩ := ih hpaths.2 hcursor₁ hreadable.2 hnodup.2.1 hfresh₁
    refine ⟨db', ?_, ?_⟩
    · rw [← hrest]
      simp only [IndexDb.replaySegments, List.foldlM_cons, hpass]
      rfl
    · rw [hrows', hrows, List.flatMap_cons, List.map_append, List.filterMap_append,
        List.append_assoc]

/-! ## Runs -/

omit [Xxh3] in
/-- The clock does not count at the epoch, where no frame could carry it. -/
def DatedAt (s : ClockState) (nowNs : UInt64) : Prop :=
  s.hlc.physicalNs = 0 → nowNs = 0 → s.hlc.logical = u32Max

omit [Xxh3] [WrapperTags] [SerdeJson] in
instance (s : ClockState) (nowNs : UInt64) : Decidable (DatedAt s nowNs) :=
  inferInstanceAs (Decidable (_ → _ → _))

omit [Xxh3] [WrapperTags] [SerdeJson] in
theorem tickGlobalHlc_valid {s : ClockState} {nowNs : UInt64} (h : DatedAt s nowNs) :
    (tickGlobalHlc s.hlc nowNs).Valid := by
  intro hzero
  have hphysical := physicalNs_tickGlobalHlc s.hlc nowNs
  rw [hzero] at hphysical
  have hzeroLe : ∀ n : UInt64, 0 ≤ n := fun n => UInt64.le_iff_toNat_le.mpr (Nat.zero_le _)
  unfold tickGlobalHlc Hlc.tickLocal nextLogical
  split_ifs at hphysical ⊢ with hnow hmax
  · rfl
  · rfl
  · -- the clock would stand at the epoch and count
    have hnow : nowNs = 0 := le_antisymm (by rw [hphysical]; exact not_lt.mp hnow) (hzeroLe _)
    exact absurd (h hphysical.symm hnow) hmax

omit [WrapperTags] [SerdeJson] [OriginReceipts O] in
theorem sized_build (builder : HeaderBuilder) (hlc : Hlc)
    (h : builder.payload.length ≤ maxPayloadBytes) :
    Event.Sized ⟨builder.build hlc, builder.payload⟩ := by
  unfold maxPayloadBytes at h
  constructor
  · exact UInt32.toNat_ofNat_of_lt'
      (by simp only [preambleLen, headerBodyLen, crcLen, UInt32.size]; omega)
  · exact UInt32.toNat_ofNat_of_lt' (by simp only [UInt32.size]; omega)

omit [Xxh3] [WrapperTags] [SerdeJson] [OriginReceipts O] in
def IndexDb.empty (origins : O) : IndexDb O := ⟨⟨∅, ∅, origins⟩, ∅⟩

/-- **The ids of a run are distinct if and only if every event is built when the wall clock is ahead
of the process clock, or a merge has moved that clock, or its counter overflows; if no event is
stamped at the epoch either, and the counts of provider events can be stored, then the events of
such a run get the rows they ask for, each its own, however they are laid into segments.** -/
theorem event_ids_own_rows (es : List ClockEvent) :
    ((ClockState.after es).ids.Nodup ↔
      ∀ before nowNs builder rest, es = before ++ .build nowNs builder :: rest →
        (ClockState.after before).FreshAt nowNs) ∧
    ((∀ before nowNs builder rest, es = before ++ .build nowNs builder :: rest →
        (ClockState.after before).FreshAt nowNs ∧ DatedAt (.after before) nowNs) →
      (∀ event ∈ (ClockState.after es).built, Storable event.indexed) →
      ∀ (origins : O) (segments : List Segment), (segments.map (·.path)).Nodup →
        (segments.flatMap (·.events)).Perm (ClockState.after es).built →
        ∃ db, (IndexDb.empty origins).replaySegments segments = .ok db ∧
          db.views.episodes.rows =
            ((segments.flatMap Segment.written).map Event.indexed).filterMap episodeOf ∧
          ∀ event ∈ segments.flatMap Segment.written, event.header.eventType = eventTypeRawText →
            (sanitize (utf8Text event.payload)).noise = false →
            ∃ row ∈ db.views.episodes, episodeOf event.indexed = some row) := by
  refine ⟨ClockState.event_ids_nodup_iff es, ?_⟩
  intro hmeets hstorable origins segments hpaths hperm
  have hids : (ClockState.after es).ids.Nodup :=
    (ClockState.event_ids_nodup_iff es).mpr fun before nowNs builder rest heq =>
      (hmeets before nowNs builder rest heq).1
  have hreadable : ∀ event ∈ (ClockState.after es).built, Readable event := by
    intro event hevent
    obtain ⟨before, nowNs, builder, hdated, rfl⟩ := ClockState.built_of_run es
      (fun before nowNs builder rest heq => (hmeets before nowNs builder rest heq).2) event hevent
    exact ⟨sized_build builder _, tickGlobalHlc_valid hdated, hstorable _ hevent⟩
  have hsub : (segments.flatMap Segment.written).Sublist (segments.flatMap (·.events)) :=
    List.Sublist.flatMap_right _ fun seg _ => List.filter_sublist
  have hnodup : ((segments.flatMap Segment.written).map fun event => event.header.eventId).Nodup :=
    (hsub.map _).nodup ((hperm.map _).nodup_iff.mpr hids)
  obtain ⟨db, hreplay, hrows⟩ :=
    @replay_segments _ _ _ _ (IndexDb.empty origins) _ hpaths (by simp [IndexDb.empty])
    (fun seg hseg event hevent => hreadable event
      (hperm.mem_iff.mp (List.mem_flatMap.mpr ⟨seg, hseg, hevent⟩)))
    hnodup (by simp [IndexDb.empty])
  refine ⟨db, hreplay, hrows, ?_⟩
  intro event hevent htype hnoise
  have hrow : ∃ row, episodeOf event.indexed = some row := by
    unfold episodeOf rawEpisode
    have htype : event.indexed.header.eventType = eventTypeRawText := htype
    have hnoise : (sanitize (utf8Text event.indexed.payload)).noise = false := hnoise
    simp [htype, hnoise]
  obtain ⟨row, hrow⟩ := hrow
  refine ⟨row, ?_, hrow⟩
  rw [← Table.mem_rows, hrows]
  exact List.mem_append_right _ (List.mem_filterMap.mpr ⟨_, List.mem_map_of_mem hevent, hrow⟩)

end

/-! ## Samples -/

/-- `xxh3_64` on the payloads below. -/
@[reducible] def sampleXxh3 : Xxh3 :=
  ⟨fun bytes => if bytes = utf8 "a" then 0xe6c632b61e964e1f else if bytes = utf8 "abc"
    then 0x78af5f94892f3950 else 0⟩

/-- No payload below has a tag, is JSON, or is a receipt. -/
@[reducible] def sampleTags : WrapperTags := ⟨id⟩
@[reducible] def sampleJson : SerdeJson := ⟨fun _ => none⟩
@[reducible] def sampleReceipts : OriginReceipts Unit := ⟨fun _ _ => ()⟩

section Samples
attribute [local instance] sampleXxh3 sampleTags sampleJson sampleReceipts

def sampleText (text : String) : HeaderBuilder := .new eventTypeRawText (utf8 text)

/-- The first pass over one segment with the events of a run. -/
def sampleReplay (es : List ClockEvent) : Except String (IndexDb Unit) :=
  (IndexDb.empty ()).replaySegments [⟨"000001.wal", [], (ClockState.after es).built, 1700000000⟩]

def sampleTexts (es : List ClockEvent) : Option (List String) :=
  (sampleReplay es).toOption.map fun db => db.views.episodes.rows.map (·.text)

/-- Two texts within one tick of the wall clock: the second is never indexed. -/
theorem two_events_one_id :
    let es : List ClockEvent :=
      [.build 1700000000000000000 (sampleText "a"), .build 1700000000000000000 (sampleText "abc")]
    ¬ (ClockState.after es).ids.Nodup ∧ sampleTexts es = some ["a"] := by
  decide +kernel

def sampleRun : List ClockEvent :=
  [.build 1700000000000000000 (sampleText "a"), .build 1700000000000000001 (sampleText "abc")]

theorem event_ids_own_rows_sample : ∃ db, sampleReplay sampleRun = .ok db ∧
    db.views.episodes.rows.length = 2 := by
  obtain ⟨db, hreplay, hrows, -⟩ := (event_ids_own_rows sampleRun).2
    (by
      rintro (_ | ⟨first, _ | ⟨second, before⟩⟩) nowNs builder rest heq
      · cases heq
        decide +kernel
      · cases heq
        decide +kernel
      · simp [sampleRun] at heq)
    (by
      intro event _ v hv
      exact absurd hv (by simp [SerdeJson.fromSlice]))
    () [⟨"000001.wal", [], (ClockState.after sampleRun).built, 1700000000⟩] (by simp) (by simp)
  refine ⟨db, hreplay, ?_⟩
  rw [hrows]
  decide +kernel

end Samples

end Neoth.Memory
