import Neoth.Memory.Tiers

/-!
# What a pass moves

The loops of a consolidation pass, read off as lists: what is left of each tier, what is new in it,
and the numbers of the report.

* `sweepHotRows_spec`, `sweepWarmRows_spec`: the two loops;
* `TierDb.Sound`: an event id lives in one tier, once;
* `TierDb.PassSpec`: a pass as a whole, and `pass_spec`: every pass of a sound store that ends is
  such a one.
-/

open Lib Lib.Transaction

namespace Neoth.Memory

theorem forgetFloor_lt_promotionThreshold : forgetFloor < promotionThreshold := by
  unfold forgetFloor promotionThreshold
  norm_num

namespace TierDb

variable {O : Type}

/-! ## Sound stores -/

def hotIds (db : TierDb O) : List Int := db.hot.rows.map (·.eventId)
def warmKeys (db : TierDb O) : List (Option Int) := db.warm.rows.map (·.eventId)
def coldIds (db : TierDb O) : List Int := db.cold.rows.map (·.eventId)

structure Sound (db : TierDb O) : Prop where
  isSome : ∀ key ∈ db.warmKeys, key.isSome = true
  warmOnce : db.warmKeys.Nodup
  hotWarm : ∀ id ∈ db.hotIds, some id ∉ db.warmKeys
  hotCold : ∀ id ∈ db.hotIds, id ∉ db.coldIds
  warmCold : ∀ id ∈ db.coldIds, some id ∉ db.warmKeys
  indexed : ∀ id, id ∈ db.hotIds ∨ some id ∈ db.warmKeys ∨ id ∈ db.coldIds → id ∈ db.indexed

theorem nodup_hotIds (db : TierDb O) : db.hotIds.Nodup := db.hot.nodup

/-- A store whose tiers hold no more. -/
theorem Sound.of_subset {db db' : TierDb O} (hs : db.Sound) (hhot : db'.hotIds ⊆ db.hotIds)
    (hwarm : db'.warmKeys.Sublist db.warmKeys) (hcold : db'.coldIds ⊆ db.coldIds)
    (hindexed : db.indexed ⊆ db'.indexed) : db'.Sound := by
  refine ⟨?_, hs.warmOnce.sublist hwarm, ?_, ?_, ?_, ?_⟩
  · intro key hkey
    exact hs.isSome key (hwarm.subset hkey)
  · intro id hid hmem
    exact hs.hotWarm id (hhot hid) (hwarm.subset hmem)
  · intro id hid hmem
    exact hs.hotCold id (hhot hid) (hcold hmem)
  · intro id hid hmem
    exact hs.warmCold id (hcold hid) (hwarm.subset hmem)
  · intro id hid
    refine hindexed (hs.indexed id ?_)
    rcases hid with hid | hid | hid
    · exact .inl (hhot hid)
    · exact .inr (.inl (hwarm.subset hid))
    · exact .inr (.inr (hcold hid))

/-- Ids that move from the hot tier to the warm one. -/
theorem Sound.toWarm {db db' : TierDb O} (hs : db.Sound) (moved : List Int)
    (hmoved : moved ⊆ db.hotIds)
    (honce : moved.Nodup) (hhot : ∀ id ∈ db'.hotIds, id ∈ db.hotIds ∧ id ∉ moved)
    (hwarm : db'.warmKeys = db.warmKeys ++ moved.map some) (hcold : db'.coldIds = db.coldIds)
    (hindexed : db'.indexed = db.indexed) : db'.Sound := by
  have hnew : ∀ {id : Int}, some id ∈ db'.warmKeys ↔ some id ∈ db.warmKeys ∨ id ∈ moved := by
    intro id
    rw [hwarm, List.mem_append]
    simp
  refine ⟨?_, ?_, ?_, ?_, ?_, ?_⟩
  · intro key hkey
    rw [hwarm, List.mem_append, List.mem_map] at hkey
    rcases hkey with hkey | ⟨id, -, rfl⟩
    · exact hs.isSome key hkey
    · rfl
  · rw [hwarm]
    refine List.nodup_append.mpr ⟨hs.warmOnce, honce.map (Option.some_injective _), ?_⟩
    intro a ha b hb hab
    obtain ⟨id, hid, rfl⟩ := List.mem_map.mp hb
    exact hs.hotWarm id (hmoved hid) (hab ▸ ha)
  · intro id hid hmem
    rcases hnew.mp hmem with hmem | hmem
    · exact hs.hotWarm id (hhot id hid).1 hmem
    · exact (hhot id hid).2 hmem
  · intro id hid
    rw [hcold]
    exact hs.hotCold id (hhot id hid).1
  · intro id hid hmem
    rw [hcold] at hid
    rcases hnew.mp hmem with hmem | hmem
    · exact hs.warmCold id hid hmem
    · exact hs.hotCold id (hmoved hmem) hid
  · intro id hid
    rw [hindexed]
    rcases hid with hid | hid | hid
    · exact hs.indexed id (.inl (hhot id hid).1)
    · rcases hnew.mp hid with hid | hid
      · exact hs.indexed id (.inr (.inl hid))
      · exact hs.indexed id (.inl (hmoved hid))
    · exact hs.indexed id (.inr (.inr (hcold ▸ hid)))

/-- Ids that move from the warm tier to the cold one. -/
theorem Sound.toCold {db db' : TierDb O} (hs : db.Sound) (moved : List Int)
    (hmoved : ∀ id ∈ moved, some id ∈ db.warmKeys)
    (hhot : db'.hotIds = db.hotIds) (hsub : db'.warmKeys.Sublist db.warmKeys)
    (hwarm : ∀ id ∈ moved, some id ∉ db'.warmKeys)
    (hcold : ∀ id ∈ db'.coldIds, id ∈ db.coldIds ∨ id ∈ moved)
    (hindexed : db'.indexed = db.indexed) : db'.Sound := by
  refine ⟨?_, hs.warmOnce.sublist hsub, ?_, ?_, ?_, ?_⟩
  · intro key hkey
    exact hs.isSome key (hsub.subset hkey)
  · intro id hid hmem
    exact hs.hotWarm id (hhot ▸ hid) (hsub.subset hmem)
  · intro id hid hmem
    rw [hhot] at hid
    rcases hcold id hmem with hmem | hmem
    · exact hs.hotCold id hid hmem
    · exact hs.hotWarm id hid (hmoved id hmem)
  · intro id hid hmem
    rcases hcold id hid with hid | hid
    · exact hs.warmCold id hid (hsub.subset hmem)
    · exact hwarm id hid hmem
  · intro id hid
    rw [hindexed]
    rcases hid with hid | hid | hid
    · exact hs.indexed id (.inl (hhot ▸ hid))
    · exact hs.indexed id (.inr (.inl (hsub.subset hid)))
    · rcases hcold id hid with hid | hid
      · exact hs.indexed id (.inr (.inr hid))
      · exact hs.indexed id (.inr (.inl (hmoved id hid)))

/-! ## Hot to warm -/

/-- Is an aged episode kept, or forgotten? -/
def keeps (e : Episode) : Bool := forgetFloor ≤ e.importance

section Sweeps
variable [Chrono]

/-- The warm row that an episode leaves. -/
def Retains (nowNs : Int) (e : Episode) (w : Consolidated) : Prop :=
  ∃ id, w = retain e (tsToDayString e.tsNs) nowNs id

structure HotSwept (nowNs : Int) (rows : List Episode) (st st' : HotSweep O) : Prop where
  hot : st'.db.hot.rows = st.db.hot.rows.filter fun e => decide (e.eventId ∉ rows.map (·.eventId))
  warm : ∃ new, st'.db.warm.rows = st.db.warm.rows ++ new ∧
    List.Forall₂ (Retains nowNs) (rows.filter keeps) new
  rest : st'.db = { st.db.withHot st'.db.hot with warm := st'.db.warm }
  consolidated : st'.consolidated = st.consolidated + rows.countP keeps
  hotArchived : st'.hotArchived = st.hotArchived + rows.countP fun e => !keeps e

theorem HotSwept.nil (nowNs : Int) (st : HotSweep O) : HotSwept nowNs [] st st := by
  refine ⟨?_, ⟨[], by simp, .nil⟩, rfl, rfl, rfl⟩
  simp

variable {nowNs : Int}

theorem HotSwept.append {rows rows' : List Episode} {st st₁ st₂ : HotSweep O}
    (h : HotSwept nowNs rows st st₁)
    (h' : HotSwept nowNs rows' st₁ st₂) : HotSwept nowNs (rows ++ rows') st st₂ := by
  obtain ⟨new, hnew, hretains⟩ := h.warm
  obtain ⟨new', hnew', hretains'⟩ := h'.warm
  refine ⟨?_, ⟨new ++ new', ?_, ?_⟩, ?_, ?_, ?_⟩
  · rw [h'.hot, h.hot, List.filter_filter]
    refine List.filter_congr fun e _ => ?_
    rw [List.map_append, Bool.eq_iff_iff, Bool.and_eq_true, decide_eq_true_eq, decide_eq_true_eq,
      decide_eq_true_eq, List.mem_append]
    tauto
  · rw [hnew', hnew, List.append_assoc]
  · rw [List.filter_append]
    exact List.rel_append hretains hretains'
  · rw [h'.rest, h.rest]
    rfl
  · rw [h'.consolidated, h.consolidated, List.countP_append, Nat.add_assoc]
  · rw [h'.hotArchived, h.hotArchived, List.countP_append, Nat.add_assoc]

theorem sweepHotRow_spec {exports : Bool} {st st' : HotSweep O} {e : Episode}
    (h : sweepHotRow exports nowNs st e = .ok st') : HotSwept nowNs [e] st st' := by
  have hdelete : (st.db.hot.delete fun row => row.eventId = e.eventId).rows =
      st.db.hot.rows.filter fun row => decide (row.eventId ∉ [e].map (·.eventId)) := by
    refine List.filter_congr fun row _ => ?_
    simp
  unfold sweepHotRow at h
  dsimp only at h
  split at h
  · rename_i hfloor
    have hkeeps : keeps e = false := by
      rw [keeps, decide_eq_false_iff_not, not_le]
      exact hfloor
    cases h
    refine ⟨hdelete, ⟨[], by simp, ?_⟩, rfl, ?_, ?_⟩
    · rw [List.filter_cons_of_neg (by simp [hkeeps])]
      exact .nil
    · simp [hkeeps]
    · simp [hkeeps]
  · rename_i hfloor
    have hkeeps : keeps e = true := by
      rw [keeps, decide_eq_true_eq]
      exact not_lt.mp hfloor
    simp only [insertRetained, bind_eq_ok_iff] at h
    obtain ⟨warm, ⟨-, -, hwarm⟩, h⟩ := h
    cases hwarm
    cases h
    refine ⟨hdelete, ⟨[retain e (tsToDayString e.tsNs) nowNs (st.db.warm.last + 1)], rfl, ?_⟩,
      rfl, ?_, ?_⟩
    · rw [List.filter_cons_of_pos (by simp [hkeeps])]
      exact .cons ⟨_, rfl⟩ .nil
    · simp [hkeeps]
    · simp [hkeeps]

theorem sweepHotRows_spec {exports : Bool} {rows : List Episode} {st st' : HotSweep O}
    (h : rows.foldlM (sweepHotRow exports nowNs) st = .ok st') : HotSwept nowNs rows st st' := by
  induction rows generalizing st with
  | nil =>
    cases h
    exact .nil nowNs _
  | cons e rows ih =>
    rw [List.foldlM_cons, bind_eq_ok_iff] at h
    obtain ⟨st₁, hrow, hrest⟩ := h
    exact (sweepHotRow_spec hrow).append (ih hrest)

/-! ## Warm to cold -/

omit [Chrono] in
/-- Is an aged warm row kept, or archived? -/
def promotes (w : Consolidated) : Bool := promotionThreshold ≤ w.importance

omit [Chrono] in
theorem forgetFloor_le_of_promotes {w : Consolidated} (h : promotes w = true) :
    forgetFloor ≤ w.importance :=
  forgetFloor_lt_promotionThreshold.le.trans (of_decide_eq_true h)

omit [Chrono] in
/-- What is promoted is above the floor. -/
theorem countP_forgotten (cold : List Longterm) (rows : List Consolidated) (nowNs : Int) :
    (cold ++ (rows.filter promotes).map fun w => promote w nowNs).countP
      (fun c => decide (c.importance < forgetFloor)) =
    cold.countP fun c => decide (c.importance < forgetFloor) := by
  rw [List.countP_append, Nat.add_eq_left, List.countP_eq_zero]
  intro c hc
  obtain ⟨w, hw, rfl⟩ := List.mem_map.mp hc
  rw [decide_eq_true_eq, not_lt]
  exact forgetFloor_le_of_promotes (List.mem_filter.mp hw).2

omit [Chrono] in
structure WarmSwept (nowNs : Int) (rows : List Consolidated) (st st' : WarmSweep O) : Prop where
  warm : st'.db.warm.rows = st.db.warm.rows.filter fun w => decide (w.id ∉ rows.map (·.id))
  cold : st'.db.cold.rows = st.db.cold.rows ++ (rows.filter promotes).map fun w => promote w nowNs
  rest : st'.db = { st.db with warm := st'.db.warm, cold := st'.db.cold }
  promoted : st'.promoted = st.promoted + rows.countP promotes
  warmArchived : st'.warmArchived = st.warmArchived + rows.countP fun w => !promotes w

omit [Chrono] in
theorem WarmSwept.nil (nowNs : Int) (st : WarmSweep O) : WarmSwept nowNs [] st st := by
  refine ⟨?_, ?_, rfl, rfl, rfl⟩
  · simp
  · simp

variable {rows : List Consolidated}

omit [Chrono] in
theorem WarmSwept.append {rows rows' : List Consolidated} {st st₁ st₂ : WarmSweep O}
    (h : WarmSwept nowNs rows st st₁) (h' : WarmSwept nowNs rows' st₁ st₂) :
    WarmSwept nowNs (rows ++ rows') st st₂ := by
  refine ⟨?_, ?_, ?_, ?_, ?_⟩
  · rw [h'.warm, h.warm, List.filter_filter]
    refine List.filter_congr fun e _ => ?_
    rw [List.map_append, Bool.eq_iff_iff, Bool.and_eq_true, decide_eq_true_eq, decide_eq_true_eq,
      decide_eq_true_eq, List.mem_append]
    tauto
  · rw [h'.cold, h.cold, List.filter_append, List.map_append, List.append_assoc]
  · rw [h'.rest, h.rest]
  · rw [h'.promoted, h.promoted, List.countP_append, Nat.add_assoc]
  · rw [h'.warmArchived, h.warmArchived, List.countP_append, Nat.add_assoc]

variable {w : Consolidated}

omit [Chrono] in
/-- A row whose event is not in the cold tier replaces nothing there. -/
theorem sweepWarmRow_spec {st st' : WarmSweep O} (h : sweepWarmRow nowNs st w = .ok st')
    (hfresh : ∀ c ∈ st.db.cold, c.eventId ≠ (promote w nowNs).eventId) :
      WarmSwept nowNs [w] st st' := by
  have hdelete : (st.db.warm.delete fun row => row.id = w.id).rows =
      st.db.warm.rows.filter fun row => decide (row.id ∉ [w].map (·.id)) := by
    refine List.filter_congr fun row _ => ?_
    simp
  unfold sweepWarmRow at h
  dsimp only at h
  split at h
  · rename_i hle
    have hpromotes : promotes w = true := by
      rw [promotes, decide_eq_true_eq]
      exact hle
    simp only [bind_eq_ok_iff] at h
    obtain ⟨-, -, h⟩ := h
    cases h
    refine ⟨hdelete, ?_, rfl, ?_, ?_⟩
    · rw [Table.rows_put_of_fresh hfresh, List.filter_cons_of_pos (by simp [hpromotes])]
      rfl
    · simp [hpromotes]
    · simp [hpromotes]
  · rename_i hle
    have hpromotes : promotes w = false := by
      rw [promotes, decide_eq_false_iff_not]
      exact hle
    cases h
    refine ⟨hdelete, ?_, rfl, ?_, ?_⟩
    · rw [List.filter_cons_of_neg (by simp [hpromotes])]
      simp
    · simp [hpromotes]
    · simp [hpromotes]

omit [Chrono] in
theorem sweepWarmRows_spec {st st' : WarmSweep O}
    (h : rows.foldlM (sweepWarmRow nowNs) st = .ok st')
    (honce : (rows.map fun w => (promote w nowNs).eventId).Nodup)
    (hfresh : ∀ w ∈ rows, ∀ c ∈ st.db.cold, c.eventId ≠ (promote w nowNs).eventId) :
    WarmSwept nowNs rows st st' := by
  induction rows generalizing st with
  | nil =>
    cases h
    exact .nil nowNs _
  | cons w rows ih =>
    rw [List.foldlM_cons, bind_eq_ok_iff] at h
    obtain ⟨st₁, hrow, hrest⟩ := h
    rw [List.map_cons, List.nodup_cons] at honce
    have hfirst := sweepWarmRow_spec hrow (hfresh w (List.mem_cons_self ..))
    refine hfirst.append (ih hrest honce.2 ?_)
    intro w' hw' c hc
    rw [← Table.mem_rows, hfirst.cold, List.mem_append] at hc
    rcases hc with hc | hc
    · exact hfresh w' (List.mem_cons_of_mem _ hw') c hc
    · obtain ⟨x, hx, rfl⟩ := List.mem_map.mp hc
      rw [List.mem_singleton.mp (List.mem_of_mem_filter hx)]
      intro heq
      exact honce.1 (List.mem_map.mpr ⟨w', hw', heq.symm⟩)

/-! ## The hippocampus -/

def memberIds (db : TierDb O) : List Int := db.hippocampus.rows.map (·.eventId)

omit [Chrono] in
/-- Membership is what the live rows select, and the numbers are of the members that are new or
gone. -/
theorem reconcile_spec (db : TierDb O) (selectedAtNs : Int) :
    ∃ hippocampus, (db.reconcile selectedAtNs).1 = { db with hippocampus } ∧
      (∀ id, id ∈ hippocampus.rows.map (·.eventId) ↔ db.selects id = true) ∧
      (db.reconcile selectedAtNs).2.1 = hippocampus.rows.countP
        (fun m => m.eventId ∉ db.memberIds) ∧
      (db.reconcile selectedAtNs).2.2 =
        db.hippocampus.rows.countP fun m => m.eventId ∉ hippocampus.rows.map (·.eventId) := by
  obtain ⟨fresh, hrows, hfresh, hall⟩ := Table.foldl_insertOrIgnore_spec
    (fun row : Int × ℚ => (⟨row.1, selectedAtNs⟩ : Membership))
    (db.live.filter fun row => importanceSelectionThreshold ≤ row.2) db.hippocampus
  have hrows : (db.selectMembers selectedAtNs).rows = db.hippocampus.rows ++ fresh := hrows
  have hselects : ∀ m ∈ fresh, db.selects m.eventId = true := by
    intro m hm
    obtain ⟨row, hrow, rfl⟩ := List.mem_map.mp (hfresh m hm).1
    obtain ⟨hlive, hle⟩ := List.mem_filter.mp hrow
    exact List.any_eq_true.mpr ⟨row, hlive, by simpa using hle⟩
  have hfinal : (db.reconcile selectedAtNs).1.hippocampus.rows =
      (db.hippocampus.rows ++ fresh).filter fun m => db.selects m.eventId := by
    show (db.selectMembers selectedAtNs).rows.filter _ = _
    rw [hrows]
    refine List.filter_congr fun m _ => ?_
    rw [Bool.not_not]
  have hmember : ∀ id, id ∈ (db.reconcile selectedAtNs).1.hippocampus.rows.map (·.eventId) ↔
      db.selects id = true := by
    intro id
    rw [hfinal, List.mem_map]
    constructor
    · rintro ⟨m, hm, rfl⟩
      exact (List.mem_filter.mp hm).2
    · intro hid
      obtain ⟨row, hlive, hrow⟩ := List.any_eq_true.mp hid
      obtain ⟨rfl, hle⟩ := of_decide_eq_true hrow
      obtain ⟨m, hm, hkey⟩ := hall row (List.mem_filter.mpr ⟨hlive, decide_eq_true hle⟩)
      have hkey : m.eventId = row.1 := hkey
      exact ⟨m, List.mem_filter.mpr ⟨hm, by rw [hkey]; exact hid⟩, hkey⟩
  refine ⟨(db.reconcile selectedAtNs).1.hippocampus, rfl, hmember, ?_, ?_⟩
  · have hold : (db.hippocampus.rows.filter fun m => db.selects m.eventId).countP
        (fun m => m.eventId ∉ db.memberIds) = 0 := by
      rw [List.countP_eq_zero]
      intro m hm
      have hmem : m.eventId ∈ db.memberIds := List.mem_map_of_mem (List.mem_of_mem_filter hm)
      simpa using hmem
    have hnew :
        (fresh.filter fun m => db.selects m.eventId).countP (fun m => m.eventId ∉ db.memberIds) =
        fresh.length := by
      rw [List.filter_eq_self.mpr hselects, List.countP_eq_length]
      intro m hm
      exact decide_eq_true (hfresh m hm).2
    rw [hfinal, List.filter_append, List.countP_append, hold, hnew, Nat.zero_add]
    show (db.selectMembers selectedAtNs).rows.length - _ = _
    rw [hrows, List.length_append, Nat.add_sub_cancel_left]
  · show (db.selectMembers selectedAtNs).rows.countP _ = _
    have hnew : fresh.countP (fun m => !db.selects m.eventId) = 0 := by
      rw [List.countP_eq_zero]
      intro m hm
      rw [hselects m hm]
      simp
    rw [hrows, List.countP_append, hnew, Nat.add_zero]
    refine List.countP_congr fun m _ => ?_
    rw [Bool.not_eq_true', decide_eq_true_eq, hmember, Bool.not_eq_true]

/-! ## Integrity -/

omit [Chrono] in
theorem intersectCount_eq_zero {a b : List Int} (h : ∀ id ∈ a, id ∉ b) :
    intersectCount a b = 0 := by
  unfold intersectCount
  rw [List.length_eq_zero_iff, List.filter_eq_nil_iff]
  intro id hid
  rw [List.mem_dedup] at hid
  simpa using h id (List.mem_of_mem_filter hid)

omit [Chrono] in
theorem mem_warmIds {db : TierDb O} {id : Int} : id ∈ db.warmIds ↔ some id ∈ db.warmKeys := by
  unfold warmIds warmKeys
  rw [List.mem_filterMap, List.mem_map]

omit [Chrono] in
theorem nodup_warmIds {db : TierDb O} (hs : db.Sound) : db.warmIds.Nodup := by
  have hkeys : db.warmIds = db.warmKeys.filterMap id := by
    unfold warmIds warmKeys
    rw [List.filterMap_map]
    rfl
  rw [hkeys]
  refine hs.warmOnce.filterMap ?_
  intro a b c ha hb
  exact ha.trans hb.symm

omit [Chrono] in
theorem checkIntegrity_of_sound {db : TierDb O} (hs : db.Sound) :
    db.checkIntegrity = ⟨true, []⟩ := by
  have hhotWarm : intersectCount (db.hot.rows.map (·.eventId)) db.warmIds = 0 :=
    intersectCount_eq_zero fun id hid hmem => hs.hotWarm id hid (mem_warmIds.mp hmem)
  have hhotCold : intersectCount (db.hot.rows.map (·.eventId)) (db.cold.rows.map (·.eventId)) = 0 :=
    intersectCount_eq_zero hs.hotCold
  have hwarmCold : intersectCount db.warmIds (db.cold.rows.map (·.eventId)) = 0 :=
    intersectCount_eq_zero fun id hid hmem => hs.warmCold id hmem (mem_warmIds.mp hid)
  have hdup : (db.warmIds.dedup.filter fun id => 1 < db.warmIds.count id).length = 0 := by
    rw [List.length_eq_zero_iff, List.filter_eq_nil_iff]
    intro id _
    have hle := List.nodup_iff_count_le_one.mp (nodup_warmIds hs) id
    simpa using hle
  unfold checkIntegrity
  simp only [hhotWarm, hhotCold, hwarmCold, hdup]
  rfl

/-! ## The pass -/

omit [Chrono] in
/-- An episode after the first phase. -/
def ageHot (e : Episode) : Episode :=
  let e := if autoPins e then { e with pinned := true } else e
  if e.pinned = false then { e with importance := e.importance * Tier.hot.decayFactor } else e

omit [Chrono] in
def ageWarm (w : Consolidated) : Consolidated :=
  { w with importance := w.importance * Tier.warm.decayFactor }

omit [Chrono] in
def ageCold (c : Longterm) : Longterm :=
  { c with importance := c.importance * Tier.cold.decayFactor }

omit [Chrono] in
theorem eventId_ageHot (e : Episode) : (ageHot e).eventId = e.eventId := by
  unfold ageHot
  dsimp only
  split <;> split <;> rfl

/-- What a pass leaves; `new` are the warm rows of the episodes that it moved. -/
structure PassSpec (db db' : TierDb O) (nowNs : Int64) (hippocampusEnabled : Bool) (r : PassReport)
    (new : List Consolidated) : Prop where
  retains : List.Forall₂ (Retains nowNs.toInt)
    (((db.hot.rows.map ageHot).filter (agedHot nowNs)).filter keeps) new
  hot : db'.hot.rows = (db.hot.rows.map ageHot).filter fun e => !agedHot nowNs e
  warm : db'.warm.rows = (db.warm.rows.map ageWarm ++ new).filter fun w => !agedWarm nowNs w
  cold : db'.cold.rows = (db.cold.rows.map ageCold ++
    (((db.warm.rows.map ageWarm ++ new).filter (agedWarm nowNs)).filter promotes).map
      fun w => promote w nowNs.toInt).filter fun c => !decide (c.importance < forgetFloor)
  indexed : db'.indexed = db.indexed
  sound : db'.Sound
  members : hippocampusEnabled = true → ∀ id, id ∈ db'.memberIds ↔ db'.selects id = true
  hippocampus : hippocampusEnabled = false → db'.hippocampus = db.hippocampus
  autoPinned : r.autoPinned = db.hot.rows.countP autoPins
  hotDecayed : r.hotDecayed = db.hot.rows.countP fun e => !e.pinned && !autoPins e
  warmDecayed : r.warmDecayed = db.warm.rows.length
  coldDecayed : r.coldDecayed = db.cold.rows.length
  consolidated : r.consolidated = ((db.hot.rows.map ageHot).filter (agedHot nowNs)).countP keeps
  hotArchived : r.hotArchived = ((db.hot.rows.map ageHot).filter (agedHot nowNs)).countP fun e =>
    !keeps e
  promoted :
    r.promoted = ((db.warm.rows.map ageWarm ++ new).filter (agedWarm nowNs)).countP promotes
  warmArchived : r.warmArchived =
    ((db.warm.rows.map ageWarm ++ new).filter (agedWarm nowNs)).countP fun w => !promotes w
  coldSwept : r.coldSwept = (db.cold.rows.map ageCold).countP fun c => c.importance < forgetFloor
  selected : r.hippocampusSelected = db'.hippocampus.rows.countP fun m => m.eventId ∉ db.memberIds
  removed : r.hippocampusRemoved = db.hippocampus.rows.countP fun m => m.eventId ∉ db'.memberIds
  issues : r.integrityIssues = []

omit [Chrono] in
theorem countP_unpinned (db : TierDb O) :
    db.autoPin.hot.rows.countP (fun e => e.pinned = false) =
      db.hot.rows.countP fun e => !e.pinned && !autoPins e := by
  show List.countP _ (List.map _ _) = _
  rw [List.countP_map]
  refine List.countP_congr fun e _ => ?_
  simp only [Function.comp_apply, decide_eq_true_eq, Bool.and_eq_true, Bool.not_eq_true']
  split
  · rename_i hpins
    simp [hpins]
  · rename_i hpins
    simp [hpins]

omit [Chrono] in
theorem rows_decay (db : TierDb O) : db.autoPin.decay.hot.rows = db.hot.rows.map ageHot ∧
    db.autoPin.decay.warm.rows = db.warm.rows.map ageWarm ∧
    db.autoPin.decay.cold.rows = db.cold.rows.map ageCold := by
  refine ⟨?_, ?_, ?_⟩
  · show List.map _ (List.map _ _) = _
    rw [List.map_map]
    refine List.map_congr_left fun e _ => ?_
    unfold ageHot
    simp only [Function.comp_apply, decide_eq_true_eq]
  · show List.map _ _ = _
    refine List.map_congr_left fun w _ => ?_
    rfl
  · show List.map _ _ = _
    refine List.map_congr_left fun c _ => ?_
    rfl

omit [Chrono] in
theorem sound_decay {db : TierDb O} (hs : db.Sound) : db.autoPin.decay.Sound := by
  obtain ⟨hhot, hwarm, hcold⟩ := rows_decay db
  have hhotIds : db.autoPin.decay.hotIds = db.hotIds := by
    rw [hotIds, hhot, List.map_map]
    exact List.map_congr_left fun e _ => eventId_ageHot e
  have hwarmKeys : db.autoPin.decay.warmKeys = db.warmKeys := by
    rw [warmKeys, hwarm, List.map_map]
    rfl
  have hcoldIds : db.autoPin.decay.coldIds = db.coldIds := by
    rw [coldIds, hcold, List.map_map]
    rfl
  exact hs.of_subset (hhotIds ▸ List.Subset.refl _) (hwarmKeys ▸ List.Sublist.refl _)
    (hcoldIds ▸ List.Subset.refl _) (List.Subset.refl _)

omit [Chrono] in
/-- What two lists have in common that go together row by row. -/
theorem map_eq_of_forall₂ {A B C : Type} {R : A → B → Prop} {f : A → C} {g : B → C}
    (hfg : ∀ a b, R a b → g b = f a) {as : List A} {bs : List B} (h : List.Forall₂ R as bs) :
      bs.map g = as.map f := by
  induction h with
  | nil => rfl
  | cons hab _ ih => rw [List.map_cons, List.map_cons, hfg _ _ hab, ih]

omit [Chrono] in
theorem exists_right_of_forall₂ {A B : Type} {R : A → B → Prop} {as : List A} {bs : List B}
    (h : List.Forall₂ R as bs) {a : A} (ha : a ∈ as) : ∃ b ∈ bs, R a b := by
  induction h with
  | nil => cases ha
  | @cons x y _ _ hxy _ ih =>
    rcases List.mem_cons.mp ha with rfl | ha
    · exact ⟨y, List.mem_cons_self .., hxy⟩
    · obtain ⟨b, hb, hab⟩ := ih ha
      exact ⟨b, List.mem_cons_of_mem _ hb, hab⟩

omit [Chrono] in
theorem exists_left_of_forall₂ {A B : Type} {R : A → B → Prop} {as : List A} {bs : List B}
    (h : List.Forall₂ R as bs) {b : B} (hb : b ∈ bs) : ∃ a ∈ as, R a b :=
  exists_right_of_forall₂ h.flip hb

theorem HotSwept.sound {nowNs : Int64} {rows : List Episode} {st st' : HotSweep O}
    (h : HotSwept nowNs.toInt rows st st') (hrows : rows = st.db.hot.rows.filter (agedHot nowNs))
    (hs : st.db.Sound) : st'.db.Sound := by
  subst hrows
  obtain ⟨new, hwarm, hretains⟩ := h.warm
  have hnew : new.map (·.eventId) =
      (((st.db.hot.rows.filter (agedHot nowNs)).filter keeps).map (·.eventId)).map some := by
    rw [List.map_map]
    refine map_eq_of_forall₂ ?_ hretains
    rintro e w ⟨id, rfl⟩
    rfl
  refine hs.toWarm (((st.db.hot.rows.filter (agedHot nowNs)).filter keeps).map (·.eventId)) ?_ ?_ ?_
    ?_ ?_ ?_
  · exact List.map_subset _
      (List.Subset.trans (List.filter_subset_self _) (List.filter_subset_self _))
  · exact ((List.filter_sublist.trans List.filter_sublist).map _).nodup st.db.nodup_hotIds
  · intro id hid
    obtain ⟨e, he, rfl⟩ := List.mem_map.mp hid
    rw [h.hot, List.mem_filter, decide_eq_true_eq] at he
    refine ⟨List.mem_map_of_mem he.1, fun hmem => he.2 ?_⟩
    exact List.map_subset _ (List.filter_subset_self _) hmem
  · rw [warmKeys, hwarm, List.map_append, hnew]
    rfl
  · rw [coldIds, h.rest]
    rfl
  · rw [h.rest]
    rfl

omit [Chrono] in
/-- The event of a row of the warm tier is that of the row it becomes. -/
theorem eventId_promote {db : TierDb O} (hs : db.Sound) (nowNs : Int) (hw : w ∈ db.warm.rows) :
    some (promote w nowNs).eventId = w.eventId := by
  obtain ⟨id, hid⟩ := Option.isSome_iff_exists.mp (hs.isSome _ (List.mem_map_of_mem hw))
  rw [promote, hid]
  rfl

/-- The promoted rows are new to the cold tier. -/
theorem sweepWarm_fresh {db : TierDb O} (hs : db.Sound) (nowNs : Int64) :
    ((db.warm.rows.filter (agedWarm nowNs)).map fun w => (promote w nowNs.toInt).eventId).Nodup ∧
      ∀ w ∈ db.warm.rows.filter (agedWarm nowNs), ∀ c ∈ db.cold,
        c.eventId ≠ (promote w nowNs.toInt).eventId := by
  constructor
  · have hkeys :
        ((db.warm.rows.filter (agedWarm nowNs)).map fun w => (promote w nowNs.toInt).eventId).map
          some =
        (db.warm.rows.filter (agedWarm nowNs)).map (·.eventId) := by
      rw [List.map_map]
      exact List.map_congr_left fun w hw => eventId_promote hs _ (List.mem_of_mem_filter hw)
    have hnodup : ((db.warm.rows.filter (agedWarm nowNs)).map (·.eventId)).Nodup :=
      (List.filter_sublist.map _).nodup hs.warmOnce
    rw [← hkeys] at hnodup
    exact hnodup.of_map _
  · intro w hw c hc heq
    have hw := List.mem_of_mem_filter hw
    refine hs.warmCold c.eventId (List.mem_map_of_mem hc) ?_
    rw [heq, eventId_promote hs _ hw]
    exact List.mem_map_of_mem hw

theorem WarmSwept.sound {nowNs : Int64} {st st' : WarmSweep O}
    (h : WarmSwept nowNs.toInt rows st st')
    (hrows : rows = st.db.warm.rows.filter (agedWarm nowNs)) (hs : st.db.Sound) : st'.db.Sound := by
  subst hrows
  have hwarm : st'.db.warm.rows = st.db.warm.rows.filter fun w => !agedWarm nowNs w :=
    h.warm.trans (Table.filter_key_notMem ..)
  refine hs.toCold (((st.db.warm.rows.filter (agedWarm nowNs)).filter promotes).map fun w =>
    (promote w nowNs.toInt).eventId) ?_ ?_ ?_ ?_ ?_ ?_
  · intro id hid
    obtain ⟨w, hw, rfl⟩ := List.mem_map.mp hid
    have hw := List.mem_of_mem_filter (List.mem_of_mem_filter hw)
    rw [eventId_promote hs _ hw]
    exact List.mem_map_of_mem hw
  · rw [hotIds, h.rest]
    rfl
  · rw [warmKeys, hwarm]
    exact List.filter_sublist.map _
  · intro id hid hmem
    obtain ⟨w, hw, rfl⟩ := List.mem_map.mp hid
    obtain ⟨hw, haged⟩ := List.mem_filter.mp (List.mem_of_mem_filter hw)
    rw [eventId_promote hs _ hw, warmKeys, hwarm] at hmem
    obtain ⟨w', hw', hkey⟩ := List.mem_map.mp hmem
    obtain ⟨hw', hyoung⟩ := List.mem_filter.mp hw'
    rw [List.inj_on_of_nodup_map hs.warmOnce hw' hw hkey, haged] at hyoung
    cases hyoung
  · intro id hid
    rw [coldIds, h.cold, List.map_append, List.mem_append, List.map_map] at hid
    exact hid
  · rw [h.rest]

omit [Chrono] in
/-- The end of a pass. -/
theorem reconcile_of_enabled {swept final : TierDb O} {selectedAtNs : Int}
    {hippocampusEnabled : Bool} {selected removed : Nat}
    (h : (if hippocampusEnabled = true then swept.reconcile selectedAtNs else (swept, 0, 0)) =
      (final, selected, removed)) :
    ∃ hippocampus, final = { swept with hippocampus } ∧
      (hippocampusEnabled = true → ∀ id, id ∈ hippocampus.rows.map (·.eventId) ↔
        swept.selects id = true) ∧
      (hippocampusEnabled = false → hippocampus = swept.hippocampus) ∧
      selected = hippocampus.rows.countP (fun m => m.eventId ∉ swept.memberIds) ∧
      removed = swept.hippocampus.rows.countP fun m =>
        m.eventId ∉ hippocampus.rows.map (·.eventId) := by
  split at h
  · rename_i henabled
    obtain ⟨hippocampus, hstore, hmember, hselected, hremoved⟩ := reconcile_spec swept selectedAtNs
    rw [h] at hstore hselected hremoved
    refine ⟨hippocampus, hstore, fun _ => hmember, ?_, hselected, hremoved⟩
    rw [henabled]
    simp
  · rename_i henabled
    cases h
    refine ⟨swept.hippocampus, rfl, fun h => absurd h henabled, fun _ => rfl, ?_, ?_⟩
    · rw [eq_comm, List.countP_eq_zero]
      intro m hm
      have hmem : m.eventId ∈ swept.memberIds := List.mem_map_of_mem hm
      simpa using hmem
    · rw [eq_comm, List.countP_eq_zero]
      intro m hm
      have hmem : m.eventId ∈ swept.hippocampus.rows.map (·.eventId) := List.mem_map_of_mem hm
      simpa using hmem

variable {vault : Option (List PreDecayRow → Nat)} {r : PassReport}

theorem pass_spec {db db' : TierDb O} {nowNs : Int64} {hippocampusEnabled : Bool} (hs : db.Sound)
    (h : db.runConsolidationPassWithHippocampus nowNs vault hippocampusEnabled = .ok (db', r)) :
    ∃ new, PassSpec db db' nowNs hippocampusEnabled r new := by
  unfold runConsolidationPassWithHippocampus at h
  simp only [checkIntegrity_of_sound hs, Bool.not_true, Bool.false_eq_true, if_false,
    bind_eq_ok_iff] at h
  obtain ⟨hotSweep, hhotSweep, warmSweep, hwarmSweep, h⟩ := h
  obtain ⟨hdecayHot, hdecayWarm, hdecayCold⟩ := rows_decay db
  have hdecay := sound_decay hs
  have hhotSwept := sweepHotRows_spec hhotSweep
  have hhotSound := hhotSwept.sound rfl hdecay
  obtain ⟨honce, hfresh⟩ := sweepWarm_fresh hhotSound nowNs
  have hwarmSwept := sweepWarmRows_spec hwarmSweep honce hfresh
  have hwarmSound := hwarmSwept.sound rfl hhotSound
  obtain ⟨new, hnew, hretains⟩ := hhotSwept.warm
  -- the tiers after the two loops
  have hhot : warmSweep.db.hot.rows = (db.hot.rows.map ageHot).filter fun e =>
      !agedHot nowNs e := by
    rw [hwarmSwept.rest, ← hdecayHot, ← Table.filter_key_notMem]
    exact hhotSwept.hot
  have hwarmMid : hotSweep.db.warm.rows = db.warm.rows.map ageWarm ++ new := by
    rw [hnew, ← hdecayWarm]
  have hwarm : warmSweep.db.warm.rows = (db.warm.rows.map ageWarm ++ new).filter fun w =>
      !agedWarm nowNs w := by
    rw [← hwarmMid]
    exact hwarmSwept.warm.trans (Table.filter_key_notMem ..)
  have hcold : warmSweep.db.cold.rows = db.cold.rows.map ageCold ++
      (((db.warm.rows.map ageWarm ++ new).filter (agedWarm nowNs)).filter promotes).map
        fun w => promote w nowNs.toInt := by
    rw [hwarmSwept.cold, hwarmMid, ← hdecayCold]
    congr 1
    show hotSweep.db.cold.rows = _
    rw [hhotSwept.rest]
    rfl
  have hmembers : warmSweep.db.hippocampus = db.hippocampus := by
    rw [hwarmSwept.rest]
    show hotSweep.db.hippocampus = _
    rw [hhotSwept.rest]
    rfl
  have hindexed : warmSweep.db.indexed = db.indexed := by
    rw [hwarmSwept.rest]
    show hotSweep.db.indexed = _
    rw [hhotSwept.rest]
    rfl
  have hsound : TierDb.Sound { warmSweep.db with
      cold := warmSweep.db.cold.delete fun c => decide (c.importance < forgetFloor) } :=
    hwarmSound.of_subset (List.Subset.refl _) (List.Sublist.refl _)
      (List.map_subset _ (List.filter_subset_self _)) (List.Subset.refl _)
  generalize hswept : ({ warmSweep.db with
    cold := warmSweep.db.cold.delete fun c => decide (c.importance < forgetFloor) } :
      TierDb O) = swept at h hsound
  generalize hfinal :
    (if hippocampusEnabled = true then swept.reconcile nowNs.toInt else (swept, 0, 0)) = final at h
  obtain ⟨final, selected, removed⟩ := final
  obtain ⟨hippocampus, rfl, hmember, hsame, hselected, hremoved⟩ := reconcile_of_enabled hfinal
  cases h
  subst hswept
  have hsound' : TierDb.Sound { warmSweep.db with
      cold := warmSweep.db.cold.delete fun c => decide (c.importance < forgetFloor),
      hippocampus } :=
    hsound.of_subset (List.Subset.refl _) (List.Sublist.refl _) (List.Subset.refl _)
      (List.Subset.refl _)
  have hrows : ((db.hot.rows.map ageHot).filter (agedHot nowNs)) =
      db.autoPin.decay.hot.rows.filter (agedHot nowNs) := by
    rw [hdecayHot]
  have hwarmRows : ((db.warm.rows.map ageWarm ++ new).filter (agedWarm nowNs)) =
      hotSweep.db.warm.rows.filter (agedWarm nowNs) := by
    rw [hwarmMid]
  refine ⟨new, ?_, hhot, hwarm, ?_, hindexed, hsound', hmember, ?_, rfl, countP_unpinned db, rfl,
    rfl, ?_, ?_, ?_, ?_, ?_, ?_, ?_, rfl⟩
  · rw [hrows]
    exact hretains
  · show List.filter _ _ = _
    rw [hcold]
  · intro hdisabled
    rw [hsame hdisabled]
    exact hmembers
  · rw [hrows]
    exact hhotSwept.consolidated.trans (Nat.zero_add _)
  · rw [hrows]
    exact hhotSwept.hotArchived.trans (Nat.zero_add _)
  · rw [hwarmRows]
    exact hwarmSwept.promoted.trans (Nat.zero_add _)
  · rw [hwarmRows]
    exact hwarmSwept.warmArchived.trans (Nat.zero_add _)
  · show List.countP _ warmSweep.db.cold.rows = _
    rw [hcold, countP_forgotten]
  · rw [hselected]
    unfold memberIds
    rw [← hmembers]
  · rw [hremoved, ← hmembers]
    rfl

omit [Chrono] in
theorem indexed_sweepWarmRows {st st' : WarmSweep O}
    (h : rows.foldlM (sweepWarmRow nowNs) st = .ok st') : st'.db.indexed = st.db.indexed := by
  induction rows generalizing st with
  | nil =>
    cases h
    rfl
  | cons w rows ih =>
    rw [List.foldlM_cons, bind_eq_ok_iff] at h
    obtain ⟨st₁, hrow, hrest⟩ := h
    rw [ih hrest]
    unfold sweepWarmRow at hrow
    dsimp only at hrow
    split at hrow
    · simp only [bind_eq_ok_iff] at hrow
      obtain ⟨-, -, hrow⟩ := hrow
      cases hrow
      rfl
    · cases hrow
      rfl

/-- A pass indexes nothing, also if the store is not sound. -/
theorem indexed_pass {db db' : TierDb O} {nowNs : Int64} {hippocampusEnabled : Bool}
    (h : db.runConsolidationPassWithHippocampus nowNs vault hippocampusEnabled = .ok (db', r)) :
    db'.indexed = db.indexed := by
  unfold runConsolidationPassWithHippocampus at h
  dsimp only at h
  split at h
  · cases h
    rfl
  · simp only [bind_eq_ok_iff] at h
    obtain ⟨hotSweep, hhotSweep, warmSweep, hwarmSweep, h⟩ := h
    have hhot : hotSweep.db.indexed = db.indexed := by
      rw [(sweepHotRows_spec hhotSweep).rest]
      rfl
    have hwarm : warmSweep.db.indexed = hotSweep.db.indexed := indexed_sweepWarmRows hwarmSweep
    cases hippocampusEnabled with
    | true =>
      cases h
      exact hwarm.trans hhot
    | false =>
      cases h
      exact hwarm.trans hhot

end Sweeps

end TierDb

end Neoth.Memory
