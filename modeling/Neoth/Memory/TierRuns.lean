import Neoth.Memory.EventIds
import Neoth.Memory.Fates

/-!
# Memories are conserved

Runs of the tiers: frames are indexed, passes and dreams move rows, episodes are pinned and
unpinned, accesses are counted.

* `Rearranged`: a dream changes the tier of a memory, and nothing else;
* `TierDb.Conserves`: what a step keeps, and `tiers_conserve`: every step after any run does;
* `young_memory_forgotten`: a clock value at which a pass does not.
-/

open Lib Lib.Machine Lib.Transaction Neoth.Wal

namespace Neoth.Memory

/-! ## Steps -/

inductive TierEvent
  | index (fs : List IndexedFrame)
  | consolidate (nowNs : Int64) (vault : Option (List PreDecayRow → Nat))
    (hippocampusEnabled : Bool)
  | dream (day : String) (inputs : List (Int × String)) (nowNs : Int64)
  | pin (eventId : Int) (pinned : Bool)
  | access (eventId : Int) (tier : Tier)

inductive TierAnswer
  | indexed (frames : Nat)
  | passed (r : PassReport)
  | moved (rows : Nat)
  | affected (rows : Nat)

/-- The memory with one more access, or with none. -/
def HeldMemory.bump (m : HeldMemory) (accessed : Bool) : HeldMemory :=
  { m with accessCount := m.accessCount + if accessed then 1 else 0 }

namespace TierEvent

/-- Does the event count an access of this memory? -/
def accesses (tier : Tier) (eventId : Int) : TierEvent → Bool
  | .access id t => t = tier ∧ id = eventId
  | _ => false

/-- Is there a frame of this event? -/
def indexes (eventId : Int) : TierEvent → Bool
  | .index fs => (fs.map fun f => asI64 f.eventId).contains eventId
  | _ => false

def unpins (eventId : Int) : TierEvent → Bool
  | .pin id false => id = eventId
  | _ => false

/-- What a pass subtracts from its clock value does not wrap around. -/
def ClockInRange : TierEvent → Prop
  | .consolidate nowNs _ _ => -2 ^ 63 + 90 * 86400000000000 ≤ nowNs.toInt
  | _ => True

end TierEvent

namespace TierDb

variable {O : Type}

def empty (origins : O) : TierDb O := ⟨⟨∅, ∅, origins⟩, ∅, ∅, ∅, []⟩

section Step
variable [WrapperTags] [SerdeJson] [OriginReceipts O] [Chrono]

omit [Chrono] in
/-- The transaction of an index pass over these frames. -/
def indexPass (fs : List IndexedFrame) (db : TierDb O) : Except String (TierDb O × TierAnswer) := do
  let views ← db.views.indexAll fs
  pure ({ db with views, indexed := db.indexed ++ fs.map fun f => asI64 f.eventId },
    .indexed fs.length)

def step (db : TierDb O) : TierEvent → TierDb O × Except String TierAnswer
  | .index fs => transact (indexPass fs) db
  | .consolidate nowNs vault hippocampusEnabled =>
    transact (fun db => (db.runConsolidationPassWithHippocampus nowNs vault hippocampusEnabled).map
      fun result => (result.1, .passed result.2)) db
  | .dream day inputs nowNs =>
    transact (fun db => (db.promoteSelectedHotToWarm day nowNs.toInt inputs).map
      fun result => (result.1, .moved result.2)) db
  | .pin eventId pinned =>
    ((db.setEpisodePinned eventId pinned).1, .ok (.affected (db.setEpisodePinned eventId pinned).2))
  | .access eventId tier =>
    ((db.incrementAccessAtTier eventId tier).1,
      .ok (.affected (db.incrementAccessAtTier eventId tier).2))

def after (origins : O) (es : List TierEvent) : TierDb O := (run step (empty origins) es).1

end Step

/-! ## Dreams -/

/-- The memories are still there; some are in another tier. -/
structure Keeps (db db' : TierDb O) : Prop where
  holds : ∀ tier m, db.Holds tier m → ∃ tier', db'.Holds tier' m
  pinned : ∀ e ∈ db.hot, e.pinned = true → e ∈ db'.hot
  cold : db'.cold = db.cold

/-- The memories are the same; some are in another tier. -/
structure Rearranged (db db' : TierDb O) : Prop extends Keeps db db' where
  held : ∀ tier m, db'.Holds tier m → ∃ tier', db.Holds tier' m
  sound : db.Sound → db'.Sound
  indexed : db'.indexed = db.indexed

theorem Rearranged.refl (db : TierDb O) : Rearranged db db :=
  ⟨⟨fun tier _ h => ⟨tier, h⟩, fun _ h _ => h, rfl⟩, fun tier _ h => ⟨tier, h⟩, id, rfl⟩

theorem Rearranged.trans {db db₁ db₂ : TierDb O} (h : Rearranged db db₁) (h' : Rearranged db₁ db₂) :
    Rearranged db db₂ := by
  refine ⟨⟨?_, ?_, h'.cold.trans h.cold⟩, ?_, h'.sound ∘ h.sound, h'.indexed.trans h.indexed⟩
  · intro tier m hm
    obtain ⟨tier', hm⟩ := h.holds tier m hm
    exact h'.holds tier' m hm
  · intro e he hpinned
    exact h'.pinned e (h.pinned e he hpinned) hpinned
  · intro tier m hm
    obtain ⟨tier', hm⟩ := h'.held tier m hm
    exact h.held tier' m hm

variable {e : Episode}

/-- One row of a dream. -/
theorem rearranged_retain {db : TierDb O} (he : e ∈ db.hot) (hpinned : e.pinned = false)
    {warm : AutoTable Consolidated.id} {day : String} {nowNs : Int}
    (hwarm : insertRetained db.warm e day nowNs = .ok warm) :
    Rearranged db { db.withHot (db.hot.delete fun row => row.eventId = e.eventId) with warm } := by
  unfold insertRetained at hwarm
  simp only [bind_eq_ok_iff] at hwarm
  obtain ⟨-, -, hwarm⟩ := hwarm
  cases hwarm
  have hother : ∀ x ∈ db.hot, x ≠ e → x.eventId ≠ e.eventId := fun x hx hne heq =>
    hne (Table.eq_of_key_eq hx he heq)
  refine ⟨⟨?_, ?_, rfl⟩, ?_, ?_, rfl⟩
  · intro tier m hm
    cases tier with
    | hot =>
      obtain ⟨x, hx, rfl⟩ := hm
      by_cases hxe : x = e
      · subst hxe
        exact ⟨.warm, _, List.mem_append_right _ (List.mem_singleton_self _), rfl⟩
      · exact ⟨.hot, x, Table.mem_delete.mpr ⟨hx, decide_eq_false (hother x hx hxe)⟩, rfl⟩
    | warm =>
      obtain ⟨w, hw, hm⟩ := hm
      exact ⟨.warm, w, List.mem_append_left _ hw, hm⟩
    | cold => exact ⟨.cold, hm⟩
  · intro x hx hx'
    refine Table.mem_delete.mpr ⟨hx, decide_eq_false (hother x hx ?_)⟩
    rintro rfl
    rw [hpinned] at hx'
    cases hx'
  · intro tier m hm
    cases tier with
    | hot =>
      obtain ⟨x, hx, rfl⟩ := hm
      exact ⟨.hot, x, (Table.mem_delete.mp hx).1, rfl⟩
    | warm =>
      obtain ⟨w, hw, hm⟩ := hm
      rcases List.mem_append.mp hw with hw | hw
      · exact ⟨.warm, w, hw, hm⟩
      · rw [List.mem_singleton.mp hw] at hm
        exact ⟨.hot, e, he, Option.some.inj hm⟩
    | cold => exact ⟨.cold, hm⟩
  · intro hs
    refine hs.toWarm [e.eventId] ?_ (List.nodup_singleton _) ?_ ?_ rfl rfl
    · intro id hid
      rw [List.mem_singleton.mp hid]
      exact List.mem_map_of_mem he
    · intro id hid
      obtain ⟨x, hx, rfl⟩ := List.mem_map.mp hid
      obtain ⟨hx, hne⟩ := Table.mem_delete.mp hx
      exact ⟨List.mem_map_of_mem hx, by simpa using hne⟩
    · show List.map _ (_ ++ [_]) = _
      rw [List.map_append]
      rfl

theorem rearranged_dream {day : String} {nowNs : Int} {inputs : List (Int × String)}
    {db db' : TierDb O}
    {moved : Nat} (h : db.promoteSelectedHotToWarm day nowNs inputs = .ok (db', moved)) :
    Rearranged db db' ∧ moved = inputs.length := by
  induction inputs generalizing db moved with
  | nil =>
    cases h
    exact ⟨.refl _, rfl⟩
  | cons input inputs ih =>
    unfold promoteSelectedHotToWarm at h
    simp only [bind_eq_ok_iff, context_eq_ok_iff, require_eq_ok_iff, Bool.not_eq_true'] at h
    obtain ⟨e, hfind, -, hpinned, -, -, -, -, warm, hwarm, ⟨db₁, moved₁⟩, hrest, h⟩ := h
    cases h
    obtain ⟨he, hkey⟩ := Table.find_eq_some_iff.mp hfind
    rw [← hkey] at hrest
    obtain ⟨hrearranged, rfl⟩ := ih hrest
    exact ⟨(rearranged_retain he hpinned hwarm).trans hrearranged, rfl⟩

/-! ## Index passes -/

section Index
variable [WrapperTags] [SerdeJson]

theorem eventId_of_episodeOf {f : IndexedFrame} (h : episodeOf f = some e) :
    e.eventId = asI64 f.eventId := by
  unfold episodeOf at h
  split at h
  · unfold rawEpisode at h
    dsimp only at h
    split at h
    · cases h
    · cases h
      rfl
  · split at h
    · unfold channelEpisode at h
      dsimp only at h
      obtain ⟨v, -, rfl⟩ := Option.map_eq_some_iff.mp h
      rfl
    · cases h

variable [OriginReceipts O]

variable {fs : List IndexedFrame}

/-- The episodes of the frames come last. -/
theorem rows_indexAll {views views' : Views O} (h : views.indexAll fs = .ok views') :
    ∃ fresh, views'.episodes.rows = views.episodes.rows ++ fresh ∧
      ∀ e ∈ fresh, e.eventId ∈ fs.map fun f => asI64 f.eventId := by
  unfold Views.indexAll at h
  induction fs generalizing views with
  | nil =>
    cases h
    exact ⟨[], by simp, by simp⟩
  | cons f fs ih =>
    rw [List.foldlM_cons, bind_eq_ok_iff] at h
    obtain ⟨views₁, hfirst, hrest⟩ := h
    obtain ⟨fresh, hrows, hfresh⟩ := ih hrest
    unfold Views.indexFrame at hfirst
    rw [bind_eq_ok_iff] at hfirst
    obtain ⟨provider, -, hfirst⟩ := hfirst
    cases hfirst
    have hone : ∃ new, (insertRow views.episodes (episodeOf f)).rows = views.episodes.rows ++ new ∧
        ∀ e ∈ new, e.eventId = asI64 f.eventId := by
      unfold insertRow
      cases hrow : episodeOf f with
      | none => exact ⟨[], by simp, by simp⟩
      | some e =>
        rcases Table.insertOrIgnore_cases views.episodes e with hinsert | ⟨hsame, -⟩
        · refine ⟨[e], (Table.insert_eq_some hinsert).2, ?_⟩
          intro e' he'
          rw [List.mem_singleton.mp he']
          exact eventId_of_episodeOf hrow
        · exact ⟨[], by simp [hsame], by simp⟩
    obtain ⟨new, hnew, hids⟩ := hone
    refine ⟨new ++ fresh, by rw [hrows, hnew, List.append_assoc], ?_⟩
    intro e he
    rcases List.mem_append.mp he with he | he
    · exact List.mem_cons.mpr (.inl (hids e he))
    · exact List.mem_cons_of_mem _ (hfresh e he)

/-- What an index pass leaves: new episodes, whose ids are those of its frames. -/
structure Indexed (db : TierDb O) (fs : List IndexedFrame) (db' : TierDb O) : Prop where
  hot : ∃ fresh, db'.hot.rows = db.hot.rows ++ fresh ∧ ∀ e ∈ fresh, e.eventId ∈ fs.map fun f =>
    asI64 f.eventId
  indexed : db'.indexed = db.indexed ++ fs.map fun f => asI64 f.eventId
  warm : db'.warm = db.warm
  cold : db'.cold = db.cold
  hippocampus : db'.hippocampus = db.hippocampus

theorem indexPass_spec {db db' : TierDb O} {answer : TierAnswer}
    (h : db.indexPass fs = .ok (db', answer)) :
    Indexed db fs db' ∧ answer = .indexed fs.length := by
  unfold indexPass at h
  rw [bind_eq_ok_iff] at h
  obtain ⟨views, hviews, h⟩ := h
  cases h
  obtain ⟨fresh, hrows, hfresh⟩ := rows_indexAll hviews
  exact ⟨⟨⟨fresh, hrows, hfresh⟩, rfl, rfl, rfl, rfl⟩, rfl⟩

omit [WrapperTags] [SerdeJson] [OriginReceipts O] in
/-- As no event id is indexed twice, the new episodes are in no tier. -/
theorem Indexed.sound {db db' : TierDb O} (h : Indexed db fs db') (hs : db.Sound)
    (hdistinct : db'.indexed.Nodup) : db'.Sound := by
  obtain ⟨fresh, hrows, hfresh⟩ := h.hot
  rw [h.indexed] at hdistinct
  have hnew : ∀ id ∈ fs.map fun f => asI64 f.eventId, id ∉ db.indexed := fun id hid hmem =>
    (List.nodup_append.mp hdistinct).2.2 id hmem id hid rfl
  have hwarm : db'.warmKeys = db.warmKeys := by rw [warmKeys, h.warm, warmKeys]
  have hcold : db'.coldIds = db.coldIds := by rw [coldIds, h.cold, coldIds]
  have hhot : ∀ id ∈ db'.hotIds, id ∈ db.hotIds ∨ id ∈ fs.map fun f => asI64 f.eventId := by
    intro id hid
    rw [hotIds, hrows, List.map_append, List.mem_append] at hid
    rcases hid with hid | hid
    · exact .inl hid
    · obtain ⟨e, he, rfl⟩ := List.mem_map.mp hid
      exact .inr (hfresh e he)
  refine ⟨?_, ?_, ?_, ?_, ?_, ?_⟩
  · rw [hwarm]
    exact hs.isSome
  · rw [hwarm]
    exact hs.warmOnce
  · intro id hid
    rw [hwarm]
    rcases hhot id hid with hid | hid
    · exact hs.hotWarm id hid
    · exact fun hmem => hnew id hid (hs.indexed id (.inr (.inl hmem)))
  · intro id hid
    rw [hcold]
    rcases hhot id hid with hid | hid
    · exact hs.hotCold id hid
    · exact fun hmem => hnew id hid (hs.indexed id (.inr (.inr hmem)))
  · rw [hcold, hwarm]
    exact hs.warmCold
  · intro id hid
    rw [h.indexed, List.mem_append]
    rw [hwarm, hcold] at hid
    rcases hid with hid | hid
    · exact (hhot id hid).imp_left fun hid => hs.indexed id (.inl hid)
    · exact .inl (hs.indexed id (.inr hid))

omit [WrapperTags] [SerdeJson] [OriginReceipts O] in
theorem Indexed.keeps {db db' : TierDb O} (h : Indexed db fs db') : Keeps db db' := by
  obtain ⟨fresh, hrows, -⟩ := h.hot
  have hold : ∀ e ∈ db.hot, e ∈ db'.hot := by
    intro e he
    rw [← Table.mem_rows, hrows]
    exact List.mem_append_left _ he
  refine ⟨?_, fun e he _ => hold e he, h.cold⟩
  intro tier m hm
  refine ⟨tier, ?_⟩
  cases tier with
  | hot =>
    obtain ⟨e, he, hm⟩ := hm
    exact ⟨e, hold e he, hm⟩
  | warm =>
    obtain ⟨w, hw, hm⟩ := hm
    exact ⟨w, h.warm ▸ hw, hm⟩
  | cold =>
    obtain ⟨c, hc, hm⟩ := hm
    exact ⟨c, h.cold ▸ hc, hm⟩

omit [WrapperTags] [SerdeJson] [OriginReceipts O] in
theorem Indexed.origin {db db' : TierDb O} (h : Indexed db fs db') {tier : Tier} {m : HeldMemory}
    (hm : db'.Holds tier m) : db.Lives m.eventId ∨
    (TierEvent.index fs).indexes m.eventId = true := by
  obtain ⟨fresh, hrows, hfresh⟩ := h.hot
  cases tier with
  | hot =>
    obtain ⟨e, he, rfl⟩ := hm
    rw [← Table.mem_rows, hrows] at he
    rcases List.mem_append.mp he with he | he
    · exact .inl ⟨.hot, _, ⟨e, he, rfl⟩, rfl⟩
    · exact .inr (List.contains_iff_mem.mpr (hfresh e he))
  | warm =>
    obtain ⟨w, hw, hm⟩ := hm
    exact .inl ⟨.warm, m, ⟨w, h.warm ▸ hw, hm⟩, rfl⟩
  | cold =>
    obtain ⟨c, hc, hm⟩ := hm
    exact .inl ⟨.cold, m, ⟨c, h.cold ▸ hc, hm⟩, rfl⟩

end Index

/-! ## Marks -/

/-- What a mark leaves: the rows, with what is pinned or counted changed. -/
structure Marked (db : TierDb O) (event : TierEvent) (db' : TierDb O) (hot : Episode → Episode)
    (warm : Consolidated → Consolidated) (cold : Longterm → Longterm) : Prop where
  hotRows : db'.hot.rows = db.hot.rows.map hot
  warmRows : db'.warm.rows = db.warm.rows.map warm
  coldRows : db'.cold.rows = db.cold.rows.map cold
  hotMemory : ∀ e, (hot e).memory = e.memory.bump (event.accesses .hot e.eventId)
  warmMemory : ∀ w m, w.memory = some m →
    (warm w).memory = some (m.bump (event.accesses .warm m.eventId))
  warmId : ∀ w, (warm w).eventId = w.eventId
  coldMemory : ∀ c, (cold c).memory = c.memory.bump (event.accesses .cold c.eventId)
  pinned : ∀ e, e.pinned = true → event.unpins e.eventId = false → (hot e).pinned = true
  promotedTs : ∀ c, (cold c).promotedTs = c.promotedTs
  indexed : db'.indexed = db.indexed

section Marks
variable {db db' : TierDb O} {event : TierEvent} {hot : Episode → Episode}
  {warm : Consolidated → Consolidated} {cold : Longterm → Longterm}

theorem Marked.sound (h : Marked db event db' hot warm cold) (hs : db.Sound) : db'.Sound := by
  have hhotIds : db'.hotIds = db.hotIds := by
    rw [hotIds, h.hotRows, List.map_map]
    exact List.map_congr_left fun e _ => congrArg HeldMemory.eventId (h.hotMemory e)
  have hwarmKeys : db'.warmKeys = db.warmKeys := by
    rw [warmKeys, h.warmRows, List.map_map]
    exact List.map_congr_left fun w _ => h.warmId w
  have hcoldIds : db'.coldIds = db.coldIds := by
    rw [coldIds, h.coldRows, List.map_map]
    exact List.map_congr_left fun c _ => congrArg HeldMemory.eventId (h.coldMemory c)
  exact hs.of_subset (hhotIds ▸ List.Subset.refl _) (hwarmKeys ▸ List.Sublist.refl _)
    (hcoldIds ▸ List.Subset.refl _) (h.indexed ▸ List.Subset.refl _)

variable {m : HeldMemory}

theorem Marked.holds (h : Marked db event db' hot warm cold) {tier : Tier} (hm : db.Holds tier m) :
    db'.Holds tier (m.bump (event.accesses tier m.eventId)) := by
  cases tier with
  | hot =>
    obtain ⟨e, he, rfl⟩ := hm
    exact ⟨hot e, by rw [← Table.mem_rows, h.hotRows]; exact List.mem_map_of_mem he, h.hotMemory e⟩
  | warm =>
    obtain ⟨w, hw, hm⟩ := hm
    exact ⟨warm w, by rw [← AutoTable.mem_rows, h.warmRows]; exact List.mem_map_of_mem hw,
      h.warmMemory w m hm⟩
  | cold =>
    obtain ⟨c, hc, rfl⟩ := hm
    exact ⟨cold c, by rw [← Table.mem_rows, h.coldRows]; exact List.mem_map_of_mem hc,
      h.coldMemory c⟩

theorem Marked.lives (h : Marked db event db' hot warm cold) {tier : Tier} (hm : db'.Holds tier m) :
    db.Lives m.eventId := by
  rw [lives_iff]
  cases tier with
  | hot =>
    obtain ⟨e, he, rfl⟩ := hm
    rw [← Table.mem_rows, h.hotRows] at he
    obtain ⟨e₀, he₀, rfl⟩ := List.mem_map.mp he
    exact .inl (List.mem_map.mpr ⟨e₀, he₀, (congrArg HeldMemory.eventId (h.hotMemory e₀)).symm⟩)
  | warm =>
    obtain ⟨w, hw, hm⟩ := hm
    rw [← AutoTable.mem_rows, h.warmRows] at hw
    obtain ⟨w₀, hw₀, rfl⟩ := List.mem_map.mp hw
    refine .inr (.inl (List.mem_map.mpr ⟨w₀, hw₀, ?_⟩))
    rw [← h.warmId, (Consolidated.memory_eq_some_iff.mp hm).1]
  | cold =>
    obtain ⟨c, hc, rfl⟩ := hm
    rw [← Table.mem_rows, h.coldRows] at hc
    obtain ⟨c₀, hc₀, rfl⟩ := List.mem_map.mp hc
    exact .inr
      (.inr (List.mem_map.mpr ⟨c₀, hc₀, (congrArg HeldMemory.eventId (h.coldMemory c₀)).symm⟩))

end Marks

theorem marked_pin (db : TierDb O) (eventId : Int) (pinned : Bool) :
    Marked db (.pin eventId pinned) (db.setEpisodePinned eventId pinned).1
      (fun e => if e.eventId = eventId then { e with pinned } else e) id id := by
  refine ⟨?_, (List.map_id _).symm, (List.map_id _).symm, ?_, fun w m h => h, fun _ => rfl,
    fun _ => rfl, ?_, fun _ => rfl, rfl⟩
  · show List.map _ _ = _
    simp only [decide_eq_true_eq]
  · intro e
    split <;> rfl
  · intro e he hunpins
    split
    · rename_i hid
      cases pinned with
      | true => rfl
      | false =>
        subst hid
        simp [TierEvent.unpins] at hunpins
    · exact he

theorem marked_access (db : TierDb O) (eventId : Int) (tier : Tier) :
    ∃ hot warm cold, Marked db (.access eventId tier) (db.incrementAccessAtTier eventId tier).1 hot
      warm cold := by
  cases tier with
  | hot =>
    refine ⟨fun e => if e.eventId = eventId then { e with accessCount := e.accessCount + 1 } else e,
      id, id, ?_⟩
    refine ⟨?_, (List.map_id _).symm, (List.map_id _).symm, ?_, fun w m h => h, fun _ => rfl,
      fun _ => rfl, ?_, fun _ => rfl, rfl⟩
    · show List.map _ _ = _
      simp only [decide_eq_true_eq]
    · intro e
      by_cases hid : e.eventId = eventId
      · simp [hid, TierEvent.accesses, HeldMemory.bump, Episode.memory]
      · simp [hid, Ne.symm hid, TierEvent.accesses, HeldMemory.bump, Episode.memory]
    · intro e he _
      split <;> exact he
  | warm =>
    refine ⟨id, fun w => if w.eventId.getD (-w.id) = eventId
      then { w with accessCount := w.accessCount + 1 } else w, id, ?_⟩
    refine ⟨(List.map_id _).symm, ?_, (List.map_id _).symm, fun _ => rfl, ?_, ?_, fun _ => rfl,
      fun _ he _ => he, fun _ => rfl, rfl⟩
    · show List.map _ _ = _
      simp only [decide_eq_true_eq]
      rfl
    · intro w m hm
      obtain ⟨hid, htext, hhash, himportance, htrust, hcount⟩ :=
        Consolidated.memory_eq_some_iff.mp hm
      have hget : w.eventId.getD (-w.id) = m.eventId := by
        rw [hid]
        rfl
      rw [hget, Consolidated.memory_eq_some_iff]
      by_cases heq : m.eventId = eventId
      · rw [if_pos heq]
        refine ⟨hid, htext, hhash, himportance, htrust, ?_⟩
        simp [heq, TierEvent.accesses, HeldMemory.bump, hcount]
      · rw [if_neg heq]
        refine ⟨hid, htext, hhash, himportance, htrust, ?_⟩
        simp [Ne.symm heq, TierEvent.accesses, HeldMemory.bump, hcount]
    · intro w
      split <;> rfl
  | cold =>
    refine ⟨id, id, fun c => if c.eventId = eventId then { c with accessCount := c.accessCount + 1 }
      else c, ?_⟩
    refine ⟨(List.map_id _).symm, (List.map_id _).symm, ?_, fun _ => rfl, fun w m h => h,
      fun _ => rfl, ?_, fun _ he _ => he, ?_, rfl⟩
    · show List.map _ _ = _
      simp only [decide_eq_true_eq]
    · intro c
      by_cases hid : c.eventId = eventId
      · simp [hid, TierEvent.accesses, HeldMemory.bump, Longterm.memory]
      · simp [hid, Ne.symm hid, TierEvent.accesses, HeldMemory.bump, Longterm.memory]
    · intro c
      split <;> rfl

/-! ## Every step -/

section Conserves
variable [Chrono]

/-- What a pass may remove of a sound store: what is unpinned, past an age limit and below a
threshold, each as it is after the decay. -/
def Forgettable (db : TierDb O) (nowNs : Int64) (tier : Tier) (m : HeldMemory) : Prop :=
  match tier with
  | .hot => ∃ e ∈ db.hot, e.memory = m ∧ e.pinned = false ∧ autoPins e = false ∧
      e.tsNs < nowNs.toInt - 7 * 86400000000000 ∧
      (m.importance * Tier.hot.decayFactor < forgetFloor ∨
        tsToDayString e.tsNs < tsToDayString (nowNs.toInt - 90 * 86400000000000) ∧
          m.importance * Tier.hot.decayFactor < promotionThreshold)
  | .warm => ∃ w ∈ db.warm, w.memory = some m ∧
    w.day < tsToDayString (nowNs.toInt - 90 * 86400000000000) ∧
      m.importance * Tier.warm.decayFactor < promotionThreshold
  | .cold => m.importance * Tier.cold.decayFactor < forgetFloor

/-- What a step keeps. -/
structure Conserves (db : TierDb O) (event : TierEvent) (db' : TierDb O)
    (answer : Except String TierAnswer) : Prop where
  integrity : db'.checkIntegrity.ok = true
  unique : ∀ tier m tier' m', db'.Holds tier m → db'.Holds tier' m' → m.eventId = m'.eventId →
    tier = tier' ∧ m = m'
  origin : ∀ tier m, db'.Holds tier m → db.Lives m.eventId ∨ event.indexes m.eventId = true
  carried : ∀ tier m tier' m', db.Holds tier m → db'.Holds tier' m' → m'.eventId = m.eventId →
    m'.text = m.text ∧ m'.textHash = m.textHash ∧ m'.trust = m.trust ∧
      m'.accessCount = m.accessCount + if event.accesses tier m.eventId then 1 else 0
  pinned : ∀ e ∈ db.hot, e.pinned = true → event.unpins e.eventId = false →
    ∃ e' ∈ db'.hot, e'.eventId = e.eventId ∧ e'.pinned = true ∧ e'.importance = e.importance
  longterm : ∀ c ∈ db.cold, ∀ c' ∈ db'.cold, c'.eventId = c.eventId →
    c'.text = c.text ∧ c'.textHash = c.textHash ∧ c'.trust = c.trust ∧ c'.promotedTs = c.promotedTs
  removed : ∀ tier m, db.Holds tier m → db'.Lives m.eventId ∨
    ∃ nowNs vault hippocampusEnabled, event = .consolidate nowNs vault hippocampusEnabled ∧
      db.Forgettable nowNs tier m
  passed : ∀ nowNs vault hippocampusEnabled r, event = .consolidate nowNs vault hippocampusEnabled →
    answer = .ok (.passed r) → r.integrityIssues = [] ∧ Reports db db' nowNs r ∧
      (∀ tier' m, db'.Holds tier' m ↔ ∃ tier fate,
        db.HasFate nowNs tier m fate ∧ fate.destination tier = some tier') ∧
      (hippocampusEnabled = true → ∀ id, id ∈ db'.memberIds ↔
        ∃ tier m, db'.Holds tier m ∧ m.eventId = id ∧ importanceSelectionThreshold ≤ m.importance)
  failed : ∀ error, answer = .error error → db' = db

theorem Keeps.conserves {db db' : TierDb O} (h : Keeps db db') (hs' : db'.Sound) {event : TierEvent}
    {answer : Except String TierAnswer} (haccesses : ∀ tier id, event.accesses tier id = false)
    (horigin : ∀ tier m, db'.Holds tier m → db.Lives m.eventId ∨ event.indexes m.eventId = true)
    (hpassed : ∀ r, answer ≠ .ok (.passed r))
    (hfailed : ∀ error, answer = .error error → db' = db) : Conserves db event db' answer := by
  refine ⟨by rw [checkIntegrity_of_sound hs'], fun _ _ _ _ => hs'.unique, horigin, ?_, ?_, ?_, ?_,
    ?_, hfailed⟩
  · intro tier m tier' m' hm hm' hid
    obtain ⟨tier₁, hm⟩ := h.holds tier m hm
    rw [(hs'.unique hm' hm hid).2, haccesses]
    exact ⟨rfl, rfl, rfl, rfl⟩
  · intro e he hpinned _
    exact ⟨e, h.pinned e he hpinned, rfl, hpinned, rfl⟩
  · intro c hc c' hc' hid
    rw [h.cold] at hc'
    rw [Table.eq_of_key_eq hc' hc hid]
    exact ⟨rfl, rfl, rfl, rfl⟩
  · intro tier m hm
    obtain ⟨tier', hm⟩ := h.holds tier m hm
    exact .inl ⟨tier', m, hm, rfl⟩
  · intro nowNs vault hippocampusEnabled r _ hanswer
    exact absurd hanswer (hpassed r)

theorem Conserves.of_error {db : TierDb O} (hs : db.Sound) {event : TierEvent}
    (haccesses : ∀ tier id, event.accesses tier id = false) (error : String) :
    Conserves db event db (.error error) :=
  (Rearranged.refl db).toKeeps.conserves hs haccesses (fun tier m hm => .inl ⟨tier, m, hm, rfl⟩)
    (by simp) fun _ _ => rfl

theorem Marked.conserves {db db' : TierDb O} {event : TierEvent} {hot : Episode → Episode}
    {warm : Consolidated → Consolidated} {cold : Longterm → Longterm}
    (h : Marked db event db' hot warm cold)
    (hs : db.Sound) (affected : Nat) : Conserves db event db' (.ok (.affected affected)) := by
  have hs' := h.sound hs
  have hcarried : ∀ tier m tier' m', db.Holds tier m → db'.Holds tier' m' → m'.eventId = m.eventId →
      m' = m.bump (event.accesses tier m.eventId) := by
    intro tier m tier' m' hm hm' hid
    exact (hs'.unique hm' (h.holds hm) hid).2
  refine ⟨by rw [checkIntegrity_of_sound hs'], fun _ _ _ _ => hs'.unique, ?_, ?_, ?_, ?_, ?_, ?_,
    (by simp)⟩
  · intro tier m hm
    exact .inl (h.lives hm)
  · intro tier m tier' m' hm hm' hid
    rw [hcarried tier m tier' m' hm hm' hid]
    exact ⟨rfl, rfl, rfl, rfl⟩
  · intro e he hpinned hunpins
    refine ⟨hot e, by rw [← Table.mem_rows, h.hotRows]; exact List.mem_map_of_mem he, ?_,
      h.pinned e hpinned hunpins, ?_⟩
    · exact congrArg HeldMemory.eventId (h.hotMemory e)
    · exact congrArg HeldMemory.importance (h.hotMemory e)
  · intro c hc c' hc' hid
    rw [← Table.mem_rows, h.coldRows] at hc'
    obtain ⟨c₀, hc₀, rfl⟩ := List.mem_map.mp hc'
    have hid₀ : (cold c₀).eventId = c₀.eventId := congrArg HeldMemory.eventId (h.coldMemory c₀)
    rw [Table.eq_of_key_eq hc₀ hc (hid₀.symm.trans hid)]
    have hmemory := h.coldMemory c
    exact ⟨congrArg HeldMemory.text hmemory, congrArg HeldMemory.textHash hmemory,
      congrArg HeldMemory.trust hmemory, h.promotedTs c⟩
  · intro tier m hm
    exact .inl ⟨tier, _, h.holds hm, rfl⟩
  · simp

variable {nowNs : Int64}

omit [Chrono] in
/-- Within its range the cutoffs of a pass are those of its clock. -/
theorem toInt_sub_days (h : -2 ^ 63 + 90 * 86400000000000 ≤ nowNs.toInt) :
    (nowNs - 7 * dayNs).toInt = nowNs.toInt - 7 * 86400000000000 ∧
      (nowNs - 90 * dayNs).toInt = nowNs.toInt - 90 * 86400000000000 := by
  have hseven : (7 * dayNs).toInt = 7 * 86400000000000 := by decide
  have hninety : (90 * dayNs).toInt = 90 * 86400000000000 := by decide
  have hlt := nowNs.toInt_lt
  constructor
  · rw [Int64.toInt_sub, hseven, Int.bmod_eq_of_le] <;> omega
  · rw [Int64.toInt_sub, hninety, Int.bmod_eq_of_le] <;> omega

omit [Chrono] in
theorem ageHot_of_pinned (h : e.pinned = true) : ageHot e = e := by
  have hautoPins : autoPins e = false := by
    unfold autoPins
    rw [h]
    simp
  unfold ageHot
  rw [hautoPins]
  simp [h]

omit [Chrono] in
theorem ageHot_of_unpinned (h : (ageHot e).pinned = false) : e.pinned = false ∧ autoPins e = false ∧
    (ageHot e).importance = e.importance * Tier.hot.decayFactor := by
  unfold ageHot at h ⊢
  cases hautoPins : autoPins e with
  | true =>
    rw [hautoPins] at h
    simp at h
  | false =>
    rw [hautoPins] at h
    cases hpinned : e.pinned with
    | true => simp [hpinned] at h
    | false => simp [hpinned]

/-- A row that a pass removes is past the limits of its tier. -/
theorem forgettable_of_fate {db : TierDb O} (hclock : -2 ^ 63 + 90 * 86400000000000 ≤ nowNs.toInt)
    {tier : Tier} {m : HeldMemory} (hm : db.Holds tier m)
    (hgone : ∀ m' fate, m'.eventId = m.eventId → db.HasFate nowNs tier m' fate →
      fate.destination tier = none) :
    db.Forgettable nowNs tier m := by
  obtain ⟨hseven, hninety⟩ := toInt_sub_days hclock
  cases tier with
  | hot =>
    obtain ⟨e, he, rfl⟩ := hm
    have hnone := hgone _ _ (eventId_ageHot e) ⟨e, he, rfl, rfl⟩
    have hlimits : agedHot nowNs (ageHot e) = true → e.pinned = false ∧ autoPins e = false ∧
        e.tsNs < nowNs.toInt - 7 * 86400000000000 ∧
        (ageHot e).importance = e.importance * Tier.hot.decayFactor := by
      intro haged
      obtain ⟨hts, hpinned⟩ := of_decide_eq_true haged
      obtain ⟨hunpinned, hautoPins, himportance⟩ := ageHot_of_unpinned hpinned
      rw [tsNs_ageHot, hseven] at hts
      exact ⟨hunpinned, hautoPins, hts, himportance⟩
    cases hfate : hotFate nowNs e with
    | stays => rw [hfate] at hnone; cases hnone
    | retained => rw [hfate] at hnone; cases hnone
    | promoted => rw [hfate] at hnone; cases hnone
    | archived =>
      obtain ⟨⟨haged, -⟩, hday, hle⟩ := hotFate_eq_archived_iff.mp hfate
      obtain ⟨hunpinned, hautoPins, hts, himportance⟩ := hlimits haged
      rw [hninety] at hday
      rw [himportance, not_le] at hle
      exact ⟨e, he, rfl, hunpinned, hautoPins, hts, .inr ⟨hday, hle⟩⟩
    | forgotten =>
      obtain ⟨haged, hkeeps⟩ := hotFate_eq_forgotten_iff.mp hfate
      obtain ⟨hunpinned, hautoPins, hts, himportance⟩ := hlimits haged
      have hfloor := of_decide_eq_false hkeeps
      rw [himportance, not_le] at hfloor
      exact ⟨e, he, rfl, hunpinned, hautoPins, hts, .inl hfloor⟩
  | warm =>
    obtain ⟨w, hw, hm⟩ := hm
    obtain ⟨hid, htext, hhash, himportance, htrust, hcount⟩ := Consolidated.memory_eq_some_iff.mp hm
    have hnone := hgone { m with importance := (ageWarm w).importance } _ rfl
      ⟨w, hw, Consolidated.memory_eq_some_iff.mpr ⟨hid, htext, hhash, rfl, htrust, hcount⟩, rfl⟩
    cases hfate : warmFate nowNs w with
    | archived =>
      obtain ⟨haged, hpromotes⟩ := warmFate_eq_archived_iff.mp hfate
      have hday := of_decide_eq_true haged
      rw [hninety] at hday
      have hlt := of_decide_eq_false hpromotes
      rw [not_le, ageWarm, himportance] at hlt
      exact ⟨w, hw, hm, hday, hlt⟩
    | stays => rw [hfate] at hnone; cases hnone
    | promoted => rw [hfate] at hnone; cases hnone
    | retained => rw [hfate] at hnone; cases hnone
    | forgotten =>
      unfold warmFate at hfate
      split_ifs at hfate
  | cold =>
    obtain ⟨c, hc, rfl⟩ := hm
    have hnone := hgone (ageCold c).memory _ rfl ⟨c, hc, rfl, rfl⟩
    unfold coldFate at hnone
    split at hnone
    · rename_i hfloor
      exact hfloor
    · cases hnone

theorem PassSpec.conserves {db db' : TierDb O} {hippocampusEnabled : Bool} {r : PassReport}
    {new : List Consolidated} (h : PassSpec db db' nowNs hippocampusEnabled r new) (hs : db.Sound)
    (hclock : -2 ^ 63 + 90 * 86400000000000 ≤ nowNs.toInt)
    (vault : Option (List PreDecayRow → Nat)) :
    Conserves db (.consolidate nowNs vault hippocampusEnabled) db' (.ok (.passed r)) := by
  have hs' := h.sound
  have hsource : ∀ tier' m', db'.Holds tier' m' → ∃ tier m, db.Holds tier m ∧ m.Carries m' := by
    intro tier' m' hm'
    obtain ⟨tier, fate, hfate, -⟩ := (holds_pass_iff hs h).mp hm'
    obtain ⟨m, hm, hcarries⟩ := hfate.holds
    exact ⟨tier, m, hm, hcarries⟩
  refine ⟨by rw [checkIntegrity_of_sound hs'], fun _ _ _ _ => hs'.unique, ?_, ?_, ?_, ?_, ?_, ?_,
    (by simp)⟩
  · intro tier' m' hm'
    obtain ⟨tier, m, hm, hcarries⟩ := hsource tier' m' hm'
    exact .inl ⟨tier, m, hm, hcarries.1.symm⟩
  · intro tier m tier' m' hm hm' hid
    obtain ⟨tier₀, m₀, hm₀, hcarries⟩ := hsource tier' m' hm'
    obtain ⟨-, rfl⟩ := hs.unique hm₀ hm (hcarries.1.symm.trans hid)
    exact ⟨hcarries.2.1, hcarries.2.2.1, hcarries.2.2.2.1, hcarries.2.2.2.2⟩
  · intro e he hpinned _
    refine ⟨e, ?_, rfl, hpinned, rfl⟩
    rw [← Table.mem_rows, h.hot, List.mem_filter]
    refine ⟨List.mem_map.mpr ⟨e, he, ageHot_of_pinned hpinned⟩, ?_⟩
    simp [agedHot, hpinned]
  · intro c hc c' hc' hid
    rw [← Table.mem_rows, h.cold] at hc'
    rcases List.mem_append.mp (List.mem_of_mem_filter hc') with hc' | hc'
    · obtain ⟨c₀, hc₀, rfl⟩ := List.mem_map.mp hc'
      have heq : c₀ = c := Table.eq_of_key_eq hc₀ hc hid
      subst heq
      exact ⟨rfl, rfl, rfl, rfl⟩
    · -- a promoted row is of another event
      obtain ⟨w, hw, rfl⟩ := List.mem_map.mp hc'
      have hcold : c.eventId ∈ db.coldIds := List.mem_map_of_mem hc
      rcases List.mem_append.mp (List.mem_of_mem_filter (List.mem_of_mem_filter hw)) with hw | hw
      · obtain ⟨w₀, hw₀, rfl⟩ := List.mem_map.mp hw
        have hkey := eventId_promote hs nowNs.toInt hw₀
        rw [show (promote w₀ nowNs.toInt).eventId = c.eventId from hid] at hkey
        exact absurd (hkey ▸ List.mem_map_of_mem hw₀) (hs.warmCold _ hcold)
      · obtain ⟨e, he, -, -, n, rfl⟩ := h.mem_new.1 w hw
        have hkey : e.eventId = c.eventId := (eventId_ageHot e).symm.trans hid
        exact absurd hcold (hkey ▸ hs.hotCold _ (List.mem_map_of_mem he))
  · intro tier m hm
    by_cases hlives : db'.Lives m.eventId
    · exact .inl hlives
    · refine .inr ⟨nowNs, vault, hippocampusEnabled, rfl, forgettable_of_fate hclock hm ?_⟩
      intro m' fate hid hfate
      cases hdestination : fate.destination tier with
      | none => rfl
      | some tier' =>
        exact absurd ⟨tier', m', (holds_pass_iff hs h).mpr ⟨tier, fate, hfate, hdestination⟩,
          hid⟩ hlives
  · intro now v enabled r' hevent hanswer
    cases hevent
    cases hanswer
    refine ⟨h.issues, h.reports, fun _ _ => holds_pass_iff hs h, ?_⟩
    intro henabled id
    rw [h.members henabled, selects_iff]

section Runs
variable [WrapperTags] [SerdeJson] [OriginReceipts O]

/-- All that a step can do. -/
inductive Steps (db : TierDb O) (event : TierEvent) : TierDb O × Except String TierAnswer → Prop
  | failed (error : String) (haccesses : ∀ tier id, event.accesses tier id = false) :
    Steps db event (db, .error error)
  | indexed (fs : List IndexedFrame) (db' : TierDb O) (hevent : event = .index fs)
    (h : Indexed db fs db') : Steps db event (db', .ok (.indexed fs.length))
  | passed (nowNs : Int64) (vault : Option (List PreDecayRow → Nat)) (hippocampusEnabled : Bool)
    (db' : TierDb O) (r : PassReport) (hevent : event = .consolidate nowNs vault hippocampusEnabled)
    (h : db.runConsolidationPassWithHippocampus nowNs vault hippocampusEnabled = .ok (db', r)) :
    Steps db event (db', .ok (.passed r))
  | dreamt (db' : TierDb O) (moved : Nat) (haccesses : ∀ tier id, event.accesses tier id = false)
    (h : Rearranged db db') : Steps db event (db', .ok (.moved moved))
  | marked (db' : TierDb O) (affected : Nat) (hot : Episode → Episode)
    (warm : Consolidated → Consolidated)
    (cold : Longterm → Longterm) (h : Marked db event db' hot warm cold) :
    Steps db event (db', .ok (.affected affected))

theorem steps_step (db : TierDb O) (event : TierEvent) : Steps db event (step db event) := by
  cases event with
  | index fs =>
    rw [step]
    cases h : db.indexPass fs with
    | error error =>
      rw [transact_of_error h]
      exact .failed error fun _ _ => rfl
    | ok result =>
      obtain ⟨db', answer⟩ := result
      rw [transact_of_ok h]
      obtain ⟨hindexed, rfl⟩ := indexPass_spec h
      exact .indexed fs db' rfl hindexed
  | consolidate nowNs vault hippocampusEnabled =>
    rw [step]
    cases h : db.runConsolidationPassWithHippocampus nowNs vault hippocampusEnabled with
    | error error =>
      rw [transact_of_error (by rw [h]; rfl)]
      exact .failed error fun _ _ => rfl
    | ok result =>
      obtain ⟨db', r⟩ := result
      rw [transact_of_ok (by rw [h]; rfl)]
      exact .passed nowNs vault hippocampusEnabled db' r rfl h
  | dream day inputs nowNs =>
    rw [step]
    cases h : db.promoteSelectedHotToWarm day nowNs.toInt inputs with
    | error error =>
      rw [transact_of_error (by rw [h]; rfl)]
      exact .failed error fun _ _ => rfl
    | ok result =>
      obtain ⟨db', moved⟩ := result
      rw [transact_of_ok (by rw [h]; rfl)]
      exact .dreamt db' moved (fun _ _ => rfl) (rearranged_dream h).1
  | pin eventId pinned => exact .marked _ _ _ _ _ (marked_pin db eventId pinned)
  | access eventId tier =>
    obtain ⟨hot, warm, cold, h⟩ := marked_access db eventId tier
    exact .marked _ _ hot warm cold h

variable {db : TierDb O} {event : TierEvent} {result : TierDb O × Except String TierAnswer}

omit [WrapperTags] [SerdeJson] [OriginReceipts O] in
theorem Steps.indexed_sublist (h : Steps db event result) :
    db.indexed.Sublist result.1.indexed := by
  cases h with
  | failed error haccesses => exact List.Sublist.refl _
  | indexed fs db' hevent h =>
    rw [h.indexed]
    exact List.sublist_append_left _ _
  | passed nowNs vault hippocampusEnabled db' r hevent h =>
    exact indexed_pass h ▸ List.Sublist.refl _
  | dreamt db' moved haccesses h => exact h.indexed ▸ List.Sublist.refl _
  | marked db' affected hot warm cold h => exact h.indexed ▸ List.Sublist.refl _

omit [WrapperTags] [SerdeJson] [OriginReceipts O] in
/-- A step of a sound store leaves it sound, as long as no event id is indexed twice. -/
theorem Steps.sound (h : Steps db event result) (hs : db.Sound)
    (hdistinct : result.1.indexed.Nodup) : result.1.Sound := by
  cases h with
  | failed error haccesses => exact hs
  | indexed fs db' hevent h => exact h.sound hs hdistinct
  | passed nowNs vault hippocampusEnabled db' r hevent h =>
    obtain ⟨new, hpass⟩ := pass_spec hs h
    exact hpass.sound
  | dreamt db' moved haccesses h => exact h.sound hs
  | marked db' affected hot warm cold h => exact h.sound hs

omit [WrapperTags] [SerdeJson] [OriginReceipts O] in
theorem Steps.conserves (h : Steps db event result) (hs : db.Sound)
    (hdistinct : result.1.indexed.Nodup)
    (hclock : event.ClockInRange) : Conserves db event result.1 result.2 := by
  cases h with
  | failed error haccesses => exact .of_error hs haccesses error
  | indexed fs db' hevent h =>
    subst hevent
    exact h.keeps.conserves (h.sound hs hdistinct) (fun _ _ => rfl) (fun _ _ => h.origin) (by simp)
      (by simp)
  | passed nowNs vault hippocampusEnabled db' r hevent h =>
    subst hevent
    obtain ⟨new, hpass⟩ := pass_spec hs h
    exact hpass.conserves hs hclock vault
  | dreamt db' moved haccesses h =>
    refine h.toKeeps.conserves (h.sound hs) haccesses ?_ (by simp) (by simp)
    intro tier m hm
    obtain ⟨tier', hm⟩ := h.held tier m hm
    exact .inl ⟨tier', m, hm, rfl⟩
  | marked db' affected hot warm cold h => exact h.conserves hs affected

theorem sound_after (origins : O) (es : List TierEvent) :
    (after origins es).indexed.Nodup → (after origins es).Sound := by
  refine run_invariant (P := fun db : TierDb O => db.indexed.Nodup → db.Sound) ?_ _ ?_ es
  · intro db event hs hdistinct
    have h := steps_step db event
    exact h.sound (hs (hdistinct.sublist h.indexed_sublist)) hdistinct
  · intro _
    have hempty : ∀ {α : Type} {p : α → Prop}, ∀ x ∈ ([] : List α), p x := by simp
    refine ⟨hempty, List.nodup_nil, hempty, hempty, hempty, ?_⟩
    rintro id (hid | hid | hid)
    · exact absurd hid List.not_mem_nil
    · exact absurd hid List.not_mem_nil
    · exact absurd hid List.not_mem_nil

/-- **The tiers conserve memories.**  After any run in which no event id is indexed twice, every
step conserves them, whatever its clock value, as long as what a pass subtracts from it does not
wrap around. -/
theorem tiers_conserve (origins : O) (es : List TierEvent) (event : TierEvent)
    (hdistinct : (after origins (es ++ [event])).indexed.Nodup) (hclock : event.ClockInRange) :
    Conserves (after origins es) event (step (after origins es) event).1
      (step (after origins es) event).2 := by
  have hstep : after origins (es ++ [event]) = (step (after origins es) event).1 := by
    rw [after, run_append]
    rfl
  rw [hstep] at hdistinct
  have h := steps_step (after origins es) event
  exact h.conserves (sound_after origins es (hdistinct.sublist h.indexed_sublist)) hdistinct hclock

end Runs

end Conserves

end TierDb

/-! ## Samples -/

/-- The two days below. -/
@[reducible] def sampleChrono : Chrono :=
  ⟨fun secs => if secs = 1700000000 then some "2023-11-14" else if secs = 1692915200
    then some "2023-08-24" else none⟩

section Samples
attribute [local instance] sampleXxh3 sampleTags sampleJson sampleReceipts sampleChrono

/-- A text frame with this event id and importance. -/
def sampleFrame (eventId : UInt64) (importance : UInt32) : IndexedFrame where
  header := ⟨eventTypeRawText, 0, 0, 105, 1, 1700000000000000000⟩
  eventId
  importance
  sessionId := List.replicate 16 0
  payloadHash := 0xe6c632b61e964e1f
  payload := [0x61]

/-- Eight days after the text a pass moves it to the warm tier. -/
theorem tiers_conserve_sample :
    let event := TierEvent.consolidate 1700691200000000000 none true
    let before := TierDb.after () [.index [sampleFrame 7 0x3f000000]]
    TierDb.Conserves before event (TierDb.step before event).1 (TierDb.step before event).2 ∧
      (TierDb.step before event).1.warmKeys = [some 7] :=
  ⟨TierDb.tiers_conserve () _ _ (by decide +kernel)
    (show -2 ^ 63 + 90 * 86400000000000 ≤ (1700691200000000000 : Int64).toInt by decide), by
  decide +kernel⟩

/-- A pass whose clock is far before the epoch takes a memory of 2023 for old, and forgets it: what
is subtracted from the clock wraps around to a time far after it. -/
theorem young_memory_forgotten :
    let nowNs : Int64 := -9223372036854775808
    let before := TierDb.after () [.index [sampleFrame 7 0]]
    let after := TierDb.after () [.index [sampleFrame 7 0], .consolidate nowNs none false]
    before.Lives 7 ∧
    (∀ e ∈ before.hot, ¬ e.tsNs < nowNs.toInt - 7 * 86400000000000) ∧ ¬ after.Lives 7 := by
  dsimp only
  rw [TierDb.lives_iff, TierDb.lives_iff]
  decide +kernel

end Samples

end Neoth.Memory
