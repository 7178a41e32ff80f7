import Neoth.Memory.TierMoves

/-!
# Fates

What a consolidation pass does to a memory.  A memory is what all tiers hold of an event.

* `Fate`: what becomes of a row;
* `holds_pass_iff`: where every memory is afterwards;
* `Reports`: what the numbers of a pass count.
-/

open Lib

namespace Neoth.Memory

/-! ## Memories -/

structure HeldMemory where
  eventId : Int
  text : String
  textHash : String
  importance : ℚ
  trust : Int
  accessCount : Nat

def Episode.memory (e : Episode) : HeldMemory :=
  ⟨e.eventId, e.text, e.textHash, e.importance, e.trust, e.accessCount⟩

def Consolidated.memory (w : Consolidated) : Option HeldMemory :=
  w.eventId.map fun id => ⟨id, w.text, w.textHash, w.importance, w.trust, w.accessCount⟩

def Longterm.memory (c : Longterm) : HeldMemory :=
  ⟨c.eventId, c.text, c.textHash, c.importance, c.trust, c.accessCount⟩

/-- The same memory, but for its importance. -/
def HeldMemory.Carries (m m' : HeldMemory) : Prop :=
  m'.eventId = m.eventId ∧ m'.text = m.text ∧ m'.textHash = m.textHash ∧ m'.trust = m.trust ∧
    m'.accessCount = m.accessCount

variable {w : Consolidated} {m : HeldMemory}

theorem Consolidated.memory_eq_some_iff : w.memory = some m ↔
    w.eventId = some m.eventId ∧ w.text = m.text ∧ w.textHash = m.textHash ∧
    w.importance = m.importance ∧
      w.trust = m.trust ∧ w.accessCount = m.accessCount := by
  unfold memory
  rw [Option.map_eq_some_iff]
  constructor
  · rintro ⟨id, hid, rfl⟩
    exact ⟨hid, rfl, rfl, rfl, rfl, rfl⟩
  · rintro ⟨hid, htext, hhash, himportance, htrust, hcount⟩
    exact ⟨_, hid, by rw [htext, hhash, himportance, htrust, hcount]⟩

/-! ## Fates -/

inductive Fate
  | stays
  | retained
  | promoted
  | archived
  | forgotten
  deriving DecidableEq

/-- The tier that a row of a tier goes to. -/
def Fate.destination : Fate → Tier → Option Tier
  | .stays, tier => some tier
  | .retained, _ => some .warm
  | .promoted, _ => some .cold
  | .archived, _ => none
  | .forgotten, _ => none

namespace TierDb

section Fates
variable [Chrono]

def hotFate (nowNs : Int64) (e : Episode) : Fate :=
  if !agedHot nowNs (ageHot e) then .stays
  else if !keeps (ageHot e) then .forgotten
  else if !decide (tsToDayString e.tsNs < tsToDayString (nowNs - 90 * dayNs).toInt) then .retained
  else if promotionThreshold ≤ (ageHot e).importance then .promoted
  else .archived

def warmFate (nowNs : Int64) (w : Consolidated) : Fate :=
  if !agedWarm nowNs w then .stays
  else if promotes (ageWarm w) then .promoted
  else .archived

def coldFate (c : Longterm) : Fate := if (ageCold c).importance < forgetFloor then .forgotten
    else .stays

end Fates

variable {O : Type}

/-- What a tier holds. -/
def Holds (db : TierDb O) (tier : Tier) (m : HeldMemory) : Prop :=
  match tier with
  | .hot => ∃ e ∈ db.hot, e.memory = m
  | .warm => ∃ w ∈ db.warm, w.memory = some m
  | .cold => ∃ c ∈ db.cold, c.memory = m

def Lives (db : TierDb O) (eventId : Int) : Prop := ∃ tier m, db.Holds tier m ∧ m.eventId = eventId

/-- The fate in a pass of a row that then holds `m`. -/
def HasFate [Chrono] (db : TierDb O) (nowNs : Int64) (tier : Tier) (m : HeldMemory) (fate : Fate) :
    Prop :=
  match tier with
  | .hot => ∃ e ∈ db.hot, (ageHot e).memory = m ∧ hotFate nowNs e = fate
  | .warm => ∃ w ∈ db.warm, (ageWarm w).memory = some m ∧ warmFate nowNs w = fate
  | .cold => ∃ c ∈ db.cold, (ageCold c).memory = m ∧ coldFate c = fate

theorem carries_ageHot (e : Episode) : e.memory.Carries (ageHot e).memory := by
  unfold ageHot
  dsimp only
  split <;> split <;> exact ⟨rfl, rfl, rfl, rfl, rfl⟩

theorem HasFate.holds [Chrono] {db : TierDb O} {nowNs : Int64} {tier : Tier} {m' : HeldMemory}
    {fate : Fate} (h : db.HasFate nowNs tier m' fate) : ∃ m, db.Holds tier m ∧ m.Carries m' := by
  cases tier with
  | hot =>
    obtain ⟨e, he, rfl, -⟩ := h
    exact ⟨_, ⟨e, he, rfl⟩, carries_ageHot e⟩
  | warm =>
    obtain ⟨w, hw, hm, -⟩ := h
    obtain ⟨hid, htext, hhash, himportance, htrust, hcount⟩ := Consolidated.memory_eq_some_iff.mp hm
    refine ⟨{ m' with importance := w.importance }, ⟨w, hw, ?_⟩, rfl, rfl, rfl, rfl, rfl⟩
    exact Consolidated.memory_eq_some_iff.mpr ⟨hid, htext, hhash, rfl, htrust, hcount⟩
  | cold =>
    obtain ⟨c, hc, rfl, -⟩ := h
    exact ⟨_, ⟨c, hc, rfl⟩, rfl, rfl, rfl, rfl, rfl⟩

/-- The ids of the tiers are those of the memories they hold. -/
theorem lives_iff {db : TierDb O} {id : Int} :
    db.Lives id ↔ id ∈ db.hotIds ∨ some id ∈ db.warmKeys ∨ id ∈ db.coldIds := by
  constructor
  · rintro ⟨tier, m, hm, rfl⟩
    cases tier with
    | hot =>
      obtain ⟨e, he, rfl⟩ := hm
      exact .inl (List.mem_map_of_mem he)
    | warm =>
      obtain ⟨w, hw, hm⟩ := hm
      refine .inr (.inl ?_)
      rw [← (Consolidated.memory_eq_some_iff.mp hm).1]
      exact List.mem_map_of_mem hw
    | cold =>
      obtain ⟨c, hc, rfl⟩ := hm
      exact .inr (.inr (List.mem_map_of_mem hc))
  · rintro (hid | hid | hid)
    · obtain ⟨e, he, rfl⟩ := List.mem_map.mp hid
      exact ⟨.hot, _, ⟨e, he, rfl⟩, rfl⟩
    · obtain ⟨w, hw, hkey⟩ := List.mem_map.mp hid
      exact ⟨.warm, ⟨id, w.text, w.textHash, w.importance, w.trust, w.accessCount⟩,
        ⟨w, hw, Consolidated.memory_eq_some_iff.mpr ⟨hkey, rfl, rfl, rfl, rfl, rfl⟩⟩, rfl⟩
    · obtain ⟨c, hc, rfl⟩ := List.mem_map.mp hid
      exact ⟨.cold, _, ⟨c, hc, rfl⟩, rfl⟩

/-- An event id lives in one tier, once. -/
theorem Sound.unique {db : TierDb O} (hs : db.Sound) {tier tier' : Tier} {m m' : HeldMemory}
    (h : db.Holds tier m)
    (h' : db.Holds tier' m') (hid : m.eventId = m'.eventId) : tier = tier' ∧ m = m' := by
  have hhot : ∀ {m}, db.Holds .hot m → m.eventId ∈ db.hotIds := by
    rintro m ⟨e, he, rfl⟩
    exact List.mem_map_of_mem he
  have hwarm : ∀ {m}, db.Holds .warm m → some m.eventId ∈ db.warmKeys := by
    rintro m ⟨w, hw, hm⟩
    rw [← (Consolidated.memory_eq_some_iff.mp hm).1]
    exact List.mem_map_of_mem hw
  have hcold : ∀ {m}, db.Holds .cold m → m.eventId ∈ db.coldIds := by
    rintro m ⟨c, hc, rfl⟩
    exact List.mem_map_of_mem hc
  cases tier <;> cases tier'
  case hot.hot =>
    obtain ⟨e, he, rfl⟩ := h
    obtain ⟨e', he', rfl⟩ := h'
    exact ⟨rfl, by rw [Table.eq_of_key_eq he he' hid]⟩
  case warm.warm =>
    obtain ⟨w, hw, hm⟩ := h
    obtain ⟨w', hw', hm'⟩ := h'
    have hkey : w.eventId = w'.eventId := by
      rw [(Consolidated.memory_eq_some_iff.mp hm).1, (Consolidated.memory_eq_some_iff.mp hm').1,
        hid]
    rw [List.inj_on_of_nodup_map hs.warmOnce hw hw' hkey] at hm
    exact ⟨rfl, Option.some.inj (hm.symm.trans hm')⟩
  case cold.cold =>
    obtain ⟨c, hc, rfl⟩ := h
    obtain ⟨c', hc', rfl⟩ := h'
    exact ⟨rfl, by rw [Table.eq_of_key_eq hc hc' hid]⟩
  case hot.warm => exact absurd (hid ▸ hwarm h') (hs.hotWarm _ (hhot h))
  case hot.cold => exact absurd (hid ▸ hcold h') (hs.hotCold _ (hhot h))
  case warm.hot => exact absurd (hid ▸ hwarm h) (hs.hotWarm _ (hhot h'))
  case warm.cold => exact absurd (hid ▸ hwarm h) (hs.warmCold _ (hcold h'))
  case cold.hot => exact absurd (hid ▸ hcold h) (hs.hotCold _ (hhot h'))
  case cold.warm => exact absurd (hid ▸ hwarm h') (hs.warmCold _ (hcold h))

/-! ## Where a pass leaves a memory -/

section Pass
variable [Chrono] {db db' : TierDb O} {nowNs : Int64} {hippocampusEnabled : Bool} {r : PassReport}
  {new : List Consolidated}

omit [Chrono] in
theorem tsNs_ageHot (e : Episode) : (ageHot e).tsNs = e.tsNs := by
  unfold ageHot
  dsimp only
  split <;> split <;> rfl

variable {e : Episode}

theorem hotFate_eq_stays_iff : hotFate nowNs e = .stays ↔ agedHot nowNs (ageHot e) = false := by
  unfold hotFate
  cases agedHot nowNs (ageHot e) with
  | false => simp
  | true =>
    simp only [Bool.not_true, Bool.false_eq_true, if_false, Bool.true_eq_false, iff_false]
    split
    · simp
    · split
      · simp
      · split <;> simp

/-- The fates of the episodes that leave the hot tier. -/
theorem hotFate_of_aged (h : agedHot nowNs (ageHot e) = true) (hkeeps : keeps (ageHot e) = true) :
    hotFate nowNs e = if tsToDayString e.tsNs < tsToDayString (nowNs - 90 * dayNs).toInt then
      (if promotionThreshold ≤ (ageHot e).importance then .promoted else .archived)
        else .retained := by
  unfold hotFate
  rw [h, hkeeps]
  simp only [Bool.not_true, Bool.false_eq_true, if_false, Bool.not_eq_true',
    decide_eq_false_iff_not]
  by_cases hday : tsToDayString e.tsNs < tsToDayString (nowNs - 90 * dayNs).toInt
  · rw [if_neg (not_not.mpr hday), if_pos hday]
  · rw [if_pos hday, if_neg hday]

/-- The rows that a pass makes, and the episodes it makes them of. -/
theorem PassSpec.mem_new (h : PassSpec db db' nowNs hippocampusEnabled r new) :
    (∀ w ∈ new, ∃ e ∈ db.hot, agedHot nowNs (ageHot e) = true ∧ keeps (ageHot e) = true ∧
      Retains nowNs.toInt (ageHot e) w) ∧
    ∀ e ∈ db.hot, agedHot nowNs (ageHot e) = true → keeps (ageHot e) = true →
      ∃ w ∈ new, Retains nowNs.toInt (ageHot e) w := by
  have hmem : ∀ a : Episode, a ∈ ((db.hot.rows.map ageHot).filter (agedHot nowNs)).filter keeps ↔
      ∃ e ∈ db.hot, ageHot e = a ∧ agedHot nowNs a = true ∧ keeps a = true := by
    intro a
    rw [List.mem_filter, List.mem_filter, List.mem_map]
    constructor
    · rintro ⟨⟨⟨e, he, rfl⟩, haged⟩, hkeeps⟩
      exact ⟨e, he, rfl, haged, hkeeps⟩
    · rintro ⟨e, he, rfl, haged, hkeeps⟩
      exact ⟨⟨⟨e, he, rfl⟩, haged⟩, hkeeps⟩
  constructor
  · intro w hw
    obtain ⟨a, ha, hretains⟩ := exists_left_of_forall₂ h.retains hw
    obtain ⟨e, he, rfl, haged, hkeeps⟩ := (hmem a).mp ha
    exact ⟨e, he, haged, hkeeps, hretains⟩
  · intro e he haged hkeeps
    exact exists_right_of_forall₂ h.retains ((hmem _).mpr ⟨e, he, rfl, haged, hkeeps⟩)

theorem memory_retain (h : Retains nowNs.toInt (ageHot e) w) :
    w.eventId.isSome = true ∧ w.memory = some (ageHot e).memory ∧
      w.importance = (ageHot e).importance ∧
      agedWarm nowNs w =
        decide (tsToDayString e.tsNs < tsToDayString (nowNs - 90 * dayNs).toInt) := by
  rw [← tsNs_ageHot e]
  obtain ⟨id, rfl⟩ := h
  exact ⟨rfl, rfl, rfl, rfl⟩

omit [Chrono] in
theorem memory_promote (h : w.eventId.isSome = true) (nowNs : Int) :
    w.memory = some (promote w nowNs).memory := by
  obtain ⟨id, hid⟩ := Option.isSome_iff_exists.mp h
  rw [Consolidated.memory_eq_some_iff, promote, hid]
  exact ⟨rfl, rfl, rfl, rfl, rfl, rfl⟩

theorem PassSpec.mem_cold_of_promotes (h : PassSpec db db' nowNs hippocampusEnabled r new)
    (hw : w ∈ db.warm.rows.map ageWarm ++ new) (haged : agedWarm nowNs w = true)
    (hpromotes : promotes w = true) :
    promote w nowNs.toInt ∈ db'.cold := by
  rw [← Table.mem_rows, h.cold, List.mem_filter]
  refine ⟨List.mem_append_right _ (List.mem_map_of_mem ?_), ?_⟩
  · exact List.mem_filter.mpr ⟨List.mem_filter.mpr ⟨hw, haged⟩, hpromotes⟩
  · rw [Bool.not_eq_true', decide_eq_false_iff_not, not_lt]
    exact forgetFloor_le_of_promotes hpromotes

theorem PassSpec.fate_of_holds (hs : db.Sound) (h : PassSpec db db' nowNs hippocampusEnabled r new)
    {tier' : Tier} (hm : db'.Holds tier' m) :
    ∃ tier fate, db.HasFate nowNs tier m fate ∧ fate.destination tier = some tier' := by
  cases tier' with
  | hot =>
    obtain ⟨a, ha, rfl⟩ := hm
    rw [← Table.mem_rows, h.hot, List.mem_filter, List.mem_map, Bool.not_eq_true'] at ha
    obtain ⟨⟨e, he, rfl⟩, hyoung⟩ := ha
    exact ⟨.hot, .stays, ⟨e, he, rfl, hotFate_eq_stays_iff.mpr hyoung⟩, rfl⟩
  | warm =>
    obtain ⟨w, hw, hm⟩ := hm
    rw [← AutoTable.mem_rows, h.warm, List.mem_filter, List.mem_append, List.mem_map,
      Bool.not_eq_true'] at hw
    obtain ⟨⟨w₀, hw₀, rfl⟩ | hw, hyoung⟩ := hw
    · refine ⟨.warm, .stays, ⟨w₀, hw₀, hm, ?_⟩, rfl⟩
      have hyoung : agedWarm nowNs w₀ = false := hyoung
      rw [warmFate, hyoung]
      rfl
    · obtain ⟨e, he, haged, hkeeps, hretains⟩ := h.mem_new.1 w hw
      obtain ⟨-, hmemory, -, hday⟩ := memory_retain hretains
      refine ⟨.hot, .retained, ⟨e, he, Option.some.inj (hmemory.symm.trans hm), ?_⟩, rfl⟩
      rw [hotFate_of_aged haged hkeeps, if_neg (of_decide_eq_false (hday ▸ hyoung))]
  | cold =>
    obtain ⟨c, hc, rfl⟩ := hm
    rw [← Table.mem_rows, h.cold, List.mem_filter, List.mem_append, List.mem_map, Bool.not_eq_true',
      decide_eq_false_iff_not] at hc
    obtain ⟨⟨c₀, hc₀, rfl⟩ | hc, hfloor⟩ := hc
    · refine ⟨.cold, .stays, ⟨c₀, hc₀, rfl, ?_⟩, rfl⟩
      rw [coldFate, if_neg hfloor]
    · obtain ⟨w, hw, rfl⟩ := List.mem_map.mp hc
      rw [List.mem_filter, List.mem_filter, List.mem_append, List.mem_map] at hw
      obtain ⟨⟨⟨w₀, hw₀, rfl⟩ | hw, haged⟩, hpromotes⟩ := hw
      · refine ⟨.warm, .promoted,
          ⟨w₀, hw₀, memory_promote (w := ageWarm w₀)
            (hs.isSome w₀.eventId (List.mem_map_of_mem hw₀)) _, ?_⟩, rfl⟩
        have haged : agedWarm nowNs w₀ = true := haged
        rw [warmFate, haged, hpromotes]
        rfl
      · obtain ⟨e, he, hagedHot, hkeeps, hretains⟩ := h.mem_new.1 w hw
        obtain ⟨hsome, hmemory, himportance, hday⟩ := memory_retain hretains
        refine ⟨.hot, .promoted,
          ⟨e, he, Option.some.inj (hmemory.symm.trans (memory_promote hsome _)), ?_⟩, rfl⟩
        rw [hotFate_of_aged hagedHot hkeeps, if_pos (of_decide_eq_true (hday ▸ haged)), if_pos]
        rw [← himportance]
        exact of_decide_eq_true hpromotes

theorem PassSpec.holds_of_fate (hs : db.Sound) (h : PassSpec db db' nowNs hippocampusEnabled r new)
    {tier tier' : Tier} {fate : Fate} (hfate : db.HasFate nowNs tier m fate)
    (hdestination : fate.destination tier = some tier') : db'.Holds tier' m := by
  cases tier with
  | hot =>
    obtain ⟨e, he, rfl, rfl⟩ := hfate
    by_cases haged : agedHot nowNs (ageHot e) = true
    · by_cases hkeeps : keeps (ageHot e) = true
      · obtain ⟨w, hw, hretains⟩ := h.mem_new.2 e he haged hkeeps
        obtain ⟨hsome, hmemory, himportance, hday⟩ := memory_retain hretains
        have hmid : w ∈ db.warm.rows.map ageWarm ++ new := List.mem_append_right _ hw
        rw [hotFate_of_aged haged hkeeps] at hdestination
        split at hdestination
        · rename_i hold
          split at hdestination
          · rename_i hle
            cases hdestination
            have hpromotes : promotes w = true := decide_eq_true (himportance ▸ hle)
            refine ⟨promote w nowNs.toInt, ?_,
              Option.some.inj ((memory_promote hsome _).symm.trans hmemory)⟩
            exact h.mem_cold_of_promotes hmid (hday.trans (decide_eq_true hold)) hpromotes
          · cases hdestination
        · rename_i hyoung
          cases hdestination
          refine ⟨w, ?_, hmemory⟩
          rw [← AutoTable.mem_rows, h.warm, List.mem_filter]
          exact ⟨hmid, by rw [hday, decide_eq_false hyoung]; rfl⟩
      · rw [Bool.not_eq_true] at hkeeps
        have hforgotten : hotFate nowNs e = .forgotten := by
          rw [hotFate, haged, hkeeps]
          rfl
        rw [hforgotten] at hdestination
        cases hdestination
    · rw [Bool.not_eq_true] at haged
      rw [hotFate_eq_stays_iff.mpr haged] at hdestination
      cases hdestination
      refine ⟨ageHot e, ?_, rfl⟩
      rw [← Table.mem_rows, h.hot, List.mem_filter]
      exact ⟨List.mem_map_of_mem he, by rw [haged]; rfl⟩
  | warm =>
    obtain ⟨w, hw, hm, rfl⟩ := hfate
    have hmid : ageWarm w ∈ db.warm.rows.map ageWarm ++ new :=
      List.mem_append_left _ (List.mem_map_of_mem hw)
    unfold warmFate at hdestination
    split at hdestination
    · rename_i hyoung
      cases hdestination
      refine ⟨ageWarm w, ?_, hm⟩
      rw [← AutoTable.mem_rows, h.warm, List.mem_filter]
      exact ⟨hmid, hyoung⟩
    · rename_i hold
      have hold : agedWarm nowNs (ageWarm w) = true := by
        rw [Bool.not_eq_true', Bool.not_eq_false] at hold
        exact hold
      split at hdestination
      · rename_i hpromotes
        cases hdestination
        refine ⟨promote (ageWarm w) nowNs.toInt, h.mem_cold_of_promotes hmid hold hpromotes, ?_⟩
        exact Option.some.inj
          ((memory_promote (w := ageWarm w) (hs.isSome w.eventId (List.mem_map_of_mem hw))
            _).symm.trans hm)
      · cases hdestination
  | cold =>
    obtain ⟨c, hc, rfl, rfl⟩ := hfate
    unfold coldFate at hdestination
    split at hdestination
    · cases hdestination
    · rename_i hfloor
      cases hdestination
      refine ⟨ageCold c, ?_, rfl⟩
      rw [← Table.mem_rows, h.cold, List.mem_filter]
      exact ⟨List.mem_append_left _ (List.mem_map_of_mem hc), by rw [decide_eq_false hfloor]; rfl⟩

/-- **Where a memory is after a pass.**  Exactly where the fate of its row takes it. -/
theorem holds_pass_iff (hs : db.Sound) (h : PassSpec db db' nowNs hippocampusEnabled r new)
    {tier' : Tier} : db'.Holds tier' m ↔
      ∃ tier fate, db.HasFate nowNs tier m fate ∧ fate.destination tier = some tier' :=
  ⟨h.fate_of_holds hs, fun ⟨_, _, hfate, hdestination⟩ => h.holds_of_fate hs hfate hdestination⟩

/-! ## The numbers of a pass -/

theorem hotFate_eq_forgotten_iff :
    hotFate nowNs e = .forgotten ↔ agedHot nowNs (ageHot e) = true ∧ keeps (ageHot e) = false := by
  unfold hotFate
  split_ifs <;> simp_all

theorem hotFate_eq_promoted_iff :
    hotFate nowNs e = .promoted ↔ (agedHot nowNs (ageHot e) = true ∧ keeps (ageHot e) = true) ∧
      tsToDayString e.tsNs < tsToDayString (nowNs - 90 * dayNs).toInt ∧
      promotionThreshold ≤ (ageHot e).importance := by
  unfold hotFate
  split_ifs <;> simp_all

theorem hotFate_eq_archived_iff :
    hotFate nowNs e = .archived ↔ (agedHot nowNs (ageHot e) = true ∧ keeps (ageHot e) = true) ∧
      tsToDayString e.tsNs < tsToDayString (nowNs - 90 * dayNs).toInt ∧
      ¬ promotionThreshold ≤ (ageHot e).importance := by
  unfold hotFate
  split_ifs <;> simp_all

theorem warmFate_eq_promoted_iff :
    warmFate nowNs w = .promoted ↔ agedWarm nowNs w = true ∧ promotes (ageWarm w) = true := by
  unfold warmFate
  split_ifs <;> simp_all

theorem warmFate_eq_archived_iff :
    warmFate nowNs w = .archived ↔ agedWarm nowNs w = true ∧ promotes (ageWarm w) = false := by
  unfold warmFate
  split_ifs <;> simp_all

/-- Counting the rows of the warm tier between the two moves: those that were warm, and those that
were hot. -/
theorem PassSpec.countP_mid (h : PassSpec db db' nowNs hippocampusEnabled r new)
    {p : String × ℚ → Bool} {q : Consolidated → Bool} (hq : ∀ w, q w = p (w.day, w.importance)) :
    (db.warm.rows.map ageWarm ++ new).countP q =
      (db.hot.rows.countP fun e => (agedHot nowNs (ageHot e) && keeps (ageHot e)) &&
        p (tsToDayString e.tsNs, (ageHot e).importance)) + db.warm.rows.countP fun w =>
          q (ageWarm w) := by
  have hpairs : new.map (fun w => (w.day, w.importance)) =
      (((db.hot.rows.map ageHot).filter (agedHot nowNs)).filter keeps).map fun e =>
        (tsToDayString e.tsNs, e.importance) := by
    refine map_eq_of_forall₂ ?_ h.retains
    rintro e w ⟨id, rfl⟩
    rfl
  have hnew : new.countP q = (new.map fun w => (w.day, w.importance)).countP p := by
    rw [List.countP_map]
    exact List.countP_congr fun w _ => by rw [hq]; rfl
  rw [List.countP_append, Nat.add_comm, hnew, hpairs, List.countP_map, List.countP_filter,
    List.countP_filter, List.countP_map, List.countP_map]
  congr 1
  refine List.countP_congr fun e _ => ?_
  simp only [Function.comp_apply, tsNs_ageHot, Bool.and_eq_true]
  tauto

/-- What the numbers of a pass count: the rows of each fate. -/
structure Reports (db db' : TierDb O) (nowNs : Int64) (r : PassReport) : Prop where
  autoPinned : r.autoPinned = db.hot.rows.countP autoPins
  hotDecayed : r.hotDecayed = db.hot.rows.countP fun e => !e.pinned && !autoPins e
  warmDecayed : r.warmDecayed = db.warm.rows.length
  coldDecayed : r.coldDecayed = db.cold.rows.length
  consolidated : r.consolidated = db.hot.rows.countP fun e =>
    decide (hotFate nowNs e ∈ [Fate.retained, .promoted, .archived])
  hotArchived : r.hotArchived = db.hot.rows.countP fun e => hotFate nowNs e = .forgotten
  promoted : r.promoted = (db.hot.rows.countP fun e => hotFate nowNs e = .promoted) +
    db.warm.rows.countP fun w => warmFate nowNs w = .promoted
  warmArchived : r.warmArchived = (db.hot.rows.countP fun e => hotFate nowNs e = .archived) +
    db.warm.rows.countP fun w => warmFate nowNs w = .archived
  coldSwept : r.coldSwept = db.cold.rows.countP fun c => coldFate c = .forgotten
  selected : r.hippocampusSelected = db'.hippocampus.rows.countP fun m => m.eventId ∉ db.memberIds
  removed : r.hippocampusRemoved = db.hippocampus.rows.countP fun m => m.eventId ∉ db'.memberIds

theorem PassSpec.reports (h : PassSpec db db' nowNs hippocampusEnabled r new) :
    Reports db db' nowNs r := by
  refine ⟨h.autoPinned, h.hotDecayed, h.warmDecayed, h.coldDecayed, ?_, ?_, ?_, ?_, ?_, h.selected,
    h.removed⟩
  · rw [h.consolidated, List.countP_filter, List.countP_map]
    refine List.countP_congr fun e _ => ?_
    rw [Function.comp_apply, Bool.and_eq_true, decide_eq_true_eq]
    have hforgotten := @hotFate_eq_forgotten_iff _ nowNs e
    have hstays := @hotFate_eq_stays_iff _ nowNs e
    cases hfate : hotFate nowNs e <;> simp_all
  · rw [h.hotArchived, List.countP_filter, List.countP_map]
    refine List.countP_congr fun e _ => ?_
    rw [Function.comp_apply, Bool.and_eq_true, decide_eq_true_eq, hotFate_eq_forgotten_iff,
      Bool.not_eq_true']
    tauto
  · rw [h.promoted, List.countP_filter, h.countP_mid
      (q := fun w => promotes w && agedWarm nowNs w)
      (p := fun row => decide (promotionThreshold ≤ row.2) &&
        decide (row.1 < tsToDayString (nowNs - 90 * dayNs).toInt)) fun w => rfl]
    congr 1
    · refine List.countP_congr fun e _ => ?_
      simp only [Bool.and_eq_true, decide_eq_true_eq, hotFate_eq_promoted_iff]
      tauto
    · refine List.countP_congr fun w _ => ?_
      rw [Bool.and_eq_true, decide_eq_true_eq, warmFate_eq_promoted_iff]
      exact and_comm
  · rw [h.warmArchived, List.countP_filter, h.countP_mid
      (q := fun w => !promotes w && agedWarm nowNs w)
      (p := fun row => !decide (promotionThreshold ≤ row.2) &&
        decide (row.1 < tsToDayString (nowNs - 90 * dayNs).toInt)) fun w => rfl]
    congr 1
    · refine List.countP_congr fun e _ => ?_
      simp only [Bool.and_eq_true, Bool.not_eq_true', decide_eq_true_eq, decide_eq_false_iff_not,
        hotFate_eq_archived_iff]
      tauto
    · refine List.countP_congr fun w _ => ?_
      rw [Bool.and_eq_true, decide_eq_true_eq, warmFate_eq_archived_iff, Bool.not_eq_true']
      exact and_comm
  · rw [h.coldSwept, List.countP_map]
    refine List.countP_congr fun c _ => ?_
    rw [Function.comp_apply, decide_eq_true_eq, decide_eq_true_eq, coldFate]
    split <;> simp_all

omit [Chrono] in
theorem selects_iff {db : TierDb O} {id : Int} : db.selects id = true ↔
    ∃ tier m, db.Holds tier m ∧ m.eventId = id ∧ importanceSelectionThreshold ≤ m.importance := by
  unfold selects
  rw [List.any_eq_true]
  constructor
  · rintro ⟨row, hrow, hsel⟩
    obtain ⟨hid, hle⟩ := of_decide_eq_true hsel
    unfold live at hrow
    simp only [List.mem_append, List.mem_map, List.mem_filterMap] at hrow
    obtain (⟨e, he, rfl⟩ | ⟨w, hw, hrow⟩) | ⟨c, hc, rfl⟩ := hrow
    · exact ⟨.hot, _, ⟨e, he, rfl⟩, hid, hle⟩
    · obtain ⟨id', hid', rfl⟩ := Option.map_eq_some_iff.mp hrow
      exact ⟨.warm, ⟨id', w.text, w.textHash, w.importance, w.trust, w.accessCount⟩,
        ⟨w, hw, Consolidated.memory_eq_some_iff.mpr ⟨hid', rfl, rfl, rfl, rfl, rfl⟩⟩, hid, hle⟩
    · exact ⟨.cold, _, ⟨c, hc, rfl⟩, hid, hle⟩
  · rintro ⟨tier, m, hm, hid, hle⟩
    refine ⟨(m.eventId, m.importance), ?_, decide_eq_true ⟨hid, hle⟩⟩
    unfold live
    simp only [List.mem_append, List.mem_map, List.mem_filterMap]
    cases tier with
    | hot =>
      obtain ⟨e, he, rfl⟩ := hm
      exact .inl (.inl ⟨e, he, rfl⟩)
    | warm =>
      obtain ⟨w, hw, hm⟩ := hm
      obtain ⟨hkey, -, -, himportance, -⟩ := Consolidated.memory_eq_some_iff.mp hm
      exact .inl (.inr ⟨w, hw, by rw [hkey, himportance]; rfl⟩)
    | cold =>
      obtain ⟨c, hc, rfl⟩ := hm
      exact .inr ⟨c, hc, rfl⟩

end Pass

end TierDb

end Neoth.Memory
