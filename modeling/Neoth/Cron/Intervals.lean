import Neoth.Cron.Schedule

/-!
# Interval schedules

What `next_after` and `latest_due` compute of an interval, against the instants that it stands for.

* `isLeast_instants_iff`, `isGreatest_instants_iff`: the neighbours of a point among the instants;
* `nextAfter_interval`: the sum that the code computes, where the product stays at its bound;
* `exact_iff_of_le`, `exact_iff_of_lt`: the schedule is right at a point if and only if the product
  is in range.
-/

open Lib.Ticks Lib.Transaction

namespace Neoth.Cron

variable {DateTime : Type} [Chrono DateTime]

section
open Chrono

variable {secs : Int}

theorem lt_iff_timestamp_lt {t u : DateTime} (h : fromTimestamp secs = some t) :
    u < t ↔ timestamp u < secs := by
  rw [← not_le, ← not_le, fromTimestamp_le_iff secs t u h]

theorem exists_fromTimestamp (hlow : minTimestamp ≤ secs) (hhigh : secs ≤ maxTimestamp) :
    ∃ t : DateTime, fromTimestamp secs = some t :=
  Option.isSome_iff_exists.mp ((fromTimestamp_isSome secs).mpr ⟨hlow, hhigh⟩)

theorem range_of_fromTimestamp {t : DateTime} (h : fromTimestamp secs = some t) :
    minTimestamp ≤ secs ∧ secs ≤ maxTimestamp := by
  apply (@fromTimestamp_isSome DateTime _ secs).mp
  rw [h, Option.isSome_some]

theorem fromTimestamp_eq_none (h : secs < minTimestamp ∨ maxTimestamp < secs) :
    (fromTimestamp secs : Option DateTime) = none := by
  cases ht : (fromTimestamp secs : Option DateTime) with
  | none => rfl
  | some t =>
    have hrange := range_of_fromTimestamp ht
    omega

theorem fromTimestamp_inj {secs secs' : Int} {t : DateTime} (h : fromTimestamp secs = some t)
    (h' : fromTimestamp secs' = some t) : secs = secs' :=
  (timestamp_fromTimestamp secs t h).symm.trans (timestamp_fromTimestamp secs' t h')

/-- What saturates cannot be represented. -/
theorem fromTimestamp_saturate (x : Int) :
    (fromTimestamp (saturate minI64 maxI64 x) : Option DateTime) = fromTimestamp x := by
  by_cases hlow : minI64 ≤ x
  · by_cases hhigh : x ≤ maxI64
    · rw [saturate_eq_self hlow hhigh]
    · rw [saturate_of_high_le (by decide) (by omega), fromTimestamp_eq_none (.inr (by decide)),
        fromTimestamp_eq_none (.inr (lt_trans (by decide) (not_le.mp hhigh)))]
  · rw [saturate_of_le_low (by omega), fromTimestamp_eq_none (.inl (by decide)),
      fromTimestamp_eq_none (.inl (lt_trans (not_le.mp hlow) (by decide)))]

end

/-! ## Instants -/

namespace Schedule

variable (s : Schedule DateTime)

/-- The instants `anchor + k * every` that can be represented. -/
def instants (every : Int) : Set DateTime :=
  {t | ∃ secs, Chrono.fromTimestamp secs = some t ∧ IsTick s.anchor every secs}

variable {s} {every : Int} {now t : DateTime}

theorem isLeast_instants_iff (hevery : 0 < every) :
    IsLeast {u ∈ s.instants every | now < u} t ↔
      Chrono.fromTimestamp (nextTick s.anchor every (Chrono.timestamp now)) = some t := by
  obtain ⟨⟨htick, hlater⟩, hleast⟩ := isLeast_nextTick s.anchor (Chrono.timestamp now) hevery
  constructor
  · rintro ⟨⟨⟨secs, hsecs, hk⟩, hlt⟩, hmin⟩
    have hge := hleast ⟨hk, (lt_iff_timestamp_lt hsecs).mp hlt⟩
    have hrange := range_of_fromTimestamp hsecs
    have hnow := Chrono.timestamp_range now
    obtain ⟨u, hu⟩ : ∃ u : DateTime,
        Chrono.fromTimestamp (nextTick s.anchor every (Chrono.timestamp now)) = some u :=
      exists_fromTimestamp (by omega) (by omega)
    have hle : t ≤ u := hmin ⟨⟨_, hu, htick⟩, (lt_iff_timestamp_lt hu).mpr hlater⟩
    rw [Chrono.fromTimestamp_le_iff secs t u hsecs, Chrono.timestamp_fromTimestamp _ u hu] at hle
    rw [le_antisymm hge hle]
    exact hsecs
  · intro h
    refine ⟨⟨⟨_, h, htick⟩, (lt_iff_timestamp_lt h).mpr hlater⟩, ?_⟩
    rintro u ⟨⟨secs, hsecs, hk⟩, hlt⟩
    rw [Chrono.fromTimestamp_le_iff _ t u h, Chrono.timestamp_fromTimestamp secs u hsecs]
    exact hleast ⟨hk, (lt_iff_timestamp_lt hsecs).mp hlt⟩

theorem isGreatest_instants_iff (hevery : 0 < every) :
    IsGreatest {u ∈ s.instants every | u ≤ now} t ↔ s.anchor ≤ Chrono.timestamp now ∧
      Chrono.fromTimestamp (lastTick s.anchor every (Chrono.timestamp now)) = some t := by
  constructor
  · rintro ⟨⟨⟨secs, hsecs, hk⟩, hle⟩, hmax⟩
    have hpast := (Chrono.fromTimestamp_le_iff secs t now hsecs).mp hle
    have hanchor := (anchor_le_of_isTick hevery hk).trans hpast
    obtain ⟨⟨htick, hnot⟩, hgreatest⟩ := isGreatest_lastTick hevery hanchor
    have hge := hgreatest ⟨hk, hpast⟩
    have hrange := range_of_fromTimestamp hsecs
    have hnow := Chrono.timestamp_range now
    obtain ⟨u, hu⟩ : ∃ u : DateTime,
        Chrono.fromTimestamp (lastTick s.anchor every (Chrono.timestamp now)) = some u :=
      exists_fromTimestamp (by omega) (by omega)
    have hle' : u ≤ t := hmax ⟨⟨_, hu, htick⟩, (Chrono.fromTimestamp_le_iff _ u now hu).mpr hnot⟩
    rw [Chrono.fromTimestamp_le_iff _ u t hu, Chrono.timestamp_fromTimestamp _ t hsecs] at hle'
    refine ⟨hanchor, ?_⟩
    rw [le_antisymm hle' hge]
    exact hsecs
  · rintro ⟨hanchor, h⟩
    obtain ⟨⟨htick, hnot⟩, hgreatest⟩ := isGreatest_lastTick hevery hanchor
    refine ⟨⟨⟨_, h, htick⟩, (Chrono.fromTimestamp_le_iff _ t now h).mpr hnot⟩, ?_⟩
    rintro u ⟨⟨secs, hsecs, hk⟩, hle⟩
    rw [Chrono.fromTimestamp_le_iff secs u t hsecs, Chrono.timestamp_fromTimestamp _ t h]
    exact hgreatest ⟨hk, (Chrono.fromTimestamp_le_iff secs u now hsecs).mp hle⟩

theorem exists_isGreatest {u : DateTime} (hevery : 0 < every) (hu : u ∈ s.instants every)
    (hle : u ≤ now) : ∃ t, IsGreatest {u ∈ s.instants every | u ≤ now} t ∧ u ≤ t := by
  have hmem := hu
  obtain ⟨secs, hsecs, hk⟩ := hu
  have hpast := (Chrono.fromTimestamp_le_iff secs u now hsecs).mp hle
  have hanchor := (anchor_le_of_isTick hevery hk).trans hpast
  obtain ⟨⟨-, hnot⟩, hgreatest⟩ := isGreatest_lastTick hevery hanchor
  have hge := hgreatest ⟨hk, hpast⟩
  have hrange := range_of_fromTimestamp hsecs
  have hnow := Chrono.timestamp_range now
  obtain ⟨t, ht⟩ : ∃ t : DateTime,
      Chrono.fromTimestamp (lastTick s.anchor every (Chrono.timestamp now)) = some t :=
    exists_fromTimestamp (by omega) (by omega)
  have h := isGreatest_instants_iff hevery |>.mpr ⟨hanchor, ht⟩
  exact ⟨t, h, h.2 ⟨hmem, hle⟩⟩

end Schedule

/-! ## What the code computes -/

/-- The product is the exact one, at most the largest integer. -/
theorem saturatingMul_steps {anchor every t : Int} (hevery : 30 ≤ every) :
    saturatingMul (if saturatingSub t anchor < 0 then 0
      else saturatingAdd (saturatingSub t anchor / every) 1) every =
      min maxI64 (stepsAfter anchor every t * every) := by
  have hsaturated : ∀ k : Int, 0 ≤ k → saturatingMul k every = min maxI64 (k * every) := by
    intro k hk
    have hprod : 0 ≤ k * every := Int.mul_nonneg hk (by omega)
    unfold saturatingMul saturate
    exact max_eq_right (le_min (by decide) (le_trans (by decide) hprod))
  unfold stepsAfter
  by_cases hbefore : t < anchor
  · have hneg : saturatingSub t anchor < 0 := by
      unfold saturatingSub saturate
      exact max_lt (by decide) (lt_of_le_of_lt (min_le_right _ _) (by omega))
    rw [if_pos hneg, if_pos hbefore]
    exact hsaturated 0 le_rfl
  · have helapsed : saturatingSub t anchor = min maxI64 (t - anchor) := by
      unfold saturatingSub saturate
      exact max_eq_right (le_min (by decide) (le_trans (by decide) (show 0 ≤ t - anchor by omega)))
    rw [helapsed]
    generalize hd : min maxI64 (t - anchor) = d
    have hnonneg : 0 ≤ d := hd ▸ le_min (by decide) (by omega)
    have hmax : d ≤ maxI64 := hd ▸ min_le_left _ _
    have hquotient := Int.ediv_nonneg hnonneg (show 0 ≤ every by omega)
    obtain ⟨hfloor, hceil⟩ := ediv_mul_bounds (show 0 < every by omega) d
    have hthirty : d / every * 30 ≤ d / every * every :=
      Int.mul_le_mul_of_nonneg_left hevery hquotient
    have hstep : saturatingAdd (d / every) 1 = d / every + 1 := by
      unfold maxI64 at hmax
      refine saturate_eq_self (le_trans (by decide) (show 0 ≤ d / every + 1 by omega)) ?_
      unfold maxI64
      omega
    rw [if_neg (by omega), if_neg hbefore, hstep, hsaturated _ (by omega)]
    rcases le_total (t - anchor) maxI64 with hfits | hover
    · rw [min_eq_right hfits] at hd
      rw [hd]
    · -- both products are beyond the bound
      rw [min_eq_left hover] at hd
      obtain ⟨-, hbeyond⟩ := ediv_mul_bounds (show 0 < every by omega) (t - anchor)
      rw [min_eq_left (by omega), min_eq_left (by omega)]

omit [Chrono DateTime] in
theorem anchor_range (s : Schedule DateTime) : minI64 ≤ s.anchor ∧ s.anchor ≤ maxI64 := by
  unfold Schedule.anchor
  cases s.anchorUnix with
  | none => decide
  | some anchor =>
    have hlow := anchor.minValue_le_toInt
    have hhigh := anchor.toInt_le
    exact ⟨hlow, hhigh⟩

namespace Schedule

variable [CronCrate DateTime] {s : Schedule DateTime} {every : UInt64} {now t : DateTime}

/-- What `validate` accepts of an interval. -/
theorem interval_of_validate (hvalid : s.validate = .ok ()) (hevery : s.everySeconds = some every) :
    s.at_ = none ∧ 30 ≤ every.toNat := by
  unfold validate require at hvalid
  rw [hevery] at hvalid
  constructor
  · cases hat : s.at_ with
    | none => rfl
    | some at_ =>
      rw [hat] at hvalid
      cases hcron : !Lib.Text.isBlank s.cron.toList <;> simp [hcron, bind, Except.bind] at hvalid
  · by_contra hsmall
    have hnot : ¬ 30 ≤ every := fun h => hsmall (UInt64.le_iff_toNat_le.mp h)
    simp only [hnot, decide_false, bind, Except.bind] at hvalid
    repeat' split at hvalid
    all_goals simp_all

theorem i64FromU64_eq_some (h : (every.toNat : Int) ≤ maxI64) :
    i64FromU64 every = some (every.toNat : Int) := if_pos h

theorem i64FromU64_eq_none (h : maxI64 < every.toNat) : i64FromU64 every = none :=
  if_neg (not_le.mpr h)

/-- The seconds that an interval is ahead of its anchor, at most the largest integer. -/
theorem nextAfter_interval (hat : s.at_ = none) (hevery : s.everySeconds = some every)
    (hpos : 30 ≤ every.toNat) (hle : (every.toNat : Int) ≤ maxI64) : s.nextAfter now =
      Chrono.fromTimestamp
        (s.anchor +
          min maxI64 (stepsAfter s.anchor every.toNat (Chrono.timestamp now) * every.toNat)) := by
  unfold nextAfter
  rw [hat, hevery]
  dsimp only
  rw [i64FromU64_eq_some hle, Option.bind_eq_bind, Option.bind_some, saturatingMul_steps (by omega),
    saturatingAdd, fromTimestamp_saturate]

theorem nextAfter_interval_none (hat : s.at_ = none) (hevery : s.everySeconds = some every)
    (hover : maxI64 < every.toNat) : s.nextAfter now = none := by
  unfold nextAfter
  rw [hat, hevery]
  dsimp only
  rw [i64FromU64_eq_none hover, Option.bind_eq_bind, Option.bind_none]

variable {windowStart : DateTime} {lookback : Chrono.TimeDelta DateTime}

/-- The window of `latest_due`, where it can be represented. -/
theorem latestDue_eq (hat : s.at_ = none) (hevery : s.everySeconds = some every)
    (hpos : 30 ≤ every.toNat)
    (hwindow : Chrono.checkedSub now lookback = some windowStart)
    (hle : (every.toNat : Int) ≤ maxI64) (hfits : Chrono.timestamp now - s.anchor ≤ maxI64) :
    s.latestDue now lookback = .ok (if Chrono.timestamp now < s.anchor then none
      else (Chrono.fromTimestamp (lastTick s.anchor every.toNat (Chrono.timestamp now))).filter
        (windowStart < ·)) := by
  have hnow := Chrono.timestamp_range now
  have hanchor := anchor_range s
  unfold latestDue
  rw [hwindow, hat, hevery]
  dsimp only
  rw [i64FromU64_eq_some hle]
  show Except.ok _ = _
  congr 1
  rw [Option.bind_eq_bind, Option.bind_some]
  split
  · rfl
  · rename_i hafter
    have hevery : 0 < (every.toNat : Int) := by omega
    have hquot := Int.ediv_nonneg (show 0 ≤ Chrono.timestamp now - s.anchor by omega) hevery.le
    have hnonneg := Int.mul_nonneg hquot hevery.le
    have hprod := (ediv_mul_bounds hevery (Chrono.timestamp now - s.anchor)).1
    have helapsed : saturatingSub (Chrono.timestamp now) s.anchor =
        Chrono.timestamp now - s.anchor :=
      saturate_eq_self (le_trans (by decide) (show 0 ≤ Chrono.timestamp now - s.anchor by omega))
        hfits
    have hmul : saturatingMul ((Chrono.timestamp now - s.anchor) / every.toNat) every.toNat =
        (Chrono.timestamp now - s.anchor) / every.toNat * every.toNat :=
      saturate_eq_self (le_trans (by decide) hnonneg) (hprod.trans hfits)
    rw [helapsed, hmul, saturatingAdd, fromTimestamp_saturate]
    show ((Chrono.fromTimestamp (lastTick s.anchor every.toNat (Chrono.timestamp now)) : Option
      DateTime).bind fun due => if windowStart < due then some due else none) = _
    cases (Chrono.fromTimestamp (lastTick s.anchor every.toNat (Chrono.timestamp now)) : Option
      DateTime) with
    | none => rfl
    | some due => simp [Option.filter]

theorem latestDue_none (hat : s.at_ = none) (hevery : s.everySeconds = some every)
    (hwindow : Chrono.checkedSub now lookback = some windowStart) (hover : maxI64 < every.toNat) :
    s.latestDue now lookback = .ok none := by
  unfold latestDue
  rw [hwindow, hat, hevery]
  dsimp only
  rw [i64FromU64_eq_none hover]
  rfl

/-! ## Exactness -/

/-- What an interval says of `now`. -/
structure Exact (s : Schedule DateTime) (every : Int) (now : DateTime)
    (lookback : Chrono.TimeDelta DateTime) : Prop where
  next : ∀ t, s.nextAfter now = some t ↔ IsLeast {u ∈ s.instants every | now < u} t
  latest : ∃ windowStart due, Chrono.checkedSub now lookback = some windowStart ∧
    s.latestDue now lookback = .ok due ∧
    ∀ t, due = some t ↔ IsGreatest {u ∈ s.instants every | u ≤ now} t ∧ windowStart < t
  between : ∀ l n, s.latestDue now lookback = .ok (some l) → s.nextAfter now = some n →
    ∀ u ∈ s.instants every, ¬ (l < u ∧ u < n)

/-- The seconds from the anchor to the next instant fit into an `i64`, or the largest `i64` of
seconds leads beyond what can be represented; an interval that is itself larger fits only where
nothing is due. -/
def InRange (s : Schedule DateTime) (every : Int) (now : DateTime)
    (lookback : Chrono.TimeDelta DateTime) : Prop :=
  ∃ windowStart, Chrono.checkedSub now lookback = some windowStart ∧
    if every ≤ maxI64 then
      stepsAfter s.anchor every (Chrono.timestamp now) * every ≤ maxI64 ∨
      maxTimestamp < s.anchor + maxI64
    else maxTimestamp < nextTick s.anchor every (Chrono.timestamp now) ∧
      ∀ u ∈ s.instants every, ¬ (windowStart < u ∧ u ≤ now)

theorem next_iff (hpos : 30 ≤ every.toNat) :
    (∀ t, s.nextAfter now = some t ↔ IsLeast {u ∈ s.instants every.toNat | now < u} t) ↔
      s.nextAfter now =
        Chrono.fromTimestamp (nextTick s.anchor every.toNat (Chrono.timestamp now)) := by
  rw [Option.ext_iff]
  exact forall_congr' fun t => by rw [isLeast_instants_iff (by omega)]

/-- **The next instant**, where the interval is an `i64`. -/
theorem nextAfter_exact_iff (hat : s.at_ = none) (hevery : s.everySeconds = some every)
    (hpos : 30 ≤ every.toNat) (hle : (every.toNat : Int) ≤ maxI64) :
    s.nextAfter now = Chrono.fromTimestamp (nextTick s.anchor every.toNat (Chrono.timestamp now)) ↔
      stepsAfter s.anchor every.toNat (Chrono.timestamp now) * every.toNat ≤ maxI64 ∨
        maxTimestamp < s.anchor + maxI64 := by
  have hanchor := anchor_range s
  rw [nextAfter_interval hat hevery hpos hle, nextTick]
  generalize stepsAfter s.anchor every.toNat (Chrono.timestamp now) * every.toNat = offset
  constructor
  · intro h
    by_contra hnot
    obtain ⟨hover, hrange⟩ := not_or.mp hnot
    rw [min_eq_left (by omega)] at h
    unfold minI64 maxI64 at *
    obtain ⟨t, ht⟩ : ∃ t : DateTime, Chrono.fromTimestamp (s.anchor + (2 ^ 63 - 1)) = some t :=
      exists_fromTimestamp (by unfold minTimestamp; omega) (by omega)
    have hsame := fromTimestamp_inj ht (h.symm.trans ht)
    omega
  · rintro (hfits | hbeyond)
    · rw [min_eq_right hfits]
    · rcases le_total offset maxI64 with hfits | hover
      · rw [min_eq_right hfits]
      · rw [min_eq_left hover, fromTimestamp_eq_none (.inr hbeyond),
          fromTimestamp_eq_none (.inr (by omega))]

theorem exact_of_next_latest {due : Option DateTime} {every : Int}
    (hnext : ∀ t, s.nextAfter now = some t ↔ IsLeast {u ∈ s.instants every | now < u} t)
    (hwindow : Chrono.checkedSub now lookback = some windowStart)
    (hdue : s.latestDue now lookback = .ok due)
    (hlatest : ∀ t, due = some t ↔ IsGreatest {u ∈ s.instants every | u ≤ now} t ∧
      windowStart < t) :
    s.Exact every now lookback := by
  refine ⟨hnext, ⟨windowStart, due, hwindow, hdue, hlatest⟩, ?_⟩
  rintro l n hl hn u hu ⟨hlu, hun⟩
  obtain rfl := Except.ok.inj (hdue.symm.trans hl)
  rcases le_or_gt u now with hle | hgt
  · exact absurd (((hlatest l).mp rfl).1.2 ⟨hu, hle⟩) (not_le.mpr hlu)
  · exact absurd (((hnext n).mp hn).2 ⟨hu, hgt⟩) (not_le.mpr hun)

theorem exact_iff_of_le (hat : s.at_ = none) (hevery : s.everySeconds = some every)
    (hpos : 30 ≤ every.toNat) (hle : (every.toNat : Int) ≤ maxI64) :
    s.Exact every.toNat now lookback ↔ s.InRange every.toNat now lookback := by
  unfold InRange
  simp only [if_pos hle]
  rw [← nextAfter_exact_iff hat hevery hpos hle, ← next_iff hpos]
  constructor
  · rintro ⟨hnext, ⟨windowStart, -, hwindow, -⟩, -⟩
    exact ⟨windowStart, hwindow, hnext⟩
  · rintro ⟨windowStart, hwindow, hnext⟩
    have hnow := Chrono.timestamp_range now
    have hfits : Chrono.timestamp now - s.anchor ≤ maxI64 := by
      rcases (nextAfter_exact_iff hat hevery hpos hle).mp
        ((next_iff hpos).mp hnext) with hoffset | hbeyond
      · have hlater := (isLeast_nextTick s.anchor (Chrono.timestamp now)
          (show 0 < (every.toNat : Int) by omega)).1.2
        unfold nextTick at hlater
        omega
      · omega
    refine exact_of_next_latest hnext hwindow (latestDue_eq hat hevery hpos hwindow hle hfits)
      fun t => ?_
    rw [isGreatest_instants_iff (by omega)]
    split
    · rename_i hbefore
      constructor
      · intro h
        cases h
      · rintro ⟨⟨hanchor, -⟩, -⟩
        omega
    · rename_i hafter
      rw [Option.filter_eq_some_iff, decide_eq_true_eq,
        and_iff_right (show s.anchor ≤ Chrono.timestamp now by omega)]

theorem exact_iff_of_lt (hat : s.at_ = none) (hevery : s.everySeconds = some every)
    (hpos : 30 ≤ every.toNat) (hover : maxI64 < every.toNat) :
    s.Exact every.toNat now lookback ↔ s.InRange every.toNat now lookback := by
  have hnow := Chrono.timestamp_range now
  have hlater := (isLeast_nextTick s.anchor (Chrono.timestamp now)
    (show 0 < (every.toNat : Int) by omega)).1.2
  unfold InRange
  simp only [if_neg (not_le.mpr hover)]
  constructor
  · rintro ⟨hnext, ⟨windowStart, due, hwindow, hdue, hlatest⟩, -⟩
    obtain rfl := Except.ok.inj ((latestDue_none hat hevery hwindow hover).symm.trans hdue)
    refine ⟨windowStart, hwindow, ?_, ?_⟩
    · by_contra hrange
      obtain ⟨t, ht⟩ : ∃ t : DateTime,
          Chrono.fromTimestamp (nextTick s.anchor every.toNat (Chrono.timestamp now)) = some t :=
        exists_fromTimestamp (by omega) (not_lt.mp hrange)
      have hsome := (hnext t).mpr ((isLeast_instants_iff (by omega)).mpr ht)
      rw [nextAfter_interval_none hat hevery hover] at hsome
      cases hsome
    · rintro u hu ⟨hin, hpast⟩
      obtain ⟨t, hgreatest, hle⟩ := exists_isGreatest (by omega) hu hpast
      have hsome := (hlatest t).mpr ⟨hgreatest, lt_of_lt_of_le hin hle⟩
      cases hsome
  · rintro ⟨windowStart, hwindow, hbeyond, hempty⟩
    refine exact_of_next_latest ((next_iff hpos).mpr ?_) hwindow
      (latestDue_none hat hevery hwindow hover) fun t => ?_
    · rw [nextAfter_interval_none hat hevery hover, fromTimestamp_eq_none (.inr hbeyond)]
    · constructor
      · intro h
        cases h
      · rintro ⟨⟨⟨hinst, hpast⟩, -⟩, hin⟩
        exact absurd ⟨hin, hpast⟩ (hempty t hinst)

end Schedule

end Neoth.Cron
