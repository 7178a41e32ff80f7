import Neoth.Cron.Intervals

/-!
# The loops of `schedule_collides`

* `halts_nextUpTo_iff`: a loop over the fire times ends if and only if the schedule is not frozen
  before the horizon;
* `exists_fires_iff`, `exists_collision_iff`: the loops with fuel, which end earlier at a collision;
* **`interval_schedules_iff`**: an interval is exact where its product is in range, and the loops
  end where no schedule is frozen without a collision.
-/

open Lib.Ticks Lib.Transaction

namespace Neoth.Cron

variable {DateTime : Type} [Chrono DateTime] [CronCrate DateTime]

/-! ## Progress -/

namespace Schedule

/-- The time that the sums of an interval stay at is within the horizon. -/
def Frozen (s : Schedule DateTime) (stop : DateTime) : Prop :=
  ∃ every ∈ s.everySeconds, (every.toNat : Int) ≤ maxI64 ∧ s.anchor + maxI64 ≤ Chrono.timestamp stop

variable {s : Schedule DateTime} {stop cursor t : DateTime}

theorem nextUpTo_eq_some : s.nextUpTo stop cursor = some t ↔
    s.nextAfter cursor = some t ∧ t ≤ stop := by
  rw [nextUpTo, Option.filter_eq_some_iff, decide_eq_true_eq]

/-- A frozen schedule always has a next fire time within the horizon. -/
theorem nextUpTo_isSome (hvalid : s.validate = .ok ()) (hfrozen : s.Frozen stop)
    (cursor : DateTime) : (s.nextUpTo stop cursor).isSome := by
  obtain ⟨every, hevery, hle, hstop⟩ := hfrozen
  obtain ⟨hat, hpos⟩ := interval_of_validate hvalid hevery
  have hlater := (isLeast_nextTick s.anchor (Chrono.timestamp cursor)
    (show 0 < (every.toNat : Int) by omega)).1.2
  have hcursor := Chrono.timestamp_range cursor
  have hend := Chrono.timestamp_range stop
  have hanchor := anchor_range s
  have hnext : s.nextAfter cursor = _ := nextAfter_interval hat hevery hpos hle
  unfold nextTick at hlater
  generalize stepsAfter s.anchor every.toNat (Chrono.timestamp cursor) * every.toNat =
    offset at hlater hnext
  have hmin : minTimestamp ≤ s.anchor + min maxI64 offset := by
    unfold minTimestamp minI64 maxI64 at *
    omega
  have hmax : s.anchor + min maxI64 offset ≤ Chrono.timestamp stop := by omega
  obtain ⟨t, ht⟩ : ∃ t : DateTime, Chrono.fromTimestamp (s.anchor + min maxI64 offset) = some t :=
    exists_fromTimestamp hmin (hmax.trans hend.2)
  refine Option.isSome_iff_exists.mpr ⟨t, nextUpTo_eq_some.mpr ⟨hnext.trans ht, ?_⟩⟩
  exact (Chrono.fromTimestamp_le_iff _ t stop ht).mpr hmax

/-- What fires at whole seconds later than the cursor makes progress. -/
theorem halts_of_later (hlater : ∀ cursor t, s.nextUpTo stop cursor = some t →
    cursor < t ∧ ∃ secs, Chrono.fromTimestamp secs = some t) (cursor : DateTime) :
      Halts (s.nextUpTo stop) cursor := by
  refine halts_of_grows Chrono.timestamp (Chrono.timestamp stop) (fun cursor t h => ?_) cursor
  obtain ⟨hlt, secs, hsecs⟩ := hlater cursor t h
  rw [Chrono.timestamp_fromTimestamp secs t hsecs]
  exact ⟨(lt_iff_timestamp_lt hsecs).mp hlt,
    (Chrono.fromTimestamp_le_iff secs t stop hsecs).mp (nextUpTo_eq_some.mp h).2⟩

theorem halts_of_at {at_ : DateTime} (hat : s.at_ = some at_) (cursor : DateTime) :
    Halts (s.nextUpTo stop) cursor := by
  have hnext : ∀ cursor, s.nextAfter cursor = if cursor < at_ then some at_ else none :=
    fun cursor => by
    rw [nextAfter, hat]
  have hend : s.nextUpTo stop at_ = none := by
    rw [nextUpTo, hnext, if_neg (lt_irrefl _), Option.filter_none]
  cases h : s.nextUpTo stop cursor with
  | none => exact halts_of_none h
  | some t =>
    obtain ⟨hsome, -⟩ := nextUpTo_eq_some.mp h
    rw [hnext] at hsome
    split at hsome
    · obtain rfl := Option.some.inj hsome
      exact (halts_iff_of_some h).mpr (halts_of_none hend)
    · cases hsome

theorem halts_of_interval {every : UInt64} (hat : s.at_ = none)
    (hevery : s.everySeconds = some every)
    (hpos : 30 ≤ every.toNat) (hnot : ¬ s.Frozen stop) (cursor : DateTime) :
      Halts (s.nextUpTo stop) cursor := by
  rcases lt_or_ge maxI64 (every.toNat : Int) with hover | hle
  · refine halts_of_none ?_
    rw [nextUpTo, nextAfter_interval_none hat hevery hover, Option.filter_none]
  · refine halts_of_later (fun cursor t h => ?_) cursor
    obtain ⟨hnext, hstop⟩ := nextUpTo_eq_some.mp h
    rw [nextAfter_interval hat hevery hpos hle] at hnext
    refine ⟨(lt_iff_timestamp_lt hnext).mpr ?_, _, hnext⟩
    have hlater := (isLeast_nextTick s.anchor (Chrono.timestamp cursor)
      (show 0 < (every.toNat : Int) by omega)).1.2
    have hwithin := (Chrono.fromTimestamp_le_iff _ t stop hnext).mp hstop
    have hbeyond : Chrono.timestamp stop < s.anchor + maxI64 := not_le.mp fun h =>
      hnot ⟨every, hevery, hle, h⟩
    unfold nextTick at hlater
    omega

theorem halts_of_cron (hat : s.at_ = none) (hevery : s.everySeconds = none) (cursor : DateTime) :
    Halts (s.nextUpTo stop) cursor := by
  refine halts_of_later (fun cursor t h => ?_) cursor
  obtain ⟨hnext, -⟩ := nextUpTo_eq_some.mp h
  unfold nextAfter at hnext
  rw [hat, hevery] at hnext
  obtain ⟨sched, -, hhead⟩ := Option.bind_eq_some_iff.mp hnext
  obtain ⟨hlt, hwhole⟩ :=
    CronCrate.upcoming_later sched s.timezone cursor 1 t (List.mem_of_mem_head? hhead)
  exact ⟨hlt, _, hwhole⟩

/-- **The loop ends** if and only if the schedule is not frozen. -/
theorem halts_nextUpTo_iff (hvalid : s.validate = .ok ()) :
    Halts (s.nextUpTo stop) cursor ↔ ¬ s.Frozen stop := by
  constructor
  · intro h hfrozen
    exact not_halts_of_isSome (nextUpTo_isSome hvalid hfrozen) cursor h
  · intro hnot
    cases hat : s.at_ with
    | some at_ => exact halts_of_at hat cursor
    | none =>
      cases hevery : s.everySeconds with
      | none => exact halts_of_cron hat hevery cursor
      | some every =>
        exact halts_of_interval hat hevery (interval_of_validate hvalid hevery).2 hnot cursor

/-! ## Fuel -/

/-- The schedule fires at `t` on the way from `cursor` to `stop`. -/
def FiresAt (s : Schedule DateTime) (stop cursor t : DateTime) : Prop :=
  Relation.TransGen (fun c u => s.nextUpTo stop c = some u) cursor t

theorem firesAt_iff_of_some {u : DateTime} (h : s.nextUpTo stop cursor = some u) :
    s.FiresAt stop cursor t ↔ t = u ∨ s.FiresAt stop u t := by
  unfold FiresAt
  rw [Relation.TransGen.head'_iff]
  constructor
  · rintro ⟨v, hv, hrest⟩
    obtain rfl := Option.some.inj (h.symm.trans hv)
    exact (Relation.reflTransGen_iff_eq_or_transGen.mp hrest)
  · intro hrest
    exact ⟨u, h, Relation.reflTransGen_iff_eq_or_transGen.mpr hrest⟩

theorem not_firesAt_of_none (h : s.nextUpTo stop cursor = none) : ¬ s.FiresAt stop cursor t := by
  intro hfires
  obtain ⟨u, hu, -⟩ := Relation.TransGen.head'_iff.mp hfires
  rw [h] at hu
  cases hu

theorem fires_mono {fuel fuel' : Nat} (hle : fuel ≤ fuel') {fired : List String}
    (h : s.fires stop fuel cursor = some fired) : s.fires stop fuel' cursor = some fired := by
  induction fuel generalizing fuel' cursor fired with
  | zero => cases h
  | succ fuel ih =>
    obtain ⟨fuel', rfl⟩ : ∃ k, fuel' = k + 1 := ⟨fuel' - 1, by omega⟩
    unfold fires at h ⊢
    split at h
    · rename_i u hu
      obtain ⟨rest, hrest, rfl⟩ := Option.map_eq_some_iff.mp h
      rw [ih (by omega) hrest, Option.map_some]
    · exact h

theorem exists_fires_iff : (∃ fuel fired, s.fires stop fuel cursor = some fired) ↔
    Halts (s.nextUpTo stop) cursor := by
  constructor
  · rintro ⟨fuel, fired, h⟩
    induction fuel generalizing cursor fired with
    | zero => cases h
    | succ fuel ih =>
      unfold fires at h
      split at h
      · rename_i u hu
        obtain ⟨rest, hrest, -⟩ := Option.map_eq_some_iff.mp h
        exact (halts_iff_of_some hu).mpr (ih rest hrest)
      · rename_i hnone
        exact halts_of_none hnone
  · intro h
    induction h with
    | intro cursor _ ih =>
      cases hu : s.nextUpTo stop cursor with
      | none => exact ⟨1, [], by rw [fires, hu]⟩
      | some u =>
        obtain ⟨fuel, fired, hfired⟩ := ih u hu
        exact ⟨fuel + 1, Chrono.minuteOf u :: fired, by
          simp only [fires, hu, hfired, Option.map_some]⟩

theorem mem_fires {fuel : Nat} {fired : List String} (h : s.fires stop fuel cursor = some fired)
    (bucket : String) :
    bucket ∈ fired ↔ ∃ t, s.FiresAt stop cursor t ∧ Chrono.minuteOf t = bucket := by
  induction fuel generalizing cursor fired with
  | zero => cases h
  | succ fuel ih =>
    unfold fires at h
    split at h
    · rename_i u hu
      obtain ⟨rest, hrest, rfl⟩ := Option.map_eq_some_iff.mp h
      rw [List.mem_cons, ih hrest]
      simp only [firesAt_iff_of_some hu, or_and_right, exists_or, exists_eq_left]
      rw [eq_comm]
    · rename_i hnone
      obtain rfl := Option.some.inj h
      simp [not_firesAt_of_none hnone]

end Schedule

/-! ## Collisions -/

namespace Job

variable {job : Job DateTime} {newFires : List String} {stop cursor t : DateTime}

/-- The loop of a job goes on at a fire time that collides with nothing. -/
def quiet (job : Job DateTime) (newFires : List String) (stop cursor : DateTime) :
    Option DateTime :=
  (job.schedule.nextUpTo stop cursor).filter (Chrono.minuteOf · ∉ newFires)

theorem quiet_eq_some : job.quiet newFires stop cursor = some t ↔
    job.schedule.nextUpTo stop cursor = some t ∧ Chrono.minuteOf t ∉ newFires := by
  rw [quiet, Option.filter_eq_some_iff, decide_eq_true_eq]

theorem collision_mono {fuel fuel' : Nat} (hle : fuel ≤ fuel') {answer : Option String}
    (h : job.collision newFires stop fuel cursor = some answer) :
    job.collision newFires stop fuel' cursor = some answer := by
  induction fuel generalizing fuel' cursor with
  | zero => cases h
  | succ fuel ih =>
    obtain ⟨fuel', rfl⟩ : ∃ k, fuel' = k + 1 := ⟨fuel' - 1, by omega⟩
    unfold collision at h ⊢
    split at h
    · split_ifs at h ⊢ with hmem
      · exact h
      · exact ih (by omega) h
    · exact h

theorem exists_collision_iff :
    (∃ fuel answer, job.collision newFires stop fuel cursor = some answer) ↔
    Halts (job.quiet newFires stop) cursor := by
  constructor
  · rintro ⟨fuel, answer, h⟩
    induction fuel generalizing cursor with
    | zero => cases h
    | succ fuel ih =>
      unfold collision at h
      split at h
      · rename_i u hu
        split_ifs at h with hmem
        · exact halts_of_none (by rw [quiet, hu, Option.filter_some_neg (by simpa using hmem)])
        · exact (halts_iff_of_some (quiet_eq_some.mpr ⟨hu, hmem⟩)).mpr (ih h)
      · rename_i hnone
        exact halts_of_none (by rw [quiet, hnone, Option.filter_none])
  · intro h
    induction h with
    | intro cursor _ ih =>
      cases hu : job.schedule.nextUpTo stop cursor with
      | none => exact ⟨1, none, by rw [collision, hu]⟩
      | some u =>
        by_cases hmem : Chrono.minuteOf u ∈ newFires
        · exact ⟨1, some (job.collisionText (Chrono.minuteOf u)), by
            simp only [collision, hu, if_pos hmem]⟩
        · obtain ⟨fuel, answer, hanswer⟩ := ih u (quiet_eq_some.mpr ⟨hu, hmem⟩)
          exact ⟨fuel + 1, answer, by simp only [collision, hu, if_neg hmem, hanswer]⟩

/-- **The loop of a job ends** where its schedule is not frozen, or at a collision. -/
theorem halts_quiet_iff (hvalid : job.schedule.validate = .ok ()) :
    Halts (job.quiet newFires stop) cursor ↔
    (job.schedule.Frozen stop → ∃ t, job.schedule.FiresAt stop cursor t ∧
      Chrono.minuteOf t ∈ newFires) := by
  constructor
  · intro h hfrozen
    induction h with
    | intro cursor _ ih =>
      obtain ⟨u, hu⟩ := Option.isSome_iff_exists.mp (Schedule.nextUpTo_isSome hvalid hfrozen cursor)
      by_cases hmem : Chrono.minuteOf u ∈ newFires
      · exact ⟨u, (Schedule.firesAt_iff_of_some hu).mpr (.inl rfl), hmem⟩
      · obtain ⟨t, ht, hbucket⟩ := ih u (quiet_eq_some.mpr ⟨hu, hmem⟩)
        exact ⟨t, (Schedule.firesAt_iff_of_some hu).mpr (.inr ht), hbucket⟩
  · intro h
    by_cases hfrozen : job.schedule.Frozen stop
    · obtain ⟨t, hfires, hmem⟩ := h hfrozen
      unfold Schedule.FiresAt at hfires
      induction hfires using Relation.TransGen.head_induction_on with
      | single hu =>
        exact halts_of_none (by rw [quiet, hu, Option.filter_some_neg (by simpa using hmem)])
      | @head c u hu _ ih =>
        by_cases hcollides : Chrono.minuteOf u ∈ newFires
        · exact halts_of_none (by rw [quiet, hu, Option.filter_some_neg (by simpa using hcollides)])
        · exact (halts_iff_of_some (quiet_eq_some.mpr ⟨hu, hcollides⟩)).mpr
            (ih fun _ => ⟨t, by assumption, hmem⟩)
    · exact ((Schedule.halts_nextUpTo_iff hvalid).mpr hfrozen).mono fun _ _ hu =>
        (quiet_eq_some.mp hu).1

end Job

/-- The loops of `schedule_collides` end. -/
def Terminates (new : Schedule DateTime) (existing : List (Job DateTime)) (now stop : DateTime) :
    Prop :=
  ∃ fuel collisions, scheduleCollides new existing now stop fuel = some collisions

theorem terminates_iff {new : Schedule DateTime} {existing : List (Job DateTime)}
    (hnew : new.validate = .ok ())
    (hexisting : ∀ job ∈ existing, job.schedule.validate = .ok ()) (now stop : DateTime) :
    Terminates new existing now stop ↔ ¬ new.Frozen stop ∧ ∀ job ∈ existing,
      job.schedule.Frozen stop →
      ∃ t u, job.schedule.FiresAt stop now t ∧ new.FiresAt stop now u ∧
      Chrono.minuteOf u = Chrono.minuteOf t := by
  have hmono :
      ∀ (newFires : List String) (job : Job DateTime) (fuel fuel' : Nat) (answer : Option String),
      fuel ≤ fuel' → job.collision newFires stop fuel now = some answer →
        job.collision newFires stop fuel' now = some answer :=
    fun _ _ _ _ _ hle h => Job.collision_mono hle h
  have hjobs : ∀ {fuel : Nat} {newFires : List String}, new.fires stop fuel now = some newFires →
      ((∃ fuel collisions, (existing.mapM fun job => job.collision newFires stop fuel now) =
        some collisions) ↔
        ∀ job ∈ existing, job.schedule.Frozen stop →
          ∃ t u, job.schedule.FiresAt stop now t ∧ new.FiresAt stop now u ∧
          Chrono.minuteOf u = Chrono.minuteOf t) := by
    intro fuel newFires hfires
    rw [exists_mapM_iff (f := fun fuel (job : Job DateTime) => job.collision newFires stop fuel now)
      (hmono newFires)]
    refine forall₂_congr fun job hjob => ?_
    rw [Job.exists_collision_iff, Job.halts_quiet_iff (hexisting job hjob)]
    simp only [Schedule.mem_fires hfires, exists_and_left]
  rw [← Schedule.halts_nextUpTo_iff hnew, ← Schedule.exists_fires_iff]
  constructor
  · rintro ⟨fuel, collisions, h⟩
    obtain ⟨newFires, hfires, h⟩ := Option.bind_eq_some_iff.mp h
    obtain ⟨answers, hanswers, -⟩ := Option.bind_eq_some_iff.mp h
    exact ⟨⟨fuel, newFires, hfires⟩, (hjobs hfires).mp ⟨fuel, answers, hanswers⟩⟩
  · rintro ⟨⟨fuel, newFires, hfires⟩, hcollide⟩
    obtain ⟨fuel', answers, hanswers⟩ := (hjobs hfires).mpr hcollide
    refine ⟨max fuel fuel', answers.reduceOption, ?_⟩
    have hmapM :=
      mapM_mono (f := fun fuel (job : Job DateTime) => job.collision newFires stop fuel now)
      (hmono newFires) (le_max_right fuel fuel') hanswers
    unfold scheduleCollides
    rw [Schedule.fires_mono (le_max_left _ _) hfires, Option.bind_eq_bind, Option.bind_some, hmapM,
      Option.bind_eq_bind, Option.bind_some]

/-- **Intervals, exactly.**  An accepted interval is exact at a point if and only if its product is
in range there, and the loops over accepted schedules end if and only if the new one is not frozen
and no frozen one fires without a collision. -/
theorem interval_schedules_iff :
    (∀ (s : Schedule DateTime) (every : UInt64), s.validate = .ok () → s.everySeconds = some every →
      ∀ now lookback, s.Exact every.toNat now lookback ↔ s.InRange every.toNat now lookback) ∧
    ∀ (new : Schedule DateTime) (existing : List (Job DateTime)), new.validate = .ok () →
      (∀ job ∈ existing, job.schedule.validate = .ok ()) → ∀ now stop,
        (Terminates new existing now stop ↔ ¬ new.Frozen stop ∧ ∀ job ∈ existing,
          job.schedule.Frozen stop →
          ∃ t u, job.schedule.FiresAt stop now t ∧ new.FiresAt stop now u ∧
            Chrono.minuteOf u = Chrono.minuteOf t) := by
  refine ⟨fun s every hvalid hevery now lookback => ?_,
    fun new existing hnew hexisting now stop => ?_⟩
  · obtain ⟨hat, hpos⟩ := Schedule.interval_of_validate hvalid hevery
    rcases le_or_gt (every.toNat : Int) maxI64 with hle | hover
    · exact Schedule.exact_iff_of_le hat hevery hpos hle
    · exact Schedule.exact_iff_of_lt hat hevery hpos hover
  · exact terminates_iff hnew hexisting now stop

/-! ## Runs on fixed inputs -/

/-- Whole seconds. -/
abbrev SampleTime := {secs : Int // minTimestamp ≤ secs ∧ secs ≤ maxTimestamp}

def sampleFromTimestamp (secs : Int) : Option SampleTime :=
  if h : minTimestamp ≤ secs ∧ secs ≤ maxTimestamp then some ⟨secs, h⟩ else none

theorem sampleFromTimestamp_eq_some {secs : Int} {t : SampleTime} :
    sampleFromTimestamp secs = some t ↔ t.val = secs := by
  unfold sampleFromTimestamp
  constructor
  · intro h
    split at h
    · obtain rfl := Option.some.inj h
      rfl
    · cases h
  · rintro rfl
    rw [dif_pos t.property]

@[reducible] def sampleChrono : Chrono SampleTime where
  toLinearOrder := inferInstance
  timestamp t := t.val
  fromTimestamp := sampleFromTimestamp
  TimeDelta := Int
  checkedSub t delta := sampleFromTimestamp (t.val - delta)
  minuteOf t := toString (t.val / 60)
  timestamp_range t := t.property
  fromTimestamp_isSome secs := by
    unfold sampleFromTimestamp
    split <;> simp_all
  timestamp_fromTimestamp _ _ h := sampleFromTimestamp_eq_some.mp h
  fromTimestamp_le_iff secs t u h := by
    rw [← sampleFromTimestamp_eq_some.mp h]
    rfl

attribute [local instance] sampleChrono

/-- No cron expression is read. -/
@[reducible] def sampleCronCrate : CronCrate SampleTime where
  CronSchedule := Unit
  Tz := Unit
  fromStr _ := none
  tzFromStr _ := none
  utc := ()
  upcoming _ _ _ _ := []
  upcoming_later _ _ _ _ _ h := absurd h List.not_mem_nil

attribute [local instance] sampleCronCrate

def sampleInterval (every : UInt64) (anchor : Int64) : Schedule SampleTime :=
  ⟨"", some every, some anchor, none, none⟩

/-- The beginning of 2026, and two days later. -/
def sampleNow : SampleTime := ⟨1767225600, by decide⟩
def sampleStop : SampleTime := ⟨1767398400, by decide⟩

theorem interval_schedules_iff_sample :
    (sampleInterval 300 60).Exact 300 sampleNow (3600 : Int) ∧
      Terminates (sampleInterval 300 60)
      [⟨"j", "job", sampleInterval 420 0, []⟩] sampleNow sampleStop := by
  have hvalid : (sampleInterval 300 60).validate = .ok () := rfl
  have hnot : ∀ every anchor, anchor.toInt + maxI64 >
      sampleStop.val → ¬ (sampleInterval every anchor).Frozen sampleStop := by
    rintro every anchor hbeyond ⟨_, _, _, hle⟩
    exact absurd hle (not_le.mpr hbeyond)
  refine ⟨(interval_schedules_iff.1 (sampleInterval 300 60) 300 hvalid rfl sampleNow
    (3600 : Int)).mpr ?_,
    (interval_schedules_iff.2 (sampleInterval 300 60)
      [⟨"j", "job", sampleInterval 420 0, []⟩] hvalid ?_ sampleNow
      sampleStop).mpr ⟨hnot 300 60 (by decide), ?_⟩⟩
  · refine ⟨⟨1767222000, by decide⟩, by decide, ?_⟩
    rw [if_pos (by decide)]
    decide
  · intro job hjob
    obtain rfl := List.mem_singleton.mp hjob
    rfl
  · intro job hjob hfrozen
    obtain rfl := List.mem_singleton.mp hjob
    exact absurd hfrozen (hnot 420 0 (by decide))

/-- Every thirty seconds from the least anchor that `validate` accepts: what comes next in 2026 is
the end of 1969, and the loop of the collision check stays there. -/
theorem interval_stands_still :
    (sampleInterval 30 Int64.minValue).validate = .ok () ∧
      ((sampleInterval 30 Int64.minValue).nextAfter sampleNow).map (·.val) = some (-1) ∧
      ¬ (sampleInterval 30 Int64.minValue).Exact 30 sampleNow (3600 : Int) ∧
      ¬ Terminates (sampleInterval 30 Int64.minValue) [] sampleNow sampleStop := by
  have hvalid : (sampleInterval 30 Int64.minValue).validate = .ok () := rfl
  have hfrozen : (sampleInterval 30 Int64.minValue).Frozen sampleStop :=
    ⟨30, rfl, by decide, by decide⟩
  refine ⟨hvalid, by decide, ?_, ?_⟩
  · intro h
    have hrange : (sampleInterval 30 Int64.minValue).InRange 30 sampleNow (3600 : Int) :=
      (Schedule.exact_iff_of_le rfl rfl (show 30 ≤ (30 : UInt64).toNat by decide) (by decide)).mp h
    obtain ⟨windowStart, -, hfits⟩ := hrange
    rw [if_pos (by decide)] at hfits
    exact absurd hfits (by decide)
  · intro h
    exact ((terminates_iff hvalid (by simp) sampleNow sampleStop).mp h).1 hfrozen

end Neoth.Cron
