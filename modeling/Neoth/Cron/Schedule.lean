import Neoth.Lib.Text
import Neoth.Lib.Ticks
import Neoth.Lib.Transaction

/-!
# Cron schedules

`Schedule` of `cron/schema.rs`, its `validate`, `next_after` and `latest_due`, and the loops of
`schedule_collides`. What the crates `chrono` and `cron` do is a parameter.
-/

open Lib.Encoding Lib.Ticks Lib.Transaction

namespace Neoth.Cron

def minI64 : Int := -2 ^ 63
def maxI64 : Int := 2 ^ 63 - 1

/-- `DateTime::<Utc>::MIN_UTC` and `MAX_UTC`, in seconds. -/
def minTimestamp : Int := -8334601228800
def maxTimestamp : Int := 8210266876799

/-- `DateTime<Utc>` of `chrono`. -/
class Chrono (DateTime : Type) extends LinearOrder DateTime where
  /-- The whole seconds, rounded down. -/
  timestamp : DateTime → Int
  /-- `DateTime::from_timestamp(secs, 0)`. -/
  fromTimestamp : Int → Option DateTime
  TimeDelta : Type
  checkedSub : DateTime → TimeDelta → Option DateTime
  /-- `format("%Y-%m-%dT%H:%M")`. -/
  minuteOf : DateTime → String
  timestamp_range : ∀ t, minTimestamp ≤ timestamp t ∧ timestamp t ≤ maxTimestamp
  fromTimestamp_isSome : ∀ secs, (fromTimestamp secs).isSome ↔
    minTimestamp ≤ secs ∧ secs ≤ maxTimestamp
  timestamp_fromTimestamp : ∀ secs t, fromTimestamp secs = some t → timestamp t = secs
  /-- The first instant of its second. -/
  fromTimestamp_le_iff : ∀ secs t u, fromTimestamp secs = some t → (t ≤ u ↔ secs ≤ timestamp u)

/-- Cron expressions and the names of time zones. -/
class CronCrate (DateTime : Type) [Chrono DateTime] where
  CronSchedule : Type
  Tz : Type
  /-- `cron::Schedule::from_str`. -/
  fromStr : String → Option CronSchedule
  tzFromStr : String → Option Tz
  utc : Tz
  /-- The first instants of `after`. -/
  upcoming : CronSchedule → Tz → DateTime → Nat → List DateTime
  /-- What comes next comes later, and is a whole second. -/
  upcoming_later : ∀ sched tz now n t, t ∈ upcoming sched tz now n →
    now < t ∧ Chrono.fromTimestamp (Chrono.timestamp t) = some t

structure Schedule (DateTime : Type) where
  cron : String
  everySeconds : Option UInt64
  anchorUnix : Option Int64
  at_ : Option DateTime
  tz : Option String

/-- What the scheduler reads of a job. -/
structure Job (DateTime : Type) where
  id : String
  name : String
  schedule : Schedule DateTime
  dependsOn : List String

/-- `i64::try_from`. -/
def i64FromU64 (n : UInt64) : Option Int := if (n.toNat : Int) ≤ maxI64 then some n.toNat else none

def saturatingAdd (a b : Int) : Int := saturate minI64 maxI64 (a + b)
def saturatingSub (a b : Int) : Int := saturate minI64 maxI64 (a - b)
def saturatingMul (a b : Int) : Int := saturate minI64 maxI64 (a * b)

namespace Schedule

variable {DateTime : Type} [Chrono DateTime] [CronCrate DateTime] (s : Schedule DateTime)

def parse : Except String (CronCrate.CronSchedule DateTime) := do
  require (!Lib.Text.isBlank s.cron.toList) "schedule is not a cron expression"
  let normalized := if (Lib.Text.splitWhitespace s.cron.toList).length == 5 then "0 " ++ s.cron
    else s.cron
  context (CronCrate.fromStr normalized) ("parse cron expression `" ++ s.cron ++ "`")

/-- `Self::parse` and the time zone. -/
def validateCron : Except String Unit := do
  let _ ← s.parse
  require (s.tz.all fun tz => (CronCrate.tzFromStr tz : Option (CronCrate.Tz DateTime)).isSome)
    ("invalid tz `" ++ s.tz.getD "" ++ "`")

def validate : Except String Unit := do
  let isCron := !Lib.Text.isBlank s.cron.toList
  require (isCron.toNat + s.everySeconds.isSome.toNat + s.at_.isSome.toNat == 1)
    "exactly one schedule field is required: cron, every_seconds, or at"
  if isCron then s.validateCron else
    require s.tz.isNone "schedule.tz is valid only with schedule.cron"
  match s.everySeconds with
  | some every => require (30 ≤ every) "schedule.every_seconds must be at least 30"
  | none => require s.anchorUnix.isNone "schedule.anchor_unix requires schedule.every_seconds"

def timezone : CronCrate.Tz DateTime := (s.tz.bind CronCrate.tzFromStr).getD CronCrate.utc

/-- The anchor; the Unix epoch where there is none. -/
def anchor : Int := (s.anchorUnix.map Int64.toInt).getD 0

def nextAfter (now : DateTime) : Option DateTime :=
  match s.at_ with
  | some at_ => if now < at_ then some at_ else none
  | none =>
    match s.everySeconds with
    | some every => do
      let every ← i64FromU64 every
      let elapsed := saturatingSub (Chrono.timestamp now) s.anchor
      let steps := if elapsed < 0 then 0 else saturatingAdd (elapsed / every) 1
      let next := saturatingAdd s.anchor (saturatingMul steps every)
      Chrono.fromTimestamp next
    | none => do
      let sched ← s.parse.toOption
      (CronCrate.upcoming sched s.timezone now 1).head?

/-- Where the window cannot be represented, the subtraction panics. -/
def latestDue (now : DateTime) (lookback : Chrono.TimeDelta DateTime) :
    Except String (Option DateTime) := do
  let windowStart ← context (Chrono.checkedSub now lookback) "`DateTime - TimeDelta` overflowed"
  match s.at_ with
  | some at_ => .ok (if at_ ≤ now ∧ windowStart < at_ then some at_ else none)
  | none =>
    match s.everySeconds with
    | some every => .ok do
      let every ← i64FromU64 every
      if Chrono.timestamp now < s.anchor then none
      else
        let steps := saturatingSub (Chrono.timestamp now) s.anchor / every
        let due ← Chrono.fromTimestamp (saturatingAdd s.anchor (saturatingMul steps every))
        if windowStart < due then some due else none
    | none => .ok do
      let sched ← s.parse.toOption
      ((CronCrate.upcoming sched s.timezone windowStart 128).filter (· ≤ now)).getLast?

/-- The guard of both loops: the next fire time, up to `stop`. -/
def nextUpTo (stop cursor : DateTime) : Option DateTime := (s.nextAfter cursor).filter (· ≤ stop)

/-- The loop over the fire times of a schedule: the minutes that they are in. -/
def fires (stop : DateTime) : Nat → DateTime → Option (List String)
  | 0, _ => none
  | fuel + 1, cursor =>
    match s.nextUpTo stop cursor with
    | some t => (fires stop fuel t).map (Chrono.minuteOf t :: ·)
    | none => some []

end Schedule

section
variable {DateTime : Type} [Chrono DateTime] [CronCrate DateTime]

def Job.collisionText (job : Job DateTime) (bucket : String) : String :=
  "fires at the same minute as job `" ++ job.id ++ "` (" ++ job.name ++ "): " ++ bucket ++
    " — consider staggering by 1–5 min"

/-- The loop over the fire times of a job: it ends at the first collision. -/
def Job.collision (job : Job DateTime) (newFires : List String) (stop : DateTime) :
    Nat → DateTime → Option (Option String)
  | 0, _ => none
  | fuel + 1, cursor =>
    match job.schedule.nextUpTo stop cursor with
    | some t =>
      if Chrono.minuteOf t ∈ newFires then some (some (job.collisionText (Chrono.minuteOf t)))
      else job.collision newFires stop fuel t
    | none => some none

/-- `schedule_collides` from `now` to the end of the horizon; each loop may take `fuel` turns. -/
def scheduleCollides (new : Schedule DateTime) (existing : List (Job DateTime))
    (now stop : DateTime) (fuel : Nat) : Option (List String) := do
  let newFires ← new.fires stop fuel now
  let collisions ← existing.mapM fun job => job.collision newFires stop fuel now
  some collisions.reduceOption

end

end Neoth.Cron
