import Neoth.Lib.TreeMap
import Neoth.Memory.Indexer

/-!
# The memory tiers

`memory/consolidate.rs`, `memory/integrity.rs` and `memory/hippocampus.rs`: an episode is hot, then
warm (`idx_consolidated`), then cold (`idx_longterm`), or it is forgotten on the way.

* `TierDb.checkIntegrity`: no event id in two tiers;
* `TierDb.runConsolidationPassWithHippocampus`: decay, then the three moves, then the membership;
* `TierDb.promoteSelectedHotToWarm`: the moves of a dream.

The text of a date is a parameter.  A clock value is an `i64`, and what is subtracted from it wraps
around as it does in a release build.
-/

open Std Lib Lib.Transaction Neoth.Wal

namespace Neoth.Memory

/-! ## Rows -/

def forgetFloor : ℚ := 10 / 100
def promotionThreshold : ℚ := 65 / 100
def importanceSelectionThreshold : ℚ := 75 / 100

inductive Tier
  | hot
  | warm
  | cold
  deriving DecidableEq

def Tier.decayFactor : Tier → ℚ
  | .hot => 97 / 100
  | .warm => 99 / 100
  | .cold => 997 / 1000

inductive Kind
  | summary
  | retained

structure Consolidated where
  id : Nat
  kind : Kind
  day : String
  eventId : Option Int
  text : String
  textHash : String
  importance : ℚ
  trust : Int
  consolidatedTs : Int
  lastAccessTs : Int
  accessCount : Nat

structure Longterm where
  eventId : Int
  text : String
  textHash : String
  importance : ℚ
  trust : Int
  promotedTs : Int
  lastAccessTs : Int
  archivePath : Option String
  accessCount : Nat

/-- A row of `idx_hippocampus`. -/
structure Membership where
  eventId : Int
  selectedAtNs : Int

/-- `indexed`: the event ids of the frames that were indexed. -/
structure TierDb (O : Type) where
  views : Views O
  warm : AutoTable Consolidated.id
  cold : Table Longterm.eventId
  hippocampus : Table Membership.eventId
  indexed : List Int

namespace TierDb

variable {O : Type}

def hot (db : TierDb O) : Table Episode.eventId := db.views.episodes

def withHot (db : TierDb O) (hot : Table Episode.eventId) : TierDb O :=
  { db with views := { db.views with episodes := hot } }

@[simp] theorem hot_withHot (db : TierDb O) (hot : Table Episode.eventId) :
    (db.withHot hot).hot = hot := rfl
@[simp] theorem warm_withHot (db : TierDb O) (hot : Table Episode.eventId) :
    (db.withHot hot).warm = db.warm := rfl
@[simp] theorem cold_withHot (db : TierDb O) (hot : Table Episode.eventId) :
    (db.withHot hot).cold = db.cold := rfl
@[simp] theorem hippocampus_withHot (db : TierDb O) (hot : Table Episode.eventId) :
    (db.withHot hot).hippocampus = db.hippocampus := rfl
@[simp] theorem indexed_withHot (db : TierDb O) (hot : Table Episode.eventId) :
    (db.withHot hot).indexed = db.indexed := rfl

/-! ## Integrity -/

structure IntegrityReport where
  ok : Bool
  issues : List String

/-- The event ids of the warm tier. -/
def warmIds (db : TierDb O) : List Int := db.warm.rows.filterMap (·.eventId)

/-- How many positive ids are in both lists. -/
def intersectCount (a b : List Int) : Nat := ((a.filter (0 < ·)).dedup.filter (· ∈ b)).length

def checkIntegrity (db : TierDb O) : IntegrityReport :=
  let hot := db.hot.rows.map (·.eventId)
  let cold := db.cold.rows.map (·.eventId)
  let hotWarm := intersectCount hot db.warmIds
  let hotCold := intersectCount hot cold
  let warmCold := intersectCount db.warmIds cold
  let dupWarm := (db.warmIds.dedup.filter fun id => 1 < db.warmIds.count id).length
  let issues :=
    (if 0 < hotWarm then
      [s!"{hotWarm} event_id(s) live in BOTH idx_episode and idx_consolidated (hot→warm " ++
      "consolidation should have deleted the hot row)"] else []) ++
    (if 0 < hotCold then [s!"{hotCold} event_id(s) live in BOTH idx_episode and idx_longterm"]
      else []) ++
    (if 0 < warmCold then
      [s!"{warmCold} event_id(s) live in BOTH idx_consolidated and idx_longterm (warm→cold " ++
      "promotion should have deleted the warm row)"] else []) ++
    (if 0 < dupWarm then [s!"{dupWarm} event_id(s) appear MORE THAN ONCE in idx_consolidated " ++
      "(double-consolidation)"] else [])
  ⟨issues.isEmpty, issues⟩

end TierDb

/-! ## Days -/

/-- `DateTime::<Utc>::from_timestamp(secs, 0)`, as `%Y-%m-%d`. -/
class Chrono where
  formatDay : Int → Option String

def tsToDayString [Chrono] (tsNs : Int) : String :=
  (Chrono.formatDay (tsNs.tdiv 1000000000)).getD "1970-01-01"

/-- The `CHECK` of the column `day`. -/
def checkDay (day : String) : Bool :=
  match day.toList with
  | [y₁, y₂, y₃, y₄, '-', m₁, m₂, '-', d₁, d₂] =>
    let number (a b : Char) := 10 * (a.toNat - 48) + (b.toNat - 48)
    [y₁, y₂, y₃, y₄, m₁, m₂, d₁, d₂].all Char.isDigit && decide (m₁ ≤ '1') && decide (d₁ ≤ '3') &&
      decide (1 ≤ number m₁ m₂ ∧ number m₁ m₂ ≤ 12) && decide (1 ≤ number d₁ d₂ ∧ number d₁ d₂ ≤ 31)
  | _ => false

/-- The `CHECK` of the column `trust`. -/
def checkTrust (trust : Int) : Bool := 0 ≤ trust ∧ trust ≤ 2

/-! ## Moves -/

/-- The warm row of an episode. -/
def retain (e : Episode) (day : String) (nowNs : Int) (id : Nat) : Consolidated :=
  ⟨id, .retained, day, some e.eventId, e.text, e.textHash, e.importance, e.trust, nowNs, nowNs,
    e.accessCount⟩

def insertRetained (warm : AutoTable Consolidated.id) (e : Episode) (day : String) (nowNs : Int) :
    Except String (AutoTable Consolidated.id) := do
  require (checkDay day && checkTrust e.trust) "CHECK constraint failed: idx_consolidated"
  pure (warm.insert (retain e day nowNs) fun _ => rfl)

/-- The cold row of a warm one; a summary has no event, and gets an id of its own. -/
def promote (w : Consolidated) (nowNs : Int) : Longterm :=
  ⟨w.eventId.getD (-w.id - 1), w.text, w.textHash, w.importance, w.trust, nowNs, nowNs, none,
    w.accessCount⟩

structure PreDecayRow where
  eventId : Int
  tsNs : Int
  text : String
  importance : ℚ

structure PassReport where
  hotDecayed : Nat
  autoPinned : Nat
  consolidated : Nat
  hotArchived : Nat
  promoted : Nat
  warmArchived : Nat
  warmDecayed : Nat
  coldDecayed : Nat
  coldSwept : Nat
  hippocampusSelected : Nat
  hippocampusRemoved : Nat
  preDecayDrafted : Nat
  integrityIssues : List String
  daysNeedingSummary : ExtTreeMap String (List (Int × String))

/-- `PassReport::default()`. -/
def PassReport.empty : PassReport := ⟨0, 0, 0, 0, 0, 0, 0, 0, 0, 0, 0, 0, [], ∅⟩

namespace TierDb

variable {O : Type}

/-- The loop of `promote_selected_hot_to_warm`. -/
def promoteSelectedHotToWarm (day : String) (nowNs : Int) (db : TierDb O) :
    List (Int × String) → Except String (TierDb O × Nat)
  | [] => .ok (db, 0)
  | (eventId, expectedHash) :: inputs => do
    let e ← context (db.hot.find eventId) s!"Dream Light input {eventId} is no longer hot"
    require (!e.pinned) s!"Dream Light input {eventId} became pinned"
    require (e.textHash == expectedHash) s!"Dream Light input {eventId} text hash changed"
    require (!db.warmIds.contains eventId) s!"Dream Light input {eventId} already has a warm row"
    let warm ← insertRetained db.warm e day nowNs
    let db := { db.withHot (db.hot.delete fun row => row.eventId = eventId) with warm }
    let (db, moved) ← promoteSelectedHotToWarm day nowNs db inputs
    pure (db, moved + 1)

/-! ## Decay -/

/-- The episodes that a pass pins before it decays the others. -/
def autoPins (e : Episode) : Bool := e.trust = 2 ∧ 90 / 100 ≤ e.importance ∧ e.pinned = false

def autoPin (db : TierDb O) : TierDb O :=
  db.withHot (db.hot.update autoPins (fun e => { e with pinned := true }) fun _ => rfl)

def decay (db : TierDb O) : TierDb O :=
  { db.withHot (db.hot.update (fun e => e.pinned = false)
      (fun e => { e with importance := e.importance * Tier.hot.decayFactor }) fun _ => rfl) with
    warm := db.warm.update (fun _ => true)
      (fun w => { w with importance := w.importance * Tier.warm.decayFactor }) fun _ => rfl
    cold := db.cold.update (fun _ => true)
      (fun c => { c with importance := c.importance * Tier.cold.decayFactor }) fun _ => rfl }

/-! ## Hot to warm -/

structure HotSweep (O : Type) where
  db : TierDb O
  consolidated : Nat
  hotArchived : Nat
  forgotten : List PreDecayRow
  dayEvents : ExtTreeMap String (List (Int × String))

def dayNs : Int64 := 86400 * 1000000000

section Pass
variable [Chrono]

def sweepHotRow (exports : Bool) (nowNs : Int) (st : HotSweep O) (e : Episode) :
    Except String (HotSweep O) :=
  let hot := st.db.hot.delete fun row => row.eventId = e.eventId
  if e.importance < forgetFloor then
    pure { st with
      db := st.db.withHot hot
      hotArchived := st.hotArchived + 1
      forgotten := if exports then st.forgotten ++ [⟨e.eventId, e.tsNs, e.text, e.importance⟩]
        else st.forgotten }
  else do
    let day := tsToDayString e.tsNs
    let warm ← insertRetained st.db.warm e day nowNs
    pure { st with
      db := { st.db.withHot hot with warm }
      consolidated := st.consolidated + 1
      dayEvents := st.dayEvents.insert day ((st.dayEvents[day]?).getD [] ++ [(e.eventId, e.text)]) }

/-- The unpinned episodes that are older than seven days. -/
def agedHot (nowNs : Int64) (e : Episode) : Bool := e.tsNs < (nowNs - 7 * dayNs).toInt ∧
    e.pinned = false

def sweepHot (exports : Bool) (nowNs : Int64) (db : TierDb O) : Except String (HotSweep O) :=
  (db.hot.rows.filter (agedHot nowNs)).foldlM (sweepHotRow exports nowNs.toInt) ⟨db, 0, 0, [], ∅⟩

/-! ## Warm to cold -/

structure WarmSweep (O : Type) where
  db : TierDb O
  promoted : Nat
  warmArchived : Nat

omit [Chrono] in
def sweepWarmRow (nowNs : Int) (st : WarmSweep O) (w : Consolidated) :
    Except String (WarmSweep O) :=
  let warm := st.db.warm.delete fun row => row.id = w.id
  if promotionThreshold ≤ w.importance then do
    require (checkTrust w.trust) "CHECK constraint failed: idx_longterm"
    pure { st with
      db := { st.db with warm, cold := st.db.cold.put (promote w nowNs) }
      promoted := st.promoted + 1 }
  else pure { st with db := { st.db with warm }, warmArchived := st.warmArchived + 1 }

/-- The rows whose day is more than ninety days ago. -/
def agedWarm (nowNs : Int64) (w : Consolidated) : Bool :=
  w.day < tsToDayString (nowNs - 90 * dayNs).toInt

def sweepWarm (nowNs : Int64) (db : TierDb O) : Except String (WarmSweep O) :=
  (db.warm.rows.filter (agedWarm nowNs)).foldlM (sweepWarmRow nowNs.toInt) ⟨db, 0, 0⟩

/-! ## The hippocampus -/

/-- The rows of all tiers that have an event. -/
def live (db : TierDb O) : List (Int × ℚ) :=
  db.hot.rows.map (fun e => (e.eventId, e.importance)) ++
    db.warm.rows.filterMap (fun w => w.eventId.map fun id => (id, w.importance)) ++
    db.cold.rows.map fun c => (c.eventId, c.importance)

/-- Is a live row of this event at or above the threshold? -/
def selects (db : TierDb O) (eventId : Int) : Bool :=
  db.live.any fun row => row.1 = eventId ∧ importanceSelectionThreshold ≤ row.2

/-- The new members of `reconcile`. -/
def selectMembers (db : TierDb O) (selectedAtNs : Int) : Table Membership.eventId :=
  (db.live.filter fun row => importanceSelectionThreshold ≤ row.2).foldl
    (fun members row => members.insertOrIgnore ⟨row.1, selectedAtNs⟩) db.hippocampus

/-- `hippocampus::reconcile`, with the numbers of new and of removed members. -/
def reconcile (db : TierDb O) (selectedAtNs : Int) : TierDb O × Nat × Nat :=
  let selected := db.selectMembers selectedAtNs
  ({ db with hippocampus := selected.delete fun m => !db.selects m.eventId },
    selected.rows.length - db.hippocampus.rows.length, selected.count fun m =>
      !db.selects m.eventId)

/-! ## The pass -/

/-- `run_consolidation_pass_with_hippocampus`; `vault` is `write_pre_decay_drafts`, where a vault is
configured. -/
def runConsolidationPassWithHippocampus (nowNs : Int64) (vault : Option (List PreDecayRow → Nat))
    (hippocampusEnabled : Bool) (db : TierDb O) : Except String (TierDb O × PassReport) :=
  let integrity := db.checkIntegrity
  if !integrity.ok then .ok (db, { PassReport.empty with integrityIssues := integrity.issues })
  else do
    let pinned := db.autoPin
    let decayed := pinned.decay
    let hotSweep ← decayed.sweepHot vault.isSome nowNs
    let warmSweep ← hotSweep.db.sweepWarm nowNs
    let floor (c : Longterm) : Bool := c.importance < forgetFloor
    let swept := { warmSweep.db with cold := warmSweep.db.cold.delete floor }
    let (final, selected, removed) := if hippocampusEnabled then swept.reconcile nowNs.toInt
      else (swept, 0, 0)
    pure (final, {
      autoPinned := db.hot.count autoPins
      hotDecayed := pinned.hot.count fun e => e.pinned = false
      warmDecayed := pinned.warm.rows.length
      coldDecayed := pinned.cold.rows.length
      consolidated := hotSweep.consolidated
      hotArchived := hotSweep.hotArchived
      promoted := warmSweep.promoted
      warmArchived := warmSweep.warmArchived
      coldSwept := warmSweep.db.cold.count floor
      hippocampusSelected := selected
      hippocampusRemoved := removed
      preDecayDrafted := match vault with
        | none => 0
        | some write => if hotSweep.forgotten = [] then 0 else write hotSweep.forgotten
      integrityIssues := []
      daysNeedingSummary := hotSweep.dayEvents })

end Pass

/-! ## Marks -/

/-- `set_episode_pinned`. -/
def setEpisodePinned (db : TierDb O) (eventId : Int) (pinned : Bool) : TierDb O × Nat :=
  (db.withHot (db.hot.update (fun e => e.eventId = eventId) (fun e => { e with pinned })
    fun _ => rfl), db.hot.count fun e => e.eventId = eventId)

/-- `increment_access_at_tier`; a summary is found by its negative id. -/
def incrementAccessAtTier (db : TierDb O) (eventId : Int) : Tier → TierDb O × Nat
  | .hot => (db.withHot (db.hot.update (fun e => e.eventId = eventId)
      (fun e => { e with accessCount := e.accessCount + 1 }) fun _ => rfl), db.hot.count fun e =>
        e.eventId = eventId)
  | .warm => ({ db with
      warm := db.warm.update (fun w => w.eventId.getD (-w.id) = eventId)
        (fun w => { w with accessCount := w.accessCount + 1 }) fun _ => rfl },
      db.warm.rows.countP fun w => w.eventId.getD (-w.id) = eventId)
  | .cold => ({ db with
      cold := db.cold.update (fun c => c.eventId = eventId)
        (fun c => { c with accessCount := c.accessCount + 1 }) fun _ =>
          rfl }, db.cold.count fun c => c.eventId = eventId)

end TierDb

end Neoth.Memory
