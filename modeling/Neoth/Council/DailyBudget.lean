import Neoth.Lib.Machine
import Neoth.Lib.TreeMap

/-!
# The daily budget of the council

`council/daily_budget.rs`: a ledger of one UTC day, shared by processes under a lock.  A reservation
is charged in full before its work is dispatched; a settlement replaces the charge by the actual
cost, a release takes it back. The first reservation of a later day starts a new ledger, and what is
left from the day before is forgotten.

* `DailyBudgetPlan.reserveIn`, `DailyBudgetReservation.settleIn`, `releaseIn`: the changes of a
  ledger;
* `updateLedgerInner`: one access to the file;
* `BudgetSystem.step`: calls of all processes, with the work that has been admitted;
* `reserveIn_spec`, `settleIn_spec`, `releaseIn_spec`, `updateLedgerInner_cases`: what each can do.
-/

open Std Lib.Encoding Lib.Machine Lib.TreeMap

namespace Neoth.Council

/-! ## The ledger -/

def ledgerSchemaVersion : Nat := 1

def secondsPerUtcDay : Int := 86400

structure PendingReservation where
  provider : String
  model : String
  reservedUsdNanos : UInt64
  createdAtUnix : Int

structure DailyBudgetLedger where
  schemaVersion : Nat
  utcDay : Int
  settledUsdNanos : UInt64
  pending : ExtTreeMap String PendingReservation

/-- What `reserve` reads of a `DailyBudgetReservationPlan`, the cap of its policy among it. -/
structure DailyBudgetPlan where
  capUsdNanos : UInt64
  reservationId : String
  provider : String
  model : String
  reservedUsdNanos : UInt64

structure DailyBudgetReservation where
  reservationId : String
  utcDay : Int
  reservedUsdNanos : UInt64

inductive BudgetError
  | unsupportedSchema (version expected : Nat)
  | totalOverflow
  | futureDay (ledgerDay currentDay : Int)
  | duplicateReservation (id : String)
  | reservationOverflow
  | capExceeded (committed reserve cap : UInt64)
  | dayPrecedes (ledgerDay reservationDay : Int)
  | dayDoesNotMatch (ledgerDay reservationDay : Int)
  | disappeared (id : String)
  | changed (id : String)
  | settledOverflow
  /-- The reported cost is no finite amount that fits. -/
  | invalidCost
  | missing
  | lock
  | read
  | write

def utcDay (nowUnix : Int) : Int := nowUnix / secondsPerUtcDay

namespace DailyBudgetLedger

def empty (utcDay : Int) : DailyBudgetLedger := ⟨ledgerSchemaVersion, utcDay, 0, ∅⟩

def committedUsdNanos (ledger : DailyBudgetLedger) : Except BudgetError UInt64 :=
  match ledger.pending.toList.foldlM (fun total entry => checkedAdd total entry.2.reservedUsdNanos)
      ledger.settledUsdNanos with
  | some total => .ok total
  | none => .error .totalOverflow

def validate (ledger : DailyBudgetLedger) : Except BudgetError Unit :=
  if ledger.schemaVersion ≠ ledgerSchemaVersion then
    .error (.unsupportedSchema ledger.schemaVersion ledgerSchemaVersion)
  else
    match ledger.committedUsdNanos with
    | .ok _ => .ok ()
    | .error e => .error e

/-- What the ledger has committed, without a bound on the numbers. -/
def committed (ledger : DailyBudgetLedger) : Nat :=
  ledger.settledUsdNanos.toNat + total (fun p => p.reservedUsdNanos.toNat) ledger.pending

theorem committedUsdNanos_eq_ok_iff (ledger : DailyBudgetLedger) (t : UInt64) :
    ledger.committedUsdNanos = .ok t ↔ t.toNat = ledger.committed := by
  have h := foldlM_checkedAdd_eq_some_iff
    (fun p : PendingReservation => p.reservedUsdNanos) ledger.pending ledger.settledUsdNanos t
  rw [committed, ← h, committedUsdNanos]
  cases ledger.pending.toList.foldlM (fun total entry => checkedAdd total entry.2.reservedUsdNanos)
      ledger.settledUsdNanos with
  | none => simp
  | some n => simp

theorem validate_eq_ok_iff (ledger : DailyBudgetLedger) :
    ledger.validate = .ok () ↔ ledger.schemaVersion = ledgerSchemaVersion ∧
    ledger.committed < 2 ^ 64 := by
  have hfit : (∃ t, ledger.committedUsdNanos = .ok t) ↔ ledger.committed < 2 ^ 64 := by
    simp only [committedUsdNanos_eq_ok_iff]
    constructor
    · rintro ⟨t, ht⟩
      rw [← ht]
      exact t.toNat_lt
    · intro hlt
      exact ⟨UInt64.ofNat ledger.committed, UInt64.toNat_ofNat_of_lt' hlt⟩
  rw [← hfit, validate]
  by_cases hschema : ledger.schemaVersion = ledgerSchemaVersion
  · cases ledger.committedUsdNanos <;> simp [hschema]
  · simp [hschema]

end DailyBudgetLedger

/-! ## What a call does to the ledger -/

/-- The mutation of `reserve`. -/
def DailyBudgetPlan.reserveIn (plan : DailyBudgetPlan) (nowUnix : Int)
    (ledger : DailyBudgetLedger) : Except BudgetError DailyBudgetLedger :=
  if utcDay nowUnix < ledger.utcDay then .error (.futureDay ledger.utcDay (utcDay nowUnix))
  else
    let ledger := if ledger.utcDay < utcDay nowUnix then .empty (utcDay nowUnix) else ledger
    if plan.reservationId ∈ ledger.pending then .error (.duplicateReservation plan.reservationId)
    else
      match ledger.committedUsdNanos with
      | .error e => .error e
      | .ok committed =>
        match checkedAdd committed plan.reservedUsdNanos with
        | none => .error .reservationOverflow
        | some projected =>
          if plan.capUsdNanos < projected then
            .error (.capExceeded committed plan.reservedUsdNanos plan.capUsdNanos)
          else
            .ok { ledger with
              pending := ledger.pending.insert plan.reservationId
                ⟨plan.provider, plan.model, plan.reservedUsdNanos, nowUnix⟩ }

/-- The mutation of `settle`. -/
def DailyBudgetReservation.settleIn (reservation : DailyBudgetReservation) (actual : UInt64)
    (ledger : DailyBudgetLedger) : Except BudgetError DailyBudgetLedger :=
  -- the day of the admission is over: its ledger is gone, and the new one is not charged
  if reservation.utcDay < ledger.utcDay then .ok ledger
  else if ledger.utcDay < reservation.utcDay then
    .error (.dayPrecedes ledger.utcDay reservation.utcDay)
  else
    match ledger.pending[reservation.reservationId]? with
    | none => .error (.disappeared reservation.reservationId)
    | some pending =>
      if pending.reservedUsdNanos ≠ reservation.reservedUsdNanos
        then .error (.changed reservation.reservationId)
      else
        match checkedAdd ledger.settledUsdNanos actual with
        | none => .error .settledOverflow
        | some settled =>
          .ok { ledger with
            settledUsdNanos := settled, pending := ledger.pending.erase reservation.reservationId }

/-- The mutation of `release_before_dispatch`. -/
def DailyBudgetReservation.releaseIn (reservation : DailyBudgetReservation)
    (ledger : DailyBudgetLedger) : Except BudgetError DailyBudgetLedger :=
  if reservation.utcDay < ledger.utcDay then .ok ledger
  else if ledger.utcDay ≠ reservation.utcDay then
    .error (.dayDoesNotMatch ledger.utcDay reservation.utcDay)
  else
    match ledger.pending[reservation.reservationId]? with
    | none => .error (.disappeared reservation.reservationId)
    | some pending =>
      if pending.reservedUsdNanos ≠ reservation.reservedUsdNanos
        then .error (.changed reservation.reservationId)
      else .ok { ledger with pending := ledger.pending.erase reservation.reservationId }

/-- Where an access to the file fails; a failed write leaves the file as it was. -/
inductive Fault
  | lock
  | read
  | write
  deriving DecidableEq

def Fault.error : Fault → BudgetError
  | .lock => .lock
  | .read => .read
  | .write => .write

/-- `i64::MIN`, a day before all others. -/
def minUtcDay : Int := -2 ^ 63

/-- `load_existing`, and a new ledger for a reservation that finds no file. -/
def loadLedger (file : Option DailyBudgetLedger) (allowMissing : Bool) :
    Except BudgetError DailyBudgetLedger :=
  match file with
  | some ledger =>
    match ledger.validate with
    | .ok () => .ok ledger
    | .error e => .error e
  | none => if allowMissing then .ok (.empty minUtcDay) else .error .missing

def updateLedgerInner (file : Option DailyBudgetLedger) (fault : Option Fault) (allowMissing : Bool)
    (mutation : DailyBudgetLedger → Except BudgetError DailyBudgetLedger) :
    Option DailyBudgetLedger × Except BudgetError Unit :=
  if fault = some .lock then (file, .error .lock)
  else if fault = some .read then (file, .error .read)
  else
    match loadLedger file allowMissing with
    | .error e => (file, .error e)
    | .ok ledger =>
      match mutation ledger with
      | .error e => (file, .error e)
      | .ok ledger =>
        match ledger.validate with
        | .error e => (file, .error e)
        | .ok () => if fault = some .write then (file, .error .write) else (some ledger, .ok ())

/-! ## The calls of all processes -/

/-- What a provider reports: nothing, an amount, or a number that is no amount. -/
inductive ActualCost
  | unmetered
  | nanos (n : UInt64)
  | invalid

/-- Where a reservation is: with its process, consumed, or gone in a call that failed. -/
inductive Custody
  | held
  | consumed
  | lost
  deriving DecidableEq

/-- Work that has been admitted, the cap it was admitted under, and what it costs: its bound, until
a settlement says something else or a release says that there was no dispatch. -/
structure Work where
  reservation : DailyBudgetReservation
  capUsdNanos : UInt64
  custody : Custody
  cost : Nat

/-- The reservation is taken, and the cost is known. -/
def Work.retire (work : Work) (custody : Custody) (cost : Nat) : Work :=
  { work with custody := custody, cost := cost }

@[simp] theorem Work.retire_reservation (work : Work) (custody : Custody) (cost : Nat) :
    (work.retire custody cost).reservation = work.reservation := rfl

@[simp] theorem Work.retire_custody (work : Work) (custody : Custody) (cost : Nat) :
    (work.retire custody cost).custody = custody := rfl

@[simp] theorem Work.retire_cost (work : Work) (custody : Custody) (cost : Nat) :
    (work.retire custody cost).cost = cost := rfl

structure BudgetSystem where
  file : Option DailyBudgetLedger
  works : List Work

/-- Calls of any process.  A reservation is named by its place among the admitted work; it is moved
into the call that settles or releases it. -/
inductive BudgetCall
  | reserve (plan : DailyBudgetPlan) (nowUnix : Int) (fault : Option Fault)
  | settle (work : Nat) (actual : ActualCost) (fault : Option Fault)
  | release (work : Nat) (fault : Option Fault)

inductive BudgetAnswer
  | reserved (reservation : DailyBudgetReservation)
  | settled (reservation : DailyBudgetReservation)
  | released (reservation : DailyBudgetReservation)
  | failed (e : BudgetError)
  /-- There is no such reservation any more. -/
  | moved

def ActualCost.charge (reserved : UInt64) : ActualCost → Except BudgetError UInt64
  | .unmetered => .ok reserved
  | .nanos n => .ok n
  | .invalid => .error .invalidCost

/-- What the work cost, so far as is known. -/
def ActualCost.cost (reserved : UInt64) : ActualCost → Nat
  | .nanos n => n.toNat
  | _ => reserved.toNat

namespace BudgetSystem

def fresh : BudgetSystem := ⟨none, []⟩

def reserve (s : BudgetSystem) (plan : DailyBudgetPlan) (nowUnix : Int) (fault : Option Fault) :
    BudgetSystem × BudgetAnswer :=
  match updateLedgerInner s.file fault true (plan.reserveIn nowUnix) with
  | (file, .error e) => (⟨file, s.works⟩, .failed e)
  | (file, .ok ()) =>
    let reservation := ⟨plan.reservationId, utcDay nowUnix, plan.reservedUsdNanos⟩
    (⟨file, s.works ++ [⟨reservation, plan.capUsdNanos, .held, plan.reservedUsdNanos.toNat⟩]⟩,
      .reserved reservation)

/-- A call that takes the reservation of `work`, with the mutation it makes and what the work
cost. -/
def retire (s : BudgetSystem) (i : Nat) (work : Work) (cost : Nat) (fault : Option Fault)
    (mutation : Except BudgetError (DailyBudgetLedger → Except BudgetError DailyBudgetLedger))
    (done : BudgetAnswer) : BudgetSystem × BudgetAnswer :=
  match mutation with
  | .error e => (⟨s.file, s.works.set i (work.retire .lost cost)⟩, .failed e)
  | .ok mutation =>
    match updateLedgerInner s.file fault false mutation with
    | (file, .error e) => (⟨file, s.works.set i (work.retire .lost cost)⟩, .failed e)
    | (file, .ok ()) => (⟨file, s.works.set i (work.retire .consumed cost)⟩, done)

def step (s : BudgetSystem) : BudgetCall → BudgetSystem × BudgetAnswer
  | .reserve plan nowUnix fault => s.reserve plan nowUnix fault
  | .settle i actual fault =>
    match s.works[i]? with
    | none => (s, .moved)
    | some work =>
      if work.custody ≠ .held then (s, .moved)
      else
        s.retire i work (actual.cost work.reservation.reservedUsdNanos) fault
          ((actual.charge work.reservation.reservedUsdNanos).map work.reservation.settleIn)
          (.settled work.reservation)
  | .release i fault =>
    match s.works[i]? with
    | none => (s, .moved)
    | some work =>
      if work.custody ≠ .held then (s, .moved)
      else s.retire i work 0 fault (.ok work.reservation.releaseIn) (.released work.reservation)

def after (calls : List BudgetCall) : BudgetSystem := (run step fresh calls).1

def answers (calls : List BudgetCall) : List BudgetAnswer := (run step fresh calls).2

/-- No settlement of the run reports more than was reserved. -/
def Bounded (s : BudgetSystem) : BudgetCall → Prop
  | .settle i (.nanos n) _ => ∀ work, s.works[i]? = some work →
    n ≤ work.reservation.reservedUsdNanos
  | _ => True

end BudgetSystem

/-! ## What the calls can do -/

variable {ledger ledger' : DailyBudgetLedger}

theorem DailyBudgetPlan.reserveIn_spec {plan : DailyBudgetPlan} {now : Int}
    (h : plan.reserveIn now ledger = .ok ledger') :
    ∃ base : DailyBudgetLedger,
      (ledger.utcDay = utcDay now ∧ base = ledger ∨
        ledger.utcDay < utcDay now ∧ base = .empty (utcDay now)) ∧
      base.pending[plan.reservationId]? = none ∧
      base.committed + plan.reservedUsdNanos.toNat ≤ plan.capUsdNanos.toNat ∧
      ledger' = { base with
        pending := base.pending.insert plan.reservationId
          ⟨plan.provider, plan.model, plan.reservedUsdNanos, now⟩ } := by
  dsimp only [reserveIn] at h
  split at h
  · cases h
  rename_i hfuture
  generalize hbase : (if ledger.utcDay < utcDay now then DailyBudgetLedger.empty (utcDay now)
    else ledger) = base at h
  refine ⟨base, ?_, ?_⟩
  · by_cases hlt : ledger.utcDay < utcDay now
    · exact .inr ⟨hlt, by rw [← hbase, if_pos hlt]⟩
    · exact .inl ⟨by omega, by rw [← hbase, if_neg hlt]⟩
  split at h
  · cases h
  rename_i hnew
  split at h
  · cases h
  rename_i committed hcommitted
  split at h
  · cases h
  rename_i projected hprojected
  split at h
  · cases h
  rename_i hcap
  have htotal := (base.committedUsdNanos_eq_ok_iff committed).mp hcommitted
  have hsum := (checkedAdd_eq_some_iff _ _ _).mp hprojected
  have hle : projected.toNat ≤ plan.capUsdNanos.toNat :=
    UInt64.le_iff_toNat_le.mp (UInt64.not_lt.mp hcap)
  exact ⟨ExtTreeMap.getElem?_eq_none hnew, by omega, (Except.ok.inj h).symm⟩

/-- What taking a reservation back can do to the ledger: its charge is replaced, unless its day is
over. -/
inductive Retires (r : DailyBudgetReservation) (charge : Nat) (ledger ledger' : DailyBudgetLedger) :
    Prop
  | ended (day : r.utcDay < ledger.utcDay) (same : ledger' = ledger)
  | replaced (day : ledger.utcDay = r.utcDay) (pending : PendingReservation)
    (found : ledger.pending[r.reservationId]? = some pending)
    (reserved : pending.reservedUsdNanos = r.reservedUsdNanos) (settled : UInt64)
    (charged : settled.toNat = ledger.settledUsdNanos.toNat + charge)
    (becomes : ledger' = { ledger with
      settledUsdNanos := settled, pending := ledger.pending.erase r.reservationId })

variable {r : DailyBudgetReservation}

theorem DailyBudgetReservation.settleIn_spec {actual : UInt64}
    (h : r.settleIn actual ledger = .ok ledger') : Retires r actual.toNat ledger ledger' := by
  unfold settleIn at h
  split at h
  · rename_i hover
    exact .ended hover (Except.ok.inj h).symm
  split at h
  · cases h
  split at h
  · cases h
  rename_i pending hfound
  split at h
  · cases h
  rename_i hreserved
  split at h
  · cases h
  rename_i settled hsettled
  exact .replaced (by omega) pending hfound (not_not.mp hreserved) settled
    ((checkedAdd_eq_some_iff _ _ _).mp hsettled) (Except.ok.inj h).symm

theorem DailyBudgetReservation.releaseIn_spec (h : r.releaseIn ledger = .ok ledger') :
    Retires r 0 ledger ledger' := by
  unfold releaseIn at h
  split at h
  · rename_i hover
    exact .ended hover (Except.ok.inj h).symm
  split at h
  · cases h
  rename_i hday
  split at h
  · cases h
  rename_i pending hfound
  split at h
  · cases h
  rename_i hreserved
  exact .replaced (not_not.mp hday) pending hfound (not_not.mp hreserved) ledger.settledUsdNanos rfl
    (Except.ok.inj h).symm

/-- A mutation that replaces the charge of a reservation by no more than it leaves a ledger that is
valid. -/
theorem Retires.valid {charge : Nat} (h : Retires r charge ledger ledger')
    (hcharge : charge ≤ r.reservedUsdNanos.toNat) (hvalid : ledger.validate = .ok ()) :
    ledger'.validate = .ok () := by
  cases h with
  | ended _ hsame => rwa [hsame]
  | replaced _ pending hpending hreserved settled hsettled hbecomes =>
    have htotal := total_of_getElem?_some (fun p : PendingReservation => p.reservedUsdNanos.toNat)
      hpending
    obtain ⟨hschema, hfits⟩ := (ledger.validate_eq_ok_iff).mp hvalid
    rw [hreserved] at htotal
    subst hbecomes
    refine (DailyBudgetLedger.validate_eq_ok_iff _).mpr ⟨hschema, ?_⟩
    simp only [DailyBudgetLedger.committed] at hfits ⊢
    omega

/-- An access to the file fails and leaves it, or writes what the mutation makes of it. -/
theorem updateLedgerInner_cases (file : Option DailyBudgetLedger) (fault : Option Fault)
    (allowMissing : Bool) (mutation : DailyBudgetLedger → Except BudgetError DailyBudgetLedger) :
    (∃ e, updateLedgerInner file fault allowMissing mutation = (file, .error e)) ∨
      ∃ ledger ledger', loadLedger file allowMissing = .ok ledger ∧ mutation ledger = .ok ledger' ∧
        ledger'.validate = .ok () ∧
        updateLedgerInner file fault allowMissing mutation = (some ledger', .ok ()) := by
  unfold updateLedgerInner
  split
  · exact .inl ⟨_, rfl⟩
  split
  · exact .inl ⟨_, rfl⟩
  split
  · exact .inl ⟨_, rfl⟩
  rename_i ledger hload
  split
  · exact .inl ⟨_, rfl⟩
  rename_i ledger' hmutation
  split
  · exact .inl ⟨_, rfl⟩
  rename_i hvalid
  split
  · exact .inl ⟨_, rfl⟩
  · exact .inr ⟨ledger, ledger', hload, hmutation, hvalid, rfl⟩

theorem loadLedger_cases {file : Option DailyBudgetLedger} {allowMissing : Bool}
    (h : loadLedger file allowMissing = .ok ledger) :
    file = some ledger ∨ file = none ∧ allowMissing = true ∧ ledger = .empty minUtcDay := by
  unfold loadLedger at h
  cases file with
  | none =>
    dsimp only at h
    split at h
    · rename_i hallow
      exact .inr ⟨rfl, hallow, (Except.ok.inj h).symm⟩
    · cases h
  | some found =>
    dsimp only at h
    split at h
    · exact .inl (congrArg some (Except.ok.inj h))
    · cases h

end Neoth.Council
