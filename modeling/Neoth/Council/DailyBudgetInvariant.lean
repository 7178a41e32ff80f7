import Neoth.Lib.Lists
import Neoth.Council.DailyBudget

/-!
# The daily budget: invariants

* `Sound`: the ledger is valid, and every reservation that is held on its day is pending in it under
  an id of its own;
* `Solvent`: in runs whose costs stay within their reservations, the ledger covers what the work of
  its day costs, and the largest cap that let some of that work in covers the ledger.
-/

open Std Lib.Encoding Lib.Lists Lib.Machine Lib.TreeMap

namespace Neoth.Council

namespace BudgetSystem

/-! ## The invariants -/

/-- What holds of every ledger and the work that has been admitted into it. -/
structure Kept (works : List Work) (ledger : DailyBudgetLedger) : Prop where
  valid : ledger.validate = .ok ()
  day : ∀ w ∈ works, w.reservation.utcDay ≤ ledger.utcDay
  held : ∀ w ∈ works, w.custody = .held → w.reservation.utcDay = ledger.utcDay →
    ∃ p, ledger.pending[w.reservation.reservationId]? = some p ∧
      p.reservedUsdNanos = w.reservation.reservedUsdNanos

/-- Two reservations of one day that are held have different ids. -/
def Distinct (w w' : Work) : Prop :=
  w.custody = .held → w'.custody = .held → w.reservation.utcDay = w'.reservation.utcDay →
    w.reservation.reservationId ≠ w'.reservation.reservationId

structure Sound (s : BudgetSystem) : Prop where
  missing : s.file = none → s.works = []
  kept : ∀ ledger, s.file = some ledger → Kept s.works ledger
  distinct : s.works.Pairwise Distinct
  charged : ∀ w ∈ s.works, w.custody = .held → w.cost = w.reservation.reservedUsdNanos.toNat

theorem sound_fresh : fresh.Sound :=
  ⟨fun _ => rfl, by simp [fresh], List.Pairwise.nil, by simp [fresh]⟩

/-- What the work admitted on a day costs. -/
def dayCost (day : Int) (works : List Work) : Nat :=
  (works.map fun w => if w.reservation.utcDay = day then w.cost else 0).sum

/-- The largest cap that let some work in on a day. -/
def dayCap (day : Int) (works : List Work) : Nat :=
  (works.map fun w => if w.reservation.utcDay = day then w.capUsdNanos.toNat else 0).foldr max 0

theorem dayCost_append (day : Int) (ws ws' : List Work) :
    dayCost day (ws ++ ws') = dayCost day ws + dayCost day ws' := by
  simp [dayCost]

theorem dayCost_cons (day : Int) (w : Work) (ws : List Work) :
    dayCost day (w :: ws) = (if w.reservation.utcDay = day then w.cost
      else 0) + dayCost day ws := by
  simp [dayCost]

theorem dayCap_cons (day : Int) (w : Work) (ws : List Work) :
    dayCap day (w :: ws) = max (if w.reservation.utcDay = day then w.capUsdNanos.toNat
      else 0) (dayCap day ws) := by
  simp [dayCap]

theorem dayCap_append (day : Int) (ws ws' : List Work) :
    dayCap day (ws ++ ws') = max (dayCap day ws) (dayCap day ws') := by
  induction ws with
  | nil => simp [dayCap]
  | cons w ws ih => rw [List.cons_append, dayCap_cons, dayCap_cons, ih, max_assoc]

variable {day : Int}

theorem dayCost_eq_zero {works : List Work} (h : ∀ w ∈ works, w.reservation.utcDay ≠ day) :
    dayCost day works = 0 := by
  induction works with
  | nil => rfl
  | cons w works ih =>
    rw [dayCost_cons, if_neg (h w (List.mem_cons_self ..)),
      ih fun v hv => h v (List.mem_cons_of_mem _ hv)]

/-- In a run whose costs stay within their reservations, the ledger covers the work of its day and
is itself within the caps. -/
structure Solvent (s : BudgetSystem) : Prop where
  covered : ∀ ledger, s.file = some ledger → dayCost ledger.utcDay s.works ≤ ledger.committed
  within : ∀ ledger, s.file = some ledger → ledger.committed ≤ dayCap ledger.utcDay s.works
  past : ∀ day, dayCost day s.works ≤ dayCap day s.works

theorem reserve_cases (s : BudgetSystem) (plan : DailyBudgetPlan) (now : Int)
    (fault : Option Fault) : (∃ e, s.reserve plan now fault = (s, .failed e)) ∨
      ∃ ledger ledger', loadLedger s.file true = .ok ledger ∧
      plan.reserveIn now ledger = .ok ledger' ∧
        ledger'.validate = .ok () ∧
        s.reserve plan now fault =
          (⟨some ledger',
            s.works ++
              [⟨⟨plan.reservationId, utcDay now, plan.reservedUsdNanos⟩, plan.capUsdNanos, .held,
                plan.reservedUsdNanos.toNat⟩]⟩, .reserved ⟨plan.reservationId, utcDay now,
                plan.reservedUsdNanos⟩) := by
  unfold reserve
  obtain ⟨e, heq⟩ | ⟨ledger, ledger', hload, hmutation, hvalid, heq⟩ :=
    updateLedgerInner_cases s.file fault true (plan.reserveIn now)
  · exact .inl ⟨e, by rw [heq]⟩
  · exact .inr ⟨ledger, ledger', hload, hmutation, hvalid, by rw [heq]⟩

variable {s : BudgetSystem}

/-- The ledger that a reservation adds to is that of its day, and no other work is held there under
its id. -/
theorem Sound.base (h : s.Sound) {ledger base : DailyBudgetLedger}
    (hload : loadLedger s.file true = .ok ledger)
    (hbase : ledger.utcDay = day ∧ base = ledger ∨ ledger.utcDay < day ∧ base = .empty day) :
    base.utcDay = day ∧ (∀ w ∈ s.works, w.reservation.utcDay ≤ day) ∧
      ∀ w ∈ s.works, w.custody = .held → w.reservation.utcDay = day →
        ∃ p, base.pending[w.reservation.reservationId]? = some p ∧
          p.reservedUsdNanos = w.reservation.reservedUsdNanos := by
  have hdays : ∀ w ∈ s.works, w.reservation.utcDay ≤ ledger.utcDay := by
    intro w hw
    obtain hfile | ⟨hfile, -, -⟩ := loadLedger_cases hload
    · exact (h.kept ledger hfile).day w hw
    · simp [h.missing hfile] at hw
  obtain ⟨hday, rfl⟩ | ⟨hday, rfl⟩ := hbase
  · refine ⟨hday, fun w hw => hday ▸ hdays w hw, ?_⟩
    intro w hw hheld hwday
    obtain hfile | ⟨hfile, -, -⟩ := loadLedger_cases hload
    · exact (h.kept base hfile).held w hw hheld (hwday.trans hday.symm)
    · simp [h.missing hfile] at hw
  · refine ⟨rfl, fun w hw => (hdays w hw).trans hday.le, ?_⟩
    intro w hw _ hwday
    have := hdays w hw
    omega

theorem Sound.reserve (h : s.Sound) (plan : DailyBudgetPlan) (now : Int) (fault : Option Fault) :
    (s.reserve plan now fault).1.Sound := by
  obtain ⟨e, heq⟩ | ⟨ledger, ledger', hload, hmutation, hvalid, heq⟩ :=
    s.reserve_cases plan now fault
  · rw [heq]
    exact h
  rw [heq]
  obtain ⟨base, hbase, hnew, -, rfl⟩ := DailyBudgetPlan.reserveIn_spec hmutation
  obtain ⟨hday, hdays, hheld⟩ := h.base hload hbase
  refine ⟨by simp, ?_, ?_, ?_⟩
  · rintro _ ⟨⟩
    refine ⟨hvalid, ?_, ?_⟩
    · intro w hw
      rcases List.mem_append.mp hw with hw | hw
      · exact (hdays w hw).trans hday.ge
      · rw [List.mem_singleton.mp hw]
        exact hday.ge
    · intro w hw hwheld hwday
      rcases List.mem_append.mp hw with hw | hw
      · obtain ⟨p, hp, hreserved⟩ := hheld w hw hwheld (hwday.trans hday)
        have hne : plan.reservationId ≠ w.reservation.reservationId := by
          intro heq
          rw [heq, hp] at hnew
          cases hnew
        exact ⟨p, (getElem?_insert_of_ne _ hne).trans hp, hreserved⟩
      · rw [List.mem_singleton.mp hw]
        exact ⟨_, ExtTreeMap.getElem?_insert_self, rfl⟩
  · refine List.pairwise_append.mpr ⟨h.distinct, List.pairwise_singleton _ _, ?_⟩
    intro w hw w' hw' hwheld _ hsame heq
    rw [List.mem_singleton.mp hw'] at hsame heq
    obtain ⟨p, hp, -⟩ := hheld w hw hwheld hsame
    rw [heq, hnew] at hp
    cases hp
  · intro w hw hwheld
    rcases List.mem_append.mp hw with hw | hw
    · exact h.charged w hw hwheld
    · rw [List.mem_singleton.mp hw]

theorem committed_insert {base : DailyBudgetLedger} {id : String} (p : PendingReservation)
    (h : base.pending[id]? = none) :
    DailyBudgetLedger.committed { base with pending := base.pending.insert id p } =
      base.committed + p.reservedUsdNanos.toNat := by
  rw [DailyBudgetLedger.committed, total_insert_of_getElem?_none _ p h, ← Nat.add_assoc]
  rfl

theorem Solvent.reserve (hs : s.Solvent) (h : s.Sound) (plan : DailyBudgetPlan) (now : Int)
    (fault : Option Fault) : (s.reserve plan now fault).1.Solvent := by
  obtain ⟨e, heq⟩ | ⟨ledger, ledger', hload, hmutation, hvalid, heq⟩ :=
    s.reserve_cases plan now fault
  · rw [heq]
    exact hs
  rw [heq]
  obtain ⟨base, hbase, hnew, hcap, rfl⟩ := DailyBudgetPlan.reserveIn_spec hmutation
  obtain ⟨hday, hdays, -⟩ := h.base hload hbase
  -- the work of the day was covered by the ledger that is added to
  have hcovered : dayCost (utcDay now) s.works ≤ base.committed := by
    obtain ⟨hsame, rfl⟩ | ⟨hlater, rfl⟩ := hbase
    · obtain hfile | ⟨hfile, -, -⟩ := loadLedger_cases hload
      · exact hsame ▸ hs.covered base hfile
      · simp [h.missing hfile, dayCost]
    · rw [dayCost_eq_zero]
      · exact Nat.zero_le _
      intro w hw
      obtain hfile | ⟨hfile, -, -⟩ := loadLedger_cases hload
      · have := (h.kept ledger hfile).day w hw
        omega
      · simp [h.missing hfile] at hw
  have hnow : ∀ day, dayCost day s.works + (if utcDay now = day then plan.reservedUsdNanos.toNat
      else 0) ≤
      max (dayCap day s.works) (if utcDay now = day then plan.capUsdNanos.toNat else 0) := by
    intro day
    have hpast := hs.past day
    split
    · rename_i hsame
      subst hsame
      omega
    · omega
  refine ⟨?_, ?_, ?_⟩
  · rintro _ ⟨⟩
    rw [committed_insert _ hnew, dayCost_append, dayCost_cons]
    dsimp only
    rw [hday, if_pos rfl]
    simpa [dayCost] using hcovered
  · rintro _ ⟨⟩
    rw [committed_insert _ hnew, dayCap_append, dayCap_cons]
    dsimp only
    rw [hday, if_pos rfl]
    exact hcap.trans ((le_max_left _ _).trans (le_max_right _ _))
  · intro day
    simp only [dayCost_append, dayCap_append, dayCost_cons, dayCap_cons]
    simpa [dayCost, dayCap] using hnow day

/-! ## A reservation that is taken back -/

/-- What a settlement or a release does to the reservation of `work`, at the cost it reports. -/
inductive Retired (s : BudgetSystem) (i : Nat) (work : Work) (cost : Nat) (done : BudgetAnswer) :
    BudgetSystem × BudgetAnswer → Prop
  | failed (e : BudgetError) :
    Retired s i work cost done (⟨s.file, s.works.set i (work.retire .lost cost)⟩, .failed e)
  | done {ledger ledger' : DailyBudgetLedger} (found : s.file = some ledger)
    (retires : Retires work.reservation cost ledger ledger') (valid : ledger'.validate = .ok ()) :
    Retired s i work cost done
      (⟨some ledger', s.works.set i (work.retire .consumed cost)⟩, done)

theorem retire_spec (s : BudgetSystem) (i : Nat) (work : Work) (cost : Nat) (fault : Option Fault)
    {mutation : Except BudgetError (DailyBudgetLedger → Except BudgetError DailyBudgetLedger)}
    (done : BudgetAnswer)
    (hmutation : ∀ m ledger ledger', mutation = .ok m → m ledger = .ok ledger' →
      Retires work.reservation cost ledger ledger') :
    Retired s i work cost done (s.retire i work cost fault mutation done) := by
  unfold retire
  cases mutation with
  | error e => exact .failed e
  | ok m =>
    dsimp only
    obtain ⟨e, heq⟩ | ⟨ledger, ledger', hload, hmut, hvalid, heq⟩ :=
      updateLedgerInner_cases s.file fault false m
    · rw [heq]
      exact .failed e
    · rw [heq]
      obtain hfile | ⟨-, hmissing, -⟩ := loadLedger_cases hload
      · exact .done hfile (hmutation m ledger ledger' rfl hmut) hvalid
      · cases hmissing

/-- What one call does. -/
inductive Stepped (s : BudgetSystem) : BudgetCall → BudgetSystem × BudgetAnswer → Prop
  | reserve (plan : DailyBudgetPlan) (now : Int) (fault : Option Fault) :
    Stepped s (.reserve plan now fault) (s.reserve plan now fault)
  | moved (call : BudgetCall) : Stepped s call (s, .moved)
  | settle {i : Nat} {work : Work} (found : s.works[i]? = some work) (held : work.custody = .held)
    (actual : ActualCost) (fault : Option Fault) {r : BudgetSystem × BudgetAnswer}
    (retired : Retired s i work (actual.cost work.reservation.reservedUsdNanos)
      (.settled work.reservation) r) :
    Stepped s (.settle i actual fault) r
  | release {i : Nat} {work : Work} (found : s.works[i]? = some work) (held : work.custody = .held)
    (fault : Option Fault) {r : BudgetSystem × BudgetAnswer}
    (retired : Retired s i work 0 (.released work.reservation) r) : Stepped s (.release i fault) r

theorem step_spec (s : BudgetSystem) (call : BudgetCall) : Stepped s call (s.step call) := by
  cases call with
  | reserve plan now fault => exact .reserve plan now fault
  | settle i actual fault =>
    dsimp only [step]
    cases hfound : s.works[i]? with
    | none => exact .moved _
    | some work =>
      dsimp only
      split
      · exact .moved _
      rename_i hheld
      refine .settle hfound (not_not.mp hheld) actual fault (retire_spec s i work _ fault _ ?_)
      intro m ledger ledger' hm hledger
      cases actual with
      | unmetered =>
        cases hm
        exact DailyBudgetReservation.settleIn_spec hledger
      | nanos n =>
        cases hm
        exact DailyBudgetReservation.settleIn_spec hledger
      | invalid => cases hm
  | release i fault =>
    dsimp only [step]
    cases hfound : s.works[i]? with
    | none => exact .moved _
    | some work =>
      dsimp only
      split
      · exact .moved _
      rename_i hheld
      refine .release hfound (not_not.mp hheld) fault (retire_spec s i work 0 fault _ ?_)
      rintro m ledger ledger' ⟨⟩ hledger
      exact DailyBudgetReservation.releaseIn_spec hledger

theorem mem_set_of_ne_held {works : List Work} {i : Nat} {work w : Work} (h : w ∈ works.set i work)
    (hwork : work.custody ≠ .held) (hw : w.custody = .held) : w ∈ works := by
  rcases List.mem_or_eq_of_mem_set h with h | rfl
  · exact h
  · exact absurd hw hwork

/-- Work that is no longer held does not disturb what holds of the rest. -/
theorem Sound.set (h : s.Sound) {i : Nat} {work : Work} (hfound : s.works[i]? = some work)
    {custody : Custody} (hcustody : custody ≠ .held) (cost : Nat)
    (ledger : DailyBudgetLedger) (hfile : s.file = some ledger) (file : DailyBudgetLedger)
    (hvalid : file.validate = .ok ()) (hday : file.utcDay = ledger.utcDay)
    (hpending : ∀ w ∈ s.works.set i (work.retire custody cost), w.custody = .held →
      w.reservation.utcDay = ledger.utcDay →
      file.pending[w.reservation.reservationId]? = ledger.pending[w.reservation.reservationId]?) :
    Sound ⟨some file, s.works.set i (work.retire custody cost)⟩ := by
  have hkept := h.kept ledger hfile
  have hwork : (work.retire custody cost).custody ≠ .held := hcustody
  refine ⟨by simp, ?_, ?_, ?_⟩
  · rintro _ ⟨⟩
    refine ⟨hvalid, ?_, ?_⟩
    · intro w hw
      rw [hday]
      rcases List.mem_or_eq_of_mem_set hw with hw | rfl
      · exact hkept.day w hw
      · exact hkept.day work (List.mem_of_getElem? hfound)
    · intro w hw hheld hwday
      rw [hday] at hwday
      rw [hpending w hw hheld hwday]
      exact hkept.held w (mem_set_of_ne_held hw hwork hheld) hheld hwday
  · obtain ⟨pre, post, hworks, hset⟩ := exists_split_of_getElem? hfound
    have hdistinct := h.distinct
    rw [hworks] at hdistinct
    show (s.works.set i (work.retire custody cost)).Pairwise Distinct
    rw [hset]
    rw [List.pairwise_append, List.pairwise_cons] at hdistinct ⊢
    obtain ⟨hpre, ⟨-, hpost⟩, hacross⟩ := hdistinct
    refine ⟨hpre, ⟨fun w _ hheld => absurd hheld hwork, hpost⟩, ?_⟩
    intro w hw w' hw'
    rcases List.mem_cons.mp hw' with rfl | hw'
    · exact fun _ hheld => absurd hheld hwork
    · exact hacross w hw w' (List.mem_cons_of_mem _ hw')
  · intro w hw hheld
    exact h.charged w (mem_set_of_ne_held hw hwork hheld) hheld

/-- The other reservations that are held on the day have other ids. -/
theorem Sound.other (h : s.Sound) {i : Nat} {work w : Work} (hfound : s.works[i]? = some work)
    (hheld : work.custody = .held) {custody : Custody} (hcustody : custody ≠ .held) {cost : Nat}
    (hw : w ∈ s.works.set i (work.retire custody cost)) (hwheld : w.custody = .held)
    (hday : w.reservation.utcDay = work.reservation.utcDay) :
    work.reservation.reservationId ≠ w.reservation.reservationId := by
  obtain ⟨pre, post, hworks, hset⟩ := exists_split_of_getElem? hfound
  have hdistinct := h.distinct
  rw [hworks, List.pairwise_append, List.pairwise_cons] at hdistinct
  obtain ⟨-, ⟨hpost, -⟩, hacross⟩ := hdistinct
  rw [hset] at hw
  rcases List.mem_append.mp hw with hw | hw
  · exact (hacross w hw work (List.mem_cons_self ..) hwheld hheld hday).symm
  rcases List.mem_cons.mp hw with rfl | hw
  · exact absurd hwheld hcustody
  · exact hpost w hw hheld hwheld hday.symm

theorem Sound.file_of_found (h : s.Sound) {i : Nat} {work : Work}
    (hfound : s.works[i]? = some work) : ∃ ledger, s.file = some ledger := by
  cases hfile : s.file with
  | none =>
    rw [h.missing hfile] at hfound
    cases hfound
  | some ledger => exact ⟨ledger, rfl⟩

variable {done : BudgetAnswer} {r : BudgetSystem × BudgetAnswer}

theorem Retired.sound (h : s.Sound) {i : Nat} {work : Work} {cost : Nat}
    (hretired : Retired s i work cost done r) (hfound : s.works[i]? = some work)
    (hheld : work.custody = .held) : r.1.Sound := by
  cases hretired with
  | failed e =>
    obtain ⟨ledger, hfile⟩ := h.file_of_found hfound
    rw [hfile]
    exact h.set hfound (by decide) cost ledger hfile ledger (h.kept ledger hfile).valid
      rfl fun _ _ _ _ => rfl
  | @done ledger ledger' hfile hretires hvalid =>
    cases hretires with
    | ended _ hsame =>
      subst hsame
      exact h.set hfound (by decide) cost ledger' hfile ledger' hvalid rfl fun _ _ _ _ => rfl
    | replaced hday pending hpending hreserved settled hcharged hbecomes =>
      subst hbecomes
      refine h.set hfound (by decide) cost ledger hfile _ hvalid rfl ?_
      intro w hw hwheld hwday
      have hne := h.other hfound hheld (by decide) hw hwheld (hwday.trans hday)
      dsimp only
      rw [ExtTreeMap.getElem?_erase, if_neg]
      simpa using hne

theorem Sound.step (h : s.Sound) (call : BudgetCall) : (s.step call).1.Sound := by
  have hstep := s.step_spec call
  generalize s.step call = r at hstep ⊢
  cases hstep with
  | reserve plan now fault => exact h.reserve plan now fault
  | moved => exact h
  | settle hfound hheld _ _ hretired => exact hretired.sound h hfound hheld
  | release hfound hheld _ hretired => exact hretired.sound h hfound hheld

theorem sound_after (calls : List BudgetCall) : (after calls).Sound :=
  run_invariant (fun _ call h => h.step call) _ sound_fresh calls

/-! ## What the work of a day costs -/

section Retire
variable {works : List Work} {i : Nat} {work : Work} (hfound : works[i]? = some work)
  (custody : Custody) (cost : Nat)
include hfound

theorem dayCap_retire (day : Int) : dayCap day (works.set i (work.retire custody cost)) =
    dayCap day works := by
  obtain ⟨pre, post, hworks, hset⟩ := exists_split_of_getElem? hfound
  rw [hset, hworks, dayCap_append, dayCap_append, dayCap_cons, dayCap_cons]
  rfl

/-- The work of the day costs `work.cost` less and `cost` more. -/
theorem dayCost_retire :
    dayCost work.reservation.utcDay (works.set i (work.retire custody cost)) + work.cost =
    dayCost work.reservation.utcDay works + cost := by
  obtain ⟨pre, post, hworks, hset⟩ := exists_split_of_getElem? hfound
  rw [hset, hworks, dayCost_append, dayCost_append, dayCost_cons, dayCost_cons,
    Work.retire_reservation, if_pos rfl, if_pos rfl, Work.retire_cost]
  omega

theorem dayCost_retire_of_ne (hday : work.reservation.utcDay ≠ day) :
    dayCost day (works.set i (work.retire custody cost)) = dayCost day works := by
  obtain ⟨pre, post, hworks, hset⟩ := exists_split_of_getElem? hfound
  rw [hset, hworks, dayCost_append, dayCost_append, dayCost_cons, dayCost_cons,
    Work.retire_reservation, if_neg hday, if_neg hday]

theorem dayCost_retire_le (hcost : cost ≤ work.cost) (day : Int) :
    dayCost day (works.set i (work.retire custody cost)) ≤ dayCost day works := by
  by_cases hday : work.reservation.utcDay = day
  · have hretire := dayCost_retire hfound custody cost
    rw [hday] at hretire
    omega
  · exact (dayCost_retire_of_ne hfound custody cost hday).le

end Retire

theorem Retired.solvent (hs : s.Solvent) (h : s.Sound) {i : Nat} {work : Work} {cost : Nat}
    (hretired : Retired s i work cost done r) (hfound : s.works[i]? = some work)
    (hheld : work.custody = .held) (hcost : cost ≤ work.reservation.reservedUsdNanos.toNat) :
      r.1.Solvent := by
  have hcharged := h.charged work (List.mem_of_getElem? hfound) hheld
  -- on a ledger that stays as it is, the work only gets cheaper
  have hsame : ∀ custody, Solvent ⟨s.file, s.works.set i (work.retire custody cost)⟩ := by
    intro custody
    have hle := dayCost_retire_le hfound custody cost (hcost.trans hcharged.ge)
    have hcap := dayCap_retire hfound custody cost
    refine ⟨fun ledger hfile => (hle _).trans (hs.covered ledger hfile), fun ledger hfile => ?_,
      fun day => ?_⟩
    · exact (hs.within ledger hfile).trans (hcap _).ge
    · exact (hle day).trans ((hs.past day).trans (hcap day).ge)
  cases hretired with
  | failed e => exact hsame .lost
  | @done ledger ledger' hfile hretires hvalid =>
    cases hretires with
    | ended _ heq =>
      subst heq
      rw [← hfile]
      exact hsame .consumed
    | replaced hday pending hpending hreserved settled hsettled hbecomes =>
      subst hbecomes
      -- the ledger gives up the bound and takes on the cost, as the work does
      have hcommitted : DailyBudgetLedger.committed { ledger with
          settledUsdNanos :=
            settled, pending := ledger.pending.erase work.reservation.reservationId } +
            work.reservation.reservedUsdNanos.toNat = ledger.committed + cost := by
        have htotal := total_of_getElem?_some
          (fun p : PendingReservation => p.reservedUsdNanos.toNat) hpending
        rw [hreserved] at htotal
        simp only [DailyBudgetLedger.committed, hsettled, htotal]
        omega
      have hretire := dayCost_retire hfound .consumed cost
      refine ⟨?_, ?_, (hsame .consumed).past⟩
      · rintro _ ⟨⟩
        have hcovered := hs.covered ledger hfile
        dsimp only
        rw [hday] at hcovered
        rw [hday]
        rw [hday] at hcommitted
        omega
      · rintro _ ⟨⟩
        have hwithin := hs.within ledger hfile
        dsimp only
        rw [dayCap_retire hfound]
        omega

theorem Solvent.step (hs : s.Solvent) (h : s.Sound) (call : BudgetCall)
    (hbounded : s.Bounded call) : (s.step call).1.Solvent := by
  have hstep := s.step_spec call
  generalize s.step call = r at hstep ⊢
  cases hstep with
  | reserve plan now fault => exact hs.reserve h plan now fault
  | moved => exact hs
  | @settle i work hfound hheld actual fault r hretired =>
    refine hretired.solvent hs h hfound hheld ?_
    cases actual with
    | unmetered => exact Nat.le_refl _
    | nanos n => exact UInt64.le_iff_toNat_le.mp (hbounded work hfound)
    | invalid => exact Nat.le_refl _
  | release hfound hheld _ hretired => exact hretired.solvent hs h hfound hheld (Nat.zero_le _)

end BudgetSystem

end Neoth.Council
