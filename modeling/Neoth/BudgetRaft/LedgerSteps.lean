import Mathlib
import Neoth.BudgetRaft.Ledger

/-!
# Budget ledger: what validation checks, and what a command can do

* `validate_eq_ok_iff`: a ledger passes `validate` exactly when its config does,
  every record is `RecordValid`, and the bounds of all grants sum to at most the
  cap;
* `Remembers`: the ledger has already answered a command, and what it answers to
  the same command again (`apply_of_remembers`);
* `Step`: every outcome of `apply` on a valid ledger, and `apply_step`, that there
  is no other.

Everything about runs is derived from these.
-/

open Std Lib.Encoding Lib.TreeMap

namespace Neoth.BudgetRaft

variable [Sha256]

/-! ## Validation -/

/-- What `validate` asks of the grant stored under `id`. -/
structure RecordValid (config : BudgetClusterConfig) (id : BudgetGrantId) (record : GrantRecord) :
    Prop where
  id_eq : record.reserve.grantId = id
  reserve_valid : validReserve config record.reserve = true
  fence_eq : record.reserveFence = expectedReserveFence config record.reserve record.reservedAt
  state_valid : validateState config record = .ok ()

/-- The reserved upper bound of a grant. -/
def bound (record : GrantRecord) : Nat := record.reserve.reservedUsdNanos.toNat

theorem validateGrants_eq_ok_iff (config : BudgetClusterConfig)
    (entries : List (BudgetGrantId × GrantRecord)) (start total : UInt64) :
    validateGrants config entries start = .ok total ↔
      (∀ entry ∈ entries, RecordValid config entry.1 entry.2) ∧
        total.toNat = start.toNat + (entries.map fun entry => bound entry.2).sum := by
  induction entries generalizing start with
  | nil =>
    simp only [validateGrants, Except.ok.injEq, List.not_mem_nil, false_imp_iff, implies_true,
      List.map_nil, List.sum_nil, Nat.add_zero, true_and]
    exact ⟨fun h => h ▸ rfl, fun h => (UInt64.toNat_inj.mp h).symm⟩
  | cons entry rest ih =>
    obtain ⟨id, record⟩ := entry
    have hhead : RecordValid config id record ↔
        ¬ (id ≠ record.reserve.grantId ∨ validReserve config record.reserve = false) ∧
        ¬ record.reserveFence ≠ expectedReserveFence config record.reserve record.reservedAt ∧
        validateState config record = .ok () := by
      constructor
      · rintro ⟨h₁, h₂, h₃, h₄⟩
        exact ⟨by simp [h₁, h₂], by simp [h₃], h₄⟩
      · rintro ⟨h₁, h₃, h₄⟩
        push Not at h₁ h₃
        exact ⟨h₁.1.symm, by simpa using h₁.2, h₃, h₄⟩
    simp only [List.forall_mem_cons, List.map_cons, List.sum_cons, hhead]
    unfold validateGrants
    split
    · simp_all
    split
    · simp_all
    rename_i hid hfence
    cases hadd : checkedAdd start record.reserve.reservedUsdNanos with
    | none =>
      have hover : ¬ ∃ c, checkedAdd start record.reserve.reservedUsdNanos = some c := by
        simp [hadd]
      simp only [reduceCtorEq, false_iff, not_and]
      rintro - htotal
      -- the sum would have fitted
      refine hover ⟨UInt64.ofNat (start.toNat + bound record), ?_⟩
      rw [checkedAdd_eq_some_iff]
      have hlt := total.toNat_lt
      exact UInt64.toNat_ofNat_of_lt' (show _ < 2 ^ 64 by unfold bound at *; omega)
    | some next =>
      have hnext := (checkedAdd_eq_some_iff _ _ _).mp hadd
      cases hstate : validateState config record with
      | error reason => simp
      | ok u =>
        simp only [ih, hid, hfence, hnext, not_false_eq_true, true_and, bound, Nat.add_assoc]

/-- The sum of the reserved bounds of all grants, whatever became of them. -/
def BudgetLedger.reservedSum (ledger : BudgetLedger) : Nat := total bound ledger.grants

omit [Sha256] in
theorem reservedTotal_eq_some_iff (ledger : BudgetLedger) (t : UInt64) :
    ledger.reservedTotal = some t ↔ t.toNat = ledger.reservedSum := by
  have h := foldlM_checkedAdd_eq_some_iff
    (fun record : GrantRecord => record.reserve.reservedUsdNanos) ledger.grants 0 t
  rw [UInt64.toNat_zero, Nat.zero_add] at h
  exact h

theorem validate_eq_ok_iff (ledger : BudgetLedger) :
    ledger.validate = .ok () ↔ ledger.config.validate = .ok () ∧
      (∀ id record, ledger.grants[id]? = some record → RecordValid ledger.config id record) ∧
        ledger.reservedSum ≤ ledger.config.capUsdNanos.toNat := by
  have hentries : (∀ entry ∈ ledger.grants.toList, RecordValid ledger.config entry.1 entry.2) ↔
      ∀ id record, ledger.grants[id]? = some record → RecordValid ledger.config id record := by
    simp only [Prod.forall, ExtTreeMap.mem_toList_iff_getElem?_eq_some]
  unfold BudgetLedger.validate
  cases hconfig : ledger.config.validate with
  | error reason => simp
  | ok u =>
    simp only [true_and]
    cases hgrants : validateGrants ledger.config ledger.grants.toList 0 with
    | error reason =>
      simp only [reduceCtorEq, false_iff, not_and]
      intro hrecords hcap
      have hlt := ledger.config.capUsdNanos.toNat_lt
      have hok := (validateGrants_eq_ok_iff ledger.config ledger.grants.toList 0
        (UInt64.ofNat ledger.reservedSum)).mpr ⟨hentries.mpr hrecords, by
          rw [UInt64.toNat_ofNat_of_lt' (show _ < 2 ^ 64 by omega)]
          simp [BudgetLedger.reservedSum, total]⟩
      rw [hgrants] at hok
      cases hok
    | ok sum =>
      obtain ⟨hrecords, hsum⟩ := (validateGrants_eq_ok_iff _ _ _ _).mp hgrants
      have hsum' : sum.toNat = ledger.reservedSum := by
        simpa [BudgetLedger.reservedSum, total] using hsum
      simp only [← hsum', ← UInt64.le_iff_toNat_le, UInt64.not_lt.symm]
      split <;> simp_all

/-! ## Replays -/

/-- The grant a command names. -/
def BudgetCommand.grantId : BudgetCommand → BudgetGrantId
  | .reserve command => command.grantId
  | .beginDispatch command => command.grantId
  | .settle command => command.grantId
  | .releaseBeforeClaim grantId _ => grantId

/-- The claim of a grant whose dispatch is over. -/
def GrantState.finishedClaim : GrantState → Option ClaimReceipt
  | .settled claim _ _ => some claim
  | .overrun claim _ _ _ => some claim
  | _ => none

/-- What a claim command must satisfy before the state of its grant is looked at. -/
structure ClaimChecks (ledger : BudgetLedger) (command : BeginDispatch) (record : GrantRecord) :
    Prop where
  owner_mem : command.owner ∈ ledger.config.voters
  attempt_ok : isIdentifier command.attemptId.val = true
  get : ledger.grants[command.grantId]? = some record
  fence_eq : record.reserveFence = command.reserveFence
  intent_eq : record.reserve.providerIntentId = command.providerIntentId

/-- The claim on record is the one a claim command asks for. -/
structure SameClaim (claim : ClaimReceipt) (command : BeginDispatch) : Prop where
  owner_eq : claim.owner = command.owner
  attempt_eq : claim.attemptId = command.attemptId
  intent_eq : claim.providerIntentId = command.providerIntentId

/-- The claim on record is the one a settlement closes. -/
structure ClosesClaim (claim : ClaimReceipt) (command : SettleBudget) : Prop where
  fence_eq : claim.dispatchFence = command.dispatchFence
  owner_eq : claim.owner = command.owner
  attempt_eq : claim.attemptId = command.attemptId

/-- The grant a command names shows that the command has been accepted before,
and `reply` is what it is answered from then on. -/
inductive Remembers (ledger : BudgetLedger) : BudgetCommand → BudgetReply → Prop
  | reserved {command record} (hvalid : validReserve ledger.config command = true)
      (hget : ledger.grants[command.grantId]? = some record) (hsame : record.reserve = command) :
      Remembers ledger (.reserve command) (.alreadyReserved (reservedGrant record))
  | claimed {command record claim} (hchecks : ClaimChecks ledger command record)
      (hstate : record.state = .claimed claim) (hsame : SameClaim claim command) :
      Remembers ledger (.beginDispatch command) (.alreadyClaimed claim)
  | finished {command record claim} (hchecks : ClaimChecks ledger command record)
      (hstate : record.state.finishedClaim = some claim) (hsame : SameClaim claim command) :
      Remembers ledger (.beginDispatch command) (.reconcileOnly claim)
  | settled {command record claim receipt} (hget : ledger.grants[command.grantId]? = some record)
      (hstate : record.state = .settled claim command receipt)
      (hcloses : ClosesClaim claim command) : Remembers ledger (.settle command) (.settled receipt)
  | overrun {command record claim reportedAt fence}
      (hget : ledger.grants[command.grantId]? = some record)
      (hstate : record.state = .overrun claim reportedAt fence command)
      (hcloses : ClosesClaim claim command) :
      Remembers ledger (.settle command) (.rejected .overrun)
  | released {grantId fence record receipt} (hget : ledger.grants[grantId]? = some record)
      (hfence : record.reserveFence = fence) (hstate : record.state = .released receipt) :
      Remembers ledger (.releaseBeforeClaim grantId fence) (.released receipt)

omit [Sha256] in
theorem scope_eq_of_validReserve (config : BudgetClusterConfig) (command : ReserveBudget) :
    validReserve config command = true → command.scopeHash = config.scopeHash ∧
      command.utcWindow = config.utcWindow := by
  unfold validReserve
  simp only [Bool.and_eq_true, decide_eq_true_eq]
  rintro ⟨⟨⟨⟨⟨hscope, hwindow⟩, -⟩, -⟩, -⟩, -⟩
  exact ⟨hscope, hwindow⟩

omit [Sha256] in
theorem replayClaimReply_of_same {claim : ClaimReceipt} {command : BeginDispatch}
    (hsame : SameClaim claim command) (reconcileOnly : Bool) :
    replayClaimReply claim command reconcileOnly =
      if reconcileOnly then .reconcileOnly claim else .alreadyClaimed claim := by
  unfold replayClaimReply
  rw [if_pos ⟨hsame.owner_eq, hsame.attempt_eq, hsame.intent_eq⟩]

theorem settleClaim_of_closes {ledger : BudgetLedger} {position : CommittedLogPosition}
    {command : SettleBudget} {record : GrantRecord} {claim : ClaimReceipt}
    (hcloses : ClosesClaim claim command) :
    ledger.settleClaim position command record claim =
      ledger.settleState position command record claim := by
  unfold BudgetLedger.settleClaim
  rw [if_neg (not_not.mpr hcloses.fence_eq), if_neg (not_not.mpr hcloses.owner_eq),
    if_neg (not_not.mpr hcloses.attempt_eq)]

/-- A command the ledger remembers changes nothing, at whatever position it comes again. -/
theorem apply_of_remembers {ledger : BudgetLedger} (hvalid : ledger.validate = .ok ())
    {command : BudgetCommand} {reply : BudgetReply} (h : Remembers ledger command reply)
    (position : CommittedLogPosition) : ledger.apply position command = (ledger, reply) := by
  unfold BudgetLedger.apply
  rw [hvalid]
  cases h with
  | reserved hok hget hsame =>
    obtain ⟨hscope, hwindow⟩ := scope_eq_of_validReserve _ _ hok
    simp [BudgetLedger.reserve, hscope, hwindow, hok, hget, hsame]
  | claimed hchecks hstate hsame =>
    obtain ⟨howner, hattempt, hget, hfence, hintent⟩ := hchecks
    simp [BudgetLedger.beginDispatch, howner, hattempt, hget, hfence, hintent, hstate,
      replayClaimReply_of_same hsame]
  | @finished command record claim hchecks hstate hsame =>
    obtain ⟨howner, hattempt, hget, hfence, hintent⟩ := hchecks
    cases hrecord : record.state <;> simp [hrecord, GrantState.finishedClaim] at hstate <;>
      simp [BudgetLedger.beginDispatch, howner, hattempt, hget, hfence, hintent, hrecord, hstate,
        replayClaimReply_of_same hsame]
  | settled hget hstate hcloses =>
    simp [BudgetLedger.settle, BudgetLedger.settleState, hget, hstate,
      settleClaim_of_closes hcloses]
  | overrun hget hstate hcloses =>
    simp [BudgetLedger.settle, BudgetLedger.settleState, hget, hstate,
      settleClaim_of_closes hcloses]
  | released hget hfence hstate =>
    simp [BudgetLedger.releaseBeforeClaim, hget, hfence, hstate]

/-! ## Steps -/

/-- Every outcome of a command on a valid ledger. -/
inductive Step (ledger : BudgetLedger) (position : CommittedLogPosition) :
    BudgetCommand → BudgetLedger → BudgetReply → Prop
  | refused {command reason} (hreason : reason ≠ .overrun) :
      Step ledger position command ledger (.rejected reason)
  | replayed {command reply} (h : Remembers ledger command reply) :
      Step ledger position command ledger reply
  | reserved {command} (hvalid : validReserve ledger.config command = true)
      (hnew : ledger.grants[command.grantId]? = none)
      (hcap : ledger.reservedSum + command.reservedUsdNanos.toNat ≤
        ledger.config.capUsdNanos.toNat) :
      Step ledger position (.reserve command)
        { ledger with
          grants := ledger.grants.insert command.grantId (ledger.newRecord position command) }
        (.reserved (reservedGrant (ledger.newRecord position command)))
  | claimed {command record} (hchecks : ClaimChecks ledger command record)
      (hstate : record.state = .reserved) :
      Step ledger position (.beginDispatch command)
        (ledger.setState command.grantId record
          (.claimed (ledger.claimReceipt position record command)))
        (.newClaimed (ledger.claimReceipt position record command))
  | settled {command record claim} (hget : ledger.grants[command.grantId]? = some record)
      (hstate : record.state = .claimed claim) (hcloses : ClosesClaim claim command)
      (hwithin : ∀ actual, command.actualUsdNanos = some actual →
        actual ≤ record.reserve.reservedUsdNanos) :
      Step ledger position (.settle command)
        (ledger.setState command.grantId record
          (.settled claim command (ledger.settlementReceipt position record claim command)))
        (.settled (ledger.settlementReceipt position record claim command))
  | overrun {command record claim actual} (hget : ledger.grants[command.grantId]? = some record)
      (hstate : record.state = .claimed claim) (hcloses : ClosesClaim claim command)
      (hactual : command.actualUsdNanos = some actual)
      (hover : record.reserve.reservedUsdNanos < actual) :
      Step ledger position (.settle command)
        (ledger.setState command.grantId record (.overrun claim position
          (expectedSettlementFence ledger.config record claim position command) command))
        (.rejected .overrun)
  | released {grantId fence record} (hget : ledger.grants[grantId]? = some record)
      (hfence : record.reserveFence = fence) (hstate : record.state = .reserved) :
      Step ledger position (.releaseBeforeClaim grantId fence)
        (ledger.setState grantId record
          (.released (ledger.releaseReceipt position grantId record)))
        (.released (ledger.releaseReceipt position grantId record))

theorem reserve_step (ledger : BudgetLedger) (position : CommittedLogPosition)
    (command : ReserveBudget) :
    Step ledger position (.reserve command) (ledger.reserve position command).1
      (ledger.reserve position command).2 := by
  unfold BudgetLedger.reserve
  split
  · exact .refused (by decide)
  split
  · exact .refused (by decide)
  split
  · exact .refused (by decide)
  rename_i hvalid
  have hvalid : validReserve ledger.config command = true := by simpa using hvalid
  cases hget : ledger.grants[command.grantId]? with
  | some existing =>
    dsimp only
    split
    · rename_i hsame
      exact .replayed (.reserved hvalid hget hsame)
    · exact .refused (by decide)
  | none =>
    dsimp only
    cases htotal : ledger.reservedTotal.bind fun used =>
        checkedAdd used command.reservedUsdNanos with
    | none => exact .refused (by decide)
    | some sum =>
      obtain ⟨used, hused, hadd⟩ := Option.bind_eq_some_iff.mp htotal
      rw [reservedTotal_eq_some_iff] at hused
      rw [checkedAdd_eq_some_iff] at hadd
      dsimp only
      split
      · exact .refused (by decide)
      · rename_i hcap
        rw [UInt64.not_lt, UInt64.le_iff_toNat_le] at hcap
        exact .reserved hvalid hget (by omega)

theorem replayClaimReply_step (ledger : BudgetLedger) (position : CommittedLogPosition)
    {command : BeginDispatch} {claim : ClaimReceipt} {reconcileOnly : Bool}
    (hsame : SameClaim claim command → Remembers ledger (.beginDispatch command)
      (if reconcileOnly then .reconcileOnly claim else .alreadyClaimed claim)) :
    Step ledger position (.beginDispatch command) ledger
      (replayClaimReply claim command reconcileOnly) := by
  unfold replayClaimReply
  split
  · rename_i h
    exact .replayed (hsame ⟨h.1, h.2.1, h.2.2⟩)
  · exact .refused (by decide)

theorem beginDispatch_step (ledger : BudgetLedger) (position : CommittedLogPosition)
    (command : BeginDispatch) :
    Step ledger position (.beginDispatch command) (ledger.beginDispatch position command).1
      (ledger.beginDispatch position command).2 := by
  unfold BudgetLedger.beginDispatch
  split
  · exact .refused (by decide)
  split
  · exact .refused (by decide)
  rename_i howner hattempt
  cases hget : ledger.grants[command.grantId]? with
  | none => exact .refused (by decide)
  | some record =>
    dsimp only
    split
    · exact .refused (by decide)
    split
    · exact .refused (by decide)
    rename_i hfence hintent
    have hchecks : ClaimChecks ledger command record :=
      ⟨not_not.mp howner, by simpa using hattempt, hget, not_not.mp hfence, not_not.mp hintent⟩
    cases hstate : record.state with
    | reserved => exact .claimed hchecks hstate
    | claimed claim => exact replayClaimReply_step _ _ (.claimed hchecks hstate)
    | settled claim settlement receipt =>
      exact replayClaimReply_step _ _ (.finished hchecks (by rw [hstate]; rfl))
    | overrun claim reportedAt fence settlement =>
      exact replayClaimReply_step _ _ (.finished hchecks (by rw [hstate]; rfl))
    | released receipt => exact .refused (by decide)

/-- `settleClaim` refuses, or the settlement closes the claim on record. -/
theorem settleClaim_step {ledger : BudgetLedger} {position : CommittedLogPosition}
    {command : SettleBudget} {record : GrantRecord} {claim : ClaimReceipt}
    (hstep : ClosesClaim claim command → Step ledger position (.settle command)
      (ledger.settleState position command record claim).1
      (ledger.settleState position command record claim).2) :
    Step ledger position (.settle command)
      (ledger.settleClaim position command record claim).1
      (ledger.settleClaim position command record claim).2 := by
  by_cases hcloses : ClosesClaim claim command
  · rw [settleClaim_of_closes hcloses]
    exact hstep hcloses
  · unfold BudgetLedger.settleClaim
    split
    · exact .refused (by decide)
    split
    · exact .refused (by decide)
    split
    · exact .refused (by decide)
    rename_i hfence howner hattempt
    exact absurd ⟨not_not.mp hfence, not_not.mp howner, not_not.mp hattempt⟩ hcloses

theorem settle_step (ledger : BudgetLedger) (position : CommittedLogPosition)
    (command : SettleBudget) :
    Step ledger position (.settle command) (ledger.settle position command).1
      (ledger.settle position command).2 := by
  unfold BudgetLedger.settle
  cases hget : ledger.grants[command.grantId]? with
  | none => exact .refused (by decide)
  | some record =>
    dsimp only
    cases hstate : record.state with
    | reserved => exact .refused (by decide)
    | released receipt => exact .refused (by decide)
    | claimed claim =>
      refine settleClaim_step fun hcloses => ?_
      unfold BudgetLedger.settleState
      rw [hstate]
      dsimp only
      split
      · rename_i hover
        obtain ⟨actual, hactual, hlt⟩ := (Option.any_eq_true _ _).mp hover
        exact .overrun hget hstate hcloses hactual (by simpa using hlt)
      · rename_i hwithin
        refine .settled hget hstate hcloses ?_
        intro actual hactual
        rw [hactual] at hwithin
        simpa [UInt64.not_lt] using hwithin
    | settled claim settlement receipt =>
      refine settleClaim_step fun hcloses => ?_
      unfold BudgetLedger.settleState
      rw [hstate]
      dsimp only
      split
      · rename_i hsame
        subst hsame
        exact .replayed (.settled hget hstate hcloses)
      · exact .refused (by decide)
    | overrun claim reportedAt fence settlement =>
      refine settleClaim_step fun hcloses => ?_
      unfold BudgetLedger.settleState
      rw [hstate]
      dsimp only
      split
      · rename_i hsame
        subst hsame
        exact .replayed (.overrun hget hstate hcloses)
      · exact .refused (by decide)

theorem releaseBeforeClaim_step (ledger : BudgetLedger) (position : CommittedLogPosition)
    (grantId : BudgetGrantId) (fence : GrantFence) :
    Step ledger position (.releaseBeforeClaim grantId fence)
      (ledger.releaseBeforeClaim position grantId fence).1
      (ledger.releaseBeforeClaim position grantId fence).2 := by
  unfold BudgetLedger.releaseBeforeClaim
  cases hget : ledger.grants[grantId]? with
  | none => exact .refused (by decide)
  | some record =>
    dsimp only
    split
    · exact .refused (by decide)
    rename_i hfence
    cases hstate : record.state with
    | reserved => exact .released hget (not_not.mp hfence) hstate
    | released receipt => exact .replayed (.released hget (not_not.mp hfence) hstate)
    | claimed claim => exact .refused (by decide)
    | settled claim settlement receipt => exact .refused (by decide)
    | overrun claim reportedAt terminalFence settlement => exact .refused (by decide)

/-- On a valid ledger `apply` takes a `Step`. -/
theorem apply_step {ledger : BudgetLedger} (hvalid : ledger.validate = .ok ())
    (position : CommittedLogPosition) (command : BudgetCommand) :
    Step ledger position command (ledger.apply position command).1
      (ledger.apply position command).2 := by
  unfold BudgetLedger.apply
  rw [hvalid]
  cases command with
  | reserve command => exact reserve_step ledger position command
  | beginDispatch command => exact beginDispatch_step ledger position command
  | settle command => exact settle_step ledger position command
  | releaseBeforeClaim grantId fence => exact releaseBeforeClaim_step ledger position grantId fence

end Neoth.BudgetRaft
