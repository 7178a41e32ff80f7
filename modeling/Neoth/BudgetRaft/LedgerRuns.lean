import Neoth.BudgetRaft.LedgerSteps

/-!
# Budget ledger: whole runs

A run feeds committed log entries, each a position and a command, to a ledger
made by `BudgetLedger.new`.  Positions and commands are arbitrary: any number of
callers, any order, any duplication.

* `Step.valid`: no step leaves the set of valid ledgers, so `apply` never takes
  its fail-closed branch;
* `Moves`: how a grant may move on in a step;
* `Step.frame`, `Step.grant`: no other grant changes, and this one moves.
-/

open Std Lib.Encoding Lib.TreeMap Lib.Machine

namespace Neoth.BudgetRaft

variable [Sha256]

/-! ## Calls -/

/-- A committed log entry that carries a command. -/
structure Call where
  position : CommittedLogPosition
  command : BudgetCommand

namespace BudgetLedger

def applyCall (ledger : BudgetLedger) (call : Call) : BudgetLedger × BudgetReply :=
  ledger.apply call.position call.command

end BudgetLedger

/-- The ledgers a frozen configuration can lead to. -/
def Reachable (config : BudgetClusterConfig) (ledger : BudgetLedger) : Prop :=
  ∃ start calls, BudgetLedger.new config = .ok start ∧
    (run BudgetLedger.applyCall start calls).1 = ledger

/-! ## Every step keeps the ledger valid -/

variable {id : BudgetGrantId} {record : GrantRecord}

theorem validate_insert {ledger : BudgetLedger} (hvalid : ledger.validate = .ok ())
    (hrecord : RecordValid ledger.config id record)
    (hsum : total bound (ledger.grants.insert id record) ≤ ledger.config.capUsdNanos.toNat) :
    BudgetLedger.validate { ledger with grants := ledger.grants.insert id record } = .ok () := by
  rw [validate_eq_ok_iff] at hvalid ⊢
  obtain ⟨hconfig, hrecords, -⟩ := hvalid
  refine ⟨hconfig, ?_, hsum⟩
  intro id' record' hget
  by_cases hid : id = id'
  · subst hid
    rw [ExtTreeMap.getElem?_insert_self] at hget
    exact Option.some.inj hget ▸ hrecord
  · rw [getElem?_insert_of_ne record hid] at hget
    exact hrecords id' record' hget

/-- A new state for a grant keeps the ledger valid as soon as the state itself checks. -/
theorem validate_setState {ledger : BudgetLedger} (hvalid : ledger.validate = .ok ())
    (hget : ledger.grants[id]? = some record) {state : GrantState}
    (hstate : validateState ledger.config (record.withState state) = .ok ()) :
    (ledger.setState id record state).validate = .ok () := by
  obtain ⟨-, hrecords, hcap⟩ := (validate_eq_ok_iff ledger).mp hvalid
  obtain ⟨hid, hreserve, hfence, -⟩ := hrecords id record hget
  refine validate_insert hvalid ⟨hid, hreserve, hfence, hstate⟩ ?_
  rw [total_insert_of_measure_eq bound (record.withState state) hget rfl]
  exact hcap

variable {config : BudgetClusterConfig} {claim : ClaimReceipt}

theorem grantId_eq_of_validateClaim (h : validateClaim config record claim = .ok ()) :
    claim.grantId = record.reserve.grantId := by
  unfold validateClaim at h
  by_contra hne
  rw [if_pos (.inl hne)] at h
  cases h

/-- A settlement that closes the claim of a valid grant names all the claim names. -/
theorem matchesSettlement_of_closes {command : SettleBudget}
    (hvalid : RecordValid config command.grantId record)
    (hclaim : validateClaim config record claim = .ok ()) (hcloses : ClosesClaim claim command) :
    matchesSettlement claim command = true := by
  have hid : command.grantId = claim.grantId :=
    hvalid.id_eq.symm.trans (grantId_eq_of_validateClaim hclaim).symm
  simp [matchesSettlement, hid, hcloses.fence_eq, hcloses.owner_eq, hcloses.attempt_eq]

theorem Step.valid {ledger ledger' : BudgetLedger} {position : CommittedLogPosition}
    {command : BudgetCommand} {reply : BudgetReply} (hvalid : ledger.validate = .ok ())
    (h : Step ledger position command ledger' reply) : ledger'.validate = .ok () := by
  have hrecords := ((validate_eq_ok_iff ledger).mp hvalid).2.1
  cases h with
  | refused hreason => exact hvalid
  | replayed h => exact hvalid
  | reserved hok hnew hcap =>
    refine validate_insert hvalid ⟨rfl, hok, rfl, rfl⟩ ?_
    rw [total_insert_of_getElem?_none bound _ hnew]
    exact hcap
  | claimed hchecks hstate =>
    obtain ⟨howner, hattempt, hget, hfence, hintent⟩ := hchecks
    have hid := (hrecords _ _ hget).id_eq
    refine validate_setState hvalid hget ?_
    simp [validateState, validateClaim, BudgetLedger.claimReceipt, howner,
      hattempt, hid, hintent, expectedDispatchFence]
  | @settled command record claim hget hstate hcloses hwithin =>
    have hrecord := hrecords _ _ hget
    have hclaim : validateClaim ledger.config record claim = .ok () := by
      simpa only [validateState, hstate] using hrecord.state_valid
    have hmatch := matchesSettlement_of_closes hrecord hclaim hcloses
    refine validate_setState hvalid hget ?_
    have hclaim' : validateClaim ledger.config (record.withState (.settled claim command
        (ledger.settlementReceipt position record claim command))) claim = .ok () := hclaim
    simp only [validateState, GrantRecord.withState_state, hclaim']
    unfold validateSettlement
    rw [if_neg, if_neg]
    · simp [BudgetLedger.settlementReceipt, settledTerminal, expectedSettlementFence]
    · rintro (h | h | h)
      · simp [hmatch] at h
      · obtain ⟨actual, hactual, hlt⟩ := (Option.any_eq_true _ _).mp h
        exact absurd (hwithin actual hactual) (UInt64.not_le.mpr (of_decide_eq_true hlt))
      · exact h hrecord.id_eq.symm
  | @overrun command record claim actual hget hstate hcloses hactual hover =>
    have hrecord := hrecords _ _ hget
    have hclaim : validateClaim ledger.config record claim = .ok () := by
      simpa only [validateState, hstate] using hrecord.state_valid
    have hmatch := matchesSettlement_of_closes hrecord hclaim hcloses
    refine validate_setState hvalid hget ?_
    have hclaim' : validateClaim ledger.config (record.withState (.overrun claim position
        (expectedSettlementFence ledger.config record claim position command) command)) claim =
          .ok () := hclaim
    simp only [validateState, GrantRecord.withState_state, hclaim']
    refine if_neg ?_
    rintro (h | h | h)
    · simp [hmatch] at h
    · rw [hactual] at h
      exact absurd (of_decide_eq_true h) (UInt64.not_le.mpr hover)
    · exact h rfl
  | released hget hfence hstate =>
    have hid := (hrecords _ _ hget).id_eq
    refine validate_setState hvalid hget ?_
    simp [validateState, BudgetLedger.releaseReceipt, hid, expectedReleaseFence]

theorem applyCall_step {ledger : BudgetLedger} (hvalid : ledger.validate = .ok ()) (call : Call) :
    Step ledger call.position call.command (ledger.applyCall call).1 (ledger.applyCall call).2 :=
  apply_step hvalid call.position call.command

theorem applyCall_valid (ledger : BudgetLedger) (call : Call) (hvalid : ledger.validate = .ok ()) :
    (ledger.applyCall call).1.validate = .ok () :=
  (applyCall_step hvalid call).valid hvalid

/-! ## What a step does to the grants -/

/-- The lifecycle of a grant. -/
inductive Moves : GrantState → GrantState → Prop
  | claim (claim : ClaimReceipt) : Moves .reserved (.claimed claim)
  | settle (claim : ClaimReceipt) (settlement : SettleBudget) (receipt : GrantReceipt) :
      Moves (.claimed claim) (.settled claim settlement receipt)
  | overrun (claim : ClaimReceipt) (reportedAt : CommittedLogPosition) (fence : TerminalFence)
      (settlement : SettleBudget) :
        Moves (.claimed claim) (.overrun claim reportedAt fence settlement)
  | release (receipt : GrantReceipt) : Moves .reserved (.released receipt)

/-- A step leaves the ledger alone, admits one grant, or moves one. -/
theorem Step.effect {ledger ledger' : BudgetLedger} {position : CommittedLogPosition}
    {command : BudgetCommand} {reply : BudgetReply}
    (h : Step ledger position command ledger' reply) :
    ledger' = ledger ∨
    (∃ record, ledger.grants[command.grantId]? = none ∧ record.state = .reserved ∧
      ledger' = { ledger with grants := ledger.grants.insert command.grantId record }) ∨
    (∃ record state, ledger.grants[command.grantId]? = some record ∧ Moves record.state state ∧
      ledger' = ledger.setState command.grantId record state) := by
  cases h with
  | refused hreason => exact .inl rfl
  | replayed h => exact .inl rfl
  | reserved hok hnew hcap => exact .inr (.inl ⟨_, hnew, rfl, rfl⟩)
  | claimed hchecks hstate => exact .inr (.inr ⟨_, _, hchecks.get, hstate ▸ .claim _, rfl⟩)
  | settled hget hstate hcloses hwithin =>
    exact .inr (.inr ⟨_, _, hget, hstate ▸ .settle _ _ _, rfl⟩)
  | overrun hget hstate hcloses hactual hover =>
    exact .inr (.inr ⟨_, _, hget, hstate ▸ .overrun _ _ _ _, rfl⟩)
  | released hget hfence hstate => exact .inr (.inr ⟨_, _, hget, hstate ▸ .release _, rfl⟩)

section Frame
variable {ledger ledger' : BudgetLedger} {position : CommittedLogPosition} {command : BudgetCommand}
  {reply : BudgetReply}

theorem Step.config_eq (h : Step ledger position command ledger' reply) :
    ledger'.config = ledger.config := by
  rcases h.effect with rfl | ⟨_, _, _, rfl⟩ | ⟨_, _, _, _, rfl⟩ <;> rfl

/-- Grants the command does not name are untouched. -/
theorem Step.frame (h : Step ledger position command ledger' reply) (hid : id ≠ command.grantId) :
    ledger'.grants[id]? = ledger.grants[id]? := by
  rcases h.effect with rfl | ⟨_, _, _, rfl⟩ | ⟨_, _, _, _, rfl⟩
  · rfl
  · exact getElem?_insert_of_ne _ hid.symm
  · exact getElem?_insert_of_ne _ hid.symm

/-- A grant stays as it is, or moves along its lifecycle. -/
theorem Step.grant (h : Step ledger position command ledger' reply)
    (hget : ledger.grants[id]? = some record) : ledger'.grants[id]? = some record ∨
    (∃ state, Moves record.state state ∧ ledger'.grants[id]? = some (record.withState state)) := by
  by_cases hid : id = command.grantId
  · subst hid
    rcases h.effect with rfl | ⟨_, hnew, _, rfl⟩ | ⟨record', state, hget', hmoves, rfl⟩
    · exact .inl hget
    · rw [hnew] at hget
      cases hget
    · rw [hget] at hget'
      cases hget'
      exact .inr ⟨state, hmoves, ExtTreeMap.getElem?_insert_self⟩
  · exact .inl ((h.frame hid).trans hget)

/-- A grant that a step adds starts out reserved. -/
theorem Step.new_grant (h : Step ledger position command ledger' reply)
    (hnew : ledger.grants[id]? = none)
    (hget : ledger'.grants[id]? = some record) : record.state = .reserved := by
  by_cases hid : id = command.grantId
  · subst hid
    rcases h.effect with rfl | ⟨_, _, hstate, rfl⟩ | ⟨_, _, hget', _, rfl⟩
    · rw [hnew] at hget
      cases hget
    · rw [ExtTreeMap.getElem?_insert_self] at hget
      exact Option.some.inj hget ▸ hstate
    · rw [hnew] at hget'
      cases hget'
  · rw [h.frame hid, hnew] at hget
    cases hget

end Frame

/-! ## Runs -/

theorem reachable_valid {ledger : BudgetLedger} (h : Reachable config ledger) :
    ledger.validate = .ok () ∧ ledger.config = config := by
  obtain ⟨start, calls, hnew, rfl⟩ := h
  have hstart : start.validate = .ok () ∧ start.config = config := by
    unfold BudgetLedger.new at hnew
    split at hnew
    · cases hnew
    · rename_i hconfig
      cases hnew
      refine ⟨(validate_eq_ok_iff _).mpr ⟨hconfig, ?_, ?_⟩, rfl⟩
      · intro id record hget
        simp at hget
      · exact Nat.zero_le _
  refine run_invariant (P := fun ledger => ledger.validate = .ok () ∧ ledger.config = config)
    ?_ start hstart calls
  rintro ledger call ⟨hvalid, hconfig⟩
  exact ⟨applyCall_valid ledger call hvalid, (applyCall_step hvalid call).config_eq.trans hconfig⟩

theorem new_eq_ok (hconfig : config.validate = .ok ()) :
    BudgetLedger.new config = .ok ⟨config, ∅⟩ := by
  unfold BudgetLedger.new
  rw [hconfig]

end Neoth.BudgetRaft
