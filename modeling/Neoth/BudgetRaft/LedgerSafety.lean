import Neoth.BudgetRaft.LedgerRuns

/-!
# Budget ledger: safety

What holds of every run of the ledger, whatever the positions and the commands:

* `run_keeps_cap`: the ledger stays valid, and the bounds of all grants ever
  admitted, released ones too, sum to at most the cap;
* `apply_moves_one_grant`: a command moves at most the grant it names, along the
  lifecycle, and a rejection changes nothing unless it records an overrun;
* `apply_of_step`: a step that is not refused is the one that is taken;
* `replay_returns_first_receipt`: an accepted command that comes again is
  answered with the receipt of the first time.
-/

open Std Lib.Encoding Lib.TreeMap Lib.Machine

namespace Neoth.BudgetRaft

variable [Sha256]

/-! ## The cap -/

/-- What a reply admits to the ledger. -/
def BudgetReply.admitted : BudgetReply → Nat
  | .reserved grant => grant.reservedUsdNanos.toNat
  | _ => 0

/-- What a grant was charged, once settled. -/
def GrantRecord.charge (record : GrantRecord) : Nat :=
  match record.state with
  | .settled _ _ receipt =>
    match receipt.terminal with
    | .settled chargedUsdNanos _ => chargedUsdNanos.toNat
    | .releasedBeforeClaim => 0
  | _ => 0

/-- The sum of all settled charges. -/
def BudgetLedger.chargedSum (ledger : BudgetLedger) : Nat :=
  total GrantRecord.charge ledger.grants

variable {ledger : BudgetLedger} {id : BudgetGrantId} {record : GrantRecord}

omit [Sha256] in
theorem reservedSum_setState (hget : ledger.grants[id]? = some record) (state : GrantState) :
    (ledger.setState id record state).reservedSum = ledger.reservedSum :=
  total_insert_of_measure_eq bound (record.withState state) hget rfl

variable {ledger' : BudgetLedger} {position : CommittedLogPosition} {command : BudgetCommand}
  {reply : BudgetReply}

theorem Step.reservedSum_eq (h : Step ledger position command ledger' reply) :
    ledger'.reservedSum = ledger.reservedSum + reply.admitted := by
  cases h with
  | refused hreason => rfl
  | replayed h => cases h <;> rfl
  | reserved hok hnew hcap => exact total_insert_of_getElem?_none bound _ hnew
  | claimed hchecks hstate => exact reservedSum_setState hchecks.get _
  | settled hget hstate hcloses hwithin => exact reservedSum_setState hget _
  | overrun hget hstate hcloses hactual hover => exact reservedSum_setState hget _
  | released hget hfence hstate => exact reservedSum_setState hget _

/-- A settlement is never charged more than the bound of its grant. -/
theorem charge_le_bound {config : BudgetClusterConfig} (hvalid : RecordValid config id record) :
    record.charge ≤ bound record := by
  have hstate := hvalid.state_valid
  unfold GrantRecord.charge
  cases hrecord : record.state with
  | settled claim settlement receipt =>
    rw [validateState, hrecord] at hstate
    dsimp only at hstate
    split at hstate
    · cases hstate
    unfold validateSettlement at hstate
    split at hstate
    · cases hstate
    split at hstate
    · cases hstate
    rename_i hmatch hterminal
    push Not at hmatch hterminal
    dsimp only
    rw [hterminal.1]
    dsimp only [settledTerminal]
    cases hactual : settlement.actualUsdNanos with
    | none => exact Nat.le_refl _
    | some actual =>
      have hle := hmatch.2.1
      rw [hactual] at hle
      have hle : actual ≤ record.reserve.reservedUsdNanos := by simpa [UInt64.not_lt] using hle
      exact UInt64.le_iff_toNat_le.mp hle
  | _ => exact Nat.zero_le _

theorem chargedSum_le_reservedSum (hvalid : ledger.validate = .ok ()) :
    ledger.chargedSum ≤ ledger.reservedSum := by
  refine List.sum_le_sum ?_
  rintro ⟨id, record⟩ hmem
  rw [ExtTreeMap.mem_toList_iff_getElem?_eq_some] at hmem
  exact charge_le_bound (((validate_eq_ok_iff ledger).mp hvalid).2.1 id record hmem)

/-- **The cap is never exceeded.**  From a ledger just made, after any sequence of
calls, `validate` passes, so that `apply` never takes its fail-closed branch; the
bounds of all the grants admitted on the way sum to at most the cap, without
overflow; and so do the settled charges. -/
theorem run_keeps_cap (config : BudgetClusterConfig) (hconfig : config.validate = .ok ()) :
    ∃ start, BudgetLedger.new config = .ok start ∧ ∀ calls : List Call,
      let ledger := (run BudgetLedger.applyCall start calls).1
      let replies := (run BudgetLedger.applyCall start calls).2
      ledger.validate = .ok () ∧
      ledger.reservedSum = (replies.map BudgetReply.admitted).sum ∧
      ledger.reservedSum ≤ config.capUsdNanos.toNat ∧
      (∃ sum, ledger.reservedTotal = some sum ∧ sum.toNat = ledger.reservedSum) ∧
      ledger.chargedSum ≤ config.capUsdNanos.toNat := by
  refine ⟨_, new_eq_ok hconfig, ?_⟩
  intro calls ledger replies
  obtain ⟨hvalid, hledger⟩ : ledger.validate = .ok () ∧ ledger.config = config :=
    reachable_valid ⟨_, calls, new_eq_ok hconfig, rfl⟩
  have hsum : ledger.reservedSum = 0 + (replies.map BudgetReply.admitted).sum :=
    run_sum applyCall_valid (fun ledger call hvalid => (applyCall_step hvalid call).reservedSum_eq)
      _ (reachable_valid ⟨_, [], new_eq_ok hconfig, rfl⟩).1 calls
  have hcap : ledger.reservedSum ≤ config.capUsdNanos.toNat :=
    hledger ▸ ((validate_eq_ok_iff ledger).mp hvalid).2.2
  have hfits : (UInt64.ofNat ledger.reservedSum).toNat = ledger.reservedSum :=
    UInt64.toNat_ofNat_of_lt' (hcap.trans_lt config.capUsdNanos.toNat_lt)
  exact ⟨hvalid, by omega, hcap, ⟨_, (reservedTotal_eq_some_iff ledger _).mpr hfits, hfits⟩,
    (chargedSum_le_reservedSum hvalid).trans hcap⟩

def sampleVoter (name : Char) : StableNodeId × TransportIdentity :=
  (⟨String.ofList (List.replicate 64 name)⟩, ⟨"transport-" ++ String.singleton name⟩)

/-- A three-voter cluster with a cap of 1000 nano-dollars. -/
def sampleConfig : BudgetClusterConfig where
  clusterId := "cluster-a"
  membershipEpoch := 1
  voters := ExtTreeMap.ofList [sampleVoter 'a', sampleVoter 'b', sampleVoter 'c']
  capUsdNanos := 1000
  utcWindow := 20000
  scopeHash := ⟨"fd17d4b8a41c21097ad96e1d5135d9cb3c027699e76df51123f6fd8014a15f11"⟩

/-- A reservation of 600 nano-dollars under it. -/
def sampleReserve : ReserveBudget where
  grantId := ⟨"01890000-0000-7000-8000-000000000001"⟩
  providerIntentId := "intent-1"
  requestFingerprint := String.ofList (List.replicate 64 '0')
  scopeHash := sampleConfig.scopeHash
  reservedUsdNanos := 600
  utcWindow := 20000

omit [Sha256] in
theorem sampleConfig_validate : @BudgetClusterConfig.validate Sha256.fips sampleConfig =
    .ok () := by
  rw [Sha256.fips_eq]
  decide +kernel

/-- The empty ledger of the sample cluster. -/
def sampleLedger : BudgetLedger := ⟨sampleConfig, ∅⟩

omit [Sha256] in
theorem sampleLedger_reachable : @Reachable Sha256.fips sampleConfig sampleLedger :=
  ⟨_, [], @new_eq_ok Sha256.fips _ sampleConfig_validate, rfl⟩

omit [Sha256] in
theorem run_keeps_cap_sample :
    ∃ start, @BudgetLedger.new Sha256.fips sampleConfig = .ok start ∧
      (run (@BudgetLedger.applyCall Sha256.fips) start
        [⟨⟨1, 1⟩, .reserve sampleReserve⟩]).1.reservedSum ≤ sampleConfig.capUsdNanos.toNat := by
  obtain ⟨start, hnew, hrun⟩ := @run_keeps_cap Sha256.fips sampleConfig sampleConfig_validate
  exact ⟨start, hnew, (hrun [⟨⟨1, 1⟩, .reserve sampleReserve⟩]).2.2.1⟩

/-! ## The lifecycle -/

/-- A grant nothing moves any more. -/
def GrantState.isTerminal : GrantState → Bool
  | .settled _ _ _ => true
  | .overrun _ _ _ _ => true
  | .released _ => true
  | _ => false

omit [Sha256] in
theorem Moves.not_terminal {state state' : GrantState} (h : Moves state state') :
    state.isTerminal = false := by
  cases h <;> rfl

/-- The first settlement of the claim on record, for more than the bound: the one
rejection that writes. -/
structure FirstOverrun (ledger : BudgetLedger) (command : SettleBudget) (record : GrantRecord)
    (claim : ClaimReceipt) (actual : UInt64) : Prop where
  get : ledger.grants[command.grantId]? = some record
  claimed : record.state = .claimed claim
  closes : ClosesClaim claim command
  actual_eq : command.actualUsdNanos = some actual
  exceeds : record.reserve.reservedUsdNanos < actual

theorem apply_of_firstOverrun (hvalid : ledger.validate = .ok ()) {command : SettleBudget}
    {claim : ClaimReceipt} {actual : UInt64} (h : FirstOverrun ledger command record claim actual) :
    ledger.apply position (.settle command) =
      (ledger.setState command.grantId record (.overrun claim position
        (expectedSettlementFence ledger.config record claim position command) command),
        .rejected .overrun) := by
  obtain ⟨hget, hstate, hcloses, hactual, hover⟩ := h
  unfold BudgetLedger.apply BudgetLedger.settle
  rw [hvalid]
  dsimp only
  rw [hget]
  dsimp only
  rw [hstate]
  dsimp only
  rw [settleClaim_of_closes hcloses]
  unfold BudgetLedger.settleState
  rw [hstate]
  refine if_pos ?_
  rw [hactual]
  exact decide_eq_true hover

/-- A step that is not refused is the one that is taken. -/
theorem apply_of_step (hvalid : ledger.validate = .ok ())
    (h : Step ledger position command ledger' reply)
    (hreply : ∀ reason, reply = .rejected reason → reason = .overrun) :
    ledger.apply position command = (ledger', reply) := by
  cases h with
  | refused hreason => exact absurd (hreply _ rfl) hreason
  | replayed h => exact apply_of_remembers hvalid h position
  | @reserved command hok hnew hcap =>
    obtain ⟨hscope, hwindow⟩ := scope_eq_of_validReserve _ _ hok
    have hlt := ledger.config.capUsdNanos.toNat_lt
    have hused : (UInt64.ofNat ledger.reservedSum).toNat = ledger.reservedSum :=
      UInt64.toNat_ofNat_of_lt' (show _ < 2 ^ 64 by omega)
    have hsum : (UInt64.ofNat ledger.reservedSum + command.reservedUsdNanos).toNat =
        ledger.reservedSum + command.reservedUsdNanos.toNat := by
      rw [UInt64.toNat_add, hused]
      exact Nat.mod_eq_of_lt (by omega)
    have htotal : ledger.reservedTotal = some (.ofNat ledger.reservedSum) :=
      (reservedTotal_eq_some_iff ledger _).mpr hused
    have hadd : checkedAdd (.ofNat ledger.reservedSum) command.reservedUsdNanos =
        some (.ofNat ledger.reservedSum + command.reservedUsdNanos) :=
      (checkedAdd_eq_some_iff ..).mpr (hsum.trans (by rw [hused]))
    have hfits : UInt64.ofNat ledger.reservedSum + command.reservedUsdNanos ≤
        ledger.config.capUsdNanos := by
      rw [UInt64.le_iff_toNat_le, hsum]
      exact hcap
    unfold BudgetLedger.apply BudgetLedger.reserve
    simp [hvalid, hscope, hwindow, hok, hnew, htotal, hadd, hfits]
  | claimed hchecks hstate =>
    obtain ⟨howner, hattempt, hget, hfence, hintent⟩ := hchecks
    unfold BudgetLedger.apply BudgetLedger.beginDispatch
    simp [hvalid, howner, hattempt, hget, hfence, hintent, hstate]
  | @settled command record claim hget hstate hcloses hwithin =>
    have hwithin' : command.actualUsdNanos.any (record.reserve.reservedUsdNanos < ·) = false := by
      rw [Bool.eq_false_iff]
      intro hover
      obtain ⟨actual, hactual, hlt⟩ := (Option.any_eq_true _ _).mp hover
      exact UInt64.not_lt.mpr (hwithin actual hactual) (of_decide_eq_true hlt)
    unfold BudgetLedger.apply BudgetLedger.settle
    simp [hvalid, hget, hstate, settleClaim_of_closes hcloses, BudgetLedger.settleState, hwithin']
  | overrun hget hstate hcloses hactual hover =>
    exact apply_of_firstOverrun hvalid ⟨hget, hstate, hcloses, hactual, hover⟩
  | released hget hfence hstate =>
    unfold BudgetLedger.apply BudgetLedger.releaseBeforeClaim
    simp [hvalid, hget, hfence, hstate]

theorem run_applyCall_of_step (hvalid : ledger.validate = .ok ())
    (h : Step ledger position command ledger' reply)
    (hreply : ∀ reason, reply = .rejected reason → reason = .overrun) (calls : List Call) :
    run BudgetLedger.applyCall ledger (⟨position, command⟩ :: calls) =
      ((run BudgetLedger.applyCall ledger' calls).1,
        reply :: (run BudgetLedger.applyCall ledger' calls).2) := by
  rw [run_cons, BudgetLedger.applyCall, apply_of_step hvalid h hreply]

/-- What is reserved can be claimed. -/
theorem run_reserve_claim {config : BudgetClusterConfig} (hconfig : ledger.config = config)
    (hvalid : ledger.validate = .ok ()) (command : ReserveBudget)
    (hok : validReserve config command = true) (hnew : ledger.grants[command.grantId]? = none)
    (hcap : ledger.reservedSum + command.reservedUsdNanos.toNat ≤ config.capUsdNanos.toNat)
    {owner : StableNodeId} (howner : owner ∈ config.voters) {attempt : DispatchAttemptId}
    (hattempt : isIdentifier attempt.val = true) (reservedAt claimedAt : CommittedLogPosition)
    (calls : List Call) :
    let fence := expectedReserveFence config command reservedAt
    let record : GrantRecord := ⟨command, fence, reservedAt, .reserved⟩
    let claim : BeginDispatch := ⟨command.grantId, fence, owner, attempt, command.providerIntentId⟩
    let receipt : ClaimReceipt :=
      ⟨command.grantId, expectedDispatchFence config record claimedAt claim, claimedAt,
      owner, attempt, command.providerIntentId⟩
    ∃ claimed, run BudgetLedger.applyCall ledger
          (⟨reservedAt, .reserve command⟩ :: ⟨claimedAt, .beginDispatch claim⟩ :: calls) =
        ((run BudgetLedger.applyCall claimed calls).1,
          .reserved (reservedGrant record) :: .newClaimed receipt ::
          (run BudgetLedger.applyCall claimed calls).2) ∧
      claimed.validate = .ok () ∧ claimed.config = config ∧
      claimed.grants[command.grantId]? = some (record.withState (.claimed receipt)) ∧
      (∀ id, command.grantId ≠ id → claimed.grants[id]? = ledger.grants[id]?) ∧
      claimed.reservedSum = ledger.reservedSum + command.reservedUsdNanos.toNat := by
  subst hconfig
  intro fence record claim receipt
  have hreserved : Step ledger reservedAt (.reserve command)
      { ledger with grants := ledger.grants.insert command.grantId record }
        (.reserved (reservedGrant record)) :=
    .reserved hok hnew hcap
  have hvalid' := hreserved.valid hvalid
  have hget : (ledger.grants.insert command.grantId record)[command.grantId]? = some record :=
    ExtTreeMap.getElem?_insert_self
  have hclaimed : Step { ledger with grants := ledger.grants.insert command.grantId record }
      claimedAt (.beginDispatch claim) _ _ := .claimed ⟨howner, hattempt, hget, rfl, rfl⟩ rfl
  refine ⟨_, ?_, hclaimed.valid hvalid', rfl, ExtTreeMap.getElem?_insert_self, fun id hid => ?_, ?_⟩
  · rw [run_applyCall_of_step hvalid hreserved (by simp),
      run_applyCall_of_step hvalid' hclaimed (by simp)]
    rfl
  · exact (getElem?_insert_of_ne _ hid).trans (getElem?_insert_of_ne _ hid)
  · rw [hclaimed.reservedSum_eq, hreserved.reservedSum_eq]
    rfl

theorem Step.rejected {reason : BudgetRejection}
    (h : Step ledger position command ledger' (.rejected reason)) :
    ledger' = ledger ∨ reason = .overrun ∧ ∃ settlement record claim actual,
      command = .settle settlement ∧ FirstOverrun ledger settlement record claim actual := by
  cases h with
  | refused hreason => exact .inl rfl
  | replayed h => exact .inl rfl
  | overrun hget hstate hcloses hactual hover =>
    exact .inr ⟨rfl, _, _, _, _, rfl, hget, hstate, hcloses, hactual, hover⟩

/-- **Frame of a command.**  On every reachable ledger a command touches no grant
but the one it names; grants are never removed, keep their request, fence and
position, start out reserved, and change state only along the lifecycle, so that
a terminal grant stays as it is.  A rejection changes nothing, except that the
first settlement beyond the bound moves its grant, and nothing else, from claimed
to overrun. -/
theorem apply_moves_one_grant (config : BudgetClusterConfig) (ledger : BudgetLedger)
    (hreach : Reachable config ledger) (position : CommittedLogPosition) (command : BudgetCommand) :
    let ledger' := (ledger.apply position command).1
    let reply := (ledger.apply position command).2
    ledger'.config = ledger.config ∧
    (∀ id : BudgetGrantId, id ≠ command.grantId → ledger'.grants[id]? = ledger.grants[id]?) ∧
    (∀ (id : BudgetGrantId) (record : GrantRecord), ledger.grants[id]? = some record → ∃ record',
      ledger'.grants[id]? = some record' ∧
      record'.reserve = record.reserve ∧ record'.reserveFence = record.reserveFence ∧
      record'.reservedAt = record.reservedAt ∧
      (record'.state = record.state ∨ Moves record.state record'.state)) ∧
    (∀ (id : BudgetGrantId) (record : GrantRecord), ledger.grants[id]? = none →
      ledger'.grants[id]? = some record →
      record.state = .reserved) ∧
    (∀ (id : BudgetGrantId) (record : GrantRecord), ledger.grants[id]? = some record →
      record.state.isTerminal = true →
      ledger'.grants[id]? = some record) ∧
    (∀ reason, reply = .rejected reason → ledger' = ledger ∨
      reason = .overrun ∧ ∃ settlement record claim actual,
        command = .settle settlement ∧ FirstOverrun ledger settlement record claim actual) ∧
    (∀ settlement record claim actual, command = .settle settlement →
      FirstOverrun ledger settlement record claim actual →
      reply = .rejected .overrun ∧ ledger' = ledger.setState settlement.grantId record
        (.overrun claim position
          (expectedSettlementFence ledger.config record claim position settlement)
            settlement)) := by
  have hvalid := (reachable_valid hreach).1
  have hstep := apply_step hvalid position command
  refine ⟨hstep.config_eq, fun id hid => hstep.frame hid, ?_, fun id record => hstep.new_grant,
    ?_, ?_, ?_⟩
  · intro id record hget
    rcases hstep.grant hget with hsame | ⟨state, hmoves, hmoved⟩
    · exact ⟨record, hsame, rfl, rfl, rfl, .inl rfl⟩
    · exact ⟨record.withState state, hmoved, rfl, rfl, rfl, .inr hmoves⟩
  · intro id record hget hterminal
    rcases hstep.grant hget with hsame | ⟨state, hmoves, -⟩
    · exact hsame
    · rw [hmoves.not_terminal] at hterminal
      cases hterminal
  · intro reason hreply
    rw [hreply] at hstep
    exact hstep.rejected
  · rintro settlement record claim actual rfl hfirst
    rw [apply_of_firstOverrun hvalid hfirst]
    exact ⟨rfl, rfl⟩

/-- Another reservation, of 400 nano-dollars. -/
def anotherReserve : ReserveBudget :=
  { sampleReserve with
    grantId := ⟨"01890000-0000-7000-8000-000000000002"⟩
    reservedUsdNanos := 400 }

def sampleClaim (command : ReserveBudget) (reservedAt : CommittedLogPosition) : BeginDispatch :=
  ⟨command.grantId, expectedReserveFence sampleConfig command reservedAt, (sampleVoter 'a').1,
    ⟨"attempt-1"⟩, command.providerIntentId⟩

def sampleSettle (command : ReserveBudget) (reservedAt claimedAt : CommittedLogPosition)
    (actual : UInt64) : SettleBudget :=
  let claim := sampleClaim command reservedAt
  let fence := expectedDispatchFence sampleConfig ⟨command, claim.reserveFence, reservedAt,
    .reserved⟩ claimedAt claim
  ⟨command.grantId, fence, claim.owner, claim.attemptId, some actual⟩

/-- One grant is reserved, claimed and settled, another reserved and claimed. -/
def sampleCalls : List Call :=
  [⟨⟨1, 1⟩, .reserve sampleReserve⟩, ⟨⟨1, 2⟩, .beginDispatch (sampleClaim sampleReserve ⟨1, 1⟩)⟩,
    ⟨⟨1, 3⟩, .settle (sampleSettle sampleReserve ⟨1, 1⟩ ⟨1, 2⟩ 250)⟩,
    ⟨⟨1, 4⟩, .reserve anotherReserve⟩, ⟨⟨1, 5⟩, .beginDispatch (sampleClaim anotherReserve ⟨1, 4⟩)⟩]

theorem run_sampleCalls (hconfig : sampleConfig.validate = .ok ()) :
    ∃ ledger first claim receipt second claim' settled claimed,
      run BudgetLedger.applyCall sampleLedger sampleCalls =
        (ledger, [.reserved first, .newClaimed claim, .settled receipt, .reserved second,
          .newClaimed claim']) ∧
      claim.grantId = sampleReserve.grantId ∧ claim'.grantId = anotherReserve.grantId ∧
      ledger.grants[sampleReserve.grantId]? = some settled ∧ settled.state.isTerminal = true ∧
      FirstOverrun ledger (sampleSettle anotherReserve ⟨1, 4⟩ ⟨1, 5⟩ 401) claimed claim' 401 := by
  have hvalid :=
    (reachable_valid ⟨_, [], new_eq_ok hconfig, rfl⟩ : sampleLedger.validate = .ok () ∧ _).1
  have hvoter : (sampleVoter 'a').1 ∈ sampleConfig.voters := by decide
  have hattempt : isIdentifier "attempt-1" = true := by decide
  have hempty : ∀ id : BudgetGrantId, sampleLedger.grants[id]? = none :=
    fun _ => ExtTreeMap.getElem?_empty
  have hne : sampleReserve.grantId ≠ anotherReserve.grantId := by decide
  obtain ⟨claimed, hrun, hvalid₂, hconfig₂, hget, hframe, hsum⟩ :=
    run_reserve_claim rfl hvalid sampleReserve
    (by decide +kernel) (hempty _) (by decide +kernel) hvoter hattempt ⟨1, 1⟩ ⟨1, 2⟩
      (sampleCalls.drop 2)
  have hsettled :
      Step claimed ⟨1, 3⟩ (.settle (sampleSettle sampleReserve ⟨1, 1⟩ ⟨1, 2⟩ 250)) _ _ :=
    .settled hget rfl ⟨rfl, rfl, rfl⟩ fun actual hactual => by
      cases hactual
      exact (by decide : (250 : UInt64) ≤ 600)
  have hsum₃ := hsettled.reservedSum_eq.trans (congrArg (· + 0) hsum)
  obtain ⟨ledger, hrun', -, -, hget', hframe', -⟩ :=
    run_reserve_claim (hsettled.config_eq.trans hconfig₂)
    (hsettled.valid hvalid₂) anotherReserve (by decide +kernel)
    ((hsettled.frame hne.symm).trans ((hframe _ hne).trans (hempty _)))
      (by rw [hsum₃]; decide +kernel) hvoter
    hattempt ⟨1, 4⟩ ⟨1, 5⟩ []
  have hrest := run_applyCall_of_step hvalid₂ hsettled (by simp) (sampleCalls.drop 3)
  rw [show run _ _ (sampleCalls.drop 3) = _ from hrun'] at hrest
  rw [show run _ claimed (sampleCalls.drop 2) = _ from hrest] at hrun
  exact ⟨ledger, _, _, _, _, _, _, _, hrun, rfl, rfl,
    (hframe' _ hne.symm).trans ExtTreeMap.getElem?_insert_self, rfl, hget', rfl, ⟨rfl, rfl, rfl⟩,
    rfl, (by decide : (400 : UInt64) < 401)⟩

omit [Sha256] in
theorem apply_moves_one_grant_sample :
    ∃ ledger settled,
      (run (@BudgetLedger.applyCall Sha256.fips) sampleLedger (@sampleCalls Sha256.fips)).1 =
        ledger ∧
      ledger.grants[sampleReserve.grantId]? = some settled ∧ settled.state.isTerminal = true ∧
      let overrun := @BudgetLedger.apply Sha256.fips ledger ⟨1, 6⟩
        (.settle (@sampleSettle Sha256.fips anotherReserve ⟨1, 4⟩ ⟨1, 5⟩ 401))
      overrun.2 = .rejected .overrun ∧ overrun.1.grants[sampleReserve.grantId]? = some settled := by
  obtain ⟨ledger, _, _, _, _, _, settled, _, hrun, -, -, hsettled, hterminal, hover⟩ :=
    @run_sampleCalls Sha256.fips sampleConfig_validate
  have hreach : @Reachable Sha256.fips sampleConfig ledger :=
    ⟨_, _, @new_eq_ok Sha256.fips _ sampleConfig_validate, congrArg Prod.fst hrun⟩
  obtain ⟨-, -, -, -, hkept, -, hmoves⟩ :=
    @apply_moves_one_grant Sha256.fips sampleConfig ledger hreach ⟨1, 6⟩
    (.settle (@sampleSettle Sha256.fips anotherReserve ⟨1, 4⟩ ⟨1, 5⟩ 401))
  exact ⟨ledger, settled, congrArg Prod.fst hrun, hsettled, hterminal, (hmoves _ _ _ _ rfl hover).1,
    hkept _ _ hsettled hterminal⟩

/-! ## Replays -/

/-- What an accepted reply turns into when its command comes again. -/
inductive Replay : BudgetReply → BudgetReply → Prop
  | reserved (grant : ReservedGrant) : Replay (.reserved grant) (.alreadyReserved grant)
  | alreadyReserved (grant : ReservedGrant) :
    Replay (.alreadyReserved grant) (.alreadyReserved grant)
  | newClaimed (receipt : ClaimReceipt) : Replay (.newClaimed receipt) (.alreadyClaimed receipt)
  | alreadyClaimed (receipt : ClaimReceipt) :
    Replay (.alreadyClaimed receipt) (.alreadyClaimed receipt)
  | reconcileOnly (receipt : ClaimReceipt) :
    Replay (.reconcileOnly receipt) (.reconcileOnly receipt)
  | finished {reply : BudgetReply} {receipt : ClaimReceipt}
      (h : Replay reply (.alreadyClaimed receipt)) : Replay reply (.reconcileOnly receipt)
  | settled (receipt : GrantReceipt) : Replay (.settled receipt) (.settled receipt)
  | overrun : Replay (.rejected .overrun) (.rejected .overrun)
  | released (receipt : GrantReceipt) : Replay (.released receipt) (.released receipt)

/-- A reply other than a rejection, or the one rejection that is on record. -/
def BudgetReply.isAccepted : BudgetReply → Bool
  | .rejected reason => reason = .overrun
  | _ => true

/-- The position a reply's receipt carries. -/
def BudgetReply.committedAt : BudgetReply → Option CommittedLogPosition
  | .reserved grant => some grant.committedAt
  | .alreadyReserved grant => some grant.committedAt
  | .newClaimed receipt => some receipt.committedAt
  | .alreadyClaimed receipt => some receipt.committedAt
  | .reconcileOnly receipt => some receipt.committedAt
  | .settled receipt => some receipt.committedAt
  | .released receipt => some receipt.committedAt
  | .rejected _ => none

omit [Sha256] in
theorem Replay.committedAt_eq {reply reply' : BudgetReply} (h : Replay reply reply') :
    reply'.committedAt = reply.committedAt := by
  induction h with
  | finished h ih => exact ih
  | _ => rfl

omit [Sha256] in
theorem Remembers.replay_self (h : Remembers ledger command reply) : Replay reply reply := by
  cases h with
  | reserved => exact .alreadyReserved _
  | claimed => exact .alreadyClaimed _
  | finished => exact .reconcileOnly _
  | settled => exact .settled _
  | overrun => exact .overrun
  | released => exact .released _

omit [Sha256] in
theorem getElem?_setState (ledger : BudgetLedger) (id : BudgetGrantId) (record : GrantRecord)
    (state : GrantState) :
    (ledger.setState id record state).grants[id]? = some (record.withState state) :=
  ExtTreeMap.getElem?_insert_self

/-- An accepted command is remembered. -/
theorem Step.remembers (h : Step ledger position command ledger' reply)
    (haccepted : reply.isAccepted = true) :
    ∃ reply', Remembers ledger' command reply' ∧ Replay reply reply' := by
  cases h with
  | refused hreason => simp [BudgetReply.isAccepted, hreason] at haccepted
  | replayed h => exact ⟨_, h, h.replay_self⟩
  | reserved hok hnew hcap =>
    exact ⟨_, .reserved hok ExtTreeMap.getElem?_insert_self rfl, .reserved _⟩
  | claimed hchecks hstate =>
    obtain ⟨howner, hattempt, -, hfence, hintent⟩ := hchecks
    exact ⟨_, .claimed ⟨howner, hattempt, getElem?_setState _ _ _ _, hfence, hintent⟩ rfl
      ⟨rfl, rfl, rfl⟩, .newClaimed _⟩
  | settled hget hstate hcloses hwithin =>
    exact ⟨_, .settled (getElem?_setState _ _ _ _) rfl hcloses, .settled _⟩
  | overrun hget hstate hcloses hactual hover =>
    exact ⟨_, .overrun (getElem?_setState _ _ _ _) rfl hcloses, .overrun⟩
  | released hget hfence hstate =>
    exact ⟨_, .released (getElem?_setState _ _ _ _) hfence rfl, .released _⟩

theorem ClaimChecks.step {claim : BeginDispatch} (h : Step ledger position command ledger' reply)
    (hchecks : ClaimChecks ledger claim record) :
    ClaimChecks ledger' claim record ∨
      ∃ state, Moves record.state state ∧ ClaimChecks ledger' claim (record.withState state) := by
  obtain ⟨howner, hattempt, hget, hfence, hintent⟩ := hchecks
  rw [← h.config_eq] at howner
  rcases h.grant hget with hsame | ⟨state, hmoves, hmoved⟩
  · exact .inl ⟨howner, hattempt, hsame, hfence, hintent⟩
  · exact .inr ⟨state, hmoves, howner, hattempt, hmoved, hfence, hintent⟩

omit [Sha256] in
theorem Moves.finishedClaim_eq {state state' : GrantState} (h : Moves state state') :
    state.finishedClaim = none := by
  cases h <;> rfl

/-- What is remembered stays remembered; only a claim may turn from open to finished. -/
theorem Remembers.step {command remembered : BudgetCommand} {reply first last : BudgetReply}
    (h : Step ledger position command ledger' reply) (hmem : Remembers ledger remembered last)
    (hreplay : Replay first last) :
    ∃ last', Remembers ledger' remembered last' ∧ Replay first last' := by
  cases hmem with
  | @reserved _ record hok hget hsame =>
    rw [← h.config_eq] at hok
    rcases h.grant hget with hkept | ⟨state, hmoves, hmoved⟩
    · exact ⟨_, .reserved hok hkept hsame, hreplay⟩
    · exact ⟨_, .reserved hok hmoved hsame, hreplay⟩
  | claimed hchecks hstate hsame =>
    rcases hchecks.step h with hkept | ⟨state, hmoves, hmoved⟩
    · exact ⟨_, .claimed hkept hstate hsame, hreplay⟩
    · rw [hstate] at hmoves
      cases hmoves with
      | settle => exact ⟨_, .finished hmoved rfl hsame, .finished hreplay⟩
      | overrun => exact ⟨_, .finished hmoved rfl hsame, .finished hreplay⟩
  | finished hchecks hstate hsame =>
    rcases hchecks.step h with hkept | ⟨state, hmoves, hmoved⟩
    · exact ⟨_, .finished hkept hstate hsame, hreplay⟩
    · rw [hmoves.finishedClaim_eq] at hstate
      cases hstate
  | settled hget hstate hcloses =>
    rcases h.grant hget with hkept | ⟨state, hmoves, hmoved⟩
    · exact ⟨_, .settled hkept hstate hcloses, hreplay⟩
    · rw [hstate] at hmoves
      cases hmoves
  | overrun hget hstate hcloses =>
    rcases h.grant hget with hkept | ⟨state, hmoves, hmoved⟩
    · exact ⟨_, .overrun hkept hstate hcloses, hreplay⟩
    · rw [hstate] at hmoves
      cases hmoves
  | released hget hfence hstate =>
    rcases h.grant hget with hkept | ⟨state, hmoves, hmoved⟩
    · exact ⟨_, .released hkept hfence hstate, hreplay⟩
    · rw [hstate] at hmoves
      cases hmoves

/-- A step that changes the ledger stamps its receipt with its own position. -/
theorem Step.committedAt_eq (h : Step ledger position command ledger' reply)
    (hchanged : ledger' ≠ ledger) :
    ∀ committed, reply.committedAt = some committed → committed = position := by
  intro committed hcommitted
  cases h with
  | refused hreason => exact absurd rfl hchanged
  | replayed h => exact absurd rfl hchanged
  | overrun hget hstate hcloses hactual hover => cases hcommitted
  | _ => exact (Option.some.inj hcommitted).symm

/-- **Replays.**  Let `first` be a call that a reachable ledger accepts.  After any
later calls, the same command at any position changes nothing and is answered
with the receipt of the first time: a reservation as already reserved, a claim as
already claimed or to be reconciled, a settlement, a recorded overrun and a
release as they were.  When `first` is the call that wrote the receipt, the
position in it is that of `first`. -/
theorem replay_returns_first_receipt (config : BudgetClusterConfig) (ledger : BudgetLedger)
    (hreach : Reachable config ledger) (first : Call)
    (haccepted : (ledger.applyCall first).2.isAccepted = true) (later : List Call)
    (position : CommittedLogPosition) :
    let after := (run BudgetLedger.applyCall (ledger.applyCall first).1 later).1
    (after.apply position first.command).1 = after ∧
    Replay (ledger.applyCall first).2 (after.apply position first.command).2 ∧
    ((ledger.applyCall first).1 ≠ ledger → ∀ committed,
      (after.apply position first.command).2.committedAt = some committed →
        committed = first.position) := by
  intro after
  have hvalid := (reachable_valid hreach).1
  have hstep := applyCall_step hvalid first
  have hvalid' := applyCall_valid ledger first hvalid
  -- the memory of `first` is carried along the later calls
  obtain ⟨hvalidAfter, reply, hmem, hreplay⟩ : after.validate = .ok () ∧
      ∃ reply, Remembers after first.command reply ∧ Replay (ledger.applyCall first).2 reply := by
    refine run_invariant (P := fun ledger' => ledger'.validate = .ok () ∧ ∃ reply,
      Remembers ledger' first.command reply ∧ Replay (ledger.applyCall first).2 reply) ?_ _
      ⟨hvalid', hstep.remembers haccepted⟩ later
    rintro ledger' call ⟨hvalid', reply, hmem, hreplay⟩
    exact ⟨applyCall_valid ledger' call hvalid', hmem.step (applyCall_step hvalid' call) hreplay⟩
  rw [apply_of_remembers hvalidAfter hmem position]
  refine ⟨rfl, hreplay, ?_⟩
  intro hchanged committed hcommitted
  rw [hreplay.committedAt_eq] at hcommitted
  exact hstep.committedAt_eq hchanged committed hcommitted

omit [Sha256] in
theorem sampleReserve_accepted :
    (@BudgetLedger.applyCall Sha256.fips sampleLedger
      ⟨⟨1, 1⟩, .reserve sampleReserve⟩).2.isAccepted = true := by
  have hvalid := (@reachable_valid Sha256.fips _ _ sampleLedger_reachable).1
  have heval : ∀ ledger : BudgetLedger, ledger = sampleLedger →
      @BudgetLedger.validate Sha256.fips ledger = .ok () →
      (@BudgetLedger.applyCall Sha256.fips ledger ⟨⟨1, 1⟩, .reserve sampleReserve⟩).2.isAccepted =
        true := by
    intro ledger hledger hvalid
    unfold BudgetLedger.applyCall BudgetLedger.apply
    rw [hvalid, hledger, Sha256.fips_eq]
    decide +kernel
  exact heval _ rfl hvalid

omit [Sha256] in
theorem replay_returns_first_receipt_sample :
    (@BudgetLedger.applyCall Sha256.fips sampleLedger
      ⟨⟨1, 1⟩, .reserve sampleReserve⟩).2.isAccepted = true ∧
    ∃ reply, Replay (@BudgetLedger.applyCall Sha256.fips sampleLedger
      ⟨⟨1, 1⟩, .reserve sampleReserve⟩).2 reply :=
  ⟨sampleReserve_accepted, _, (@replay_returns_first_receipt Sha256.fips sampleConfig sampleLedger
    sampleLedger_reachable ⟨⟨1, 1⟩, .reserve sampleReserve⟩ sampleReserve_accepted
    [⟨⟨1, 2⟩, .reserve sampleReserve⟩] ⟨2, 3⟩).2.1⟩

end Neoth.BudgetRaft
