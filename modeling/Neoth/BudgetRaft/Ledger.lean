import Neoth.Lib.Machine
import Neoth.BudgetRaft.Types

/-!
# Budget ledger: the replicated state machine

`cluster/budget_raft/state_machine.rs`.  A grant is created `reserved`, and
moves to `claimed` and then `settled` or `overrun`, or from `reserved` straight
to `released`.  `BudgetLedger.validate` recomputes every fence of every grant
and totals every original bound; `BudgetLedger.apply` refuses to do anything on
a ledger that does not pass it.

The hash is a parameter (`[Sha256]`), so nothing proved about the ledger rests
on what the digests are.
-/

open Std Lib.Encoding

namespace Neoth.BudgetRaft

inductive GrantState
  | reserved
  | claimed (claim : ClaimReceipt)
  | settled (claim : ClaimReceipt) (settlement : SettleBudget) (receipt : GrantReceipt)
  | overrun (claim : ClaimReceipt) (reportedAt : CommittedLogPosition)
      (terminalFence : TerminalFence) (settlement : SettleBudget)
  | released (receipt : GrantReceipt)

structure GrantRecord where
  reserve : ReserveBudget
  reserveFence : GrantFence
  reservedAt : CommittedLogPosition
  state : GrantState

def GrantRecord.withState (record : GrantRecord) (state : GrantState) : GrantRecord :=
  { record with state := state }

@[simp] theorem GrantRecord.withState_reserve (record : GrantRecord) (state : GrantState) :
    (record.withState state).reserve = record.reserve := rfl

@[simp] theorem GrantRecord.withState_reserveFence (record : GrantRecord) (state : GrantState) :
    (record.withState state).reserveFence = record.reserveFence := rfl

@[simp] theorem GrantRecord.withState_reservedAt (record : GrantRecord) (state : GrantState) :
    (record.withState state).reservedAt = record.reservedAt := rfl

@[simp] theorem GrantRecord.withState_state (record : GrantRecord) (state : GrantState) :
    (record.withState state).state = state := rfl

structure BudgetLedger where
  config : BudgetClusterConfig
  grants : ExtTreeMap BudgetGrantId GrantRecord

def reservedGrant (record : GrantRecord) : ReservedGrant where
  grantId := record.reserve.grantId
  reserveFence := record.reserveFence
  committedAt := record.reservedAt
  scopeHash := record.reserve.scopeHash
  providerIntentId := record.reserve.providerIntentId
  requestFingerprint := record.reserve.requestFingerprint
  reservedUsdNanos := record.reserve.reservedUsdNanos

def replayClaimReply (receipt : ClaimReceipt) (command : BeginDispatch) (reconcileOnly : Bool) :
    BudgetReply :=
  if receipt.owner = command.owner ∧ receipt.attemptId = command.attemptId ∧
      receipt.providerIntentId = command.providerIntentId then
    if reconcileOnly then .reconcileOnly receipt else .alreadyClaimed receipt
  else .rejected .grantConflict

def validReserve (config : BudgetClusterConfig) (reserve : ReserveBudget) : Bool :=
  reserve.scopeHash = config.scopeHash && reserve.utcWindow = config.utcWindow &&
    0 < reserve.reservedUsdNanos && isUuidV7 reserve.grantId.val &&
    isIdentifier reserve.providerIntentId && isSha256Hex reserve.requestFingerprint

def matchesSettlement (claim : ClaimReceipt) (settlement : SettleBudget) : Bool :=
  settlement.grantId = claim.grantId && settlement.dispatchFence = claim.dispatchFence &&
    settlement.owner = claim.owner && settlement.attemptId = claim.attemptId

section Fences
variable [Sha256]

def expectedReserveFence (config : BudgetClusterConfig) (reserve : ReserveBudget)
    (position : CommittedLogPosition) : GrantFence :=
  ⟨fenceHash (utf8 "neoth.budget.reserve-fence.v2\x00") [
    utf8 config.clusterId, utf8 config.scopeHash.val, u64Bytes config.membershipEpoch,
    u64Bytes position.term, u64Bytes position.index, utf8 reserve.grantId.val,
    utf8 reserve.providerIntentId, utf8 reserve.requestFingerprint,
    u64Bytes reserve.reservedUsdNanos, i64Bytes reserve.utcWindow]⟩

def expectedDispatchFence (config : BudgetClusterConfig) (record : GrantRecord)
    (position : CommittedLogPosition) (command : BeginDispatch) : DispatchFence :=
  ⟨fenceHash (utf8 "neoth.budget.dispatch-fence.v2\x00") [
    utf8 config.clusterId, utf8 config.scopeHash.val, u64Bytes config.membershipEpoch,
    u64Bytes record.reservedAt.term, u64Bytes record.reservedAt.index, utf8 record.reserveFence.val,
    u64Bytes position.term, u64Bytes position.index, utf8 command.grantId.val,
    utf8 command.owner.val, utf8 command.attemptId.val, utf8 command.providerIntentId]⟩

/-- The actual cost goes in behind a presence byte. -/
def expectedSettlementFence (config : BudgetClusterConfig) (record : GrantRecord)
    (claim : ClaimReceipt) (position : CommittedLogPosition) (settlement : SettleBudget) :
    TerminalFence :=
  ⟨fenceHash (utf8 "neoth.budget.settlement-fence.v2\x00") [
    utf8 config.clusterId, utf8 config.scopeHash.val, u64Bytes config.membershipEpoch,
    utf8 record.reserveFence.val, utf8 claim.dispatchFence.val,
    u64Bytes claim.committedAt.term, u64Bytes claim.committedAt.index,
    u64Bytes position.term, u64Bytes position.index, utf8 settlement.grantId.val,
    utf8 settlement.owner.val, utf8 settlement.attemptId.val,
    [if settlement.actualUsdNanos.isSome then 1 else 0],
    (settlement.actualUsdNanos.map u64Bytes).getD []]⟩

def expectedReleaseFence (config : BudgetClusterConfig) (record : GrantRecord)
    (position : CommittedLogPosition) : TerminalFence :=
  ⟨fenceHash (utf8 "neoth.budget.release-fence.v2\x00") [
    utf8 config.clusterId, utf8 config.scopeHash.val, u64Bytes config.membershipEpoch,
    u64Bytes record.reservedAt.term, u64Bytes record.reservedAt.index, utf8 record.reserveFence.val,
    u64Bytes position.term, u64Bytes position.index, utf8 record.reserve.grantId.val]⟩

/-! ## Validation of recovered state -/

def validateClaim (config : BudgetClusterConfig) (record : GrantRecord) (claim : ClaimReceipt) :
    Except BudgetRejection Unit :=
  let command : BeginDispatch :=
    ⟨claim.grantId, record.reserveFence, claim.owner, claim.attemptId, claim.providerIntentId⟩
  if claim.grantId ≠ record.reserve.grantId ∨ claim.owner ∉ config.voters ∨
      isIdentifier claim.attemptId.val = false ∨
      claim.providerIntentId ≠ record.reserve.providerIntentId ∨
      claim.dispatchFence ≠ expectedDispatchFence config record claim.committedAt command then
    .error .invalidConfig
  else .ok ()

/-- What the terminal receipt of a settlement must say: the actual cost, or the
whole bound when it is unknown. -/
def settledTerminal (record : GrantRecord) (settlement : SettleBudget) : GrantTerminal :=
  .settled (settlement.actualUsdNanos.getD record.reserve.reservedUsdNanos)
    settlement.actualUsdNanos.isNone

def validateSettlement (config : BudgetClusterConfig) (record : GrantRecord) (claim : ClaimReceipt)
    (settlement : SettleBudget) (receipt : GrantReceipt) : Except BudgetRejection Unit :=
  if matchesSettlement claim settlement = false ∨
      settlement.actualUsdNanos.any (record.reserve.reservedUsdNanos < ·) ∨
      receipt.grantId ≠ record.reserve.grantId then
    .error .invalidConfig
  else if receipt.terminal ≠ settledTerminal record settlement ∨
      receipt.terminalFence ≠
        expectedSettlementFence config record claim receipt.committedAt settlement then
    .error .invalidConfig
  else .ok ()

def validateState (config : BudgetClusterConfig) (record : GrantRecord) :
    Except BudgetRejection Unit :=
  match record.state with
  | .reserved => .ok ()
  | .claimed claim => validateClaim config record claim
  | .settled claim settlement receipt =>
    match validateClaim config record claim with
    | .error reason => .error reason
    | .ok () => validateSettlement config record claim settlement receipt
  | .overrun claim reportedAt terminalFence settlement =>
    match validateClaim config record claim with
    | .error reason => .error reason
    | .ok () =>
      if matchesSettlement claim settlement = false ∨
          settlement.actualUsdNanos.all (· ≤ record.reserve.reservedUsdNanos) ∨
          terminalFence ≠ expectedSettlementFence config record claim reportedAt settlement then
        .error .invalidConfig
      else .ok ()
  | .released receipt =>
    if receipt.grantId ≠ record.reserve.grantId ∨ receipt.terminal ≠ .releasedBeforeClaim ∨
        receipt.terminalFence ≠ expectedReleaseFence config record receipt.committedAt then
      .error .invalidConfig
    else .ok ()

/-- The loop of `validate`: `total` is what the grants before this point reserve. -/
def validateGrants (config : BudgetClusterConfig) :
    List (BudgetGrantId × GrantRecord) → UInt64 → Except BudgetRejection UInt64
  | [], total => .ok total
  | (id, record) :: rest, total =>
    if id ≠ record.reserve.grantId ∨ validReserve config record.reserve = false then
      .error .invalidConfig
    else if record.reserveFence ≠ expectedReserveFence config record.reserve record.reservedAt then
      .error .invalidConfig
    else match checkedAdd total record.reserve.reservedUsdNanos with
      | none => .error .capExceeded
      | some total =>
        match validateState config record with
        | .error reason => .error reason
        | .ok () => validateGrants config rest total

namespace BudgetLedger

def new (config : BudgetClusterConfig) : Except BudgetRejection BudgetLedger :=
  match config.validate with
  | .error reason => .error reason
  | .ok () => .ok ⟨config, ∅⟩

def validate (ledger : BudgetLedger) : Except BudgetRejection Unit :=
  match ledger.config.validate with
  | .error reason => .error reason
  | .ok () =>
    match validateGrants ledger.config ledger.grants.toList 0 with
    | .error reason => .error reason
    | .ok total => if ledger.config.capUsdNanos < total then .error .capExceeded else .ok ()

/-! ## Commands -/

/-- `reserved_total`: `none` when the bounds do not fit 64 bits. -/
def reservedTotal (ledger : BudgetLedger) : Option UInt64 :=
  ledger.grants.toList.foldlM
    (fun sum entry => checkedAdd sum entry.2.reserve.reservedUsdNanos) 0

/-- Write a new state over a grant just read. -/
def setState (ledger : BudgetLedger) (id : BudgetGrantId) (record : GrantRecord)
    (state : GrantState) : BudgetLedger :=
  { ledger with grants := ledger.grants.insert id (record.withState state) }

/-- The record `reserve` inserts. -/
def newRecord (ledger : BudgetLedger) (position : CommittedLogPosition) (command : ReserveBudget) :
    GrantRecord :=
  ⟨command, expectedReserveFence ledger.config command position, position, .reserved⟩

def reserve (ledger : BudgetLedger) (position : CommittedLogPosition) (command : ReserveBudget) :
    BudgetLedger × BudgetReply :=
  if command.scopeHash ≠ ledger.config.scopeHash then (ledger, .rejected .scopeMismatch)
  else if command.utcWindow ≠ ledger.config.utcWindow then (ledger, .rejected .windowMismatch)
  else if validReserve ledger.config command = false then (ledger, .rejected .invalidCommand)
  else match ledger.grants[command.grantId]? with
    | some existing =>
      if existing.reserve = command then (ledger, .alreadyReserved (reservedGrant existing))
      else (ledger, .rejected .grantConflict)
    | none =>
      match ledger.reservedTotal.bind fun used => checkedAdd used command.reservedUsdNanos with
      | none => (ledger, .rejected .capExceeded)
      | some total =>
        if ledger.config.capUsdNanos < total then (ledger, .rejected .capExceeded)
        else
          let record := ledger.newRecord position command
          ({ ledger with grants := ledger.grants.insert command.grantId record },
            .reserved (reservedGrant record))

/-- The receipt a first claim writes. -/
def claimReceipt (ledger : BudgetLedger) (position : CommittedLogPosition) (record : GrantRecord)
    (command : BeginDispatch) : ClaimReceipt where
  grantId := command.grantId
  dispatchFence := expectedDispatchFence ledger.config record position command
  committedAt := position
  owner := command.owner
  attemptId := command.attemptId
  providerIntentId := command.providerIntentId

def beginDispatch (ledger : BudgetLedger) (position : CommittedLogPosition)
    (command : BeginDispatch) : BudgetLedger × BudgetReply :=
  if command.owner ∉ ledger.config.voters then (ledger, .rejected .unauthorizedOwner)
  else if isIdentifier command.attemptId.val = false then (ledger, .rejected .invalidCommand)
  else match ledger.grants[command.grantId]? with
    | none => (ledger, .rejected .unknownGrant)
    | some record =>
      if record.reserveFence ≠ command.reserveFence then (ledger, .rejected .fenceMismatch)
      else if record.reserve.providerIntentId ≠ command.providerIntentId then
        (ledger, .rejected .intentMismatch)
      else match record.state with
        | .reserved =>
          let receipt := ledger.claimReceipt position record command
          (ledger.setState command.grantId record (.claimed receipt), .newClaimed receipt)
        | .claimed receipt => (ledger, replayClaimReply receipt command false)
        | .settled receipt _ _ => (ledger, replayClaimReply receipt command true)
        | .overrun receipt _ _ _ => (ledger, replayClaimReply receipt command true)
        | .released _ => (ledger, .rejected .alreadyReleased)

/-- The receipt a first settlement within the bound writes. -/
def settlementReceipt (ledger : BudgetLedger) (position : CommittedLogPosition)
    (record : GrantRecord) (claim : ClaimReceipt) (command : SettleBudget) : GrantReceipt where
  grantId := command.grantId
  committedAt := position
  terminalFence := expectedSettlementFence ledger.config record claim position command
  terminal := settledTerminal record command

/-- A settlement that closes the claim on record: a replay of the first one, or
the first one, within the bound or beyond it. -/
def settleState (ledger : BudgetLedger) (position : CommittedLogPosition) (command : SettleBudget)
    (record : GrantRecord) (claim : ClaimReceipt) : BudgetLedger × BudgetReply :=
  match record.state with
  | .settled _ settlement receipt =>
    if settlement = command then (ledger, .settled receipt) else (ledger, .rejected .grantConflict)
  | .overrun _ _ _ settlement =>
    if settlement = command then (ledger, .rejected .overrun)
    else (ledger, .rejected .grantConflict)
  -- `claimed`; the source marks the other two unreachable here, `settle` has returned on them
  | _ =>
    if command.actualUsdNanos.any (record.reserve.reservedUsdNanos < ·) then
      let terminalFence := expectedSettlementFence ledger.config record claim position command
      (ledger.setState command.grantId record (.overrun claim position terminalFence command),
        .rejected .overrun)
    else
      let receipt := ledger.settlementReceipt position record claim command
      (ledger.setState command.grantId record (.settled claim command receipt), .settled receipt)

/-- The checks of a settlement against the claim on record. -/
def settleClaim (ledger : BudgetLedger) (position : CommittedLogPosition) (command : SettleBudget)
    (record : GrantRecord) (claim : ClaimReceipt) : BudgetLedger × BudgetReply :=
  if claim.dispatchFence ≠ command.dispatchFence then (ledger, .rejected .fenceMismatch)
  else if claim.owner ≠ command.owner then (ledger, .rejected .ownerMismatch)
  else if claim.attemptId ≠ command.attemptId then (ledger, .rejected .attemptMismatch)
  else ledger.settleState position command record claim

def settle (ledger : BudgetLedger) (position : CommittedLogPosition) (command : SettleBudget) :
    BudgetLedger × BudgetReply :=
  match ledger.grants[command.grantId]? with
  | none => (ledger, .rejected .unknownGrant)
  | some record =>
    match record.state with
    | .claimed claim => ledger.settleClaim position command record claim
    | .settled claim _ _ => ledger.settleClaim position command record claim
    | .overrun claim _ _ _ => ledger.settleClaim position command record claim
    | .reserved => (ledger, .rejected .notClaimed)
    | .released _ => (ledger, .rejected .alreadyReleased)

/-- The receipt a first release writes. -/
def releaseReceipt (ledger : BudgetLedger) (position : CommittedLogPosition)
    (grantId : BudgetGrantId) (record : GrantRecord) : GrantReceipt where
  grantId := grantId
  committedAt := position
  terminalFence := expectedReleaseFence ledger.config record position
  terminal := .releasedBeforeClaim

def releaseBeforeClaim (ledger : BudgetLedger) (position : CommittedLogPosition)
    (grantId : BudgetGrantId) (reserveFence : GrantFence) : BudgetLedger × BudgetReply :=
  match ledger.grants[grantId]? with
  | none => (ledger, .rejected .unknownGrant)
  | some record =>
    if record.reserveFence ≠ reserveFence then (ledger, .rejected .fenceMismatch)
    else match record.state with
      | .reserved =>
        let receipt := ledger.releaseReceipt position grantId record
        (ledger.setState grantId record (.released receipt), .released receipt)
      | .released receipt => (ledger, .released receipt)
      | .claimed _ => (ledger, .rejected .releaseAfterClaim)
      | .settled _ _ _ => (ledger, .rejected .releaseAfterClaim)
      | .overrun _ _ _ _ => (ledger, .rejected .releaseAfterClaim)

def apply (ledger : BudgetLedger) (position : CommittedLogPosition) (command : BudgetCommand) :
    BudgetLedger × BudgetReply :=
  match ledger.validate with
  | .error _ => (ledger, .rejected .invalidConfig)
  | .ok () =>
    match command with
    | .reserve command => ledger.reserve position command
    | .beginDispatch command => ledger.beginDispatch position command
    | .settle command => ledger.settle position command
    | .releaseBeforeClaim grantId reserveFence =>
      ledger.releaseBeforeClaim position grantId reserveFence

end BudgetLedger

end Fences

end Neoth.BudgetRaft
