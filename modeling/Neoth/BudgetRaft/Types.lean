import Neoth.Lib.Sha256
import Neoth.Lib.TreeMap

/-!
# Budget authority: commands, receipts and the frozen configuration

The durable types of `cluster/budget_raft/types.rs`.  A `BudgetClusterConfig`
names exactly three voters, a hard cap in nano-dollars and a UTC window, and
carries the digest of all of these (`expectedScopeHash`); `validate` recomputes
it.  The text predicates and `fenceHash` are those every ledger check rests on.
-/

open Std Lib.Encoding

namespace Neoth.BudgetRaft

/-! ## Identifiers -/

/-- The string newtypes: the six of `opaque_id!`, and the two of the membership
authority that the budget types mention. -/
inductive IdKind
  | budgetGrantId | scopeHash | grantFence | dispatchFence | dispatchAttemptId | terminalFence
  | stableNodeId | transportIdentity

structure OpaqueId (kind : IdKind) where
  val : String
  deriving DecidableEq

abbrev BudgetGrantId := OpaqueId .budgetGrantId
abbrev ScopeHash := OpaqueId .scopeHash
abbrev GrantFence := OpaqueId .grantFence
abbrev DispatchFence := OpaqueId .dispatchFence
abbrev DispatchAttemptId := OpaqueId .dispatchAttemptId
abbrev TerminalFence := OpaqueId .terminalFence
abbrev StableNodeId := OpaqueId .stableNodeId
abbrev TransportIdentity := OpaqueId .transportIdentity

instance (kind : IdKind) : Ord (OpaqueId kind) := ⟨fun a b => compare a.val b.val⟩

instance (kind : IdKind) : TransOrd (OpaqueId kind) where
  eq_swap {a b} := by
    show compare a.val b.val = (compare b.val a.val).swap
    exact OrientedCmp.eq_swap
  isLE_trans {a b c} := by
    show (compare a.val b.val).isLE → (compare b.val c.val).isLE → (compare a.val c.val).isLE
    exact TransCmp.isLE_trans

instance (kind : IdKind) : LawfulEqOrd (OpaqueId kind) where
  compare_self {a} := by
    show compare a.val a.val = .eq
    exact ReflCmp.compare_self
  eq_of_compare {a b} h := by
    have hval : a.val = b.val := LawfulEqOrd.eq_of_compare h
    cases a
    cases b
    exact congrArg OpaqueId.mk hval

/-- A position in the committed log, kept for ever with the command applied there. -/
structure CommittedLogPosition where
  term : UInt64
  index : UInt64
  deriving DecidableEq

/-! ## Commands -/

structure ReserveBudget where
  grantId : BudgetGrantId
  providerIntentId : String
  requestFingerprint : String
  scopeHash : ScopeHash
  reservedUsdNanos : UInt64
  utcWindow : Int64
  deriving DecidableEq

structure BeginDispatch where
  grantId : BudgetGrantId
  reserveFence : GrantFence
  owner : StableNodeId
  attemptId : DispatchAttemptId
  providerIntentId : String

/-- `actualUsdNanos = none`: the outcome is unknown and the whole bound stays held. -/
structure SettleBudget where
  grantId : BudgetGrantId
  dispatchFence : DispatchFence
  owner : StableNodeId
  attemptId : DispatchAttemptId
  actualUsdNanos : Option UInt64
  deriving DecidableEq

inductive BudgetCommand
  | reserve (command : ReserveBudget)
  | beginDispatch (command : BeginDispatch)
  | settle (command : SettleBudget)
  | releaseBeforeClaim (grantId : BudgetGrantId) (reserveFence : GrantFence)

/-! ## Receipts and replies -/

structure ReservedGrant where
  grantId : BudgetGrantId
  reserveFence : GrantFence
  committedAt : CommittedLogPosition
  scopeHash : ScopeHash
  providerIntentId : String
  requestFingerprint : String
  reservedUsdNanos : UInt64
  deriving DecidableEq

structure ClaimReceipt where
  grantId : BudgetGrantId
  dispatchFence : DispatchFence
  committedAt : CommittedLogPosition
  owner : StableNodeId
  attemptId : DispatchAttemptId
  providerIntentId : String
  deriving DecidableEq

inductive GrantTerminal
  | settled (chargedUsdNanos : UInt64) (actualCostWasUnknown : Bool)
  | releasedBeforeClaim
  deriving DecidableEq

structure GrantReceipt where
  grantId : BudgetGrantId
  committedAt : CommittedLogPosition
  terminalFence : TerminalFence
  terminal : GrantTerminal
  deriving DecidableEq

inductive BudgetRejection
  | invalidConfig | invalidCommand | grantConflict | capExceeded | unknownGrant | fenceMismatch
  | ownerMismatch | unauthorizedOwner | attemptMismatch | intentMismatch | notClaimed
  | releaseAfterClaim | alreadyReleased | overrun | scopeMismatch | windowMismatch
  deriving DecidableEq

inductive BudgetReply
  | reserved (grant : ReservedGrant)
  | alreadyReserved (grant : ReservedGrant)
  | newClaimed (receipt : ClaimReceipt)
  | alreadyClaimed (receipt : ClaimReceipt)
  | reconcileOnly (receipt : ClaimReceipt)
  | settled (receipt : GrantReceipt)
  | released (receipt : GrantReceipt)
  | rejected (reason : BudgetRejection)
  deriving DecidableEq

/-! ## Text predicates -/

def isIdentifier (value : String) : Bool :=
  value != "" && byteLen value ≤ 512 && trim value == value && !(value.toList.any isControl)

def isSha256Hex (value : String) : Bool :=
  byteLen value == 64 && value == toAsciiLowercase value && (utf8 value).all isAsciiHexdigit

/-- Byte 14 is the version and byte 19 the variant; dashes at 8, 13, 18 and 23. -/
def isUuidV7 (value : String) : Bool :=
  let bytes := utf8 value
  if bytes.length ≠ 36 || bytes.getD 14 0 != 0x37 ||
      !(bytes.getD 19 0 == 0x38 || bytes.getD 19 0 == 0x39 ||
        bytes.getD 19 0 == 0x61 || bytes.getD 19 0 == 0x62) then
    false
  else
    bytes.zipIdx.all fun (byte, index) =>
      if index = 8 ∨ index = 13 ∨ index = 18 ∨ index = 23 then byte == 0x2d
      else isAsciiDigit byte || isLowerHexLetter byte

/-! ## Hashing -/

section Hashing
variable [Sha256]

/-- `update_part`: the bytes of a part behind their length. -/
def updatePart (part : List UInt8) : List UInt8 := leBytes 8 part.length ++ part

def u64Bytes (value : UInt64) : List UInt8 := leBytes 8 value.toNat

/-- Two's complement, as `i64::to_le_bytes`. -/
def i64Bytes (value : Int64) : List UInt8 := leBytes 8 value.toUInt64.toNat

def fenceHash (domain : List UInt8) (parts : List (List UInt8)) : String :=
  hexEncode (Sha256.digest (domain ++ parts.flatMap updatePart)).val

/-! ## The frozen configuration -/

structure BudgetClusterConfig where
  clusterId : String
  membershipEpoch : UInt64
  voters : ExtTreeMap StableNodeId TransportIdentity
  capUsdNanos : UInt64
  utcWindow : Int64
  scopeHash : ScopeHash
  deriving DecidableEq

namespace BudgetClusterConfig

def expectedScopeHash (config : BudgetClusterConfig) : ScopeHash :=
  ⟨hexEncode
    (Sha256.digest (utf8 "neoth.budget.scope.v1\x00" ++ updatePart (utf8 config.clusterId) ++
    updatePart (u64Bytes config.membershipEpoch) ++ updatePart (u64Bytes config.capUsdNanos) ++
    updatePart (i64Bytes config.utcWindow) ++
    config.voters.toList.flatMap fun (node, transport) =>
      updatePart (utf8 node.val) ++ updatePart (utf8 transport.val))).val⟩

/-- The loop over the voters; `transports` are the identities seen so far. -/
def validateVoters : List (StableNodeId × TransportIdentity) → List String →
    Except BudgetRejection Unit
  | [], _ => .ok ()
  | (node, transport) :: rest, transports =>
    if !isSha256Hex node.val || !isIdentifier transport.val || transports.contains transport.val
      then
      .error .invalidConfig
    else validateVoters rest (transport.val :: transports)

def validateShape (config : BudgetClusterConfig) : Except BudgetRejection Unit :=
  if !isIdentifier config.clusterId || config.membershipEpoch == 0 || config.capUsdNanos == 0 then
    .error .invalidConfig
  else if config.voters.size ≠ 3 then .error .invalidConfig
  else validateVoters config.voters.toList []

def validate (config : BudgetClusterConfig) : Except BudgetRejection Unit :=
  match config.validateShape with
  | .error reason => .error reason
  | .ok () =>
    if !isSha256Hex config.scopeHash.val || config.scopeHash ≠ config.expectedScopeHash then
      .error .invalidConfig
    else .ok ()

end BudgetClusterConfig

end Hashing

end Neoth.BudgetRaft
