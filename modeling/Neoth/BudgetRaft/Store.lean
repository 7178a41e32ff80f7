import Neoth.Lib.Transaction
import Neoth.BudgetRaft.LedgerSafety

/-!
# Budget Raft: the durable store

`cluster/budget_raft/store.rs`: the SQLite tables that hold a voter's log, its
purge marker, its applied state and its current snapshot, and the operations
OpenRaft calls on them.  Every write runs in one transaction.

Columns that hold the JSON of a value hold the value here.  Snapshots travel
between voters as bytes, so their encoding is a parameter (`SnapshotCodec`).
-/

open Std Lib.Encoding Lib.Transaction

namespace Neoth.BudgetRaft

/-! ## OpenRaft's data types -/

structure LeaderId where
  term : UInt64
  nodeId : UInt64
  deriving DecidableEq

structure LogId where
  leaderId : LeaderId
  index : UInt64
  deriving DecidableEq

/-- `BasicNode`. -/
structure BasicNode where
  addr : String
  deriving DecidableEq

/-- `Membership`: one voter set, or several while a change is under way. -/
structure Membership where
  configs : List (ExtTreeSet UInt64)
  nodes : ExtTreeMap UInt64 BasicNode
  deriving DecidableEq

structure StoredMembership where
  logId : Option LogId
  membership : Membership
  deriving DecidableEq

/-- `StoredMembership::default()`. -/
def StoredMembership.default : StoredMembership := ⟨none, [], ∅⟩

inductive EntryPayload
  | blank
  | normal (command : BudgetCommand)
  | membership (config : Membership)

structure RaftEntry where
  logId : LogId
  payload : EntryPayload

/-- The `(last_applied, membership, ledger)` triple of `raft_state`. -/
structure RaftState where
  lastApplied : Option LogId
  membership : StoredMembership
  ledger : BudgetLedger

structure SnapshotMeta where
  lastLogId : Option LogId
  lastMembership : StoredMembership
  snapshotId : String
  deriving DecidableEq

/-- The JSON of a whole applied state. -/
class SnapshotCodec where
  toJson : RaftState → List UInt8
  fromJson : List UInt8 → Option RaftState

/-- The tables.  `frozenConfig` and `purged` are rows of `raft_meta`; `log` is keyed by
the SQLite integer of the entry's index. -/
structure BudgetRaftStore where
  frozenConfig : BudgetClusterConfig
  purged : Option LogId
  log : ExtTreeMap Nat RaftEntry
  state : RaftState
  snapshot : Option (SnapshotMeta × List UInt8)

inductive StoreError
  | refused (message : String)
  | violates (message : String) (reason : BudgetRejection)
  deriving DecidableEq

def maxBudgetSnapshotBytes : Nat := 8 * 1024 * 1024

def sqlIndex (index : UInt64) : Except StoreError Nat :=
  if index.toNat < 2 ^ 63 then .ok index.toNat
  else .error (.refused "raft index exceeds SQLite INTEGER range")

/-! ## Membership -/

/-- `raft_voters`: ids from 1 in the order of stable node ids, each with its frozen address. -/
def BudgetClusterConfig.raftVoters (config : BudgetClusterConfig) : ExtTreeMap UInt64 BasicNode :=
  ExtTreeMap.ofList (config.voters.keys.zipIdx.map fun (stableNodeId, index) =>
    (UInt64.ofNat index + 1, BasicNode.mk ("frozen:" ++ stableNodeId.val)))

def validateMembership (config : BudgetClusterConfig) (lastApplied : Option LogId)
    (stored : StoredMembership) : Except StoreError Unit :=
  if lastApplied = none ∧ stored.logId = none ∧ stored.membership.configs = [] ∧
      stored.membership.nodes = ∅ then
    .ok ()
  else match stored.logId with
    | none => .error (.refused "non-pristine budget membership has no log id")
    | some membershipLog =>
      match lastApplied with
      | none => .error (.refused "non-pristine budget membership has no applied index")
      | some applied =>
        if applied.index < membershipLog.index then
          .error (.refused "budget membership is newer than applied state")
        else if stored.membership.configs ≠ [ExtTreeSet.ofList config.raftVoters.keys] then
          .error (.refused "budget membership is dynamic, joint, or has an unexpected voter set")
        else if stored.membership.nodes ≠ config.raftVoters then
          .error (.refused "budget membership nodes do not match canonical frozen voter ids")
        else .ok ()

section Hashing
variable [Sha256]

/-- `ledger.validate()` with the message of the place that asks. -/
def validateLedger (message : String) (ledger : BudgetLedger) : Except StoreError Unit :=
  match ledger.validate with
  | .ok () => .ok ()
  | .error reason => .error (.violates message reason)

namespace BudgetRaftStore

/-! ## Opening -/

/-- `open` on a path with no database yet. -/
def create (initial : BudgetLedger) : Except StoreError BudgetRaftStore := do
  validateLedger "initial budget ledger violates frozen configuration invariants" initial
  .ok {
    frozenConfig := initial.config
    purged := none
    log := ∅
    state := ⟨none, .default, initial⟩
    snapshot := none }

/-! ## The applied state -/

/-- `state`: the only way the applied state is read back. -/
def readState (store : BudgetRaftStore) : Except StoreError RaftState := do
  validateLedger "persisted budget ledger violates recovery invariants" store.state.ledger
  validateMembership store.state.ledger.config store.state.lastApplied store.state.membership
  .ok store.state

def saveState (store : BudgetRaftStore) (state : RaftState) :
    Except StoreError BudgetRaftStore := do
  validateMembership state.ledger.config state.lastApplied state.membership
  .ok { store with state := state }

/-! ## The log -/

/-- The last log id: of the entry with the highest index, else the purge marker. -/
def lastLogId (store : BudgetRaftStore) : Option LogId :=
  ((store.log.keys.getLast?.bind fun index => store.log[index]?).map RaftEntry.logId).or
    store.purged

/-- The loop of checks of `append`: `previous` is the last log id, then the entry just seen. -/
def checkAppend (purged : Option LogId) : Option LogId → List RaftEntry → Except StoreError Unit
  | _, [] => .ok ()
  | previous, entry :: entries => do
    require (!purged.any fun p => entry.logId.index ≤ p.index)
      (.refused "append would restore a purged Raft log")
    require (!previous.any fun prev => saturatingSucc prev.index < entry.logId.index)
      (.refused "Raft append would leave a log hole")
    checkAppend purged (some entry.logId) entries

/-- The loop of writes of `append`; an entry already there is replaced. -/
def insertEntries : ExtTreeMap Nat RaftEntry → List RaftEntry →
    Except StoreError (ExtTreeMap Nat RaftEntry)
  | log, [] => .ok log
  | log, entry :: entries => do
    let index ← sqlIndex entry.logId.index
    let _ ← sqlIndex entry.logId.leaderId.term
    insertEntries (log.insert index entry) entries

def append (entries : List RaftEntry) (store : BudgetRaftStore) :
    Except StoreError BudgetRaftStore := do
  checkAppend store.purged store.lastLogId entries
  let log ← insertEntries store.log entries
  .ok { store with log := log }

def truncate (logId : LogId) (store : BudgetRaftStore) : Except StoreError BudgetRaftStore := do
  let state ← store.readState
  require (!state.lastApplied.any fun last => logId.index ≤ last.index)
    (.refused "would truncate an applied Raft log")
  let index ← sqlIndex logId.index
  .ok { store with log := store.log.filter fun i _ => i < index }

def purge (logId : LogId) (store : BudgetRaftStore) : Except StoreError BudgetRaftStore := do
  let state ← store.readState
  require (state.lastApplied.any fun last => logId.index ≤ last.index)
    (.refused "would purge a non-applied Raft log")
  require (!store.purged.any fun previous => logId.index < previous.index)
    (.refused "would move last-purged Raft log backwards")
  let index ← sqlIndex logId.index
  .ok { store with purged := some logId, log := store.log.filter fun i _ => index < i }

/-! ## Applying entries -/

/-- One round of the loop of `apply`; blank and membership entries are answered with a rejection. -/
def applyEntry (state : RaftState) (entry : RaftEntry) : RaftState × BudgetReply :=
  match entry.payload with
  | .blank => ({ state with lastApplied := some entry.logId }, .rejected .invalidConfig)
  | .normal command =>
    let applied := state.ledger.apply ⟨entry.logId.leaderId.term, entry.logId.index⟩ command
    ({ state with lastApplied := some entry.logId, ledger := applied.1 }, applied.2)
  | .membership config =>
    ({ state with lastApplied := some entry.logId, membership := ⟨some entry.logId, config⟩ },
      .rejected .invalidConfig)

/-- The entry comes right after what is applied; the first one may come anywhere. -/
def isNext (lastApplied : Option LogId) (entry : RaftEntry) : Bool :=
  lastApplied.all fun previous => entry.logId.index = saturatingSucc previous.index

def applyEntries : RaftState → List RaftEntry → Except StoreError (RaftState × List BudgetReply)
  | state, [] => .ok (state, [])
  | state, entry :: entries => do
    require (isNext state.lastApplied entry) (.refused "would apply a non-consecutive Raft log")
    let next := applyEntry state entry
    let rest ← applyEntries next.1 entries
    .ok (rest.1, next.2 :: rest.2)

def apply (entries : List RaftEntry) (store : BudgetRaftStore) :
    Except StoreError (BudgetRaftStore × List BudgetReply) := do
  let state ← store.readState
  let applied ← applyEntries state entries
  validateLedger "committed budget ledger transition violates invariants" applied.1.ledger
  let saved ← store.saveState applied.1
  .ok (saved, applied.2)

/-! ## Snapshots -/

variable [SnapshotCodec]

def installSnapshot (metadata : SnapshotMeta) (bytes : List UInt8) (store : BudgetRaftStore) :
    Except StoreError BudgetRaftStore := do
  require (bytes.length ≤ maxBudgetSnapshotBytes)
    (.refused "received budget raft snapshot exceeds byte bound")
  match SnapshotCodec.fromJson bytes with
  | none => .error (.refused "decode budget raft snapshot")
  | some received => do
    require (received.lastApplied = metadata.lastLogId &&
      received.membership = metadata.lastMembership)
      (.refused "budget raft snapshot metadata does not match state")
    validateLedger "budget raft snapshot violates recovery invariants" received.ledger
    validateMembership received.ledger.config received.lastApplied received.membership
    let current ← store.readState
    require (received.ledger.config = current.ledger.config)
      (.refused "budget raft snapshot frozen configuration does not match this store")
    let saved ← store.saveState received
    .ok { saved with snapshot := some (metadata, bytes) }

/-- `None` when no snapshot has been built or installed. -/
def getCurrentSnapshot (store : BudgetRaftStore) :
    Except StoreError (Option (SnapshotMeta × List UInt8)) :=
  match store.snapshot with
  | none => .ok none
  | some (metadata, bytes) => do
    require (bytes.length ≤ maxBudgetSnapshotBytes)
      (.refused "persisted budget raft snapshot exceeds byte bound")
    match SnapshotCodec.fromJson bytes with
    | none => .error (.refused "decode persisted budget raft snapshot")
    | some persisted => do
      let current ← store.readState
      validateLedger "persisted budget raft snapshot violates recovery invariants" persisted.ledger
      validateMembership persisted.ledger.config persisted.lastApplied persisted.membership
      require (persisted.lastApplied = metadata.lastLogId &&
          persisted.membership = metadata.lastMembership &&
          persisted.ledger.config = current.ledger.config)
        (.refused "persisted budget raft snapshot does not match durable metadata/configuration")
      .ok (some (metadata, bytes))

/-- The metadata `build_snapshot` writes for a state. -/
def snapshotMeta (state : RaftState) : SnapshotMeta where
  lastLogId := state.lastApplied
  lastMembership := state.membership
  snapshotId := match state.lastApplied with
    | some log => "budget-" ++ toString log.leaderId.term.toNat ++ "-" ++ toString log.index.toNat
    | none => "budget-empty"

def buildSnapshot (store : BudgetRaftStore) :
    Except StoreError (BudgetRaftStore × SnapshotMeta × List UInt8) := do
  let state ← store.readState
  let bytes := SnapshotCodec.toJson state
  require (bytes.length ≤ maxBudgetSnapshotBytes)
    (.refused "built budget raft snapshot exceeds byte bound")
  .ok ({ store with snapshot := some (snapshotMeta state, bytes) }, snapshotMeta state, bytes)

end BudgetRaftStore

/-! ## Runs -/

inductive StoreOp
  | append (entries : List RaftEntry)
  | truncate (logId : LogId)
  | purge (logId : LogId)
  | apply (entries : List RaftEntry)
  | installSnapshot (metadata : SnapshotMeta) (bytes : List UInt8)
  | buildSnapshot

/-- What an operation hands back besides success. -/
inductive StoreReply
  | done
  | replies (replies : List BudgetReply)
  | snapshot (metadata : SnapshotMeta) (bytes : List UInt8)
  deriving DecidableEq

variable [SnapshotCodec]

def StoreOp.body : StoreOp → BudgetRaftStore → Except StoreError (BudgetRaftStore × StoreReply)
  | .append entries, store => (store.append entries).map (·, .done)
  | .truncate logId, store => (store.truncate logId).map (·, .done)
  | .purge logId, store => (store.purge logId).map (·, .done)
  | .apply entries, store => (store.apply entries).map fun r => (r.1, .replies r.2)
  | .installSnapshot metadata bytes, store => (store.installSnapshot metadata bytes).map (·, .done)
  | .buildSnapshot, store => store.buildSnapshot.map fun r => (r.1, .snapshot r.2.1 r.2.2)

def BudgetRaftStore.step (store : BudgetRaftStore) (op : StoreOp) :
    BudgetRaftStore × Except StoreError StoreReply :=
  transact op.body store

end Hashing

end Neoth.BudgetRaft
