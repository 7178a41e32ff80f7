import Neoth.Authority.Actions
import Neoth.Delegation.Types

/-!
# The master of a delegated task

The tables `task_delegate_outbound_assignments`, `task_delegate_outbound_operations` and
`task_delegate_outbound_results` with their writers.  A writer that runs in a transaction answers
with what it commits; one that is a single statement answers with the database the statement leaves,
also when it then fails.

* `prepareTaskDelegateOutboundOperation`, `receiveTaskDelegateOutboundResult`, ..: the writers;
* `OutboundDb.step`: the calls.

The reference of a result to its operation is enforced by SQLite and never violated here: a result
is inserted for an operation that is there, and only prepared operations are deleted.
-/

open Lib Lib.Encoding Lib.Transaction

namespace Neoth.Delegation

open Neoth.Authority

/-! ## Tables -/

inductive OutboundState
  | prepared
  | accepted
  | resulted
  | indeterminate
  deriving DecidableEq

def OutboundState.name : OutboundState → String
  | .prepared => "prepared"
  | .accepted => "accepted"
  | .resulted => "resulted"
  | .indeterminate => "indeterminate"

/-- `state IN ('prepared','accepted')`. -/
def OutboundState.isOpen (state : OutboundState) : Bool := state == .prepared || state == .accepted

/-- The carrier of an assignment is always `peeroxide`. -/
structure AssignmentRow where
  transport : TransportIdentity
  skillId : String
  channelId : String
  accountId : String
  allowed : Bool
  priority : Nat
  revision : Nat

abbrev AssignmentRow.key (row : AssignmentRow) : TransportIdentity × String × String × String :=
  (row.transport, row.skillId, row.channelId, row.accountId)

structure OperationRow where
  operationId : String
  taskId : String
  transport : TransportIdentity
  skillId : String
  channelId : String
  accountId : String
  state : OutboundState
  deadlineUnix : Int
  requestDigest : String
  createdAt : Int
  updatedAt : Int

structure OutboundResultRow where
  operationId : String
  taskId : String
  transport : TransportIdentity
  body : List UInt8
  receivedAt : Int

structure OutboundDb where
  authority : AuthorityDb
  assignments : Table AssignmentRow.key
  operations : Table OperationRow.operationId
  results : Table OutboundResultRow.operationId

def OutboundDb.fresh : OutboundDb := ⟨.fresh, ∅, ∅, ∅⟩

/-! ## Requests and answers -/

structure TaskDelegateOutboundAssignment where
  peerKey : String
  skillId : String
  channelId : Option String
  accountId : Option String
  allowed : Bool
  priority : Nat
  revision : Nat

structure OutboundTaskDelegateOperation where
  operationId : String
  taskId : String
  peerKey : String
  state : OutboundState
  deadlineUnix : Int
  requestDigest : String

structure OutboundTaskDelegateResult where
  operationId : String
  taskId : String
  peerKey : String
  receivedAtUnix : Int
  body : TaskResultBody

/-- `OutboundTaskDelegateResultReceipt`. -/
inductive OutboundResultReceipt
  | stored
  | duplicate

/-- The columns of a scope; an absent component is the empty text. -/
def TaskDelegateScope.columns (peerKey : String) (scope : TaskDelegateScope) :
    TransportIdentity × String × String × String :=
  (peerKey, scope.skillId, scope.channelId.getD "", scope.accountId.getD "")

/-- The delegate that is validated for its task id, deadline and scope. -/
def TaskDelegateBody.scopeProbe (taskId prompt : String) (deadlineUnix : Option Int)
    (scope : TaskDelegateScope) : TaskDelegateBody :=
  { TaskDelegateBody.probe taskId prompt with deadlineUnix := deadlineUnix, scope := some scope }

namespace OutboundDb

/-- The `EXISTS` of an active member with a current binding of the transport. -/
def hasActivePeer (db : OutboundDb) (peerKey : String) : Bool :=
  db.authority.bindings.any fun b => b.carrier == .peeroxide && b.transportIdentity == peerKey &&
    db.authority.members.any fun m => m.stableNodeId == b.stableNodeId && m.state == .active &&
      b.authEpoch == m.authEpoch && b.membershipEpoch == m.membershipEpoch &&
      m.membershipEpoch == db.authority.membershipEpoch &&
      db.authority.revocationFloor ≤ m.membershipEpoch

/-! ## Writers -/

def setTaskDelegateOutboundAssignment (db : OutboundDb)
    (assignment : TaskDelegateOutboundAssignment)
    (expectedRevision : Nat) : Except String (OutboundDb × TaskDelegateOutboundAssignment) := do
  validatePeeroxideTransportKey assignment.peerKey
  let scope : TaskDelegateScope := ⟨assignment.skillId, assignment.channelId, assignment.accountId⟩
  validateTaskDelegate
    (.scopeProbe "outbound-scope-validation" "outbound-scope-validation" none scope)
  require (db.hasActivePeer assignment.peerKey)
    "outbound task delegate assignment requires an active exact peeroxide membership"
  let key := scope.columns assignment.peerKey
  let current := ((db.assignments.find key).map (·.revision)).getD 0
  require (current == expectedRevision)
    s!"outbound task delegate assignment revision conflict: expected {expectedRevision}, current {current}"
  require (current + 1 < 2 ^ 64) "outbound task delegate assignment revision exhausted"
  let priority ← sqlInteger assignment.priority
  let revision ← sqlInteger (current + 1)
  .ok ({ db with
    assignments := db.assignments.put
      ⟨key.1, key.2.1, key.2.2.1, key.2.2.2, assignment.allowed, priority, revision⟩ },
    { assignment with revision := revision })

/-- `prepare_task_delegate_outbound_operation_bound`. -/
def prepareTaskDelegateOutboundOperation (db : OutboundDb) (operationId taskId peerKey : String)
    (scope : TaskDelegateScope) (now deadlineUnix : Int) (requestDigest : String) :
    Except String (OutboundDb × OutboundTaskDelegateOperation) := do
  validatePeeroxideTransportKey peerKey
  validateTaskDelegate
    (.scopeProbe taskId "outbound-operation-validation" (some deadlineUnix) scope)
  validateTaskDelegateOperationId operationId
  require (now < deadlineUnix) "outbound task delegation deadline is expired"
  require (isLowerSha256 requestDigest) "outbound task delegation request digest is invalid"
  let key := scope.columns peerKey
  require ((db.assignments.find key).any (·.allowed))
    "outbound task delegation has no exact operator assignment"
  require (!db.operations.any (·.taskId == taskId))
    "UNIQUE constraint failed: task_delegate_outbound_operations.task_id"
  let operations ← context
      (db.operations.insert ⟨operationId, taskId, peerKey, key.2.1, key.2.2.1, key.2.2.2,
      .prepared, deadlineUnix, requestDigest, now, now⟩)
    "UNIQUE constraint failed: task_delegate_outbound_operations.operation_id"
  .ok ({ db with operations := operations },
    ⟨operationId, taskId, peerKey, .prepared, deadlineUnix, requestDigest⟩)

/-- `UPDATE task_delegate_outbound_operations SET state=?,updated_at=? WHERE ..`. -/
def setOperationState (db : OutboundDb) (state : OutboundState) (now : Int)
    (selects : OperationRow → Bool) : OutboundDb :=
  { db with
    operations := db.operations.update selects ({ · with state := state, updatedAt := now })
      fun _ => rfl }

def acceptTaskDelegateOutboundOperation (db : OutboundDb) (operationId : String) (now : Int) :
    OutboundDb × Except String OutboundState :=
  let selects := fun row : OperationRow => row.operationId == operationId && row.state == .prepared
  let db' := db.setOperationState .accepted now selects
  (db', if db.operations.count selects = 1 then .ok .accepted else do
    let row ← context (db'.operations.find operationId) "Query returned no rows"
    match row.state with
    | .resulted => .ok .resulted
    | .indeterminate => .ok .indeterminate
    | .accepted => .ok .accepted
    | .prepared => .error "invalid outbound task delegation operation state")

def discardPreparedTaskDelegateOutboundOperation (db : OutboundDb) (operationId : String) :
    OutboundDb × Except String Unit :=
  let selects := fun row : OperationRow => row.operationId == operationId && row.state == .prepared
  ({ db with operations := db.operations.delete selects },
    require (db.operations.count selects == 1)
      "outbound task delegation prepared operation cannot be discarded")

/-- The answer is the number of rows that have changed. -/
def recoverPreparedTaskDelegateOutboundOperations (db : OutboundDb) (now : Int) :
    OutboundDb × Except String Nat :=
  (db.setOperationState .indeterminate now (·.state == .prepared),
    .ok (db.operations.count (·.state == .prepared)))

def markTaskDelegateOutboundIndeterminate (db : OutboundDb) (operationId : String) (now : Int) :
    OutboundDb × Except String OutboundState :=
  match validateTaskDelegateOperationId operationId with
  | .error e => (db, .error e)
  | .ok _ =>
    let selects := fun row : OperationRow =>
      row.operationId == operationId && row.state.isOpen && row.deadlineUnix ≤ now
    let db' := db.setOperationState .indeterminate now selects
    (db', if db.operations.count selects = 1 then .ok .indeterminate else do
      let row ← context (db'.operations.find operationId) "Query returned no rows"
      require (row.deadlineUnix ≤ now || row.state == .indeterminate)
        "outbound task delegation deadline has not elapsed"
      match row.state with
      | .indeterminate => .ok .indeterminate
      | .resulted => .error "outbound task delegation result is terminal"
      | _ => .error "invalid outbound task delegation operation state")

section Codec
variable (decode : List UInt8 → Option TaskResultBody)

/-- `read_task_delegate_outbound_result_on`; `decode` is the parser of `serde_json`. -/
def readTaskDelegateOutboundResultOn (db : OutboundDb) (operationId : String) :
    Except String (Option OutboundTaskDelegateResult) :=
  match db.results.find operationId with
  | none => .ok none
  | some row => do
    let body ← context (decode row.body) "Conversion error from type Text at index: 4"
    .ok (some ⟨row.operationId, row.taskId, row.transport, row.receivedAt, body⟩)

/-- The branch for an operation without a result. -/
def settleResult (db : OutboundDb) (operation : OperationRow) (peerKey : String)
    (body : TaskResultBody) (now : Int) : Except String (OutboundDb × OutboundResultReceipt) := do
  require operation.state.isOpen
    s!"outbound task result cannot settle a {operation.state.name} operation"
  require (now ≤ operation.deadlineUnix) "outbound task result arrived after the persisted deadline"
  require (!db.results.any (·.taskId == body.taskId))
    "UNIQUE constraint failed: task_delegate_outbound_results.task_id"
  let results ← context
      (db.results.insert ⟨operation.operationId, body.taskId, peerKey, body.toJson, now⟩)
    "UNIQUE constraint failed: task_delegate_outbound_results.operation_id"
  let selects := fun row : OperationRow => row.operationId == operation.operationId &&
    row.state.isOpen
  require (db.operations.count selects == 1) "outbound task result lost its terminal-state race"
  .ok ({ db with results := results }.setOperationState .resulted now selects, .stored)

def receiveTaskDelegateOutboundResult (db : OutboundDb) (peerKey : String) (body : TaskResultBody)
    (now : Int) : Except String (OutboundDb × OutboundResultReceipt) := do
  validatePeeroxideTransportKey peerKey
  validateTaskResult body
  let operation ← context
    (db.operations.rows.find? fun row => row.transport == peerKey && row.taskId == body.taskId)
    "outbound task result does not match an exact selected peer/task"
  require (db.hasActivePeer peerKey) "outbound task result peer authority is no longer active"
  match ← db.readTaskDelegateOutboundResultOn decode operation.operationId with
  | some existing => do
    require (existing.peerKey == peerKey && existing.taskId == body.taskId)
      "outbound task result durable binding mismatch"
    require (existing.body == body) "outbound task result conflicts with existing terminal result"
    .ok (db, .duplicate)
  | none => db.settleResult operation peerKey body now

end Codec

end OutboundDb

/-! ## Calls -/

inductive OutboundEvent
  | call (action : Action)
  | setAssignment (assignment : TaskDelegateOutboundAssignment) (expectedRevision : Nat)
  | prepare (operationId taskId peerKey : String) (scope : TaskDelegateScope)
      (now deadlineUnix : Int) (requestDigest : String)
  | accept (operationId : String) (now : Int)
  | discard (operationId : String)
  | recoverPrepared (now : Int)
  | markIndeterminate (operationId : String) (now : Int)
  | receiveResult (peerKey : String) (body : TaskResultBody) (now : Int)

inductive OutboundAnswer
  | done
  | assignment (committed : TaskDelegateOutboundAssignment)
  | operation (prepared : OutboundTaskDelegateOperation)
  | state (state : OutboundState)
  | recovered (count : Nat)
  | receipt (receipt : OutboundResultReceipt)

/-- Commit what a transaction returns, or keep what was stored. -/
def OutboundDb.commit {A : Type} (db : OutboundDb) (body : Except String (OutboundDb × A))
    (answer : A → OutboundAnswer) : OutboundDb × Except String OutboundAnswer :=
  match body with
  | .ok (db', a) => (db', .ok (answer a))
  | .error e => (db, .error e)

def OutboundDb.step [Sha256] [Ed25519] (decode : List UInt8 → Option TaskResultBody) (path : String)
    (db : OutboundDb) : OutboundEvent → OutboundDb × Except String OutboundAnswer
  | .call action => ({ db with authority := (db.authority.step path action).1 }, .ok .done)
  | .setAssignment assignment expectedRevision =>
    db.commit (db.setTaskDelegateOutboundAssignment assignment expectedRevision) .assignment
  | .prepare operationId taskId peerKey scope now deadlineUnix requestDigest =>
    db.commit (db.prepareTaskDelegateOutboundOperation operationId taskId peerKey scope now
      deadlineUnix requestDigest) .operation
  | .accept operationId now =>
    let (db', answer) := db.acceptTaskDelegateOutboundOperation operationId now
    (db', answer.map .state)
  | .discard operationId =>
    let (db', answer) := db.discardPreparedTaskDelegateOutboundOperation operationId
    (db', answer.map fun _ => .done)
  | .recoverPrepared now =>
    let (db', answer) := db.recoverPreparedTaskDelegateOutboundOperations now
    (db', answer.map .recovered)
  | .markIndeterminate operationId now =>
    let (db', answer) := db.markTaskDelegateOutboundIndeterminate operationId now
    (db', answer.map .state)
  | .receiveResult peerKey body now =>
    db.commit (db.receiveTaskDelegateOutboundResult decode peerKey body now) .receipt

/-- The database after a sequence of calls on a fresh home. -/
def OutboundDb.after [Sha256] [Ed25519] (decode : List UInt8 → Option TaskResultBody)
    (path : String) (events : List OutboundEvent) : OutboundDb :=
  (Lib.Machine.run (OutboundDb.step decode path) .fresh events).1

end Neoth.Delegation
