import Neoth.Authority.Actions
import Neoth.Delegation.Types

/-!
# The worker of a delegated task

The tables `task_delegate_worker_reservations` and `task_delegate_result_outbox` with their
transactions, and the worker around them: the frames in the hands of the sessions, the queue of the
executor and the provider.

* `reserveWorkerTaskExecution`, `persistWorkerTaskResultOutbox`, ..: the transactions;
* `Worker.step`: the events.
-/

open Lib Lib.Encoding Lib.Transaction

namespace Neoth.Delegation

open Neoth.Authority

/-! ## Tables -/

inductive ReservationState
  | reserved
  | indeterminate
  deriving DecidableEq

structure ReservationRow where
  transport : TransportIdentity
  taskId : String
  contextDigest : String
  state : ReservationState

/-- `PRIMARY KEY(transport_identity,task_id)`. -/
abbrev ReservationRow.key (row : ReservationRow) : TransportIdentity × String :=
  (row.transport, row.taskId)

inductive ResultState
  | pending
  | offered
  | acknowledged
  | indeterminate
  deriving DecidableEq

/-- A row of the outbox; `operation_id` is the primary key. -/
structure ResultRow where
  operationId : String
  taskId : String
  transport : TransportIdentity
  contextDigest : String
  resultDigest : String
  body : List UInt8
  state : ResultState
  updatedAt : Int

/-- The row is the one of the requester's task. -/
def ResultRow.isFor (row : ResultRow) (transport : TransportIdentity) (taskId : String) : Bool :=
  row.transport == transport && row.taskId == taskId

structure WorkerDb where
  authority : AuthorityDb
  reservations : Table ReservationRow.key
  outbox : Table ResultRow.operationId

inductive Reservation
  | reserved
  | existing

inductive OutboxReceipt
  | stored
  | duplicate
  deriving DecidableEq

namespace WorkerDb

/-! ## Transactions -/

def reserveWorkerTaskExecution (db : WorkerDb) (grant : MembershipGrant)
    (taskId contextDigest : String) (now : Int) : Except String (WorkerDb × Reservation) := do
  validateTaskDelegateOperationId taskId
  validateLowerSha256 contextDigest "worker task reservation context digest"
  db.authority.revalidateGrantOn grant now
  match db.reservations.find (grant.transportIdentity, taskId) with
  | some existing => do
    require (existing.contextDigest == contextDigest)
      "worker task reservation conflicts with existing authenticated task id"
    .ok (db, .existing)
  | none => do
    let reservations ← context
        (db.reservations.insert ⟨grant.transportIdentity, taskId, contextDigest, .reserved⟩)
      "UNIQUE constraint failed: task_delegate_worker_reservations"
    .ok ({ db with reservations := reservations }, .reserved)

/-- `operation_id` is the task id, whatever the requester. -/
def persistWorkerTaskResultOutbox [Sha256] (db : WorkerDb) (grant : MembershipGrant)
    (contextDigest : String)
    (body : TaskResultBody) (now : Int) : Except String (WorkerDb × OutboxReceipt) := do
  validateTaskResult body
  validateLowerSha256 contextDigest "worker result context digest"
  let resultDigest ← taskResultDigest body
  db.authority.revalidateGrantOn grant now
  match db.outbox.rows.find? (·.isFor grant.transportIdentity body.taskId) with
  | some existing => do
    require (existing.contextDigest == contextDigest && existing.resultDigest == resultDigest &&
      existing.body ==
        body.toJson) "worker task result outbox collision for authenticated peer/task"
    .ok (db, .duplicate)
  | none => do
    let outbox ← context
        (db.outbox.insert ⟨body.taskId, body.taskId, grant.transportIdentity, contextDigest,
        resultDigest, body.toJson, .pending, now⟩)
      "UNIQUE constraint failed: task_delegate_result_outbox.operation_id"
    .ok ({ db with outbox := outbox }, .stored)

def markWorkerTaskExecutionIndeterminate (db : WorkerDb) (grant : MembershipGrant)
    (taskId contextDigest : String) (now : Int) : Except String WorkerDb := do
  validateTaskDelegateOperationId taskId
  validateLowerSha256 contextDigest "worker task reservation context digest"
  db.authority.revalidateGrantOn grant now
  require (db.reservations.any fun row => row.transport == grant.transportIdentity &&
    row.taskId == taskId && row.contextDigest == contextDigest) "Query returned no rows"
  .ok { db with
    reservations := db.reservations.update (fun row => row.transport == grant.transportIdentity &&
      row.taskId == taskId && row.contextDigest == contextDigest && row.state == .reserved)
      ({ · with state := .indeterminate }) fun _ => rfl }

/-- `UPDATE task_delegate_result_outbox SET state=?,updated_at=? WHERE ..`, for an authenticated
requester; the answer is whether a row has changed. -/
def setResultState (db : WorkerDb) (grant : MembershipGrant) (now : Int) (state : ResultState)
    (selects : ResultRow → Bool) : Except String (WorkerDb × Bool) := do
  db.authority.revalidateGrantOn grant now
  .ok ({ db with
      outbox := db.outbox.update selects ({ · with state := state, updatedAt := now }) fun _ => rfl },
    db.outbox.any selects)

def markWorkerTaskResultOffered (db : WorkerDb) (grant : MembershipGrant)
    (taskId resultDigest : String) (now : Int) : Except String (WorkerDb × Bool) :=
  db.setResultState grant now .offered fun row => row.isFor grant.transportIdentity taskId &&
    row.resultDigest == resultDigest && row.state == .pending

def resetOfferedWorkerTaskResults (db : WorkerDb) (grant : MembershipGrant) (now : Int) :
    Except String (WorkerDb × Bool) :=
  db.setResultState grant now .pending fun row => row.transport == grant.transportIdentity &&
  row.state == .offered

def reopenStaleOfferedWorkerTaskResults (db : WorkerDb) (grant : MembershipGrant)
    (olderThan now : Int) : Except String (WorkerDb × Bool) :=
  db.setResultState grant now .pending fun row => row.transport == grant.transportIdentity &&
    row.state == .offered && row.updatedAt ≤ olderThan

def acknowledgeWorkerTaskResultOutbox (db : WorkerDb) (grant : MembershipGrant)
    (ack : TaskResultAckBody) (now : Int) : Except String (WorkerDb × Bool) := do
  validateTaskResultAck ack
  db.setResultState grant now .acknowledged fun row =>
    row.isFor grant.transportIdentity ack.taskId &&
    row.resultDigest == ack.resultDigest && (row.state == .pending || row.state == .offered)

/-- `replay_duplicate_task`, apart from the offer: is there a row for the task? -/
def replayDuplicateTask [Sha256] (db : WorkerDb) (grant : MembershipGrant)
    (delegate : TaskDelegateBody) (now : Int) : Except String Bool := do
  db.authority.revalidateGrantOn grant now
  match db.outbox.rows.find? (·.isFor grant.transportIdentity delegate.taskId) with
  | none => .ok false
  | some row => do
    require (row.contextDigest == delegateContextDigest grant delegate)
      "duplicate TaskDelegate conflicts with retained authenticated request context"
    .ok true

end WorkerDb

/-! ## The worker -/

/-- How far a delegated task has come: a frame that has passed the duplicate guard, one with a
reservation in the accept gate, a job in the queue of the executor, and one with the provider. -/
inductive Stage
  | arrived
  | admitted
  | queued
  | running
  deriving DecidableEq

structure TaskInHand where
  grant : MembershipGrant
  delegate : TaskDelegateBody
  stage : Stage

def TaskInHand.key (t : TaskInHand) : TransportIdentity × String :=
  (t.grant.transportIdentity, t.delegate.taskId)

structure Worker where
  db : WorkerDb
  tasks : List TaskInHand

def Worker.fresh : Worker := ⟨⟨.fresh, ∅, ∅⟩, []⟩

/-- What the executor or the gate makes of a task. -/
structure Outcome where
  status : TaskResultStatus
  result : Option String
  providerName : Option String
  requestedMaxOutputTokens : Option Nat
  effectiveOutputTokenCeiling : Option Nat

/-- The terminal body echoes the task id. -/
def Outcome.body (outcome : Outcome) (taskId : String) : TaskResultBody :=
  { taskId := taskId, status := outcome.status, result := outcome.result
    providerName := outcome.providerName,
    requestedMaxOutputTokens := outcome.requestedMaxOutputTokens
    effectiveOutputTokenCeiling := outcome.effectiveOutputTokenCeiling }

inductive WorkerEvent
  | call (action : Action)
  /-- A `TaskDelegate` frame of an authenticated session. -/
  | delegate (grant : MembershipGrant) (delegate : TaskDelegateBody) (now : Int)
  | reserve (index : Nat) (now : Int)
  /-- The accept gate passes the task on to the executor. -/
  | enqueue (index : Nat)
  | runProvider (index : Nat)
  /-- A terminal body, of the executor or a rejection of the gate, goes to the outbox. -/
  | finish (index : Nat) (outcome : Outcome) (now : Int)
  /-- A task is given up without a durable result. -/
  | drop (index : Nat)
  | markIndeterminate (grant : MembershipGrant) (taskId contextDigest : String) (now : Int)
  | offered (grant : MembershipGrant) (taskId resultDigest : String) (now : Int)
  | resetOffered (grant : MembershipGrant) (now : Int)
  | reopenStale (grant : MembershipGrant) (olderThan now : Int)
  /-- A `TaskResultAck` frame of an authenticated session. -/
  | acknowledge (grant : MembershipGrant) (ack : TaskResultAckBody) (now : Int)
  | crash

inductive WorkerAnswer
  | quiet
  /-- `reserve_worker_task_execution` has returned `Reserved`. -/
  | reserved (key : TransportIdentity × String)
  /-- The provider runs. -/
  | ran (key : TransportIdentity × String)
  | persisted (receipt : Except String OutboxReceipt)
  deriving DecidableEq

/-- A transaction on the tables; an error leaves them as they were. -/
def Worker.transact {A : Type} (w : Worker) (body : Except String (WorkerDb × A)) : Worker :=
  match body with
  | .ok r => { w with db := r.1 }
  | .error _ => w

/-- The task at an index, if it is in the stage. -/
def Worker.at (w : Worker) (index : Nat) (stage : Stage) : Option TaskInHand :=
  w.tasks[index]?.filter (·.stage == stage)

def Worker.move (w : Worker) (index : Nat) (t : TaskInHand) (stage : Stage) : Worker :=
  { w with tasks := w.tasks.set index { t with stage := stage } }

def Worker.dropTask (w : Worker) (index : Nat) : Worker :=
  { w with tasks := w.tasks.eraseIdx index }

def Worker.arrive [Sha256] (w : Worker) (grant : MembershipGrant) (delegate : TaskDelegateBody)
    (now : Int) : Worker :=
  match validateTaskDelegate delegate with
  | .error _ => w
  | .ok _ =>
    match w.db.replayDuplicateTask grant delegate now with
    | .ok false => { w with tasks := w.tasks ++ [⟨grant, delegate, .arrived⟩] }
    | _ => w

def Worker.reserve [Sha256] (w : Worker) (index : Nat) (t : TaskInHand) (now : Int) :
    Worker × WorkerAnswer :=
  match w.db.reserveWorkerTaskExecution t.grant t.delegate.taskId
    (delegateContextDigest t.grant t.delegate) now with
  | .ok (db, .reserved) => ({ w with db := db }.move index t .admitted, .reserved t.key)
  | .ok (db, .existing) => ({ w with db := db }.dropTask index, .quiet)
  | .error _ => (w.dropTask index, .quiet)

/-- A task that has been reserved ends with a body. -/
def Worker.finish [Sha256] (w : Worker) (index : Nat) (t : TaskInHand) (outcome : Outcome)
    (now : Int) : Worker × WorkerAnswer :=
  if t.stage = .arrived then (w, .quiet)
  else
    match w.db.persistWorkerTaskResultOutbox t.grant (delegateContextDigest t.grant t.delegate)
        (outcome.body t.delegate.taskId) now with
    | .ok (db, receipt) => ({ w with db := db }.dropTask index, .persisted (.ok receipt))
    | .error e => (w.dropTask index, .persisted (.error e))

def Worker.step [Sha256] [Ed25519] (path : String) (w : Worker) :
    WorkerEvent → Worker × WorkerAnswer
  | .call action =>
    ({ w with db := { w.db with authority := (w.db.authority.step path action).1 } }, .quiet)
  | .delegate grant delegate now => (w.arrive grant delegate now, .quiet)
  | .reserve index now =>
    match w.at index .arrived with
    | some t => w.reserve index t now
    | none => (w, .quiet)
  | .enqueue index =>
    match w.at index .admitted with
    | some t => (w.move index t .queued, .quiet)
    | none => (w, .quiet)
  | .runProvider index =>
    match w.at index .queued with
    | some t => (w.move index t .running, .ran t.key)
    | none => (w, .quiet)
  | .finish index outcome now =>
    match w.tasks[index]? with
    | some t => w.finish index t outcome now
    | none => (w, .quiet)
  | .drop index => (w.dropTask index, .quiet)
  | .markIndeterminate grant taskId contextDigest now =>
    (w.transact ((w.db.markWorkerTaskExecutionIndeterminate grant taskId contextDigest now).map
      (·, ())), .quiet)
  | .offered grant taskId resultDigest now =>
    (w.transact (w.db.markWorkerTaskResultOffered grant taskId resultDigest now), .quiet)
  | .resetOffered grant now => (w.transact (w.db.resetOfferedWorkerTaskResults grant now), .quiet)
  | .reopenStale grant olderThan now =>
    (w.transact (w.db.reopenStaleOfferedWorkerTaskResults grant olderThan now), .quiet)
  | .acknowledge grant ack now =>
    (w.transact (w.db.acknowledgeWorkerTaskResultOutbox grant ack now), .quiet)
  | .crash => ({ w with tasks := [] }, .quiet)

/-- The worker after a sequence of events on a fresh home. -/
def Worker.after [Sha256] [Ed25519] (path : String) (events : List WorkerEvent) : Worker :=
  (Lib.Machine.run (Worker.step path) .fresh events).1

/-- What the events were answered with. -/
def Worker.answers [Sha256] [Ed25519] (path : String) (events : List WorkerEvent) :
    List WorkerAnswer :=
  (Lib.Machine.run (Worker.step path) .fresh events).2

end Neoth.Delegation
