import Neoth.Authority.History
import Neoth.Delegation.Outbound

/-!
# The lifecycle of an outbound operation

What a state of an operation and a stored result mean over whole runs of the master.

* `OutboundStep`: everything a call can do;
* `OutboundDb.Kept`: the invariant between operations and results;
* `outbound_lifecycle`: terminal states are final, and an operation is resulted exactly when it has
  its one result.
-/

open Lib Lib.Encoding Lib.Transaction

namespace Neoth.Delegation

open Neoth.Authority

/-! ## Everything a call can do -/

def OutboundState.mayBecome : OutboundState → OutboundState → Bool
  | .prepared, .accepted | .prepared, .resulted | .prepared, .indeterminate => true
  | .accepted, .resulted | .accepted, .indeterminate => true
  | _, _ => false

theorem OutboundState.mayBecome_of_isOpen {s t : OutboundState} (hopen : s.isOpen = true)
    (ht : t = .resulted ∨ t = .indeterminate) : s.mayBecome t = true := by
  rcases ht with rfl | rfl <;> cases s <;> first | rfl | cases hopen

/-- The row stays, or only its state moves on. -/
def OperationRow.MovesTo (op op' : OperationRow) : Prop :=
  op' = op ∨ (op.state.mayBecome op'.state = true ∧
    op' = { op with state := op'.state, updatedAt := op'.updatedAt })

/-- The call prepares the operation. -/
def OutboundEvent.Prepares (event : OutboundEvent) (op : OperationRow) : Prop :=
  ∃ scope now, event =
    .prepare op.operationId op.taskId op.transport scope now op.deadlineUnix op.requestDigest

inductive OutboundStep (db : OutboundDb) : OutboundEvent → OutboundDb → Prop
  | unchanged {event : OutboundEvent} {db' : OutboundDb}
    (hoperations : db'.operations = db.operations)
      (hresults : db'.results = db.results) : OutboundStep db event db'
  | prepared {event : OutboundEvent} {db' : OutboundDb} {op : OperationRow}
    (hevent : event.Prepares op)
      (hstate : op.state = .prepared) (htask : ∀ other ∈ db.operations, other.taskId ≠ op.taskId)
      (hinsert : db.operations.insert op = some db'.operations)
      (hresults : db'.results = db.results) : OutboundStep db event db'
  | moved {event : OutboundEvent} {db' : OutboundDb} {state : OutboundState} {now : Int}
      {selects : OperationRow → Bool}
      (hselects : ∀ op, selects op = true → op.state.mayBecome state = true)
      (hstate : state ≠ .resulted) (hdb' : db' = db.setOperationState state now selects) :
      OutboundStep db event db'
  | discarded {operationId : String} {db' : OutboundDb}
      (hoperations : db'.operations =
        db.operations.delete fun op => op.operationId == operationId && op.state == .prepared)
      (hresults : db'.results = db.results) : OutboundStep db (.discard operationId) db'
  /-- The result of the peer that was selected arrives in time. -/
  | settled {op : OperationRow} {body : TaskResultBody} {now : Int}
    {results : Table OutboundResultRow.operationId}
      {db' : OutboundDb} (hop : op ∈ db.operations) (htask : op.taskId = body.taskId)
      (hopen : op.state.isOpen = true) (hdeadline : now ≤ op.deadlineUnix)
      (hinsert : db.results.insert ⟨op.operationId, body.taskId, op.transport, body.toJson, now⟩ =
        some results)
      (hdb' : db' = { db with results := results }.setOperationState .resulted now
        fun row => row.operationId == op.operationId && row.state.isOpen) :
      OutboundStep db (.receiveResult op.transport body now) db'

theorem OutboundStep.refl (db : OutboundDb) (event : OutboundEvent) : OutboundStep db event db :=
  .unchanged rfl rfl

variable {db db' : OutboundDb} {peerKey : String} {now : Int}

theorem prepare_spec {operationId taskId peerKey requestDigest : String}
    {scope : TaskDelegateScope} {now deadlineUnix : Int} {operation : OutboundTaskDelegateOperation}
    (h : db.prepareTaskDelegateOutboundOperation operationId taskId peerKey scope now deadlineUnix
      requestDigest = .ok (db', operation)) :
    OutboundStep db (.prepare operationId taskId peerKey scope now deadlineUnix requestDigest)
      db' := by
  simp only [OutboundDb.prepareTaskDelegateOutboundOperation, bind_eq_ok_iff, require_eq_ok_iff,
    context_eq_ok_iff, Bool.not_eq_true', Table.any_eq_false, beq_eq_false_iff_ne] at h
  obtain ⟨_, -, _, -, _, -, _, -, _, -, _, -, _, htask, operations, hinsert, h⟩ := h
  cases h
  exact .prepared ⟨scope, now, rfl⟩ rfl htask hinsert rfl

variable {op : OperationRow} {body : TaskResultBody} {receipt : OutboundResultReceipt}

theorem settleResult_spec (hop : op ∈ db.operations)
    (hfor : op.transport = peerKey ∧ op.taskId = body.taskId)
    (h : db.settleResult op peerKey body now = .ok (db', receipt)) :
    receipt = .stored ∧ OutboundStep db (.receiveResult peerKey body now) db' ∧
      (⟨op.operationId, body.taskId, peerKey, body.toJson, now⟩ : OutboundResultRow) ∈ db'.results ∧
      ∃ op' ∈ db'.operations, op' = { op with state := .resulted, updatedAt := now } := by
  obtain ⟨rfl, htask⟩ := hfor
  simp only [OutboundDb.settleResult, bind_eq_ok_iff, require_eq_ok_iff, context_eq_ok_iff,
    decide_eq_true_eq] at h
  obtain ⟨_, hopen, _, hdeadline, _, -, results, hinsert, _, -, h⟩ := h
  cases h
  refine ⟨rfl, .settled hop htask hopen hdeadline hinsert rfl,
    (Table.mem_insert hinsert).mpr (.inr rfl), ?_⟩
  simp only [OutboundDb.setOperationState, Table.mem_update]
  exact ⟨_, ⟨op, hop, rfl⟩, by simp [hopen]⟩

/-- The operation of a peer and task that a result is received for. -/
theorem receive_spec {decode : List UInt8 → Option TaskResultBody}
    (h : db.receiveTaskDelegateOutboundResult decode peerKey body now = .ok (db', receipt)) :
    ∃ op ∈ db.operations, (op.transport = peerKey ∧ op.taskId = body.taskId) ∧
      ((db' = db ∧ ∃ r ∈ db.results, r.operationId = op.operationId ∧ r.transport = peerKey ∧
          r.taskId = body.taskId ∧ decode r.body = some body) ∨
        db.settleResult op peerKey body now = .ok (db', receipt)) := by
  simp only [OutboundDb.receiveTaskDelegateOutboundResult, bind_eq_ok_iff, context_eq_ok_iff] at h
  obtain ⟨_, -, _, -, op, hfind, _, -, existing, hread, h⟩ := h
  have hfor := List.find?_some hfind
  simp only [Bool.and_eq_true, beq_iff_eq] at hfor
  refine ⟨op, List.mem_of_find?_eq_some hfind, hfor, ?_⟩
  cases existing with
  | none => exact .inr h
  | some existing =>
    simp only [bind_eq_ok_iff, require_eq_ok_iff, Bool.and_eq_true, beq_iff_eq] at h
    obtain ⟨_, ⟨hpeer, htask⟩, _, hbody, h⟩ := h
    cases h
    unfold OutboundDb.readTaskDelegateOutboundResultOn at hread
    split at hread
    · cases hread
    · rename_i r hr
      simp only [bind_eq_ok_iff, context_eq_ok_iff] at hread
      obtain ⟨stored, hdecode, hread⟩ := hread
      cases hread
      obtain ⟨hr, hid⟩ := Table.find_eq_some_iff.mp hr
      exact .inl ⟨rfl, r, hr, hid, hpeer, htask, hdecode.trans (congrArg some hbody)⟩

theorem OutboundDb.step_spec [Sha256] [Ed25519] (decode : List UInt8 → Option TaskResultBody)
    (path : String)
    (db : OutboundDb) (event : OutboundEvent) :
      OutboundStep db event (db.step decode path event).1 := by
  cases event with
  | call action => exact .unchanged rfl rfl
  | setAssignment assignment expectedRevision =>
    simp only [OutboundDb.step, OutboundDb.commit]
    split
    · rename_i db' committed h
      simp only [OutboundDb.setTaskDelegateOutboundAssignment, bind_eq_ok_iff] at h
      obtain ⟨_, -, _, -, _, -, _, -, _, -, _, -, _, -, h⟩ := h
      cases h
      exact .unchanged rfl rfl
    · exact .refl db _
  | prepare operationId taskId peerKey scope now deadlineUnix requestDigest =>
    simp only [OutboundDb.step, OutboundDb.commit]
    split
    · rename_i db' operation h
      exact prepare_spec h
    · exact .refl db _
  | accept operationId now =>
    refine @OutboundStep.moved _ _ _ .accepted _ _ (fun op hop => ?_) (by decide) rfl
    simp only [Bool.and_eq_true, beq_iff_eq] at hop
    rw [hop.2]
    rfl
  | discard operationId => exact .discarded rfl rfl
  | recoverPrepared now =>
    refine @OutboundStep.moved _ _ _ .indeterminate _ _ (fun op hop => ?_) (by decide) rfl
    rw [beq_iff_eq.mp hop]
    rfl
  | markIndeterminate operationId now =>
    simp only [OutboundDb.step, OutboundDb.markTaskDelegateOutboundIndeterminate]
    split
    · exact .refl db _
    · refine @OutboundStep.moved _ _ _ .indeterminate _ _ (fun op hop => ?_) (by decide) rfl
      simp only [Bool.and_eq_true] at hop
      exact OutboundState.mayBecome_of_isOpen hop.1.2 (.inr rfl)
  | receiveResult peerKey body now =>
    simp only [OutboundDb.step, OutboundDb.commit]
    split
    · rename_i db' receipt h
      obtain ⟨op, hop, hfor, ⟨rfl, -⟩ | hsettled⟩ := receive_spec h
      · exact .refl _ _
      · exact (settleResult_spec hop hfor hsettled).2.1
    · exact .refl db _

/-! ## What one call does to a row -/

variable {state : OutboundState}

theorem mem_setOperationState {selects : OperationRow → Bool} :
    op ∈ (db.setOperationState state now selects).operations ↔ ∃ old ∈ db.operations,
      op = if selects old then { old with state := state, updatedAt := now } else old := by
  simp only [OutboundDb.setOperationState, Table.mem_update]

/-- Setting a state that the selected rows may take moves every row. -/
theorem movesTo_set {selected : Bool} (h : selected = true → op.state.mayBecome state = true) :
    op.MovesTo (if selected then { op with state := state, updatedAt := now } else op) := by
  split
  · rename_i hselected
    exact .inr ⟨h hselected, rfl⟩
  · exact .inl rfl

variable {event : OutboundEvent}

/-- Every operation moves on or is discarded. -/
theorem OutboundStep.moves (hstep : OutboundStep db event db') :
    ∀ op ∈ db.operations, (∃ op' ∈ db'.operations, op.MovesTo op') ∨
      (op.state = .prepared ∧ event = .discard op.operationId ∧
        ∀ op' ∈ db'.operations, op'.operationId ≠ op.operationId) := by
  intro op hop
  cases hstep with
  | unchanged hoperations _ => exact .inl ⟨op, hoperations ▸ hop, .inl rfl⟩
  | prepared _ _ _ hinsert _ => exact .inl ⟨op, (Table.mem_insert hinsert).mpr (.inl hop), .inl rfl⟩
  | moved hselects _ hdb' =>
    subst hdb'
    exact .inl ⟨_, mem_setOperationState.mpr ⟨op, hop, rfl⟩, movesTo_set (hselects op)⟩
  | @discarded operationId _ hoperations _ =>
    rw [hoperations]
    simp only [Table.mem_delete]
    cases hselected : op.operationId == operationId && op.state == .prepared with
    | false => exact .inl ⟨op, ⟨hop, hselected⟩, .inl rfl⟩
    | true =>
      simp only [Bool.and_eq_true, beq_iff_eq] at hselected
      obtain ⟨rfl, hprepared⟩ := hselected
      refine .inr ⟨hprepared, rfl, ?_⟩
      rintro op' ⟨hop', hspared⟩ hid
      cases Table.eq_of_key_eq hop' hop hid
      simp [hprepared] at hspared
  | settled _ _ _ _ _ hdb' =>
    subst hdb'
    refine .inl ⟨_, mem_setOperationState.mpr ⟨op, hop, rfl⟩, movesTo_set fun hselected => ?_⟩
    simp only [Bool.and_eq_true] at hselected
    exact OutboundState.mayBecome_of_isOpen hselected.2 (.inl rfl)

/-- Every operation has moved on from one that was there, or is the one that the call prepares,
under a task id of its own. -/
theorem OutboundStep.origin (hstep : OutboundStep db event db') :
    ∀ op' ∈ db'.operations, (op'.state = .prepared ∧ event.Prepares op' ∧
        (∀ op ∈ db.operations, op.taskId ≠ op'.taskId) ∧ ∀ op ∈ db'.operations, op = op' ∨
        op ∈ db.operations) ∨
      ∃ op ∈ db.operations, op.MovesTo op' := by
  intro op' hop'
  cases hstep with
  | unchanged hoperations _ => exact .inr ⟨op', hoperations ▸ hop', .inl rfl⟩
  | prepared hevent hstate htask hinsert _ =>
    rcases (Table.mem_insert hinsert).mp hop' with hop' | rfl
    · exact .inr ⟨op', hop', .inl rfl⟩
    · exact .inl ⟨hstate, hevent, htask, fun op hop => ((Table.mem_insert hinsert).mp hop).symm⟩
  | moved hselects _ hdb' =>
    subst hdb'
    obtain ⟨op, hop, rfl⟩ := mem_setOperationState.mp hop'
    exact .inr ⟨op, hop, movesTo_set (hselects op)⟩
  | discarded hoperations _ =>
    rw [hoperations, Table.mem_delete] at hop'
    exact .inr ⟨op', hop'.1, .inl rfl⟩
  | settled _ _ _ _ _ hdb' =>
    subst hdb'
    obtain ⟨op, hop, rfl⟩ := mem_setOperationState.mp hop'
    refine .inr ⟨op, hop, movesTo_set fun hselected => ?_⟩
    simp only [Bool.and_eq_true] at hselected
    exact OutboundState.mayBecome_of_isOpen hselected.2 (.inl rfl)

theorem OutboundStep.results {db db' : OutboundDb} {event : OutboundEvent}
    (hstep : OutboundStep db event db') : ∀ r ∈ db.results, r ∈ db'.results := by
  intro r hr
  cases hstep with
  | unchanged _ hresults => exact hresults ▸ hr
  | prepared _ _ _ _ hresults => exact hresults ▸ hr
  | moved _ _ hdb' =>
    subst hdb'
    exact hr
  | discarded _ hresults => exact hresults ▸ hr
  | settled _ _ _ _ hinsert hdb' =>
    subst hdb'
    exact (Table.mem_insert hinsert).mpr (.inl hr)

theorem OperationRow.MovesTo.same {op op' : OperationRow} (h : op.MovesTo op') :
    op'.operationId = op.operationId ∧ op'.taskId = op.taskId ∧ op'.transport = op.transport ∧
      op'.deadlineUnix = op.deadlineUnix ∧ op'.requestDigest = op.requestDigest := by
  rcases h with rfl | ⟨-, h⟩
  · exact ⟨rfl, rfl, rfl, rfl, rfl⟩
  · rw [h]
    exact ⟨rfl, rfl, rfl, rfl, rfl⟩

/-- `resulted` and `indeterminate` are final. -/
theorem OperationRow.MovesTo.eq_of_terminal {op op' : OperationRow} (h : op.MovesTo op')
    (hterminal : op.state = .resulted ∨ op.state = .indeterminate) : op' = op := by
  rcases h with h | ⟨hmay, -⟩
  · exact h
  · rcases hterminal with hstate | hstate <;> rw [hstate] at hmay <;> cases hmay

theorem OutboundStep.terminal (hstep : OutboundStep db event db') :
    ∀ op ∈ db.operations, op.state = .resulted ∨ op.state = .indeterminate →
    op ∈ db'.operations := by
  intro op hop hterminal
  rcases hstep.moves op hop with ⟨op', hop', hmoves⟩ | ⟨hprepared, -⟩
  · exact hmoves.eq_of_terminal hterminal ▸ hop'
  · rcases hterminal with h | h <;> cases hprepared.symm.trans h

/-! ## Calls that are rejected -/

theorem OutboundDb.setOperationState_of_count_eq_zero {selects : OperationRow → Bool}
    (h : db.operations.count selects = 0) : db.setOperationState state now selects = db := by
  unfold OutboundDb.setOperationState
  rw [Table.update_eq_self h]

/-- At most one row has the operation id: unless exactly one is selected, none is. -/
theorem count_eq_zero_of_ne_one {t : Table OperationRow.operationId} {operationId : String}
    {p : OperationRow → Bool} (hp : ∀ op, p op = true → op.operationId = operationId)
    (h : t.count p ≠ 1) : t.count p = 0 := by
  have hle := Table.count_le_one (t := t) hp
  omega

theorem OutboundDb.commit_error {A : Type} {body : Except String (OutboundDb × A)}
    {answer : A → OutboundAnswer} {e : String} (h : (db.commit body answer).2 = .error e) :
    (db.commit body answer).1 = db := by
  cases body with
  | ok r => cases h
  | error e => rfl

theorem accept_error {operationId e : String}
    (h : (db.acceptTaskDelegateOutboundOperation operationId now).2 = .error e) :
    (db.acceptTaskDelegateOutboundOperation operationId now).1 = db := by
  simp only [OutboundDb.acceptTaskDelegateOutboundOperation] at h ⊢
  split at h
  · cases h
  · rename_i hcount
    refine OutboundDb.setOperationState_of_count_eq_zero
      (@count_eq_zero_of_ne_one _ operationId _ (fun op hop => ?_) hcount)
    simp only [Bool.and_eq_true, beq_iff_eq] at hop
    exact hop.1

theorem discard_error {operationId e : String}
    (h : (db.discardPreparedTaskDelegateOutboundOperation operationId).2 = .error e) :
    (db.discardPreparedTaskDelegateOutboundOperation operationId).1 = db := by
  simp only [OutboundDb.discardPreparedTaskDelegateOutboundOperation, require] at h ⊢
  split at h
  · cases h
  · rename_i hcount
    have hzero : db.operations.count (fun op => op.operationId == operationId &&
        op.state == .prepared) = 0 := by
      refine @count_eq_zero_of_ne_one _ operationId _ (fun op hop => ?_) (by simpa using hcount)
      simp only [Bool.and_eq_true, beq_iff_eq] at hop
      exact hop.1
    rw [Table.delete_eq_self hzero]

theorem markIndeterminate_error {operationId e : String}
    (h : (db.markTaskDelegateOutboundIndeterminate operationId now).2 = .error e) :
    (db.markTaskDelegateOutboundIndeterminate operationId now).1 = db := by
  unfold OutboundDb.markTaskDelegateOutboundIndeterminate at h ⊢
  split
  · rfl
  · rename_i hvalid
    simp only [hvalid] at h
    split at h
    · cases h
    · rename_i hcount
      refine OutboundDb.setOperationState_of_count_eq_zero
        (@count_eq_zero_of_ne_one _ operationId _ (fun op hop => ?_) hcount)
      simp only [Bool.and_eq_true, beq_iff_eq] at hop
      exact hop.1.1

/-- A call that is rejected changes nothing. -/
theorem OutboundDb.step_error [Sha256] [Ed25519] {decode : List UInt8 → Option TaskResultBody}
    {path : String}
    {e : String} (h : (db.step decode path event).2 = .error e) :
      (db.step decode path event).1 = db := by
  cases event with
  | call action => cases h
  | setAssignment assignment expectedRevision => exact OutboundDb.commit_error h
  | prepare operationId taskId peerKey scope now deadlineUnix requestDigest =>
    exact OutboundDb.commit_error h
  | accept operationId now => exact accept_error (map_eq_error h)
  | discard operationId => exact discard_error (map_eq_error h)
  | recoverPrepared now => cases h
  | markIndeterminate operationId now => exact markIndeterminate_error (map_eq_error h)
  | receiveResult peerKey body now => exact OutboundDb.commit_error h

/-! ## The invariant -/

/-- Operations are unique by task id; a result belongs to a resulted operation, comes from the peer
that was selected and is not late; and a resulted operation has a result. -/
structure OutboundDb.Kept (db : OutboundDb) : Prop where
  tasks : ∀ op ∈ db.operations, ∀ other ∈ db.operations, other.taskId = op.taskId → other = op
  results : ∀ r ∈ db.results, ∃ op ∈ db.operations, op.state = .resulted ∧
    op.operationId = r.operationId ∧
    op.transport = r.transport ∧ op.taskId = r.taskId ∧ r.receivedAt ≤ op.deadlineUnix
  resulted : ∀ op ∈ db.operations, op.state = .resulted → ∃ r ∈ db.results,
    r.operationId = op.operationId

theorem OutboundDb.kept_fresh : OutboundDb.fresh.Kept := by
  refine ⟨?_, ?_, ?_⟩ <;> simp [OutboundDb.fresh]

theorem OutboundStep.tasks {db db' : OutboundDb} {event : OutboundEvent}
    (hstep : OutboundStep db event db')
    (h : db.Kept) : ∀ op ∈ db'.operations, ∀ other ∈ db'.operations, other.taskId = op.taskId →
    other = op := by
  intro op hop other hother htask
  rcases hstep.origin op hop with ⟨-, -, hfresh, hnew⟩ | ⟨old, hold, hmoves⟩
  · rcases hnew other hother with heq | hmem
    · exact heq
    · exact absurd htask (hfresh other hmem)
  · rcases hstep.origin other hother with ⟨-, -, hfresh, hnew⟩ | ⟨old', hold', hmoves'⟩
    · rcases hnew op hop with heq | hmem
      · exact heq.symm
      · exact absurd htask.symm (hfresh op hmem)
    · have hsame : old' = old :=
        h.tasks old hold old' hold' (by rw [← hmoves'.same.2.1, htask, hmoves.same.2.1])
      exact Table.eq_of_key_eq hother hop (by rw [hmoves.same.1, hmoves'.same.1, hsame])

/-- The call has brought the result. -/
def OutboundEvent.Brings (event : OutboundEvent) (r : OutboundResultRow) : Prop :=
  ∃ body, event = .receiveResult r.transport body r.receivedAt ∧ r.body = body.toJson ∧
  body.taskId = r.taskId

/-- A new result comes in time from the peer of an operation, and settles it. -/
theorem OutboundStep.new_result (hstep : OutboundStep db event db') :
    ∀ r ∈ db'.results, r ∈ db.results ∨
    (event.Brings r ∧ ∃ op ∈ db'.operations, op.state = .resulted ∧
      op.operationId = r.operationId ∧ op.transport = r.transport ∧ op.taskId = r.taskId ∧
      r.receivedAt ≤ op.deadlineUnix) := by
  intro r hr
  cases hstep with
  | unchanged _ hresults => exact .inl (hresults ▸ hr)
  | prepared _ _ _ _ hresults => exact .inl (hresults ▸ hr)
  | moved _ _ hdb' =>
    subst hdb'
    exact .inl hr
  | discarded _ hresults => exact .inl (hresults ▸ hr)
  | @settled op body now results _ hop htask hopen hdeadline hinsert hdb' =>
    subst hdb'
    rcases (Table.mem_insert hinsert).mp hr with hr | rfl
    · exact .inl hr
    · refine .inr ⟨⟨body, rfl, rfl, rfl⟩, { op with state := .resulted, updatedAt := now },
        mem_setOperationState.mpr ⟨op, hop, ?_⟩, rfl, rfl, rfl, htask, hdeadline⟩
      simp [hopen]

theorem OutboundStep.resulted {db db' : OutboundDb} {event : OutboundEvent}
    (hstep : OutboundStep db event db')
    (h : db.Kept) : ∀ op ∈ db'.operations, op.state = .resulted → ∃ r ∈ db'.results,
      r.operationId = op.operationId := by
  have hold : ∀ op ∈ db.operations, op.state = .resulted → ∃ r ∈ db'.results,
      r.operationId = op.operationId := by
    intro op hop hstate
    obtain ⟨r, hr, hid⟩ := h.resulted op hop hstate
    exact ⟨r, hstep.results r hr, hid⟩
  intro op hop hstate
  cases hstep with
  | unchanged hoperations _ => exact hold op (hoperations ▸ hop) hstate
  | prepared _ hprepared _ hinsert _ =>
    rcases (Table.mem_insert hinsert).mp hop with hop | rfl
    · exact hold op hop hstate
    · cases hprepared.symm.trans hstate
  | moved _ hne hdb' =>
    subst hdb'
    obtain ⟨old, hmem, rfl⟩ := mem_setOperationState.mp hop
    split at hstate
    · exact absurd hstate hne
    · rw [if_neg (by assumption)]
      exact hold old hmem hstate
  | discarded hoperations _ =>
    rw [hoperations, Table.mem_delete] at hop
    exact hold op hop.1 hstate
  | settled _ _ _ _ hinsert hdb' =>
    subst hdb'
    obtain ⟨old, hmem, rfl⟩ := mem_setOperationState.mp hop
    split
    · rename_i hselected
      simp only [Bool.and_eq_true, beq_iff_eq] at hselected
      exact ⟨_, (Table.mem_insert hinsert).mpr (.inr rfl), hselected.1.symm⟩
    · rename_i hselected
      rw [if_neg hselected] at hstate
      exact hold old hmem hstate

theorem OutboundStep.kept (hstep : OutboundStep db event db') (h : db.Kept) : db'.Kept := by
  refine ⟨hstep.tasks h, fun r hr => ?_, hstep.resulted h⟩
  rcases hstep.new_result r hr with hr | ⟨-, hnew⟩
  · obtain ⟨op, hop, hstate, hrest⟩ := h.results r hr
    exact ⟨op, hstep.terminal op hop (.inl hstate), hstate, hrest⟩
  · exact hnew

theorem OutboundDb.kept_after [Sha256] [Ed25519] (decode : List UInt8 → Option TaskResultBody)
    (path : String) (events : List OutboundEvent) : (OutboundDb.after decode path events).Kept :=
  Lib.Machine.run_invariant (fun db event h => (db.step_spec decode path event).kept h) _
    kept_fresh events

/-! ## Whole runs -/

/-- In the course of the events the operation has been prepared. -/
def PreparedIn (events : List OutboundEvent) (op : OperationRow) : Prop :=
  ∃ event ∈ events, event.Prepares op

/-- In the course of the events the result has been received. -/
def ReceivedIn (events : List OutboundEvent) (r : OutboundResultRow) : Prop :=
  ∃ event ∈ events, event.Brings r

theorem history_after [Sha256] [Ed25519] (decode : List UInt8 → Option TaskResultBody)
    (path : String) (events : List OutboundEvent) :
    (∀ op ∈ (OutboundDb.after decode path events).operations, PreparedIn events op) ∧
      ∀ r ∈ (OutboundDb.after decode path events).results, ReceivedIn events r := by
  refine Lib.Machine.run_history (P := fun events (db : OutboundDb) =>
    (∀ op ∈ db.operations, PreparedIn events op) ∧ ∀ r ∈ db.results, ReceivedIn events r)
    OutboundDb.fresh (by simp [OutboundDb.fresh]) ?_ events
  rintro events event ⟨hprepared, hreceived⟩
  have hstep := OutboundDb.step_spec decode path (OutboundDb.after decode path events) event
  constructor
  · intro op' hop'
    rcases hstep.origin op' hop' with ⟨-, hprepares, -⟩ | ⟨op, hop, hmoves⟩
    · exact ⟨event, by simp, hprepares⟩
    · obtain ⟨earlier, hearlier, scope, now, heq⟩ := hprepared op hop
      obtain ⟨hid, htask, htransport, hdeadline, hdigest⟩ := hmoves.same
      refine ⟨earlier, List.mem_append_left _ hearlier, scope, now, ?_⟩
      rw [hid, htask, htransport, hdeadline, hdigest]
      exact heq
  · intro r hr
    rcases hstep.new_result r hr with hr | ⟨hbrings, -⟩
    · obtain ⟨earlier, hearlier, hbrings⟩ := hreceived r hr
      exact ⟨earlier, List.mem_append_left _ hearlier, hbrings⟩
    · exact ⟨event, by simp, hbrings⟩

/-- What is final at one time is there at every later one. -/
structure Onward (db db' : OutboundDb) : Prop where
  operations : ∀ op ∈ db.operations, op.state = .resulted ∨ op.state = .indeterminate →
    op ∈ db'.operations
  results : ∀ r ∈ db.results, r ∈ db'.results

theorem onward_after [Sha256] [Ed25519] (decode : List UInt8 → Option TaskResultBody)
    (path : String) (before later : List OutboundEvent) :
    Onward (OutboundDb.after decode path before)
      (OutboundDb.after decode path (before ++ later)) := by
  simp only [OutboundDb.after, Lib.Machine.run_append]
  refine Lib.Machine.run_relation (P := fun _ => True) (R := Onward) (fun _ _ h => h)
    (fun db => ⟨fun op hop _ => hop, fun r hr => hr⟩) ?_ ?_ _ trivial later
  · intro s t u hst htu
    exact ⟨fun op hop hterminal => htu.operations op (hst.operations op hop hterminal) hterminal,
      fun r hr => htu.results r (hst.results r hr)⟩
  · intro db event _
    have hstep := db.step_spec decode path event
    exact ⟨hstep.terminal, hstep.results⟩

/-! ## The same result again -/

/-- The peer's result is the one of its operation. -/
def OutboundDb.Holds (db : OutboundDb) (decode : List UInt8 → Option TaskResultBody)
    (peerKey : String) (body : TaskResultBody) : Prop :=
  ∃ op ∈ db.operations, (op.transport = peerKey ∧ op.taskId = body.taskId) ∧ op.state = .resulted ∧
    ∃ r ∈ db.results, r.operationId = op.operationId ∧ r.transport = peerKey ∧
    r.taskId = body.taskId ∧
      decode r.body = some body

theorem receive_holds {decode : List UInt8 → Option TaskResultBody} (hkept : db.Kept)
    (hdecode : decode body.toJson = some body)
    (h : db.receiveTaskDelegateOutboundResult decode peerKey body now = .ok (db', receipt)) :
    db'.Holds decode peerKey body := by
  obtain ⟨op, hop, hfor, ⟨rfl, r, hr, hid, hpeer, htask, hbody⟩ | hsettled⟩ := receive_spec h
  · obtain ⟨op', hop', hresulted, hid', -⟩ := hkept.results r hr
    cases Table.eq_of_key_eq hop' hop (hid'.trans hid)
    exact ⟨op, hop, hfor, hresulted, r, hr, hid, hpeer, htask, hbody⟩
  · obtain ⟨-, -, hr, op', hop', rfl⟩ := settleResult_spec hop hfor hsettled
    exact ⟨_, hop', hfor, rfl, _, hr, rfl, rfl, rfl, hdecode⟩

theorem OutboundDb.Holds.onward {decode : List UInt8 → Option TaskResultBody}
    (h : db.Holds decode peerKey body) (honward : Onward db db') :
      db'.Holds decode peerKey body := by
  obtain ⟨op, hop, hfor, hresulted, r, hr, hrest⟩ := h
  exact ⟨op, honward.operations op hop (.inl hresulted), hfor, hresulted, r,
    honward.results r hr, hrest⟩

/-- The checks of the key and of the body are those a received result has passed. -/
theorem receive_valid {decode : List UInt8 → Option TaskResultBody}
    {r : OutboundDb × OutboundResultReceipt}
    (h : db.receiveTaskDelegateOutboundResult decode peerKey body now = .ok r) :
    validatePeeroxideTransportKey peerKey = .ok () ∧ validateTaskResult body = .ok () := by
  simp only [OutboundDb.receiveTaskDelegateOutboundResult, bind_eq_ok_iff] at h
  obtain ⟨_, hkey, _, hbody, -⟩ := h
  exact ⟨hkey, hbody⟩

/-- A result that is held is a duplicate, for as long as its peer is a member. -/
theorem OutboundDb.Holds.receive {decode : List UInt8 → Option TaskResultBody}
    (h : db.Holds decode peerKey body) (hkept : db.Kept)
    (hkey : validatePeeroxideTransportKey peerKey = .ok ())
    (hbody : validateTaskResult body = .ok ()) (now : Int) :
    db.receiveTaskDelegateOutboundResult decode peerKey body now =
      if db.hasActivePeer peerKey then .ok (db, .duplicate)
      else .error "outbound task result peer authority is no longer active" := by
  obtain ⟨op, hop, ⟨hpeer, htask⟩, -, r, hr, hid, hrpeer, hrtask, hrbody⟩ := h
  have hfind :
      db.operations.rows.find? (fun row => row.transport == peerKey && row.taskId == body.taskId) =
      some op := by
    cases hfound : db.operations.rows.find? (fun row => row.transport == peerKey &&
      row.taskId == body.taskId) with
    | none =>
      have hnot := List.find?_eq_none.mp hfound op hop
      simp [hpeer, htask] at hnot
    | some other =>
      have hother := List.find?_some hfound
      simp only [Bool.and_eq_true, beq_iff_eq] at hother
      rw [hkept.tasks op hop other (List.mem_of_find?_eq_some hfound) (hother.2.trans htask.symm)]
  have hread : db.readTaskDelegateOutboundResultOn decode op.operationId =
      .ok (some ⟨r.operationId, r.taskId, r.transport, r.receivedAt, body⟩) := by
    simp only [OutboundDb.readTaskDelegateOutboundResultOn, Table.find_eq_some_iff.mpr ⟨hr, hid⟩,
      hrbody]
    rfl
  cases hactive : db.hasActivePeer peerKey with
  | false =>
    unfold OutboundDb.receiveTaskDelegateOutboundResult
    rw [hkey, hbody, hfind, hactive]
    rfl
  | true =>
    simp only [OutboundDb.receiveTaskDelegateOutboundResult, bind_eq_ok_iff, if_true]
    refine ⟨(), hkey, (), hbody, op, by rw [hfind]; rfl, (), by rw [hactive]; rfl, _, hread, ?_⟩
    simp only [bind_eq_ok_iff, require_eq_ok_iff, Bool.and_eq_true, beq_iff_eq]
    exact ⟨(), ⟨hrpeer, hrtask⟩, (), trivial, trivial⟩

theorem OutboundDb.Holds.step [Sha256] [Ed25519] {decode : List UInt8 → Option TaskResultBody}
    {db : OutboundDb}
    {peerKey : String} {body : TaskResultBody} (h : db.Holds decode peerKey body) (path : String)
    (hkept : db.Kept)
    (hkey : validatePeeroxideTransportKey peerKey = .ok ())
    (hbody : validateTaskResult body = .ok ()) (now : Int) :
    db.step decode path (.receiveResult peerKey body now) =
      (db, if db.hasActivePeer peerKey then .ok (.receipt .duplicate)
        else .error "outbound task result peer authority is no longer active") := by
  rw [OutboundDb.step, h.receive hkept hkey hbody now]
  cases db.hasActivePeer peerKey <;> rfl

/-- **The lifecycle of an outbound operation.** In every reachable state an operation is resulted
exactly when it has its one result, which the selected peer has sent by the deadline; an operation
only moves on, from a final state never, and goes only when it is discarded as prepared; a call that
is rejected changes nothing; and a result that has been received is a duplicate for ever. -/
theorem outbound_lifecycle [Sha256] [Ed25519] (decode : List UInt8 → Option TaskResultBody)
    (path : String) (events : List OutboundEvent)
    (hdecode : ∀ peerKey body now, .receiveResult peerKey body now ∈ events →
      decode body.toJson = some body) :
    let db := OutboundDb.after decode path events
    (∀ op ∈ db.operations, PreparedIn events op ∧
      (op.state = .resulted ↔ ∃! r, r ∈ db.results ∧ r.operationId = op.operationId)) ∧
    (∀ r ∈ db.results, ReceivedIn events r ∧ ∃ op ∈ db.operations, op.operationId = r.operationId ∧
      op.transport = r.transport ∧ op.taskId = r.taskId ∧ r.receivedAt ≤ op.deadlineUnix) ∧
    (∀ later, Onward db (OutboundDb.after decode path (events ++ later))) ∧
    (∀ event, let next := db.step decode path event
      (∀ op ∈ db.operations, (∃ op' ∈ next.1.operations, op.MovesTo op') ∨
        (op.state = .prepared ∧ event = .discard op.operationId ∧
          ∀ op' ∈ next.1.operations, op'.operationId ≠ op.operationId)) ∧
      (∀ op' ∈ next.1.operations, (op'.state = .prepared ∧ event.Prepares op') ∨
        ∃ op ∈ db.operations, op.MovesTo op') ∧
      ∀ e, next.2 = .error e → next.1 = db) ∧
    ∀ before peerKey body now later answer,
      events = before ++ .receiveResult peerKey body now :: later →
      ((OutboundDb.after decode path before).step decode path (.receiveResult peerKey body now)).2 =
        .ok answer →
      ∀ again, db.step decode path (.receiveResult peerKey body again) =
        (db, if db.hasActivePeer peerKey then .ok (.receipt .duplicate)
          else .error "outbound task result peer authority is no longer active") := by
  intro db
  have hkept : db.Kept := OutboundDb.kept_after decode path events
  obtain ⟨hprepared, hreceived⟩ := history_after decode path events
  refine ⟨fun op hop => ⟨hprepared op hop, ?_, ?_⟩, fun r hr => ⟨hreceived r hr, ?_⟩,
    onward_after decode path events, fun event => ⟨?_, ?_, fun e => OutboundDb.step_error⟩, ?_⟩
  · intro hresulted
    obtain ⟨r, hr, hid⟩ := hkept.resulted op hop hresulted
    exact ⟨r, ⟨hr, hid⟩, fun s hs => Table.eq_of_key_eq hs.1 hr (hs.2.trans hid.symm)⟩
  · rintro ⟨r, ⟨hr, hid⟩, -⟩
    obtain ⟨op', hop', hresulted, hid', -⟩ := hkept.results r hr
    rwa [Table.eq_of_key_eq hop' hop (hid'.trans hid)] at hresulted
  · obtain ⟨op, hop, -, hrest⟩ := hkept.results r hr
    exact ⟨op, hop, hrest⟩
  · exact (db.step_spec decode path event).moves
  · intro op' hop'
    rcases (db.step_spec decode path event).origin op' hop' with ⟨hstate, hprepares, -⟩ | hold
    · exact .inl ⟨hstate, hprepares⟩
    · exact .inr hold
  · rintro before peerKey body now later answer rfl hanswer again
    simp only [OutboundDb.step, OutboundDb.commit] at hanswer
    split at hanswer
    · rename_i db' receipt hreceive
      have hholds := receive_holds (OutboundDb.kept_after decode path before)
        (hdecode peerKey body now (by simp)) hreceive
      have hnext : OutboundDb.after decode path (before ++ [.receiveResult peerKey body now]) =
          db' := by
        rw [OutboundDb.after, Lib.Machine.run_append]
        change (OutboundDb.commit _ (OutboundDb.receiveTaskDelegateOutboundResult _ _ _ _ _) _).1 =
          db'
        rw [← OutboundDb.after, hreceive]
        rfl
      have honward := onward_after decode path (before ++ [.receiveResult peerKey body now]) later
      rw [hnext, List.append_assoc] at honward
      obtain ⟨hkey, hbody⟩ := receive_valid hreceive
      exact (hholds.onward honward).step path hkept hkey hbody again
    · cases hanswer

/-! ## A result that arrives twice -/

/-- The Noise key of the peer. -/
def samplePeerKey : String := "3b6a27bcceb6a42d62a3a8d02a6f0d73653215771de243a63ac048a18b59da29"

def samplePeerEnrollment : EndpointAttestation :=
  sampleAttestation sampleKey .peeroxide samplePeerKey 1 2
    "d7ac7a84297a21f443977e0f7ec5c05dac4d63b51cc4333dd257ba8b8edb20aa"
    [0x75, 0xa2, 0xef, 0x0c, 0x31, 0x66, 0xdc, 0xb4, 0xa3, 0xeb, 0x5b, 0x79, 0xd5, 0x24, 0x03,
     0x90, 0x4f, 0x0b, 0xd7, 0xfd, 0x44, 0x70, 0xea, 0x88, 0x79, 0x34, 0x5b, 0xe1, 0xa1, 0x5b,
     0x7a, 0x23, 0x7a, 0xed, 0xaf, 0xc9, 0x99, 0x90, 0xef, 0x7d, 0xab, 0xbb, 0xe2, 0x78, 0x3b,
     0xd5, 0xe7, 0x84, 0x55, 0xf7, 0xd0, 0xb9, 0x67, 0xee, 0x7b, 0x3e, 0xc1, 0x6c, 0x74, 0xb3,
     0x11, 0x52, 0xa7, 0x09]

/-- The signature above. -/
@[reducible] def samplePeerEd25519 : Ed25519 where
  decodes key := key == sampleKey
  verify key message signature := samplePeerEnrollment.signingPublicKey == key &&
    samplePeerEnrollment.signableBytes == message && samplePeerEnrollment.signature == signature

def sampleScope : TaskDelegateScope := ⟨"summarize", none, none⟩

def sampleTaskResult : TaskResultBody :=
  { taskId := "task-1", status := .completed, result := some "done", providerName := none
    requestedMaxOutputTokens := none, effectiveOutputTokenCeiling := none }

/-- The parser, on the one text of the run. -/
def sampleDecode (text : List UInt8) : Option TaskResultBody :=
  if text = sampleTaskResult.toJson then some sampleTaskResult else none

/-- The peer is enrolled and assigned; an operation is prepared, and its result comes before the
receipt of the queue. -/
def sampleSettled : List OutboundEvent :=
  [.call (sampleInvite "5f1c2d3e-0a1b-4c2d-8e3f-000000000001" samplePeerEnrollment),
    .call (sampleConfirm "5f1c2d3e-0a1b-4c2d-8e3f-000000000001" samplePeerEnrollment),
    .setAssignment ⟨samplePeerKey, "summarize", none, none, true, 1, 0⟩ 0,
    .prepare "operation-1" "task-1" samplePeerKey sampleScope 1002 1600
      "0000000000000000000000000000000000000000000000000000000000000001",
    .receiveResult samplePeerKey sampleTaskResult 1003, .accept "operation-1" 1004]

theorem sampleSettled_received :
    (@OutboundDb.after Sha256.fips samplePeerEd25519 sampleDecode samplePath
      sampleSettled).operations.any (·.state == .resulted) = true := by
  rw [Sha256.fips_eq]
  decide +kernel

theorem outbound_lifecycle_sample :
    ∃ op ∈ (@OutboundDb.after Sha256.fips samplePeerEd25519 sampleDecode samplePath
      sampleSettled).operations,
      ∃! r, r ∈ (@OutboundDb.after Sha256.fips samplePeerEd25519 sampleDecode samplePath
        sampleSettled).results ∧
        r.operationId = op.operationId := by
  have hdecode : ∀ peerKey body now, .receiveResult peerKey body now ∈ sampleSettled →
      sampleDecode body.toJson = some body := by
    intro peerKey body now hmem
    simp only [sampleSettled, List.mem_cons, reduceCtorEq, OutboundEvent.receiveResult.injEq,
      List.not_mem_nil, false_or, or_false] at hmem
    obtain ⟨-, rfl, -⟩ := hmem
    exact if_pos rfl
  obtain ⟨op, hop, hstate⟩ := Table.any_eq_true.mp sampleSettled_received
  obtain ⟨hoperations, -⟩ :=
    @outbound_lifecycle Sha256.fips samplePeerEd25519 sampleDecode samplePath sampleSettled hdecode
  exact ⟨op, hop, (hoperations op hop).2.mp (beq_iff_eq.mp hstate)⟩

end Neoth.Delegation
