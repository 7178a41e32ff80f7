import Neoth.Authority.History
import Neoth.Delegation.Worker

/-!
# Custody of a task and its result

What a reservation and a stored result mean over whole runs of the worker.

* `WorkerStep`: everything an event can do;
* `Worker.Kept`: the invariant between tasks, reservations and results;
* `task_custody`: at most one reservation and one execution for each requester and task id, and what
  is stored stays; a terminal body is stored exactly when no other requester's result has its task
  id.
-/

open Lib Lib.Encoding Lib.Transaction

namespace Neoth.Delegation

open Neoth.Authority

/-! ## What the transactions do -/

/-- What never changes in a row. -/
def ResultRow.custody (row : ResultRow) : String × String × TransportIdentity × String × String ×
    List UInt8 :=
  (row.operationId, row.taskId, row.transport, row.contextDigest, row.resultDigest, row.body)

/-- From `db` to `db'` results change in their state only, and reservations too. -/
structure Quiet (db db' : WorkerDb) : Prop where
  kept : ∀ row ∈ db.outbox, ∃ row' ∈ db'.outbox, row'.custody = row.custody
  old : ∀ row' ∈ db'.outbox, ∃ row ∈ db.outbox, row'.custody = row.custody
  reservations : ∀ key, (∃ r ∈ db'.reservations, r.key = key) ↔ ∃ r ∈ db.reservations, r.key = key

variable {db db' : WorkerDb}

theorem Quiet.of_eq (houtbox : db'.outbox = db.outbox)
    (hreservations : db'.reservations = db.reservations) : Quiet db db' := by
  refine ⟨fun row hrow => ⟨row, houtbox ▸ hrow, rfl⟩, fun row hrow => ⟨row, houtbox ▸ hrow, rfl⟩,
    ?_⟩
  simp [hreservations]

variable {grant : MembershipGrant} {now : Int} {state : ResultState}

theorem setResultState_spec {selects : ResultRow → Bool} {changed : Bool}
    (h : db.setResultState grant now state selects = .ok (db', changed)) :
    db.authority.revalidateGrantOn grant now = .ok () ∧ Quiet db db' ∧
      ∀ row' ∈ db'.outbox, ∃ row ∈ db.outbox, row'.custody = row.custody ∧
        (row'.state = row.state ∨ (row'.state = state ∧ selects row = true)) := by
  simp only [WorkerDb.setResultState, bind_eq_ok_iff] at h
  obtain ⟨_, hvalid, h⟩ := h
  cases h
  refine ⟨hvalid, ⟨?_, ?_, fun _ => .rfl⟩, ?_⟩
  · intro row hrow
    simp only [Table.mem_update]
    exact ⟨_, ⟨row, hrow, rfl⟩, by split <;> rfl⟩
  · simp only [Table.mem_update]
    rintro row' ⟨row, hrow, rfl⟩
    exact ⟨row, hrow, by split <;> rfl⟩
  · simp only [Table.mem_update]
    rintro row' ⟨row, hrow, rfl⟩
    refine ⟨row, hrow, ?_⟩
    split
    · rename_i hselects
      exact ⟨rfl, .inr ⟨rfl, hselects⟩⟩
    · exact ⟨rfl, .inl rfl⟩

theorem markIndeterminate_spec {taskId contextDigest : String}
    (h : db.markWorkerTaskExecutionIndeterminate grant taskId contextDigest now = .ok db') :
    Quiet db db' ∧ db'.outbox = db.outbox := by
  simp only [WorkerDb.markWorkerTaskExecutionIndeterminate, bind_eq_ok_iff] at h
  obtain ⟨_, -, _, -, _, -, _, -, h⟩ := h
  cases h
  refine ⟨⟨fun row hrow => ⟨row, hrow, rfl⟩, fun row hrow => ⟨row, hrow, rfl⟩, ?_⟩, rfl⟩
  intro key
  simp only [Table.mem_update]
  constructor
  · rintro ⟨_, ⟨r, hr, rfl⟩, hkey⟩
    refine ⟨r, hr, ?_⟩
    split at hkey <;> exact hkey
  · rintro ⟨r, hr, hkey⟩
    refine ⟨_, ⟨r, hr, rfl⟩, ?_⟩
    split <;> exact hkey

theorem reserve_spec {taskId contextDigest : String} {reservation : Reservation}
    (h : db.reserveWorkerTaskExecution grant taskId contextDigest now = .ok (db', reservation)) :
    (reservation = .existing ∧ db' = db) ∨
    (reservation = .reserved ∧ (∀ r ∈ db.reservations, r.key ≠ (grant.transportIdentity, taskId)) ∧
      db'.outbox = db.outbox ∧ db.reservations.insert ⟨grant.transportIdentity, taskId,
        contextDigest, .reserved⟩ = some db'.reservations) := by
  simp only [WorkerDb.reserveWorkerTaskExecution, bind_eq_ok_iff] at h
  obtain ⟨_, -, _, -, _, -, h⟩ := h
  split at h
  · simp only [bind_eq_ok_iff] at h
    obtain ⟨_, -, h⟩ := h
    cases h
    exact .inl ⟨rfl, rfl⟩
  · rename_i hnone
    simp only [bind_eq_ok_iff, context_eq_ok_iff] at h
    obtain ⟨reservations, hinsert, h⟩ := h
    cases h
    exact .inr ⟨rfl, Table.find_eq_none_iff.mp hnone, rfl, hinsert⟩

variable {body : TaskResultBody}

theorem persist_spec [Sha256] {contextDigest : String} {receipt : OutboxReceipt}
    (h : db.persistWorkerTaskResultOutbox grant contextDigest body now = .ok (db', receipt)) :
    db' = db ∨ ∃ resultDigest, db'.reservations = db.reservations ∧
      db.outbox.insert ⟨body.taskId, body.taskId, grant.transportIdentity, contextDigest,
        resultDigest, body.toJson, .pending, now⟩ = some db'.outbox := by
  simp only [WorkerDb.persistWorkerTaskResultOutbox, bind_eq_ok_iff] at h
  obtain ⟨_, -, _, -, resultDigest, -, _, -, h⟩ := h
  split at h
  · simp only [bind_eq_ok_iff] at h
    obtain ⟨_, -, h⟩ := h
    cases h
    exact .inl rfl
  · simp only [bind_eq_ok_iff, context_eq_ok_iff] at h
    obtain ⟨outbox, hinsert, h⟩ := h
    cases h
    exact .inr ⟨resultDigest, rfl, hinsert⟩

/-! ## Everything an event can do -/

/-- The event is an acknowledgement that names the row, from the row's own requester. -/
def Acknowledges (db : WorkerDb) (event : WorkerEvent) (row : ResultRow) : Prop :=
  ∃ grant ack now, event = .acknowledge grant ack now ∧
  db.authority.revalidateGrantOn grant now = .ok () ∧
    grant.transportIdentity = row.transport ∧ ack.taskId = row.taskId ∧
    ack.resultDigest = row.resultDigest

inductive WorkerStep (w : Worker) : WorkerEvent → Worker → WorkerAnswer → Prop
  /-- Nothing changes but the authority and the states of rows. -/
  | quiet {event : WorkerEvent} {db : WorkerDb} (h : Quiet w.db db)
      (hacknowledged : ∀ row' ∈ db.outbox, row'.state = .acknowledged → ∃ row ∈ w.db.outbox,
        row'.custody = row.custody ∧ (row.state = .acknowledged ∨ Acknowledges w.db event row)) :
      WorkerStep w event { w with db := db } .quiet
  | arrived {event : WorkerEvent} {t : TaskInHand} (h : t.stage = .arrived) :
      WorkerStep w event { w with tasks := w.tasks ++ [t] } .quiet
  | reserved {event : WorkerEvent} {db : WorkerDb} {index : Nat} {t : TaskInHand}
    {row : ReservationRow}
      (ht : w.tasks[index]? = some t) (hfresh : ∀ r ∈ w.db.reservations, r.key ≠ t.key)
      (hkey : row.key = t.key)
      (houtbox : db.outbox = w.db.outbox)
      (hinsert : w.db.reservations.insert row = some db.reservations) :
      WorkerStep w event
        { w with db := db, tasks := w.tasks.set index { t with stage := .admitted } }
        (.reserved t.key)
  | enqueued {event : WorkerEvent} {index : Nat} {t : TaskInHand} (ht : w.tasks[index]? = some t)
      (hstage : t.stage = .admitted) :
      WorkerStep w event { w with tasks := w.tasks.set index { t with stage := .queued } } .quiet
  | ran {event : WorkerEvent} {index : Nat} {t : TaskInHand} (ht : w.tasks[index]? = some t)
      (hstage : t.stage = .queued) :
      WorkerStep w event { w with tasks := w.tasks.set index { t with stage := .running } }
        (.ran t.key)
  | dropped {event : WorkerEvent} {index : Nat} {a : WorkerAnswer}
    (ha : a = .quiet ∨ ∃ r, a = .persisted r) :
      WorkerStep w event { w with tasks := w.tasks.eraseIdx index } a
  | stored {event : WorkerEvent} {db : WorkerDb} {index : Nat} {t : TaskInHand} {row : ResultRow}
      {receipt : OutboxReceipt} (ht : w.tasks[index]? = some t) (hstage : t.stage ≠ .arrived)
      (hrow : row.operationId = row.taskId ∧ (row.transport, row.taskId) = t.key ∧
        row.state = .pending)
      (hreservations : db.reservations = w.db.reservations)
      (hinsert : w.db.outbox.insert row = some db.outbox) :
      WorkerStep w event { w with db := db, tasks := w.tasks.eraseIdx index }
        (.persisted (.ok receipt))
  | crashed {event : WorkerEvent} : WorkerStep w event { w with tasks := [] } .quiet

theorem WorkerStep.unchanged (w : Worker) (event : WorkerEvent) : WorkerStep w event w .quiet :=
  .quiet (.of_eq rfl rfl) fun row hrow hstate => ⟨row, hrow, rfl, .inl hstate⟩

variable {w : Worker} {event : WorkerEvent}

/-- A transaction that only sets states. -/
theorem WorkerStep.of_transact {A : Type} {body : Except String (WorkerDb × A)}
    (h : ∀ db a, body = .ok (db, a) → Quiet w.db db ∧ ∀ row' ∈ db.outbox,
      row'.state = .acknowledged →
      ∃ row ∈ w.db.outbox, row'.custody = row.custody ∧
      (row.state = .acknowledged ∨ Acknowledges w.db event row)) :
    WorkerStep w event (w.transact body) .quiet := by
  cases body with
  | ok r =>
    obtain ⟨hquiet, hacknowledged⟩ := h r.1 r.2 rfl
    exact .quiet hquiet hacknowledged
  | error e => exact .unchanged w event

/-- A new state other than `acknowledged` acknowledges nothing. -/
theorem WorkerStep.of_setResultState {selects : ResultRow → Bool} (hstate : state ≠ .acknowledged) :
    WorkerStep w event (w.transact (w.db.setResultState grant now state selects)) .quiet := by
  refine .of_transact fun db changed hbody => ?_
  obtain ⟨-, hquiet, hrows⟩ := setResultState_spec hbody
  refine ⟨hquiet, fun row' hrow' hacknowledged => ?_⟩
  obtain ⟨row, hrow, hcustody, hsame | ⟨hset, -⟩⟩ := hrows row' hrow'
  · exact ⟨row, hrow, hcustody, .inl (hsame ▸ hacknowledged)⟩
  · exact absurd (hset.symm.trans hacknowledged) hstate

variable {index : Nat} {t : TaskInHand}

theorem Worker.at_eq_some {stage : Stage} (h : w.at index stage = some t) :
    w.tasks[index]? = some t ∧ t.stage = stage := by
  simpa [Worker.at, Option.filter_eq_some_iff] using h

theorem Worker.reserve_spec [Sha256] (now : Int) (event : WorkerEvent)
    (ht : w.tasks[index]? = some t) :
    WorkerStep w event (w.reserve index t now).1 (w.reserve index t now).2 := by
  unfold Worker.reserve
  split
  · rename_i db hbody
    rcases Delegation.reserve_spec hbody with ⟨hreserved, -⟩ | ⟨-, hfresh, houtbox, hinsert⟩
    · cases hreserved
    · exact .reserved ht hfresh rfl houtbox hinsert
  · rename_i db hbody
    rcases Delegation.reserve_spec hbody with ⟨-, rfl⟩ | ⟨hexisting, -⟩
    · exact .dropped (.inl rfl)
    · cases hexisting
  · exact .dropped (.inl rfl)

theorem Worker.finish_spec [Sha256] (outcome : Outcome) (now : Int) (event : WorkerEvent)
    (ht : w.tasks[index]? = some t) :
    WorkerStep w event (w.finish index t outcome now).1 (w.finish index t outcome now).2 := by
  unfold Worker.finish
  split
  · exact .unchanged w event
  · rename_i hstage
    split
    · rename_i db receipt hbody
      rcases persist_spec hbody with rfl | ⟨resultDigest, hreservations, hinsert⟩
      · exact .dropped (.inr ⟨_, rfl⟩)
      · exact .stored ht hstage ⟨rfl, rfl, rfl⟩ hreservations hinsert
    · exact .dropped (.inr ⟨_, rfl⟩)

theorem Worker.step_spec [Sha256] [Ed25519] (path : String) (w : Worker) (event : WorkerEvent) :
    WorkerStep w event (w.step path event).1 (w.step path event).2 := by
  cases event with
  | call action =>
    exact .quiet (.of_eq rfl rfl) fun row hrow hstate => ⟨row, hrow, rfl, .inl hstate⟩
  | delegate grant delegate now =>
    simp only [Worker.step, Worker.arrive]
    split
    · exact .unchanged w _
    · split
      · exact .arrived rfl
      · exact .unchanged w _
  | reserve index now =>
    simp only [Worker.step]
    split
    · rename_i t hat
      exact Worker.reserve_spec now _ (Worker.at_eq_some hat).1
    · exact .unchanged w _
  | enqueue index =>
    simp only [Worker.step]
    split
    · rename_i t hat
      obtain ⟨ht, hstage⟩ := Worker.at_eq_some hat
      exact .enqueued ht hstage
    · exact .unchanged w _
  | runProvider index =>
    simp only [Worker.step]
    split
    · rename_i t hat
      obtain ⟨ht, hstage⟩ := Worker.at_eq_some hat
      exact .ran ht hstage
    · exact .unchanged w _
  | finish index outcome now =>
    simp only [Worker.step]
    split
    · rename_i t ht
      exact Worker.finish_spec outcome now _ ht
    · exact .unchanged w _
  | drop index => exact .dropped (.inl rfl)
  | markIndeterminate grant taskId contextDigest now =>
    refine .of_transact fun db _ hbody => ?_
    obtain ⟨db', hdb', heq⟩ := map_eq_ok hbody
    cases heq
    obtain ⟨hquiet, houtbox⟩ := markIndeterminate_spec hdb'
    exact ⟨hquiet, fun row hrow hstate => ⟨row, houtbox ▸ hrow, rfl, .inl hstate⟩⟩
  | offered grant taskId resultDigest now => exact .of_setResultState (by simp)
  | resetOffered grant now => exact .of_setResultState (by simp)
  | reopenStale grant olderThan now => exact .of_setResultState (by simp)
  | acknowledge grant ack now =>
    refine .of_transact fun db changed hbody => ?_
    simp only [WorkerDb.acknowledgeWorkerTaskResultOutbox, bind_eq_ok_iff] at hbody
    obtain ⟨_, -, hbody⟩ := hbody
    obtain ⟨hvalid, hquiet, hrows⟩ := setResultState_spec hbody
    refine ⟨hquiet, fun row' hrow' hacknowledged => ?_⟩
    obtain ⟨row, hrow, hcustody, hsame | ⟨-, hselects⟩⟩ := hrows row' hrow'
    · exact ⟨row, hrow, hcustody, .inl (hsame ▸ hacknowledged)⟩
    · simp only [ResultRow.isFor, Bool.and_eq_true, beq_iff_eq] at hselects
      obtain ⟨⟨⟨htransport, htask⟩, hdigest⟩, -⟩ := hselects
      exact ⟨row, hrow, hcustody, .inr ⟨grant, ack, now, rfl, hvalid, htransport.symm, htask.symm,
        hdigest.symm⟩⟩
  | crash => exact .crashed

/-! ## The invariant -/

/-- A task whose frame has passed the reservation. -/
def TaskInHand.Admitted (t : TaskInHand) : Prop := t.stage ≠ .arrived

theorem TaskInHand.admitted_of_eq {stage : Stage} (h : t.stage = stage) (hne : stage ≠ .arrived) :
    t.Admitted := by
  intro harrived
  exact hne (h.symm.trans harrived)

/-- No two admitted tasks are of the same requester and task id. -/
def Distinct (tasks : List TaskInHand) : Prop :=
  ∀ (i j : Nat) (s t : TaskInHand), tasks[i]? = some s → tasks[j]? = some t → s.Admitted →
  t.Admitted →
    s.key = t.key → i = j

/-- Results and admitted tasks have reservations; no two admitted tasks share one, and none has a
result. -/
structure Worker.Kept (w : Worker) : Prop where
  named : ∀ row ∈ w.db.outbox, row.operationId = row.taskId
  results : ∀ row ∈ w.db.outbox, ∃ r ∈ w.db.reservations, r.key = (row.transport, row.taskId)
  tasks : ∀ t ∈ w.tasks, t.Admitted → ∃ r ∈ w.db.reservations, r.key = t.key
  open_ : ∀ t ∈ w.tasks, t.Admitted → ∀ row ∈ w.db.outbox, (row.transport, row.taskId) ≠ t.key
  distinct : Distinct w.tasks

theorem Worker.kept_fresh : Worker.Kept .fresh := by
  refine ⟨?_, ?_, ?_, ?_, ?_⟩ <;> simp [Worker.fresh, Distinct]

theorem Worker.Kept.quiet (h : w.Kept) (hquiet : Quiet w.db db) :
    Worker.Kept { w with db := db } := by
  have hold : ∀ row' ∈ db.outbox, ∃ row ∈ w.db.outbox, row'.operationId = row.operationId ∧
      row'.taskId = row.taskId ∧ row'.transport = row.transport := by
    intro row' hrow'
    obtain ⟨row, hrow, hcustody⟩ := hquiet.old row' hrow'
    simp only [ResultRow.custody, Prod.mk.injEq] at hcustody
    exact ⟨row, hrow, hcustody.1, hcustody.2.1, hcustody.2.2.1⟩
  refine ⟨?_, ?_, ?_, ?_, h.distinct⟩
  · intro row' hrow'
    obtain ⟨row, hrow, hid, htask, -⟩ := hold row' hrow'
    rw [hid, htask]
    exact h.named row hrow
  · intro row' hrow'
    obtain ⟨row, hrow, -, htask, htransport⟩ := hold row' hrow'
    rw [htask, htransport, hquiet.reservations]
    exact h.results row hrow
  · intro t ht hadmitted
    rw [hquiet.reservations]
    exact h.tasks t ht hadmitted
  · intro t ht hadmitted row' hrow'
    obtain ⟨row, hrow, -, htask, htransport⟩ := hold row' hrow'
    rw [htask, htransport]
    exact h.open_ t ht hadmitted row hrow

/-- Fewer admitted tasks, in any order. -/
theorem Worker.Kept.of_tasks (h : w.Kept) {tasks : List TaskInHand}
    (hmem : ∀ t ∈ tasks, t.Admitted → ∃ s ∈ w.tasks, s.Admitted ∧ s.key = t.key)
    (hdistinct : Distinct tasks) : Worker.Kept { w with tasks := tasks } := by
  refine ⟨h.named, h.results, ?_, ?_, hdistinct⟩
  · intro t ht hadmitted
    obtain ⟨s, hs, hsadmitted, hkey⟩ := hmem t ht hadmitted
    rw [← hkey]
    exact h.tasks s hs hsadmitted
  · intro t ht hadmitted
    obtain ⟨s, hs, hsadmitted, hkey⟩ := hmem t ht hadmitted
    rw [← hkey]
    exact h.open_ s hs hsadmitted

theorem Worker.Kept.eraseIdx (h : w.Kept) (index : Nat) :
    Worker.Kept { w with tasks := w.tasks.eraseIdx index } := by
  refine h.of_tasks (fun t ht hadmitted => ⟨t, List.mem_of_mem_eraseIdx ht, hadmitted, rfl⟩) ?_
  intro i j s t hs ht hsadmitted htadmitted hkey
  rw [List.getElem?_eraseIdx] at hs ht
  split at hs <;> split at ht <;>
    have hsame := h.distinct _ _ s t hs ht hsadmitted htadmitted hkey <;> omega

/-- An admitted task moves on. -/
theorem Worker.Kept.set (h : w.Kept) (ht : w.tasks[index]? = some t) (hadmitted : t.Admitted)
    (stage : Stage) :
    Worker.Kept { w with tasks := w.tasks.set index { t with stage := stage } } := by
  refine h.of_tasks ?_ ?_
  · intro s hs hsadmitted
    rcases List.mem_or_eq_of_mem_set hs with hs | rfl
    · exact ⟨s, hs, hsadmitted, rfl⟩
    · exact ⟨t, List.mem_of_getElem? ht, hadmitted, rfl⟩
  · have hback : ∀ (i : Nat) (s : TaskInHand),
        (w.tasks.set index { t with stage := stage })[i]? = some s →
        s.Admitted → ∃ s', w.tasks[i]? = some s' ∧ s'.Admitted ∧ s'.key = s.key := by
      intro i s hs hsadmitted
      rw [List.getElem?_set] at hs
      split at hs
      · rename_i heq
        split at hs
        · cases hs
          exact ⟨t, heq ▸ ht, hadmitted, rfl⟩
        · cases hs
      · exact ⟨s, hs, hsadmitted, rfl⟩
    intro i j s u hs hu hsadmitted huadmitted hkey
    obtain ⟨s', hs', hs'admitted, hskey⟩ := hback i s hs hsadmitted
    obtain ⟨u', hu', hu'admitted, hukey⟩ := hback j u hu huadmitted
    exact h.distinct i j s' u' hs' hu' hs'admitted hu'admitted (by rw [hskey, hukey, hkey])

theorem Worker.Kept.append (h : w.Kept) (ht : t.stage = .arrived) :
    Worker.Kept { w with tasks := w.tasks ++ [t] } := by
  have hold : ∀ (i : Nat) (s : TaskInHand), (w.tasks ++ [t])[i]? = some s → s.Admitted →
      w.tasks[i]? = some s := by
    intro i s hs hadmitted
    rw [List.getElem?_append] at hs
    split at hs
    · exact hs
    · obtain rfl := List.mem_singleton.mp (List.mem_of_getElem? hs)
      exact absurd ht hadmitted
  refine h.of_tasks ?_ fun i j s u hs hu hsadmitted huadmitted =>
    h.distinct i j s u (hold i s hs hsadmitted) (hold j u hu huadmitted) hsadmitted huadmitted
  intro s hs hadmitted
  obtain ⟨i, hi⟩ := List.mem_iff_getElem?.mp hs
  exact ⟨s, List.mem_of_getElem? (hold i s hi hadmitted), hadmitted, rfl⟩

/-- A task is admitted under a reservation that is new. -/
theorem Worker.Kept.reserve (h : w.Kept) {row : ReservationRow}
    (hfresh : ∀ r ∈ w.db.reservations, r.key ≠ t.key) (hkey : row.key = t.key)
    (houtbox : db.outbox = w.db.outbox)
    (hinsert : w.db.reservations.insert row = some db.reservations) :
    Worker.Kept { w with db := db, tasks := w.tasks.set index { t with stage := .admitted } } := by
  have hstays : ∀ key, (∃ r ∈ w.db.reservations, r.key = key) → ∃ r ∈ db.reservations,
      r.key = key := by
    rintro key ⟨r, hr, hrkey⟩
    exact ⟨r, (Table.mem_insert hinsert).mpr (.inl hr), hrkey⟩
  have hother : ∀ s ∈ w.tasks, s.Admitted → s.key ≠ t.key := by
    intro s hs hadmitted heq
    obtain ⟨r, hr, hrkey⟩ := h.tasks s hs hadmitted
    exact hfresh r hr (hrkey.trans heq)
  refine ⟨?_, ?_, ?_, ?_, ?_⟩ <;> dsimp only
  · rw [houtbox]
    exact h.named
  · rw [houtbox]
    exact fun r hr => hstays _ (h.results r hr)
  · intro s hs hadmitted
    rcases List.mem_or_eq_of_mem_set hs with hs | rfl
    · exact hstays _ (h.tasks s hs hadmitted)
    · exact ⟨row, (Table.mem_insert hinsert).mpr (.inr rfl), hkey⟩
  · rw [houtbox]
    intro s hs hadmitted result hresult
    rcases List.mem_or_eq_of_mem_set hs with hs | rfl
    · exact h.open_ s hs hadmitted result hresult
    · intro heq
      obtain ⟨r, hr, hrkey⟩ := h.results result hresult
      exact hfresh r hr (hrkey.trans heq)
  · have hback : ∀ (i : Nat) (s : TaskInHand),
        (w.tasks.set index { t with stage := .admitted })[i]? = some s →
        s.Admitted → (i = index ∧ s.key = t.key) ∨ (w.tasks[i]? = some s ∧ s.key ≠ t.key) := by
      intro i s hs hadmitted
      rw [List.getElem?_set] at hs
      split at hs
      · rename_i heq
        split at hs
        · cases hs
          exact .inl ⟨heq.symm, rfl⟩
        · cases hs
      · exact .inr ⟨hs, hother s (List.mem_of_getElem? hs) hadmitted⟩
    intro i j s u hs hu hsadmitted huadmitted hsame
    rcases hback i s hs hsadmitted with ⟨hi, hs'⟩ | ⟨hs', hsne⟩ <;>
      rcases hback j u hu huadmitted with ⟨hj, hu'⟩ | ⟨hu', hune⟩
    · exact hi.trans hj.symm
    · exact absurd (hsame.symm.trans hs') hune
    · exact absurd (hsame.trans hu') hsne
    · exact h.distinct i j s u hs' hu' hsadmitted huadmitted hsame

/-- A task ends with its result in the outbox. -/
theorem Worker.Kept.store (h : w.Kept) {row : ResultRow} (ht : w.tasks[index]? = some t)
    (hadmitted : t.Admitted) (hid : row.operationId = row.taskId)
    (hkey : (row.transport, row.taskId) = t.key)
    (hreservations : db.reservations = w.db.reservations)
    (hinsert : w.db.outbox.insert row = some db.outbox) :
    Worker.Kept { w with db := db, tasks := w.tasks.eraseIdx index } := by
  have herased := h.eraseIdx index
  refine ⟨?_, ?_, ?_, ?_, herased.distinct⟩ <;> dsimp only
  · intro r hr
    rcases (Table.mem_insert hinsert).mp hr with hr | rfl
    · exact h.named r hr
    · exact hid
  · rw [hreservations]
    intro r hr
    rcases (Table.mem_insert hinsert).mp hr with hr | rfl
    · exact h.results r hr
    · rw [hkey]
      exact h.tasks t (List.mem_of_getElem? ht) hadmitted
  · rw [hreservations]
    exact herased.tasks
  · intro s hs hsadmitted r hr
    rcases (Table.mem_insert hinsert).mp hr with hr | rfl
    · exact herased.open_ s hs hsadmitted r hr
    · intro heq
      obtain ⟨i, hi⟩ := List.mem_iff_getElem?.mp hs
      rw [List.getElem?_eraseIdx] at hi
      split at hi <;>
        have hsame := h.distinct _ _ s t hi ht hsadmitted hadmitted (heq.symm.trans hkey) <;> omega

variable {w' : Worker} {a : WorkerAnswer}

theorem WorkerStep.kept (hstep : WorkerStep w event w' a) (h : w.Kept) : w'.Kept := by
  cases hstep with
  | quiet hquiet _ => exact h.quiet hquiet
  | arrived ht => exact h.append ht
  | reserved _ hfresh hkey houtbox hinsert => exact h.reserve hfresh hkey houtbox hinsert
  | enqueued ht hstage => exact h.set ht (TaskInHand.admitted_of_eq hstage (by simp)) .queued
  | ran ht hstage => exact h.set ht (TaskInHand.admitted_of_eq hstage (by simp)) .running
  | dropped _ => exact h.eraseIdx _
  | stored ht hstage hrow hreservations hinsert =>
    exact h.store ht hstage hrow.1 hrow.2.1 hreservations hinsert
  | crashed =>
    refine ⟨h.named, h.results, (by simp), (by simp), ?_⟩
    intro i j s t hs
    simp at hs

theorem Worker.kept_after [Sha256] [Ed25519] (path : String) (events : List WorkerEvent) :
    (Worker.after path events).Kept :=
  Lib.Machine.run_invariant (fun w event h => (Worker.step_spec path w event).kept h) _
    kept_fresh events

/-! ## At most once -/

/-- The tasks and reservations an answer leaves behind: a key that is reserved stays so, and one
whose provider has run is not executed again. -/
def Shows (a : WorkerAnswer) (w : Worker) : Prop :=
  (∀ key, a = .reserved key → ∃ r ∈ w.db.reservations, r.key = key) ∧
  ∀ key, a = .ran key → (∃ r ∈ w.db.reservations, r.key = key) ∧
    ∀ t ∈ w.tasks, t.key = key → t.stage = .arrived ∨ t.stage = .running

variable {key : TransportIdentity × String}

theorem WorkerStep.reservations (hstep : WorkerStep w event w' a)
    (h : ∃ r ∈ w.db.reservations, r.key = key) : ∃ r ∈ w'.db.reservations, r.key = key := by
  cases hstep with
  | quiet hquiet _ => exact (hquiet.reservations key).mpr h
  | reserved _ _ _ _ hinsert =>
    obtain ⟨r, hr, hkey⟩ := h
    exact ⟨r, (Table.mem_insert hinsert).mpr (.inl hr), hkey⟩
  | stored _ _ _ hreservations _ => rwa [hreservations]
  | arrived _ => exact h
  | enqueued _ _ => exact h
  | ran _ _ => exact h
  | dropped _ => exact h
  | crashed => exact h

theorem WorkerStep.shows_self (hstep : WorkerStep w event w' a) (h : w.Kept) : Shows a w' := by
  cases hstep with
  | quiet _ _ => exact ⟨(by simp), (by simp)⟩
  | arrived _ => exact ⟨(by simp), (by simp)⟩
  | reserved _ _ hkey _ hinsert =>
    refine ⟨?_, (by simp)⟩
    rintro key ⟨⟩
    exact ⟨_, (Table.mem_insert hinsert).mpr (.inr rfl), hkey⟩
  | enqueued _ _ => exact ⟨(by simp), (by simp)⟩
  | @ran index t ht hstage =>
    refine ⟨(by simp), ?_⟩
    rintro key ⟨⟩
    have hadmitted := TaskInHand.admitted_of_eq hstage (by simp)
    refine ⟨h.tasks t (List.mem_of_getElem? ht) hadmitted, ?_⟩
    intro s hs hkey
    obtain ⟨i, hi⟩ := List.mem_iff_getElem?.mp hs
    rw [List.getElem?_set] at hi
    split at hi
    · split at hi
      · cases hi
        exact .inr rfl
      · cases hi
    · rename_i hne
      by_cases harrived : s.stage = .arrived
      · exact .inl harrived
      · exact absurd (h.distinct index i t s ht hi hadmitted harrived hkey.symm) hne
  | dropped ha =>
    rcases ha with rfl | ⟨_, rfl⟩ <;> exact ⟨(by simp), (by simp)⟩
  | stored _ _ _ _ _ => exact ⟨(by simp), (by simp)⟩
  | crashed => exact ⟨(by simp), (by simp)⟩

theorem WorkerStep.shows {a b : WorkerAnswer} (hstep : WorkerStep w event w' b) (h : Shows a w) :
    Shows a w' := by
  refine ⟨fun key hkey => hstep.reservations (h.1 key hkey), fun key hran => ?_⟩
  obtain ⟨hreserved, htasks⟩ := h.2 key hran
  refine ⟨hstep.reservations hreserved, ?_⟩
  cases hstep with
  | quiet _ _ => exact htasks
  | arrived hstage =>
    intro t ht hkey
    rcases List.mem_append.mp ht with ht | ht
    · exact htasks t ht hkey
    · exact .inl (List.mem_singleton.mp ht ▸ hstage)
  | reserved _ hfresh _ _ _ =>
    intro s hs hkey
    rcases List.mem_or_eq_of_mem_set hs with hs | rfl
    · exact htasks s hs hkey
    · obtain ⟨r, hr, hrkey⟩ := hreserved
      exact absurd (hrkey.trans hkey.symm) (hfresh r hr)
  | enqueued ht hstage =>
    intro s hs hkey
    rcases List.mem_or_eq_of_mem_set hs with hs | rfl
    · exact htasks s hs hkey
    · rcases htasks _ (List.mem_of_getElem? ht) hkey with harrived | hrunning <;> simp_all
  | ran ht _ =>
    intro s hs hkey
    rcases List.mem_or_eq_of_mem_set hs with hs | rfl
    · exact htasks s hs hkey
    · exact .inr rfl
  | dropped _ => exact fun s hs => htasks s (List.mem_of_mem_eraseIdx hs)
  | stored _ _ _ _ _ => exact fun s hs => htasks s (List.mem_of_mem_eraseIdx hs)
  | crashed => exact (by simp)

/-- What has been reserved is not reserved again, and what has run does not run again. -/
theorem WorkerStep.excludes {a b : WorkerAnswer} (hstep : WorkerStep w event w' b) (h : Shows a w)
    (key : TransportIdentity × String) :
    (a = .reserved key → b ≠ .reserved key) ∧ (a = .ran key → b ≠ .ran key) := by
  constructor
  · rintro ha rfl
    obtain ⟨r, hr, hkey⟩ := h.1 key ha
    cases hstep with
    | reserved _ hfresh _ _ _ => exact hfresh r hr hkey
    | dropped hquiet => rcases hquiet with hquiet | ⟨_, hquiet⟩ <;> cases hquiet
  · rintro ha rfl
    cases hstep with
    | ran ht hstage =>
      rcases (h.2 _ ha).2 _ (List.mem_of_getElem? ht) rfl with harrived | hrunning <;> simp_all
    | dropped hquiet => rcases hquiet with hquiet | ⟨_, hquiet⟩ <;> cases hquiet

/-- The provider runs for an admitted task. -/
theorem WorkerStep.ran_admitted (hstep : WorkerStep w event w' (.ran key)) :
    ∃ t ∈ w.tasks, t.Admitted ∧ t.key = key := by
  cases hstep with
  | ran ht hstage =>
    exact ⟨_, List.mem_of_getElem? ht, TaskInHand.admitted_of_eq hstage (by simp), rfl⟩
  | dropped hquiet => rcases hquiet with hquiet | ⟨_, hquiet⟩ <;> cases hquiet

theorem answers_pairwise [Sha256] [Ed25519] (path : String) (events : List WorkerEvent) :
    (Worker.answers path events).Pairwise fun a b =>
      ∀ key, (a = .reserved key → b ≠ .reserved key) ∧ (a = .ran key → b ≠ .ran key) :=
  Lib.Machine.pairwise_run (P := Worker.Kept) (Q := Shows)
    (fun w event h => (Worker.step_spec path w event).kept h)
    (fun w event h => (Worker.step_spec path w event).shows_self h)
    (fun _ w event _ h => (Worker.step_spec path w event).shows h)
    (fun _ w event _ h => (Worker.step_spec path w event).excludes h) _ Worker.kept_fresh events

/-- Admitted tasks have been reserved in the course of the events. -/
theorem admitted_reserved [Sha256] [Ed25519] (path : String) (events : List WorkerEvent) :
    ∀ t ∈ (Worker.after path events).tasks, t.Admitted →
    .reserved t.key ∈ Worker.answers path events := by
  refine Lib.Machine.run_history (P := fun events w => ∀ t ∈ w.tasks, t.Admitted →
    .reserved t.key ∈ Worker.answers path events) Worker.fresh (by simp [Worker.fresh]) ?_ events
  intro events event h
  have hanswers : Worker.answers path (events ++ [event]) =
      Worker.answers path events ++ [((Worker.after path events).step path event).2] := by
    simp [Worker.answers, Worker.after, Lib.Machine.run_append]
  rw [hanswers]
  have hstep := Worker.step_spec path (Worker.after path events) event
  change ∀ t ∈ ((Worker.after path events).step path event).1.tasks, t.Admitted → _
  replace h : ∀ t ∈ (Worker.after path events).tasks, t.Admitted →
      .reserved t.key ∈ Worker.answers path events := h
  generalize Worker.after path events = w at h hstep
  generalize (w.step path event).1 = w', (w.step path event).2 = a at hstep
  intro t ht hadmitted
  rw [List.mem_append, List.mem_singleton]
  cases hstep with
  | quiet _ _ => exact .inl (h t ht hadmitted)
  | arrived hstage =>
    rcases List.mem_append.mp ht with ht | ht
    · exact .inl (h t ht hadmitted)
    · exact absurd (List.mem_singleton.mp ht ▸ hstage) hadmitted
  | reserved _ _ _ _ _ =>
    rcases List.mem_or_eq_of_mem_set ht with ht | rfl
    · exact .inl (h t ht hadmitted)
    · exact .inr rfl
  | enqueued hs hstage =>
    rcases List.mem_or_eq_of_mem_set ht with ht | rfl
    · exact .inl (h t ht hadmitted)
    · have hreserved := h _ (List.mem_of_getElem? hs) (TaskInHand.admitted_of_eq hstage (by simp))
      exact .inl hreserved
  | ran hs hstage =>
    rcases List.mem_or_eq_of_mem_set ht with ht | rfl
    · exact .inl (h t ht hadmitted)
    · have hreserved := h _ (List.mem_of_getElem? hs) (TaskInHand.admitted_of_eq hstage (by simp))
      exact .inl hreserved
  | dropped _ => exact .inl (h t (List.mem_of_mem_eraseIdx ht) hadmitted)
  | stored _ _ _ _ _ => exact .inl (h t (List.mem_of_mem_eraseIdx ht) hadmitted)
  | crashed => cases ht

/-! ## What is stored stays -/

/-- No event takes a result away or changes it. -/
theorem WorkerStep.custody (hstep : WorkerStep w event w' a) :
    ∀ row ∈ w.db.outbox, ∃ row' ∈ w'.db.outbox, row'.custody = row.custody := by
  intro row hrow
  cases hstep with
  | quiet hquiet _ => exact hquiet.kept row hrow
  | reserved _ _ _ houtbox _ => exact ⟨row, houtbox ▸ hrow, rfl⟩
  | stored _ _ _ _ hinsert => exact ⟨row, (Table.mem_insert hinsert).mpr (.inl hrow), rfl⟩
  | arrived _ => exact ⟨row, hrow, rfl⟩
  | enqueued _ _ => exact ⟨row, hrow, rfl⟩
  | ran _ _ => exact ⟨row, hrow, rfl⟩
  | dropped _ => exact ⟨row, hrow, rfl⟩
  | crashed => exact ⟨row, hrow, rfl⟩

/-- A result that is acknowledged has been so before, or the event acknowledges it. -/
theorem WorkerStep.acknowledged (hstep : WorkerStep w event w' a) :
    ∀ row' ∈ w'.db.outbox, row'.state = .acknowledged →
      ∃ row ∈ w.db.outbox, row'.custody = row.custody ∧
        (row.state = .acknowledged ∨ Acknowledges w.db event row) := by
  intro row' hrow' hstate
  cases hstep with
  | quiet _ hacknowledged => exact hacknowledged row' hrow' hstate
  | reserved _ _ _ houtbox _ => exact ⟨row', houtbox ▸ hrow', rfl, .inl hstate⟩
  | stored _ _ hrow _ hinsert =>
    rcases (Table.mem_insert hinsert).mp hrow' with hrow' | rfl
    · exact ⟨row', hrow', rfl, .inl hstate⟩
    · exact absurd (hrow.2.2.symm.trans hstate) (by simp)
  | arrived _ => exact ⟨row', hrow', rfl, .inl hstate⟩
  | enqueued _ _ => exact ⟨row', hrow', rfl, .inl hstate⟩
  | ran _ _ => exact ⟨row', hrow', rfl, .inl hstate⟩
  | dropped _ => exact ⟨row', hrow', rfl, .inl hstate⟩
  | crashed => exact ⟨row', hrow', rfl, .inl hstate⟩

/-- Which acknowledgement names a row depends on its custody alone. -/
theorem Acknowledges.congr {row row' : ResultRow} (h : Acknowledges db event row)
    (hcustody : row'.custody = row.custody) : Acknowledges db event row' := by
  obtain ⟨grant, ack, now, hevent, hvalid, htransport, htask, hdigest⟩ := h
  simp only [ResultRow.custody, Prod.mk.injEq] at hcustody
  obtain ⟨-, htask', htransport', -, hdigest', -⟩ := hcustody
  exact ⟨grant, ack, now, hevent, hvalid, by rw [htransport', htransport], by rw [htask', htask],
    by rw [hdigest', hdigest]⟩

theorem custody_after [Sha256] [Ed25519] (path : String) (before later : List WorkerEvent) :
    ∀ row ∈ (Worker.after path before).db.outbox,
      ∃ row' ∈ (Worker.after path (before ++ later)).db.outbox, row'.custody = row.custody := by
  simp only [Worker.after, Lib.Machine.run_append]
  refine Lib.Machine.run_relation (P := fun _ => True) (R := fun w w' : Worker =>
      ∀ row ∈ w.db.outbox, ∃ row' ∈ w'.db.outbox, row'.custody = row.custody) (fun _ _ h => h)
    (fun w row hrow => ⟨row, hrow, rfl⟩) ?_
      (fun w event _ => (Worker.step_spec path w event).custody) _ trivial later
  intro u v w huv hvw row hrow
  obtain ⟨row', hrow', hcustody⟩ := huv row hrow
  obtain ⟨row'', hrow'', hcustody'⟩ := hvw row' hrow'
  exact ⟨row'', hrow'', hcustody'.trans hcustody⟩

/-- In the course of the events the row has been acknowledged. -/
def AcknowledgedIn [Sha256] [Ed25519] (path : String) (events : List WorkerEvent)
    (row : ResultRow) : Prop :=
  ∃ before event later, events = before ++ event :: later ∧
  Acknowledges (Worker.after path before).db event row

theorem acknowledgedIn_after [Sha256] [Ed25519] (path : String) (events : List WorkerEvent) :
    ∀ row ∈ (Worker.after path events).db.outbox, row.state = .acknowledged →
    AcknowledgedIn path events row := by
  refine Lib.Machine.run_history (P := fun events (w : Worker) => ∀ row ∈ w.db.outbox,
    row.state = .acknowledged →
    AcknowledgedIn path events row) Worker.fresh (by simp [Worker.fresh]) ?_ events
  intro events event h row' hrow' hstate
  obtain ⟨row, hrow, hcustody, hearlier | hnow⟩ :=
    (Worker.step_spec path _ event).acknowledged row' hrow' hstate
  · obtain ⟨before, earlier, later, hevents, hacknowledges⟩ := h row hrow hearlier
    exact ⟨before, earlier, later ++ [event], by simp [hevents], hacknowledges.congr hcustody⟩
  · exact ⟨events, event, [], rfl, hnow.congr hcustody⟩

/-! ## Storing a result -/

/-- The outbox takes the terminal body of an admitted task if and only if the requester is still
authenticated and no other requester has a result with the task id. -/
theorem Worker.Kept.persist_iff [Sha256] (h : w.Kept) (ht : t ∈ w.tasks) (hadmitted : t.Admitted)
    (hbody : validateTaskResult body = .ok ()) (htask : body.taskId = t.delegate.taskId)
    (now : Int) :
    (∃ r, w.db.persistWorkerTaskResultOutbox t.grant (delegateContextDigest t.grant t.delegate) body
      now = .ok r) ↔
      w.db.authority.revalidateGrantOn t.grant now = .ok () ∧
        ∀ row ∈ w.db.outbox, row.taskId = body.taskId →
        row.transport = t.grant.transportIdentity := by
  have hown : ∀ row ∈ w.db.outbox, row.taskId = body.taskId →
      row.transport ≠ t.grant.transportIdentity := by
    intro row hrow hid htransport
    exact h.open_ t ht hadmitted row hrow (by rw [TaskInHand.key, htransport, hid, htask])
  have hnone : w.db.outbox.rows.find? (·.isFor t.grant.transportIdentity body.taskId) = none := by
    rw [List.find?_eq_none]
    intro row hrow hfor
    simp only [ResultRow.isFor, Bool.and_eq_true, beq_iff_eq] at hfor
    exact hown row hrow hfor.2 hfor.1
  have hcontext : validateLowerSha256 (delegateContextDigest t.grant t.delegate)
      "worker result context digest" =
      .ok () := validateLowerSha256_eq_ok_iff.mpr (hexEncode_isLowerSha256 _)
  constructor
  · rintro ⟨r, hpersist⟩
    simp only [WorkerDb.persistWorkerTaskResultOutbox, bind_eq_ok_iff, hnone,
      context_eq_ok_iff] at hpersist
    obtain ⟨_, -, _, -, resultDigest, -, ⟨⟩, hvalid, outbox, hinsert, -⟩ := hpersist
    refine ⟨hvalid, fun row hrow hid => ?_⟩
    exact absurd ((h.named row hrow).trans hid) ((Table.insert_eq_some hinsert).1 row hrow)
  · rintro ⟨hvalid, hothers⟩
    obtain ⟨outbox, hinsert⟩ : ∃ outbox,
        w.db.outbox.insert ⟨body.taskId, body.taskId, t.grant.transportIdentity,
          delegateContextDigest t.grant t.delegate, hexEncode (Sha256.digest body.toJson).val,
          body.toJson,
        .pending, now⟩ = some outbox := by
      refine Table.exists_insert fun row hrow hid => ?_
      have htaskId : row.taskId = body.taskId := (h.named row hrow).symm.trans hid
      exact hown row hrow htaskId (hothers row hrow htaskId)
    refine ⟨({ w.db with outbox := outbox }, .stored), ?_⟩
    simp only [WorkerDb.persistWorkerTaskResultOutbox, bind_eq_ok_iff, hnone, context_eq_ok_iff]
    exact ⟨(), hbody, (), hcontext, _, taskResultDigest_of_valid hbody, (), hvalid, outbox,
      hinsert, rfl⟩

/-- **Custody of a task and its result.** In every run: for each requester and task id at most one
reservation is granted and the provider runs at most once, after the reservation; the terminal body
of a reserved task of an authenticated requester is stored if and only if no other requester has a
result with the task id; what is stored stays as it is, and is acknowledged by its own requester
alone, who names its digest. -/
theorem task_custody [Sha256] [Ed25519] (path : String) (events : List WorkerEvent) :
    (∀ key, (Worker.answers path events).count (.reserved key) ≤ 1 ∧
      (Worker.answers path events).count (.ran key) ≤ 1) ∧
    (∀ before event later key, events = before ++ event :: later →
      ((Worker.after path before).step path event).2 = .ran key →
      .reserved key ∈ Worker.answers path before) ∧
    (∀ t ∈ (Worker.after path events).tasks, t.Admitted → ∀ body now,
      validateTaskResult body = .ok () →
      body.taskId = t.delegate.taskId →
      let db := (Worker.after path events).db
      ((∃ r, db.persistWorkerTaskResultOutbox t.grant (delegateContextDigest t.grant t.delegate)
        body now = .ok r) ↔
        db.authority.revalidateGrantOn t.grant now = .ok () ∧
          ∀ row ∈ db.outbox, row.taskId = body.taskId →
          row.transport = t.grant.transportIdentity)) ∧
    (∀ before later, events = before ++ later → ∀ row ∈ (Worker.after path before).db.outbox,
      ∃ row' ∈ (Worker.after path events).db.outbox, row'.custody = row.custody) ∧
    ∀ row ∈ (Worker.after path events).db.outbox, row.state = .acknowledged →
    AcknowledgedIn path events row := by
  have hpairwise := answers_pairwise path events
  refine ⟨fun key => ⟨?_, ?_⟩, ?_, ?_, ?_, acknowledgedIn_after path events⟩
  · exact Lib.Machine.count_le_one_of_pairwise (hpairwise.imp fun h => (h key).1)
  · exact Lib.Machine.count_le_one_of_pairwise (hpairwise.imp fun h => (h key).2)
  · intro before event later key _ hran
    have hstep := Worker.step_spec path (Worker.after path before) event
    rw [hran] at hstep
    obtain ⟨t, ht, hadmitted, rfl⟩ := hstep.ran_admitted
    exact admitted_reserved path before t ht hadmitted
  · intro t ht hadmitted body now hbody htask
    exact (Worker.kept_after path events).persist_iff ht hadmitted hbody htask now
  · rintro before later rfl
    exact custody_after path before later

/-! ## Two requesters with one task id -/

def sampleTaskGrant (key : PublicKey) (transport : TransportIdentity) : MembershipGrant :=
  { stableNodeId := StableNodeId.fromVerifyingKey key, carrier := .peeroxide,
    transportIdentity := transport
    authEpoch := 1, membershipEpoch := 3, expiresAtUnix := some 2000 }

def sampleOutcome : Outcome :=
  { status := .completed, result := some "done", providerName := none,
    requestedMaxOutputTokens := none
    effectiveOutputTokenCeiling := none }

/-- Both delegate a task under the same id, both are reserved and run, and the first has its
result. -/
def sampleSharedTaskId : List WorkerEvent :=
  [.call (sampleInvite "5f1c2d3e-0a1b-4c2d-8e3f-000000000001" sampleEnrollment),
    .call (sampleConfirm "5f1c2d3e-0a1b-4c2d-8e3f-000000000001" sampleEnrollment),
    .call (sampleInvite "5f1c2d3e-0a1b-4c2d-8e3f-000000000002" sampleOtherEnrollment),
    .call (sampleConfirm "5f1c2d3e-0a1b-4c2d-8e3f-000000000002" sampleOtherEnrollment),
    .delegate (sampleTaskGrant sampleKey "alpha-transport") (.probe "task-1" "summarize") 1002,
    .delegate (sampleTaskGrant sampleOtherKey "beta-transport") (.probe "task-1" "translate") 1002,
    .reserve 0 1003, .reserve 1 1003, .enqueue 0, .enqueue 1, .runProvider 0, .runProvider 1,
    .finish 0 sampleOutcome 1004]

/-- The provider has run for a task whose requester is authenticated, and the outbox refuses the
body. -/
def losesResult [Sha256] (w : Worker) (outcome : Outcome) (now : Int) : Bool :=
  w.tasks.any fun t => t.stage == .running &&
  w.db.authority.revalidateGrantOn t.grant now == .ok () &&
    validateTaskResult (outcome.body t.delegate.taskId) == .ok () &&
    (w.db.persistWorkerTaskResultOutbox t.grant (delegateContextDigest t.grant t.delegate)
      (outcome.body t.delegate.taskId) now).toOption.isNone

theorem sampleSharedTaskId_losesResult :
    @losesResult Sha256.fips (@Worker.after Sha256.fips sampleEd25519 samplePath sampleSharedTaskId)
      sampleOutcome 1005 = true := by
  rw [Sha256.fips_eq]
  decide +kernel

theorem shared_task_id_loses_result :
    ¬ ∀ (path : String) (events : List WorkerEvent),
      ∀ t ∈ (@Worker.after Sha256.fips sampleEd25519 path events).tasks, t.Admitted → ∀ body now,
        validateTaskResult body = .ok () → body.taskId = t.delegate.taskId →
        let db := (@Worker.after Sha256.fips sampleEd25519 path events).db
        db.authority.revalidateGrantOn t.grant now = .ok () →
        ∃ r, @WorkerDb.persistWorkerTaskResultOutbox Sha256.fips db t.grant
          (@delegateContextDigest Sha256.fips t.grant t.delegate) body now = .ok r := by
  intro h
  have hloses := sampleSharedTaskId_losesResult
  have hsample := h samplePath sampleSharedTaskId
  generalize @Worker.after Sha256.fips sampleEd25519 samplePath sampleSharedTaskId =
    w at hloses hsample
  simp only [losesResult, List.any_eq_true, Bool.and_eq_true, beq_iff_eq] at hloses
  obtain ⟨t, ht, ⟨⟨hrunning, hvalid⟩, hbody⟩, hrefused⟩ := hloses
  have hstored := hsample t ht (TaskInHand.admitted_of_eq hrunning (by simp))
    (sampleOutcome.body t.delegate.taskId) 1005 hbody rfl hvalid
  obtain ⟨r, hr⟩ := hstored
  rw [hr] at hrefused
  cases hrefused

end Neoth.Delegation
