import Neoth.BudgetRaft.Store

/-!
# Budget Raft store: what an operation can do

One lemma for each operation of the store that takes a successful call apart, and
from them `StoreStep`, every outcome of an operation, with `step_storeStep`, that
there is no other.
-/

open Std Lib.Encoding Lib.TreeMap Lib.Machine Lib.Transaction

namespace Neoth.BudgetRaft

/-! ## Log ids -/

/-- The order of leaders: by term, then by node. -/
def LeaderId.le (a b : LeaderId) : Bool := a.term < b.term || a.term = b.term && a.nodeId ≤ b.nodeId

/-- `a` is no later than `b`, by leader and by index.  The ids of one Raft log are
ordered alike by both, and OpenRaft's order (leader first) follows. -/
structure LogId.AtMost (a b : LogId) : Prop where
  leader : a.leaderId.le b.leaderId = true
  index : a.index ≤ b.index

theorem LeaderId.le_refl (a : LeaderId) : a.le a = true := by
  simp [LeaderId.le]

theorem LeaderId.le_trans {a b c : LeaderId} (hab : a.le b = true) (hbc : b.le c = true) :
    a.le c = true := by
  simp only [LeaderId.le, Bool.or_eq_true, Bool.and_eq_true, decide_eq_true_eq,
    UInt64.lt_iff_toNat_lt, UInt64.le_iff_toNat_le, ← UInt64.toNat_inj] at *
  omega

theorem LogId.AtMost.refl (a : LogId) : a.AtMost a := ⟨a.leaderId.le_refl, UInt64.le_refl _⟩

theorem LogId.AtMost.trans {a b c : LogId} (hab : a.AtMost b) (hbc : b.AtMost c) : a.AtMost c :=
  ⟨LeaderId.le_trans hab.leader hbc.leader, UInt64.le_trans hab.index hbc.index⟩

theorem sqlIndex_eq_ok_iff {index : UInt64} {n : Nat} :
    sqlIndex index = .ok n ↔ index.toNat = n ∧ index.toNat < 2 ^ 63 := by
  unfold sqlIndex
  split
  · rename_i h
    exact ⟨fun e => ⟨Except.ok.inj e, h⟩, fun e => congrArg _ e.1⟩
  · rename_i h
    exact ⟨fun e => (by cases e), fun e => absurd e.2 h⟩

/-! ## Appending -/

namespace BudgetRaftStore

variable {entries : List RaftEntry}

theorem checkAppend_cons {purged previous : Option LogId} {entry : RaftEntry}
    (h : checkAppend purged previous (entry :: entries) = .ok ()) :
    (∀ p, purged = some p → p.index < entry.logId.index) ∧
    (∀ prev, previous = some prev → entry.logId.index.toNat ≤ prev.index.toNat + 1) ∧
    checkAppend purged (some entry.logId) entries = .ok () := by
  unfold checkAppend at h
  obtain ⟨_, hpurged, h⟩ := bind_eq_ok_iff.mp h
  obtain ⟨_, hprevious, h⟩ := bind_eq_ok_iff.mp h
  refine ⟨?_, ?_, h⟩
  · rintro p rfl
    simpa [UInt64.not_le] using hpurged
  · rintro prev rfl
    have hle : entry.logId.index ≤ saturatingSucc prev.index := by
      simpa [UInt64.not_lt] using hprevious
    exact (UInt64.le_iff_toNat_le.mp hle).trans (saturatingSucc_toNat_le _)

theorem insertEntries_cons {log log' : ExtTreeMap Nat RaftEntry} {entry : RaftEntry}
    (h : insertEntries log (entry :: entries) = .ok log') :
    insertEntries (log.insert entry.logId.index.toNat entry) entries = .ok log' := by
  unfold insertEntries at h
  obtain ⟨index, hindex, h⟩ := bind_eq_ok_iff.mp h
  obtain ⟨-, -, h⟩ := bind_eq_ok_iff.mp h
  obtain ⟨rfl, -⟩ := sqlIndex_eq_ok_iff.mp hindex
  exact h

/-- What is in the log after the writes was there before or comes from the batch. -/
theorem insertEntries_get {log log' : ExtTreeMap Nat RaftEntry}
    (hinsert : insertEntries log entries = .ok log') {k : Nat} {e : RaftEntry}
    (hget : log'[k]? = some e) : log[k]? = some e ∨ e ∈ entries ∧ e.logId.index.toNat = k := by
  induction entries generalizing log with
  | nil =>
    cases hinsert
    exact .inl hget
  | cons entry entries ih =>
    rcases ih (insertEntries_cons hinsert) with h | ⟨hmem, hk⟩
    · by_cases hk : entry.logId.index.toNat = k
      · subst hk
        rw [ExtTreeMap.getElem?_insert_self] at h
        cases h
        exact .inr ⟨List.mem_cons_self, rfl⟩
      · rw [getElem?_insert_of_ne entry hk] at h
        exact .inl h
    · exact .inr ⟨List.mem_cons_of_mem _ hmem, hk⟩

theorem checkAppend_above {purged previous : Option LogId}
    (h : checkAppend purged previous entries = .ok ())
    {p : LogId} (hp : purged = some p) : ∀ e ∈ entries, p.index < e.logId.index := by
  induction entries generalizing previous with
  | nil => simp
  | cons entry entries ih =>
    obtain ⟨habove, -, hrest⟩ := checkAppend_cons h
    intro e he
    rcases List.mem_cons.mp he with rfl | he
    · exact habove p hp
    · exact ih hrest e he

theorem append_eq_ok {store store' : BudgetRaftStore} (h : store.append entries = .ok store') :
    checkAppend store.purged store.lastLogId entries = .ok () ∧
    ∃ log, insertEntries store.log entries = .ok log ∧ store' = { store with log := log } := by
  unfold append at h
  obtain ⟨_, hcheck, h⟩ := bind_eq_ok_iff.mp h
  obtain ⟨log, hinsert, h⟩ := bind_eq_ok_iff.mp h
  cases h
  exact ⟨hcheck, log, hinsert, rfl⟩

end BudgetRaftStore

/-! ## The applied state -/

section Hashing
variable [Sha256]

/-- What `state` accepts when it reads a triple back. -/
structure Readable (state : RaftState) : Prop where
  ledger_valid : state.ledger.validate = .ok ()
  membership_valid : validateMembership state.ledger.config state.lastApplied state.membership =
    .ok ()

theorem validateLedger_eq_ok_iff {message : String} {ledger : BudgetLedger} {u : Unit} :
    validateLedger message ledger = .ok u ↔ ledger.validate = .ok () := by
  unfold validateLedger
  split <;> simp_all

namespace BudgetRaftStore

variable {store : BudgetRaftStore} {state : RaftState}

theorem readState_eq_ok_iff : store.readState = .ok state ↔
    Readable store.state ∧ state = store.state := by
  unfold readState
  simp only [bind_eq_ok_iff, validateLedger_eq_ok_iff]
  constructor
  · rintro ⟨_, hledger, _, hmembership, h⟩
    cases h
    exact ⟨⟨hledger, hmembership⟩, rfl⟩
  · rintro ⟨⟨hledger, hmembership⟩, rfl⟩
    exact ⟨(), hledger, (), hmembership, rfl⟩

variable {store' : BudgetRaftStore}

omit [Sha256] in
theorem saveState_eq_ok_iff :
    store.saveState state = .ok store' ↔
      validateMembership state.ledger.config state.lastApplied state.membership = .ok () ∧
      store' = { store with state := state } := by
  unfold saveState
  simp only [bind_eq_ok_iff]
  constructor
  · rintro ⟨_, hmembership, h⟩
    cases h
    exact ⟨hmembership, rfl⟩
  · rintro ⟨hmembership, rfl⟩
    exact ⟨(), hmembership, rfl⟩

theorem truncate_eq_ok {logId : LogId} (h : store.truncate logId = .ok store') :
    (∀ last, store.state.lastApplied = some last → last.index < logId.index) ∧
    store' = { store with log := store.log.filter fun i _ => i < logId.index.toNat } := by
  unfold truncate at h
  obtain ⟨state, hread, h⟩ := bind_eq_ok_iff.mp h
  obtain ⟨_, happlied, h⟩ := bind_eq_ok_iff.mp h
  obtain ⟨index, hindex, h⟩ := bind_eq_ok_iff.mp h
  obtain ⟨-, rfl⟩ := readState_eq_ok_iff.mp hread
  obtain ⟨rfl, -⟩ := sqlIndex_eq_ok_iff.mp hindex
  cases h
  refine ⟨?_, rfl⟩
  intro last hlast
  simpa [hlast, UInt64.not_le] using happlied

theorem purge_eq_ok {logId : LogId} (h : store.purge logId = .ok store') :
    (∃ last, store.state.lastApplied = some last ∧ logId.index ≤ last.index) ∧
    store' = { store with
      purged := some logId, log := store.log.filter fun i _ => logId.index.toNat < i } := by
  unfold purge at h
  obtain ⟨state, hread, h⟩ := bind_eq_ok_iff.mp h
  obtain ⟨_, happlied, h⟩ := bind_eq_ok_iff.mp h
  obtain ⟨-, -, h⟩ := bind_eq_ok_iff.mp h
  obtain ⟨index, hindex, h⟩ := bind_eq_ok_iff.mp h
  obtain ⟨-, rfl⟩ := readState_eq_ok_iff.mp hread
  obtain ⟨rfl, -⟩ := sqlIndex_eq_ok_iff.mp hindex
  cases h
  refine ⟨?_, rfl⟩
  simpa [Option.any_eq_true] using happlied

/-- Each entry's leader is at least that of the one applied before it. -/
def leadersGrow : Option LogId → List RaftEntry → Bool
  | _, [] => true
  | lastApplied, entry :: entries =>
    (lastApplied.all fun last => last.leaderId.le entry.logId.leaderId) &&
      leadersGrow (some entry.logId) entries

theorem applyEntry_lastApplied (state : RaftState) (entry : RaftEntry) :
    (applyEntry state entry).1.lastApplied = some entry.logId := by
  unfold applyEntry
  split <;> rfl

variable {entries : List RaftEntry} {result : RaftState × List BudgetReply}

theorem applyEntries_cons {entry : RaftEntry}
    (h : applyEntries state (entry :: entries) = .ok result) :
    isNext state.lastApplied entry = true ∧ ∃ rest,
      applyEntries (applyEntry state entry).1 entries = .ok rest ∧
      result = (rest.1, (applyEntry state entry).2 :: rest.2) := by
  unfold applyEntries at h
  obtain ⟨_, hnext, h⟩ := bind_eq_ok_iff.mp h
  obtain ⟨rest, hrest, h⟩ := bind_eq_ok_iff.mp h
  cases h
  exact ⟨require_eq_ok_iff.mp hnext, rest, hrest, rfl⟩

/-- Applying a batch never moves the applied entry back. -/
theorem applyEntries_lastApplied (h : applyEntries state entries = .ok result)
    (hleaders : leadersGrow state.lastApplied entries = true) {last : LogId}
    (hlast : state.lastApplied = some last) :
    ∃ last', result.1.lastApplied = some last' ∧ last.AtMost last' := by
  induction entries generalizing state result last with
  | nil =>
    cases h
    exact ⟨last, hlast, .refl last⟩
  | cons entry entries ih =>
    obtain ⟨hnext, rest, hrest, rfl⟩ := applyEntries_cons h
    simp only [leadersGrow, hlast, Option.all_some, Bool.and_eq_true] at hleaders
    have hentry : last.AtMost entry.logId := by
      refine ⟨hleaders.1, ?_⟩
      have heq : entry.logId.index = saturatingSucc last.index := by
        simpa [isNext, hlast] using hnext
      rw [heq]
      exact le_saturatingSucc _
    have happlied := applyEntry_lastApplied state entry
    obtain ⟨last', hlast', hle⟩ := ih hrest (by rw [happlied]; exact hleaders.2) happlied
    exact ⟨last', hlast', hentry.trans hle⟩

theorem apply_eq_ok {replies : List BudgetReply} (h : store.apply entries = .ok (store', replies)) :
    ∃ state, Readable store.state ∧ applyEntries store.state entries = .ok (state, replies) ∧
      Readable state ∧ store' = { store with state := state } := by
  unfold apply at h
  obtain ⟨state, hread, h⟩ := bind_eq_ok_iff.mp h
  obtain ⟨applied, happlied, h⟩ := bind_eq_ok_iff.mp h
  obtain ⟨_, hvalid, h⟩ := bind_eq_ok_iff.mp h
  obtain ⟨saved, hsaved, h⟩ := bind_eq_ok_iff.mp h
  obtain ⟨hreadable, rfl⟩ := readState_eq_ok_iff.mp hread
  obtain ⟨hmembership, rfl⟩ := saveState_eq_ok_iff.mp hsaved
  cases h
  exact ⟨applied.1, hreadable, happlied, ⟨validateLedger_eq_ok_iff.mp hvalid, hmembership⟩, rfl⟩

/-! ## Snapshots -/

variable [SnapshotCodec]

variable {metadata : SnapshotMeta} {bytes : List UInt8}

theorem installSnapshot_eq_ok (h : store.installSnapshot metadata bytes = .ok store') :
    ∃ received, SnapshotCodec.fromJson bytes = some received ∧
      bytes.length ≤ maxBudgetSnapshotBytes ∧
      received.lastApplied = metadata.lastLogId ∧ received.membership = metadata.lastMembership ∧
      Readable received ∧ Readable store.state ∧
      received.ledger.config = store.state.ledger.config ∧
      store' = { store with state := received, snapshot := some (metadata, bytes) } := by
  unfold installSnapshot at h
  obtain ⟨_, hbound, h⟩ := bind_eq_ok_iff.mp h
  cases hdecode : SnapshotCodec.fromJson bytes with
  | none =>
    rw [hdecode] at h
    cases h
  | some received =>
    rw [hdecode] at h
    obtain ⟨_, hmeta, h⟩ := bind_eq_ok_iff.mp h
    obtain ⟨_, hvalid, h⟩ := bind_eq_ok_iff.mp h
    obtain ⟨_, hmembership, h⟩ := bind_eq_ok_iff.mp h
    obtain ⟨current, hread, h⟩ := bind_eq_ok_iff.mp h
    obtain ⟨_, hconfig, h⟩ := bind_eq_ok_iff.mp h
    obtain ⟨saved, hsaved, h⟩ := bind_eq_ok_iff.mp h
    obtain ⟨hreadable, rfl⟩ := readState_eq_ok_iff.mp hread
    obtain ⟨-, rfl⟩ := saveState_eq_ok_iff.mp hsaved
    cases h
    simp only [require_eq_ok_iff, Bool.and_eq_true, decide_eq_true_eq] at hmeta hconfig hbound
    exact ⟨received, rfl, hbound, hmeta.1, hmeta.2,
      ⟨validateLedger_eq_ok_iff.mp hvalid, hmembership⟩, hreadable, hconfig, rfl⟩

theorem buildSnapshot_eq_ok (h : store.buildSnapshot = .ok (store', metadata, bytes)) :
    Readable store.state ∧ bytes = SnapshotCodec.toJson store.state ∧
      bytes.length ≤ maxBudgetSnapshotBytes ∧ metadata = snapshotMeta store.state ∧
      store' = { store with snapshot := some (metadata, bytes) } := by
  unfold buildSnapshot at h
  obtain ⟨state, hread, h⟩ := bind_eq_ok_iff.mp h
  obtain ⟨_, hbound, h⟩ := bind_eq_ok_iff.mp h
  obtain ⟨hreadable, rfl⟩ := readState_eq_ok_iff.mp hread
  cases h
  simp only [require_eq_ok_iff, decide_eq_true_eq] at hbound
  exact ⟨hreadable, rfl, hbound, rfl, rfl⟩

end BudgetRaftStore

/-! ## Steps -/

variable [SnapshotCodec]

/-- Every outcome of an operation. -/
inductive StoreStep (store : BudgetRaftStore) : StoreOp → BudgetRaftStore → Prop
  | failed {op} : StoreStep store op store
  | appended {entries log}
      (hcheck : BudgetRaftStore.checkAppend store.purged store.lastLogId entries = .ok ())
      (hinsert : BudgetRaftStore.insertEntries store.log entries = .ok log) :
      StoreStep store (.append entries) { store with log := log }
  | truncated {logId}
      (happlied : ∀ last, store.state.lastApplied = some last → last.index < logId.index) :
      StoreStep store (.truncate logId)
        { store with log := store.log.filter fun i _ => i < logId.index.toNat }
  | purged {logId last} (happlied : store.state.lastApplied = some last)
      (hle : logId.index ≤ last.index) :
      StoreStep store (.purge logId) { store with
        purged := some logId, log := store.log.filter fun i _ => logId.index.toNat < i }
  | applied {entries state replies} (hread : Readable store.state)
      (hentries : BudgetRaftStore.applyEntries store.state entries = .ok (state, replies))
      (hreadable : Readable state) :
      StoreStep store (.apply entries) { store with state := state }
  | installed {metadata bytes received}
      (hdecode : SnapshotCodec.fromJson bytes = some received)
      (hbound : bytes.length ≤ maxBudgetSnapshotBytes)
      (hlast : received.lastApplied = metadata.lastLogId)
      (hmembership : received.membership = metadata.lastMembership) (hreadable : Readable received)
      (hread : Readable store.state)
      (hconfig : received.ledger.config = store.state.ledger.config) :
      StoreStep store (.installSnapshot metadata bytes)
        { store with state := received, snapshot := some (metadata, bytes) }
  | built (hread : Readable store.state)
      (hbound : (SnapshotCodec.toJson store.state).length ≤ maxBudgetSnapshotBytes) :
      StoreStep store .buildSnapshot { store with
        snapshot :=
          some (BudgetRaftStore.snapshotMeta store.state, SnapshotCodec.toJson store.state) }

open BudgetRaftStore in
theorem body_step {store store' : BudgetRaftStore} {op : StoreOp} {reply : StoreReply}
    (h : op.body store = .ok (store', reply)) : StoreStep store op store' := by
  cases op with
  | append entries =>
    obtain ⟨_, happend, h⟩ := map_eq_ok h
    cases h
    obtain ⟨hcheck, log, hinsert, rfl⟩ := append_eq_ok happend
    exact .appended hcheck hinsert
  | truncate logId =>
    obtain ⟨_, htruncate, h⟩ := map_eq_ok h
    cases h
    obtain ⟨happlied, rfl⟩ := truncate_eq_ok htruncate
    exact .truncated happlied
  | purge logId =>
    obtain ⟨_, hpurge, h⟩ := map_eq_ok h
    cases h
    obtain ⟨⟨last, happlied, hle⟩, rfl⟩ := purge_eq_ok hpurge
    exact .purged happlied hle
  | apply entries =>
    obtain ⟨_, happly, h⟩ := map_eq_ok h
    cases h
    obtain ⟨state, hread, hentries, hreadable, heq⟩ := apply_eq_ok happly
    rw [heq]
    exact .applied hread hentries hreadable
  | installSnapshot metadata bytes =>
    obtain ⟨_, hinstall, h⟩ := map_eq_ok h
    cases h
    obtain ⟨received, hdecode, hbound, hlast, hmembership, hreadable, hread, hconfig, rfl⟩ :=
      installSnapshot_eq_ok hinstall
    exact .installed hdecode hbound hlast hmembership hreadable hread hconfig
  | buildSnapshot =>
    obtain ⟨_, hbuild, h⟩ := map_eq_ok h
    cases h
    obtain ⟨hread, hbytes, hbound, hmeta, heq⟩ := buildSnapshot_eq_ok hbuild
    rw [heq, hmeta, hbytes]
    exact .built hread (hbytes ▸ hbound)

theorem step_storeStep (store : BudgetRaftStore) (op : StoreOp) :
    StoreStep store op (store.step op).1 := by
  cases h : (store.step op).2 with
  | error e =>
    have hsame : (store.step op).1 = store := eq_self_of_transact_error h
    rw [hsame]
    exact .failed
  | ok reply => exact body_step (eq_ok_of_transact h)

end Hashing

end Neoth.BudgetRaft
