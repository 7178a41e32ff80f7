import Neoth.BudgetRaft.StoreSteps

/-!
# Budget Raft store: the shape of the log

`LogInvariant` says what a voter needs of its tables after a restart: the retained
indices form one interval, above the purge marker, which is not beyond the
applied entry.

`append` refuses an entry that leaves a hole above the last one, but not one that
leaves a hole below the first: `append_leaves_hole`.  `adjoins` is the missing
check, and `log_invariant_of_run` the invariant of every run whose appends pass it.
-/

open Std Lib.Encoding Lib.TreeMap Lib.Machine Lib.Transaction

namespace Neoth.BudgetRaft

/-! ## Appending -/

/-- No entry of the batch goes more than one below the lowest index retained when it is
written. -/
def adjoins : ExtTreeMap Nat RaftEntry → List RaftEntry → Bool
  | _, [] => true
  | log, entry :: entries =>
    log.keys.head?.all (· ≤ entry.logId.index.toNat + 1) &&
      adjoins (log.insert entry.logId.index.toNat entry) entries

namespace BudgetRaftStore

theorem insertEntries_contiguous {purged previous : Option LogId} {entries : List RaftEntry}
    {log log' : ExtTreeMap Nat RaftEntry} (hlog : (keySet log).OrdConnected)
    (hprevious : ∀ k ∈ log, ∃ prev, previous = some prev ∧ prev.index.toNat ∈ log)
    (hcheck : checkAppend purged previous entries = .ok ()) (hadjoins : adjoins log entries = true)
    (hinsert : insertEntries log entries = .ok log') : (keySet log').OrdConnected := by
  induction entries generalizing log previous with
  | nil =>
    cases hinsert
    exact hlog
  | cons entry entries ih =>
    obtain ⟨-, hnext, hcheck⟩ := checkAppend_cons hcheck
    simp only [adjoins, Bool.and_eq_true, Option.all_eq_true, decide_eq_true_eq,
      ← ExtTreeMap.minKey?_eq_head?_keys] at hadjoins
    refine ih ?_ ?_ hcheck hadjoins.2 (insertEntries_cons hinsert)
    · refine ordConnected_keySet_insert hlog entry hadjoins.1 ?_
      intro k hk
      obtain ⟨prev, hprev, hmem⟩ := hprevious k hk
      exact ⟨_, hmem, hnext prev hprev⟩
    · intro k hk
      exact ⟨entry.logId, rfl, ExtTreeMap.mem_insert_self⟩

end BudgetRaftStore

/-! ## The invariant -/

/-- The shape of the log and its markers. -/
structure LogInvariant (store : BudgetRaftStore) : Prop where
  contiguous : (keySet store.log).OrdConnected
  above_purged : ∀ p, store.purged = some p → ∀ i ∈ store.log, p.index.toNat < i
  purged_applied : ∀ p, store.purged = some p →
    ∃ last, store.state.lastApplied = some last ∧ p.index ≤ last.index
  keyed : ∀ (i : Nat) (entry : RaftEntry), store.log[i]? = some entry → entry.logId.index.toNat = i

/-- The last log id of a non-empty log is the id of one of its entries. -/
theorem LogInvariant.lastLogId_mem {store : BudgetRaftStore} (h : LogInvariant store) :
    ∀ k ∈ store.log, ∃ prev, store.lastLogId = some prev ∧ prev.index.toNat ∈ store.log := by
  intro k hk
  obtain ⟨top, htop⟩ := Option.isSome_iff_exists.mp (ExtTreeMap.isSome_maxKey?_of_mem hk)
  have hmem : top ∈ store.log := ExtTreeMap.maxKey?_mem htop
  obtain ⟨entry, hentry⟩ := exists_getElem?_of_mem hmem
  refine ⟨entry.logId, ?_, ?_⟩
  · simp [BudgetRaftStore.lastLogId, ← ExtTreeMap.maxKey?_eq_getLast?_keys, htop, hentry]
  · rw [h.keyed top entry hentry]
    exact hmem

theorem getElem?_of_getElem?_filter {log : ExtTreeMap Nat RaftEntry} {p : Nat → Bool} {i : Nat}
    {entry : RaftEntry} (h : (log.filter fun i _ => p i)[i]? = some entry) :
    log[i]? = some entry ∧ p i = true := by
  rw [ExtTreeMap.getElem?_filter'] at h
  exact Option.filter_eq_some_iff.mp h

theorem mem_of_mem_filter {log : ExtTreeMap Nat RaftEntry} {p : Nat → Bool} {i : Nat}
    (h : i ∈ log.filter fun i _ => p i) : i ∈ log ∧ p i = true := by
  have hset : i ∈ keySet (log.filter fun i _ => p i) := h
  rw [keySet_filter] at hset
  exact hset

section Hashing
variable [Sha256] [SnapshotCodec]

/-- What is asked of an operation: appends that adjoin the log; and, as Raft promises
for committed entries, applied entries whose leaders do not go back, and installed
snapshots that are not older than what is applied. -/
def StoreOp.Meets (store : BudgetRaftStore) : StoreOp → Prop
  | .append entries => adjoins store.log entries = true
  | .apply entries => BudgetRaftStore.leadersGrow store.state.lastApplied entries = true
  | .installSnapshot metadata _ => ∀ last, store.state.lastApplied = some last →
      ∃ last', metadata.lastLogId = some last' ∧ last.AtMost last'
  | _ => True

theorem StoreStep.lastApplied {store store' : BudgetRaftStore} {op : StoreOp}
    (h : StoreStep store op store') (hmeets : op.Meets store) {last : LogId}
    (hlast : store.state.lastApplied = some last) :
    ∃ last', store'.state.lastApplied = some last' ∧ last.AtMost last' := by
  cases h with
  | applied hread hentries hreadable =>
    exact BudgetRaftStore.applyEntries_lastApplied hentries hmeets hlast
  | installed hdecode hbound hmeta hmembership hreadable hread hconfig =>
    obtain ⟨last', hlast', hle⟩ := hmeets last hlast
    exact ⟨last', hmeta.trans hlast', hle⟩
  | _ => exact ⟨last, hlast, .refl last⟩

theorem StoreStep.logInvariant {store store' : BudgetRaftStore} {op : StoreOp}
    (h : StoreStep store op store') (hmeets : op.Meets store) (hinv : LogInvariant store) :
    LogInvariant store' := by
  obtain ⟨hcontiguous, habove, hpurged, hkeyed⟩ := hinv
  have hpurged' : ∀ p, store.purged = some p →
      ∃ last, store'.state.lastApplied = some last ∧ p.index ≤ last.index := by
    intro p hp
    obtain ⟨last, hlast, hle⟩ := hpurged p hp
    obtain ⟨last', hlast', hatMost⟩ := h.lastApplied hmeets hlast
    exact ⟨last', hlast', UInt64.le_trans hle hatMost.index⟩
  cases h with
  | failed => exact ⟨hcontiguous, habove, hpurged, hkeyed⟩
  | @appended entries log hcheck hinsert =>
    have hlast := LogInvariant.lastLogId_mem ⟨hcontiguous, habove, hpurged, hkeyed⟩
    refine ⟨BudgetRaftStore.insertEntries_contiguous hcontiguous hlast hcheck hmeets hinsert,
      ?_, hpurged, ?_⟩
    · intro p hp i hi
      obtain ⟨entry, hentry⟩ := exists_getElem?_of_mem hi
      rcases BudgetRaftStore.insertEntries_get hinsert hentry with hold | ⟨hmem, rfl⟩
      · exact habove p hp i (mem_of_getElem? hold)
      · exact UInt64.lt_iff_toNat_lt.mp (BudgetRaftStore.checkAppend_above hcheck hp entry hmem)
    · intro i entry hentry
      rcases BudgetRaftStore.insertEntries_get hinsert hentry with hold | ⟨-, hi⟩
      · exact hkeyed i entry hold
      · exact hi
  | truncated happlied =>
    exact ⟨ordConnected_keySet_filter_lt hcontiguous _,
      fun p hp i hi => habove p hp i (mem_of_mem_filter hi).1, hpurged,
      fun i entry hentry => hkeyed i entry (getElem?_of_getElem?_filter hentry).1⟩
  | @purged logId last happlied hle =>
    refine ⟨ordConnected_keySet_filter_gt hcontiguous _, ?_, ?_,
      fun i entry hentry => hkeyed i entry (getElem?_of_getElem?_filter hentry).1⟩
    · rintro p hp i hi
      cases hp
      simpa using (mem_of_mem_filter hi).2
    · rintro p hp
      cases hp
      exact ⟨last, happlied, hle⟩
  | applied hread hentries hreadable => exact ⟨hcontiguous, habove, hpurged', hkeyed⟩
  | installed hdecode hbound hmeta hmembership hreadable hread hconfig =>
    exact ⟨hcontiguous, habove, hpurged', hkeyed⟩
  | built hread hbound => exact ⟨hcontiguous, habove, hpurged, hkeyed⟩

/-- `truncate` keeps every entry up to the applied one. -/
theorem StoreStep.truncate_keeps {store store' : BudgetRaftStore} {logId : LogId}
    (h : StoreStep store (.truncate logId) store') {last : LogId}
    (hlast : store.state.lastApplied = some last) {i : Nat} (hi : i ≤ last.index.toNat) :
    store'.log[i]? = store.log[i]? := by
  cases h with
  | failed => rfl
  | truncated happlied =>
    have hlt := UInt64.lt_iff_toNat_lt.mp (happlied last hlast)
    rw [ExtTreeMap.getElem?_filter']
    cases hget : store.log[i]? with
    | none => rfl
    | some entry => simp [Option.filter, show i < logId.index.toNat by omega]

/-! ## Runs -/

omit [SnapshotCodec] in
theorem create_logInvariant {initial : BudgetLedger} {start : BudgetRaftStore}
    (h : BudgetRaftStore.create initial = .ok start) : LogInvariant start := by
  unfold BudgetRaftStore.create at h
  obtain ⟨_, -, h⟩ := bind_eq_ok_iff.mp h
  cases h
  refine ⟨?_, by simp, by simp, by simp⟩
  rw [keySet_empty]
  exact Set.ordConnected_empty

/-- **The log keeps its shape.**  In every run from a fresh store whose operations
meet the conditions, before and after every operation the log is one interval above
the purge marker, which is not beyond the applied entry; `truncate` removes no
applied entry; the applied log id never decreases; and an operation that fails
changes nothing. -/
theorem log_invariant_of_run (initial : BudgetLedger) (start : BudgetRaftStore)
    (hcreate : BudgetRaftStore.create initial = .ok start) (ops : List StoreOp)
    (hmeets : ∀ before op after, ops = before ++ op :: after →
      op.Meets (run BudgetRaftStore.step start before).1) :
    ∀ before op after, ops = before ++ op :: after →
      let store := (run BudgetRaftStore.step start before).1
      let next := store.step op
      LogInvariant store ∧ LogInvariant next.1 ∧
      (∀ logId last, op = .truncate logId → store.state.lastApplied = some last →
        ∀ i : Nat, i ≤ last.index.toNat → next.1.log[i]? = store.log[i]?) ∧
      (∀ last, store.state.lastApplied = some last →
        ∃ last', next.1.state.lastApplied = some last' ∧ last.AtMost last') ∧
      (∀ e, next.2 = .error e → next.1 = store) := by
  rintro before op after rfl store next
  have hstep : StoreStep store op next.1 := step_storeStep store op
  have hmeet : op.Meets store := hmeets before op after rfl
  have hinv : LogInvariant store := by
    refine run_invariant_of_meets (M := fun store op => StoreOp.Meets store op) ?_ start
      (create_logInvariant hcreate) before ?_
    · intro store op hinv hmeet
      exact (step_storeStep store op).logInvariant hmeet hinv
    · rintro earlier op' rest rfl
      exact hmeets earlier op' (rest ++ op :: after) (by simp)
  refine ⟨hinv, hstep.logInvariant hmeet hinv, ?_, fun last hlast => hstep.lastApplied hmeet hlast,
    fun e he => eq_self_of_transact_error he⟩
  rintro logId last rfl hlast i hi
  exact hstep.truncate_keeps hlast hi

end Hashing

/-! ## Sample runs -/

/-- The applied state of a fresh store of the sample cluster. -/
def sampleState : RaftState := ⟨none, .default, sampleLedger⟩

def sampleStore : BudgetRaftStore := ⟨sampleConfig, none, ∅, sampleState, none⟩

/-- The JSON of its ledger. -/
def sampleLedgerJson : List UInt8 :=
  let voter (name : Char) : List UInt8 :=
    utf8 "\"" ++ List.replicate 64 (UInt8.ofNat name.toNat) ++ utf8 "\":\"transport-" ++
      [UInt8.ofNat name.toNat] ++ utf8 "\""
  utf8 "\x7b\"config\":\x7b\"cluster_id\":\"cluster-a\",\"membership_epoch\":1,\"voters\":\x7b" ++
    voter 'a' ++ utf8 "," ++ voter 'b' ++ utf8 "," ++ voter 'c' ++
    utf8 "\x7d,\"cap_usd_nanos\":1000,\"utc_window\":20000,\"scope_hash\":\"" ++
    utf8 sampleConfig.scopeHash.val ++ utf8 "\"\x7d,\"grants\":\x7b\x7d\x7d"

/-- And of the whole state. -/
def sampleJson : List UInt8 :=
  utf8 "[null,\x7b\"log_id\":null,\"membership\":\x7b\"configs\":[],\"nodes\":\x7b\x7d\x7d\x7d," ++
    sampleLedgerJson ++ utf8 "]"

/-- An encoding that is right about the sample state. -/
@[reducible] def sampleCodec : SnapshotCodec where
  toJson _ := sampleJson
  fromJson bytes := if bytes = sampleJson then some sampleState else none

theorem create_sampleLedger : @BudgetRaftStore.create Sha256.fips sampleLedger =
    .ok sampleStore := by
  have hcreate : ∀ ledger : BudgetLedger, @BudgetLedger.validate Sha256.fips ledger = .ok () →
      @BudgetRaftStore.create Sha256.fips ledger =
        .ok ⟨ledger.config, none, ∅, ⟨none, .default, ledger⟩, none⟩ := by
    intro ledger hvalid
    unfold BudgetRaftStore.create validateLedger
    rw [hvalid]
    rfl
  exact hcreate _ (@reachable_valid Sha256.fips _ _ sampleLedger_reachable).1

def blankEntry (index : UInt64) : RaftEntry := ⟨⟨⟨1, 1⟩, index⟩, .blank⟩

/-- On a fresh store, `append` at 5 and then at 3 both succeed and leave no 4. -/
theorem append_leaves_hole :
    @BudgetRaftStore.create Sha256.fips sampleLedger = .ok sampleStore ∧
    (run (@BudgetRaftStore.step Sha256.fips sampleCodec) sampleStore
      [.append [blankEntry 5], .append [blankEntry 3]]).2 = [.ok .done, .ok .done] ∧
    ¬ (keySet (run (@BudgetRaftStore.step Sha256.fips sampleCodec) sampleStore
      [.append [blankEntry 5], .append [blankEntry 3]]).1.log).OrdConnected := by
  refine ⟨create_sampleLedger, by decide +kernel, ?_⟩
  intro hconnected
  have h3 : 3 ∈ (run (@BudgetRaftStore.step Sha256.fips sampleCodec) sampleStore
      [.append [blankEntry 5], .append [blankEntry 3]]).1.log := by decide +kernel
  have h5 : 5 ∈ (run (@BudgetRaftStore.step Sha256.fips sampleCodec) sampleStore
      [.append [blankEntry 5], .append [blankEntry 3]]).1.log := by decide +kernel
  have h4 : 4 ∉ (run (@BudgetRaftStore.step Sha256.fips sampleCodec) sampleStore
      [.append [blankEntry 5], .append [blankEntry 3]]).1.log := by decide +kernel
  exact h4 (hconnected.out h3 h5 ⟨by decide, by decide⟩)

/-- Appends in order meet the conditions. -/
theorem log_invariant_of_run_sample :
    LogInvariant (@BudgetRaftStore.step Sha256.fips sampleCodec sampleStore
      (.append [blankEntry 5, blankEntry 6])).1 := by
  refine (@log_invariant_of_run Sha256.fips sampleCodec sampleLedger sampleStore create_sampleLedger
    [.append [blankEntry 5, blankEntry 6]] ?_ [] (.append [blankEntry 5, blankEntry 6]) [] rfl).2.1
  intro before op after hops
  obtain ⟨rfl, hcons⟩ : before = [] ∧ [StoreOp.append [blankEntry 5, blankEntry 6]] = op ::
      after := by
    cases before with
    | nil => exact ⟨rfl, hops⟩
    | cons first rest => simp at hops
  cases hcons
  show adjoins sampleStore.log [blankEntry 5, blankEntry 6] = true
  decide +kernel

end Neoth.BudgetRaft
