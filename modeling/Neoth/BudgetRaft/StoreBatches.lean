import Neoth.BudgetRaft.StoreLog

/-!
# Budget Raft store: batching

Voters apply the same entries cut into batches differently.  `apply` checks every
index but validates the ledger and the membership only of the state it is about
to save:

* `apply_eq_ok_iff`: when a batch is accepted, and what it leaves;
* `batching_is_transparent`: if the entries are accepted one per call, every way
  of cutting them into batches leads to the same state and the same replies, and
  a refused batch leaves nothing behind.
-/

open Std Lib.Machine Lib.Transaction

namespace Neoth.BudgetRaft

variable [Sha256]

/-! ## The frozen configuration -/

theorem apply_config_eq (ledger : BudgetLedger) (position : CommittedLogPosition)
    (command : BudgetCommand) : (ledger.apply position command).1.config = ledger.config := by
  cases hvalid : ledger.validate with
  | ok u => exact (apply_step hvalid position command).config_eq
  | error reason =>
    unfold BudgetLedger.apply
    rw [hvalid]

theorem applyEntry_config_eq (state : RaftState) (entry : RaftEntry) :
    (BudgetRaftStore.applyEntry state entry).1.ledger.config = state.ledger.config := by
  unfold BudgetRaftStore.applyEntry
  split
  · rfl
  · exact apply_config_eq _ _ _
  · rfl

theorem run_applyEntry_config_eq (state : RaftState) (entries : List RaftEntry) :
    (run BudgetRaftStore.applyEntry state entries).1.ledger.config = state.ledger.config :=
  run_invariant (P := fun s => s.ledger.config = state.ledger.config)
    (fun s entry h => (applyEntry_config_eq s entry).trans h) state rfl entries

namespace BudgetRaftStore

/-! ## One batch -/

/-- The indices of the batch follow each other from the applied entry on. -/
def consecutive : Option LogId → List RaftEntry → Bool
  | _, [] => true
  | lastApplied, entry :: entries =>
    isNext lastApplied entry && consecutive (some entry.logId) entries

variable {entries : List RaftEntry}

/-- The loop of `apply` fails on a gap only, and otherwise is a run of `applyEntry`. -/
theorem applyEntries_eq_ok_iff {state : RaftState} {result : RaftState × List BudgetReply} :
    applyEntries state entries = .ok result ↔
      consecutive state.lastApplied entries = true ∧ result = run applyEntry state entries := by
  induction entries generalizing state result with
  | nil => simp [applyEntries, consecutive, eq_comm]
  | cons entry entries ih =>
    have hlast := applyEntry_lastApplied state entry
    simp only [consecutive, Bool.and_eq_true, run_cons]
    constructor
    · intro h
      obtain ⟨hnext, rest, hrest, rfl⟩ := applyEntries_cons h
      obtain ⟨hconsecutive, rfl⟩ := ih.mp hrest
      exact ⟨⟨hnext, hlast ▸ hconsecutive⟩, rfl⟩
    · rintro ⟨⟨hnext, hconsecutive⟩, rfl⟩
      unfold applyEntries
      refine bind_eq_ok_iff.mpr ⟨(), require_eq_ok_iff.mpr hnext, ?_⟩
      refine bind_eq_ok_iff.mpr ⟨_, ih.mpr ⟨hlast ▸ hconsecutive, rfl⟩, rfl⟩

variable {store store' : BudgetRaftStore} {replies : List BudgetReply}

/-- A batch is accepted exactly when the stored state reads back, the indices follow
each other, and the state it leads to would read back. -/
theorem apply_eq_ok_iff :
    store.apply entries = .ok (store', replies) ↔
      Readable store.state ∧ consecutive store.state.lastApplied entries = true ∧
      Readable (run applyEntry store.state entries).1 ∧
      store' = { store with state := (run applyEntry store.state entries).1 } ∧
      replies = (run applyEntry store.state entries).2 := by
  constructor
  · intro h
    obtain ⟨state, hread, hentries, hreadable, rfl⟩ := apply_eq_ok h
    obtain ⟨hconsecutive, hrun⟩ := applyEntries_eq_ok_iff.mp hentries
    rw [← hrun]
    exact ⟨hread, hconsecutive, hreadable, rfl, rfl⟩
  · rintro ⟨hread, hconsecutive, hreadable, rfl, rfl⟩
    unfold apply
    refine bind_eq_ok_iff.mpr ⟨_, readState_eq_ok_iff.mpr ⟨hread, rfl⟩, ?_⟩
    refine bind_eq_ok_iff.mpr ⟨_, applyEntries_eq_ok_iff.mpr ⟨hconsecutive, rfl⟩, ?_⟩
    refine bind_eq_ok_iff.mpr ⟨(), validateLedger_eq_ok_iff.mpr hreadable.ledger_valid, ?_⟩
    exact bind_eq_ok_iff.mpr
      ⟨_, saveState_eq_ok_iff.mpr ⟨hreadable.membership_valid, rfl⟩, rfl⟩

theorem consecutive_append (state : RaftState) (entries rest : List RaftEntry) :
    consecutive state.lastApplied (entries ++ rest) =
      (consecutive state.lastApplied entries &&
        consecutive (run applyEntry state entries).1.lastApplied rest) := by
  induction entries generalizing state with
  | nil => rfl
  | cons entry entries ih =>
    have hstep := ih (applyEntry state entry).1
    rw [applyEntry_lastApplied] at hstep
    simp only [List.cons_append, consecutive, run_cons, hstep, Bool.and_assoc]

/-! ## Several batches -/

/-- One call of `apply` after the other, with the replies of all. -/
def applyBatches (store : BudgetRaftStore) :
    List (List RaftEntry) → Except StoreError (BudgetRaftStore × List BudgetReply)
  | [] => .ok (store, [])
  | batch :: batches => do
    let first ← store.apply batch
    let rest ← first.1.applyBatches batches
    .ok (rest.1, first.2 ++ rest.2)

variable {batches : List (List RaftEntry)}

theorem applyBatches_cons_eq_ok_iff {batch : List RaftEntry} :
    store.applyBatches (batch :: batches) = .ok (store', replies) ↔
      ∃ mid first rest, store.apply batch = .ok (mid, first) ∧
        mid.applyBatches batches = .ok (store', rest) ∧ replies = first ++ rest := by
  simp only [applyBatches, bind_eq_ok_iff, Prod.exists, Except.ok.injEq, Prod.mk.injEq]
  constructor
  · rintro ⟨mid, first, happly, final, rest, hrest, rfl, rfl⟩
    exact ⟨mid, first, rest, happly, hrest, rfl⟩
  · rintro ⟨mid, first, rest, happly, hrest, rfl⟩
    exact ⟨mid, first, happly, _, rest, hrest, rfl, rfl⟩

theorem applyBatches_append_eq_ok_iff {batches batches' : List (List RaftEntry)} :
    store.applyBatches (batches ++ batches') = .ok (store', replies) ↔
      ∃ mid first rest, store.applyBatches batches = .ok (mid, first) ∧
        mid.applyBatches batches' = .ok (store', rest) ∧ replies = first ++ rest := by
  induction batches generalizing store replies with
  | nil => simp [applyBatches]
  | cons batch batches ih =>
    rw [List.cons_append]
    simp only [applyBatches_cons_eq_ok_iff, ih]
    constructor
    · rintro ⟨mid, first, _, happly, ⟨mid', second, rest, hbatches, hrest, rfl⟩, rfl⟩
      exact ⟨mid', first ++ second, rest, ⟨mid, first, second, happly, hbatches, rfl⟩, hrest, by
        simp⟩
    · rintro ⟨mid', _, rest, ⟨mid, first, second, happly, hbatches, rfl⟩, hrest, rfl⟩
      exact ⟨mid, first, second ++ rest, happly, ⟨mid', second, rest, hbatches, hrest, rfl⟩, by
        simp⟩

theorem readable_of_applyBatches (hread : Readable store.state)
    (h : store.applyBatches batches = .ok (store', replies)) : Readable store'.state := by
  induction batches generalizing store replies with
  | nil =>
    cases h
    exact hread
  | cons batch batches ih =>
    obtain ⟨mid, first, rest, happly, hrest, -⟩ := applyBatches_cons_eq_ok_iff.mp h
    obtain ⟨-, -, hreadable, rfl, -⟩ := apply_eq_ok_iff.mp happly
    exact ih hreadable hrest

/-- Entries accepted one per call are accepted as one batch. -/
theorem apply_of_singles (hread : Readable store.state)
    (h : store.applyBatches (entries.map ([·])) = .ok (store', replies)) :
    store.apply entries = .ok (store', replies) := by
  induction entries generalizing store replies with
  | nil =>
    cases h
    exact apply_eq_ok_iff.mpr ⟨hread, rfl, hread, rfl, rfl⟩
  | cons entry entries ih =>
    rw [List.map_cons] at h
    obtain ⟨mid, first, rest, happly, hrest, rfl⟩ := applyBatches_cons_eq_ok_iff.mp h
    obtain ⟨-, hfirst, hreadable, rfl, rfl⟩ := apply_eq_ok_iff.mp happly
    obtain ⟨-, hconsecutive, hfinal, rfl, rfl⟩ := apply_eq_ok_iff.mp (ih hreadable hrest)
    refine apply_eq_ok_iff.mpr ⟨hread, ?_, hfinal, rfl, rfl⟩
    have hsplit := consecutive_append store.state [entry] entries
    rw [List.singleton_append] at hsplit
    rw [hsplit, hfirst]
    exact hconsecutive

theorem applyBatches_of_singles (hread : Readable store.state)
    (h : store.applyBatches (batches.flatten.map ([·])) = .ok (store', replies)) :
    store.applyBatches batches = .ok (store', replies) := by
  induction batches generalizing store replies with
  | nil => exact h
  | cons batch batches ih =>
    rw [List.flatten_cons, List.map_append] at h
    obtain ⟨mid, first, rest, hbatch, hrest, rfl⟩ := applyBatches_append_eq_ok_iff.mp h
    exact applyBatches_cons_eq_ok_iff.mpr ⟨mid, first, rest, apply_of_singles hread hbatch,
      ih (readable_of_applyBatches hread hbatch) hrest, rfl⟩

/-- Entries that follow each other are accepted one per call as long as every state on the way reads
back. -/
theorem applyBatches_singles (hconsecutive : consecutive store.state.lastApplied entries = true)
    (hread : ∀ n, Readable (run applyEntry store.state (entries.take n)).1) :
    store.applyBatches (entries.map ([·])) =
      .ok ({ store with state := (run applyEntry store.state entries).1 },
        (run applyEntry store.state entries).2) := by
  induction entries generalizing store with
  | nil => rfl
  | cons entry entries ih =>
    rw [consecutive, Bool.and_eq_true] at hconsecutive
    obtain ⟨hnext, hrest⟩ := hconsecutive
    have hfirst :
        store.apply [entry] = .ok ({ store with state := (applyEntry store.state entry).1 },
        [(applyEntry store.state entry).2]) :=
      apply_eq_ok_iff.mpr ⟨hread 0, by rw [consecutive, hnext]; rfl, hread 1, rfl, rfl⟩
    refine applyBatches_cons_eq_ok_iff.mpr ⟨_, _, _, hfirst, ih ?_ fun n => hread (n + 1), rfl⟩
    show consecutive (applyEntry store.state entry).1.lastApplied entries = true
    rw [applyEntry_lastApplied]
    exact hrest

theorem run_applyEntry_valid {state : RaftState} (hvalid : state.ledger.validate = .ok ())
    (entries : List RaftEntry) : (run applyEntry state entries).1.ledger.validate = .ok () := by
  refine run_invariant (P := fun state : RaftState => state.ledger.validate = .ok ()) ?_ _
    hvalid entries
  intro state entry hvalid
  unfold applyEntry
  cases entry.payload with
  | blank => exact hvalid
  | normal command => exact (apply_step hvalid _ command).valid hvalid
  | membership config => exact hvalid

end BudgetRaftStore

/-! ## The guarantee -/

variable [SnapshotCodec]

open BudgetRaftStore in
/-- **Batching.**  Take a persisted state, one that reads back.  If applying the
entries one per call succeeds, then so does applying them in any batches that they
are the concatenation of, with the same store at the end and the same replies.  A
batch that is refused, because an index does not follow the one before it or
because the membership or the ledger it leads to is invalid, leaves the store as it
was. -/
theorem batching_is_transparent (store : BudgetRaftStore) (hread : Readable store.state) :
    (∀ (entries : List RaftEntry) (final : BudgetRaftStore) (replies : List BudgetReply),
      store.applyBatches (entries.map ([·])) = .ok (final, replies) →
      ∀ batches, batches.flatten = entries → store.applyBatches batches = .ok (final, replies)) ∧
    (∀ (batch : List RaftEntry) (e : StoreError),
      (store.step (.apply batch)).2 = .error e → (store.step (.apply batch)).1 = store) ∧
    (∀ batch : List RaftEntry,
      (consecutive store.state.lastApplied batch = false ∨
        ¬ Readable (run applyEntry store.state batch).1) →
      ∃ e, store.step (.apply batch) = (store, .error e)) := by
  refine ⟨?_, fun batch e h => eq_self_of_transact_error h, ?_⟩
  · rintro entries final replies hsingles batches rfl
    exact applyBatches_of_singles hread hsingles
  · intro batch hrefused
    cases happly : store.apply batch with
    | ok result =>
      obtain ⟨-, hconsecutive, hreadable, -, -⟩ := apply_eq_ok_iff.mp happly
      rcases hrefused with hgap | hunreadable
      · rw [hgap] at hconsecutive
        cases hconsecutive
      · exact absurd hreadable hunreadable
    | error e =>
      refine ⟨e, transact_of_error ?_⟩
      show (store.apply batch).map _ = _
      rw [happly]
      rfl

/-! ## A sample batch -/

/-- The entry with which the sample cluster takes up its frozen voters. -/
def sampleMembershipEntry : RaftEntry where
  logId := ⟨⟨1, 1⟩, 1⟩
  payload := .membership
    ⟨[ExtTreeSet.ofList sampleConfig.raftVoters.keys], sampleConfig.raftVoters⟩

/-- The state it leads to. -/
def sampleNextState : RaftState := (run (@BudgetRaftStore.applyEntry Sha256.fips) sampleState
  [sampleMembershipEntry]).1

omit [Sha256] [SnapshotCodec] in
theorem sampleState_readable : @Readable Sha256.fips sampleState :=
  @Readable.mk Sha256.fips _ (@reachable_valid Sha256.fips _ _ sampleLedger_reachable).1
    (by decide +kernel)

omit [Sha256] [SnapshotCodec] in
theorem sampleNextState_readable : @Readable Sha256.fips sampleNextState :=
  @Readable.mk Sha256.fips _ (@reachable_valid Sha256.fips _ _ sampleLedger_reachable).1
    (by decide +kernel)

omit [Sha256] [SnapshotCodec] in
theorem sample_apply : @BudgetRaftStore.apply Sha256.fips [sampleMembershipEntry] sampleStore =
    .ok ({ sampleStore with state := sampleNextState }, [.rejected .invalidConfig]) :=
  (@BudgetRaftStore.apply_eq_ok_iff Sha256.fips _ _ _ _).mpr
    ⟨sampleState_readable, by decide +kernel, sampleNextState_readable, rfl, rfl⟩

/-- The voters taken up, a reservation and a blank. -/
def sampleEntries : List RaftEntry :=
  [sampleMembershipEntry, ⟨⟨⟨1, 1⟩, 2⟩, .normal (.reserve sampleReserve)⟩, blankEntry 3]

omit [Sha256] [SnapshotCodec] in
theorem sampleEntries_readable (n : Nat) :
    @Readable Sha256.fips (run (@BudgetRaftStore.applyEntry Sha256.fips) sampleState
      (sampleEntries.take n)).1 := by
  refine @Readable.mk Sha256.fips _
    (@BudgetRaftStore.run_applyEntry_valid Sha256.fips _
      (@Readable.ledger_valid Sha256.fips _ sampleState_readable) _) ?_
  rw [@run_applyEntry_config_eq Sha256.fips]
  rcases n with - | - | - | n
  · decide +kernel
  · decide +kernel
  · decide +kernel
  · rw [List.take_of_length_le (by simp [sampleEntries])]
    decide +kernel

omit [Sha256] [SnapshotCodec] in
theorem batching_is_transparent_sample :
    ∃ final receipt, @BudgetRaftStore.applyBatches Sha256.fips sampleStore
      [sampleEntries.take 2, [], sampleEntries.drop 2] =
        .ok (final, [.rejected .invalidConfig, .reserved receipt, .rejected .invalidConfig]) := by
  have hvalid := @Readable.ledger_valid Sha256.fips _ sampleState_readable
  have hreserved : @Step Sha256.fips sampleLedger ⟨1, 2⟩ (.reserve sampleReserve) _ _ :=
    @Step.reserved Sha256.fips _ _ _ (by decide +kernel) ExtTreeMap.getElem?_empty
      (by decide +kernel)
  have happly := @apply_of_step Sha256.fips _ _ _ _ _ hvalid hreserved (by simp)
  -- the ledger is a variable while the run is unfolded
  have hreplies : ∀ [Sha256] (state : RaftState) (ledger' : BudgetLedger) (reply : BudgetReply),
      state.ledger.apply ⟨1, 2⟩ (.reserve sampleReserve) = (ledger', reply) →
      (run BudgetRaftStore.applyEntry state sampleEntries).2 =
        [.rejected .invalidConfig, reply, .rejected .invalidConfig] := by
    intro _ state ledger' reply h
    simp only [sampleEntries, run_cons, run_nil, BudgetRaftStore.applyEntry, sampleMembershipEntry,
      blankEntry]
    rw [h]
  have hsingles := @BudgetRaftStore.applyBatches_singles Sha256.fips sampleEntries sampleStore
    (by decide +kernel) sampleEntries_readable
  have hbatches :=
    (@batching_is_transparent Sha256.fips sampleCodec sampleStore sampleState_readable).1
      sampleEntries
    _ _ hsingles [sampleEntries.take 2, [], sampleEntries.drop 2] rfl
  exact ⟨_, _, hbatches.trans (congrArg (fun replies => Except.ok (_, replies))
    (@hreplies Sha256.fips _ _ _ happly))⟩

end Neoth.BudgetRaft
