import Neoth.BudgetRaft.StoreBatches

/-!
# Budget Raft store: snapshots

A voter that is too far behind is sent a snapshot instead of log entries.

* `reachable_storeInvariant`: every store reads back what it holds, under its
  frozen configuration;
* `installSnapshot_of_readable`: what a voter accepts;
* `exists_snapshot_origin`: where the current snapshot comes from;
* `snapshot_restores_state`: installing a snapshot brings another voter to the
  state the snapshot was taken in.

That is the source's state now for `build_snapshot`.  `get_current_snapshot` returns
the last snapshot built or installed, which is older once entries have been
applied since: `current_snapshot_is_older`.
-/

open Std Lib.Encoding Lib.Machine Lib.Transaction

namespace Neoth.BudgetRaft

variable [Sha256]

/-! ## The frozen configuration -/

/-- The persisted state reads back, under the frozen configuration. -/
structure StoreInvariant (config : BudgetClusterConfig) (store : BudgetRaftStore) : Prop where
  readable : Readable store.state
  config_eq : store.state.ledger.config = config

variable [SnapshotCodec]

/-- The stores that runs from a fresh one lead to. -/
def StoreReachable (config : BudgetClusterConfig) (store : BudgetRaftStore) : Prop :=
  ∃ initial start ops, BudgetRaftStore.create initial = .ok start ∧ initial.config = config ∧
    (run BudgetRaftStore.step start ops).1 = store

variable {start : BudgetRaftStore}

omit [SnapshotCodec] in
theorem create_storeInvariant {initial : BudgetLedger}
    (h : BudgetRaftStore.create initial = .ok start) :
    StoreInvariant initial.config start ∧ start.snapshot = none := by
  unfold BudgetRaftStore.create at h
  obtain ⟨_, hvalid, h⟩ := bind_eq_ok_iff.mp h
  cases h
  refine ⟨⟨⟨validateLedger_eq_ok_iff.mp hvalid, ?_⟩, rfl⟩, rfl⟩
  exact if_pos ⟨rfl, rfl, rfl, rfl⟩

variable {config : BudgetClusterConfig} {store : BudgetRaftStore}

theorem StoreStep.storeInvariant {store store' : BudgetRaftStore} {op : StoreOp}
    (h : StoreStep store op store') (hinv : StoreInvariant config store) :
      StoreInvariant config store' := by
  cases h with
  | applied hread hentries hreadable =>
    obtain ⟨-, hrun⟩ := BudgetRaftStore.applyEntries_eq_ok_iff.mp hentries
    have hconfig := run_applyEntry_config_eq store.state
    refine ⟨hreadable, ?_⟩
    rw [← hinv.config_eq, ← hconfig, ← hrun]
  | installed hdecode hbound hlast hmembership hreadable hread hconfig =>
    exact ⟨hreadable, hconfig.trans hinv.config_eq⟩
  | _ => exact ⟨hinv.readable, hinv.config_eq⟩

theorem run_storeInvariant (hinv : StoreInvariant config store) (ops : List StoreOp) :
    StoreInvariant config (run BudgetRaftStore.step store ops).1 :=
  run_invariant (fun store op hinv => (step_storeStep store op).storeInvariant hinv) store hinv ops

theorem reachable_storeInvariant (h : StoreReachable config store) :
    StoreInvariant config store := by
  obtain ⟨initial, start, ops, hcreate, rfl, rfl⟩ := h
  exact run_storeInvariant (create_storeInvariant hcreate).1 ops

/-! ## Equal states answer alike -/

namespace BudgetRaftStore

/-- What `apply` does to the applied state. -/
def applyState (state : RaftState) (entries : List RaftEntry) :
    Except StoreError (RaftState × List BudgetReply) := do
  validateLedger "persisted budget ledger violates recovery invariants" state.ledger
  validateMembership state.ledger.config state.lastApplied state.membership
  let applied ← applyEntries state entries
  validateLedger "committed budget ledger transition violates invariants" applied.1.ledger
  validateMembership applied.1.ledger.config applied.1.lastApplied applied.1.membership
  .ok applied

omit [SnapshotCodec] in
/-- `apply` reads and writes nothing but the applied state. -/
theorem apply_eq_map_applyState (store : BudgetRaftStore) (entries : List RaftEntry) :
    store.apply entries =
      (applyState store.state entries).map fun r => ({ store with state := r.1 }, r.2) := by
  simp only [apply, readState, saveState, applyState, bind, Except.bind]
  cases validateLedger "persisted budget ledger violates recovery invariants"
    store.state.ledger with
  | error e => rfl
  | ok u =>
    cases validateMembership store.state.ledger.config store.state.lastApplied
        store.state.membership with
    | error e => rfl
    | ok u =>
      dsimp only
      cases applyEntries store.state entries with
      | error e => rfl
      | ok applied =>
        dsimp only
        cases validateLedger "committed budget ledger transition violates invariants"
            applied.1.ledger with
        | error e => rfl
        | ok u =>
          dsimp only
          cases validateMembership applied.1.ledger.config applied.1.lastApplied
              applied.1.membership with
          | error e => rfl
          | ok u => rfl

theorem step_apply_congr {store other : BudgetRaftStore} (h : store.state = other.state)
    (entries : List RaftEntry) :
    (store.step (.apply entries)).2 = (other.step (.apply entries)).2 ∧
    (store.step (.apply entries)).1.state = (other.step (.apply entries)).1.state := by
  unfold step transact
  simp only [StoreOp.body, apply_eq_map_applyState, h]
  cases applyState other.state entries with
  | error e => exact ⟨rfl, h⟩
  | ok r => exact ⟨rfl, rfl⟩

/-- The outcomes of applying batches one after the other. -/
def applyOutcomes (store : BudgetRaftStore) (batches : List (List RaftEntry)) :
    List (Except StoreError StoreReply) :=
  (run step store (batches.map .apply)).2

theorem applyOutcomes_congr {store other : BudgetRaftStore} (h : store.state = other.state)
    (batches : List (List RaftEntry)) :
    store.applyOutcomes batches = other.applyOutcomes batches := by
  induction batches generalizing store other with
  | nil => rfl
  | cons batch batches ih =>
    obtain ⟨houtcome, hstate⟩ := step_apply_congr h batch
    have hrest := ih hstate
    simp only [applyOutcomes, List.map_cons, run_cons, houtcome] at hrest ⊢
    rw [hrest]

/-! ## Installing -/

omit [SnapshotCodec] in
theorem readState_of_readable (h : Readable store.state) : store.readState = .ok store.state :=
  readState_eq_ok_iff.mpr ⟨h, rfl⟩

variable {target : BudgetRaftStore} {metadata : SnapshotMeta} {bytes : List UInt8}

/-- A snapshot of a state that reads back is accepted by every store of the same
configuration. -/
theorem installSnapshot_of_readable {received : RaftState}
    (hdecode : SnapshotCodec.fromJson bytes = some received)
    (hbound : bytes.length ≤ maxBudgetSnapshotBytes)
    (hlast : received.lastApplied = metadata.lastLogId)
    (hmembership : received.membership = metadata.lastMembership) (hreadable : Readable received)
    (htarget : Readable target.state)
    (hconfig : received.ledger.config = target.state.ledger.config) :
    target.step (.installSnapshot metadata bytes) =
      ({ target with state := received, snapshot := some (metadata, bytes) }, .ok .done) := by
  have hinstall : target.installSnapshot metadata bytes =
      .ok { target with state := received, snapshot := some (metadata, bytes) } := by
    unfold installSnapshot
    refine bind_eq_ok_iff.mpr ⟨(), require_eq_ok_iff.mpr (decide_eq_true hbound), ?_⟩
    rw [hdecode]
    refine bind_eq_ok_iff.mpr ⟨(), require_eq_ok_iff.mpr (by simp [hlast, hmembership]), ?_⟩
    refine bind_eq_ok_iff.mpr ⟨(), validateLedger_eq_ok_iff.mpr hreadable.ledger_valid, ?_⟩
    refine bind_eq_ok_iff.mpr ⟨(), hreadable.membership_valid, ?_⟩
    refine bind_eq_ok_iff.mpr ⟨_, readState_of_readable htarget, ?_⟩
    refine bind_eq_ok_iff.mpr ⟨(), require_eq_ok_iff.mpr (by simp [hconfig]), ?_⟩
    exact bind_eq_ok_iff.mpr ⟨_, saveState_eq_ok_iff.mpr ⟨hreadable.membership_valid, rfl⟩, rfl⟩
  exact transact_of_ok (by rw [StoreOp.body, hinstall]; rfl)

/-- Bytes that contradict their metadata or the local configuration change nothing. -/
theorem installSnapshot_refuses
 {received : RaftState} (hdecode : SnapshotCodec.fromJson bytes = some received)
    (hdiffers : received.lastApplied ≠ metadata.lastLogId ∨
      received.membership ≠ metadata.lastMembership ∨
      received.ledger.config ≠ target.state.ledger.config) :
    ∃ e, target.step (.installSnapshot metadata bytes) = (target, .error e) := by
  cases hinstall : target.installSnapshot metadata bytes with
  | error e => exact ⟨e, transact_of_error (by rw [StoreOp.body, hinstall]; rfl)⟩
  | ok target' =>
    obtain ⟨received', hdecode', -, hlast, hmembership, -, -, hconfig, -⟩ :=
      installSnapshot_eq_ok hinstall
    rw [hdecode] at hdecode'
    cases hdecode'
    rcases hdiffers with h | h | h
    · exact absurd hlast h
    · exact absurd hmembership h
    · exact absurd hconfig h

theorem buildSnapshot_of_readable (hread : Readable store.state)
    (hbound : (SnapshotCodec.toJson store.state).length ≤ maxBudgetSnapshotBytes) :
    store.step .buildSnapshot =
      ({ store with snapshot := some (snapshotMeta store.state, SnapshotCodec.toJson store.state) },
        .ok (.snapshot (snapshotMeta store.state) (SnapshotCodec.toJson store.state))) := by
  have hbuild : store.buildSnapshot =
      .ok ({ store with
          snapshot := some (snapshotMeta store.state, SnapshotCodec.toJson store.state) },
        snapshotMeta store.state, SnapshotCodec.toJson store.state) := by
    unfold buildSnapshot
    refine bind_eq_ok_iff.mpr ⟨_, readState_of_readable hread, ?_⟩
    exact bind_eq_ok_iff.mpr ⟨(), require_eq_ok_iff.mpr (decide_eq_true hbound), rfl⟩
  exact transact_of_ok (by rw [StoreOp.body, hbuild]; rfl)

theorem getCurrentSnapshot_of_readable {persisted : RaftState}
    (hsnapshot : store.snapshot = some (metadata, bytes))
    (hdecode : SnapshotCodec.fromJson bytes = some persisted)
    (hbound : bytes.length ≤ maxBudgetSnapshotBytes)
    (hlast : persisted.lastApplied = metadata.lastLogId)
    (hmembership : persisted.membership = metadata.lastMembership) (hreadable : Readable persisted)
    (hstore : Readable store.state)
    (hconfig : persisted.ledger.config = store.state.ledger.config) :
    store.getCurrentSnapshot = .ok (some (metadata, bytes)) := by
  unfold getCurrentSnapshot
  rw [hsnapshot]
  refine bind_eq_ok_iff.mpr ⟨(), require_eq_ok_iff.mpr (decide_eq_true hbound), ?_⟩
  rw [hdecode]
  refine bind_eq_ok_iff.mpr ⟨_, readState_of_readable hstore, ?_⟩
  refine bind_eq_ok_iff.mpr ⟨(), validateLedger_eq_ok_iff.mpr hreadable.ledger_valid, ?_⟩
  refine bind_eq_ok_iff.mpr ⟨(), hreadable.membership_valid, ?_⟩
  exact bind_eq_ok_iff.mpr
    ⟨(), require_eq_ok_iff.mpr (by simp [hlast, hmembership, hconfig]), rfl⟩

/-- `get_current_snapshot` returns what is stored, checked but unchanged. -/
theorem snapshot_of_getCurrentSnapshot {snapshot : SnapshotMeta × List UInt8}
    (h : store.getCurrentSnapshot = .ok (some snapshot)) : store.snapshot = some snapshot := by
  unfold getCurrentSnapshot at h
  cases hsnapshot : store.snapshot with
  | none =>
    rw [hsnapshot] at h
    cases h
  | some row =>
    rw [hsnapshot] at h
    obtain ⟨metadata, bytes⟩ := row
    obtain ⟨_, -, h⟩ := bind_eq_ok_iff.mp h
    cases hdecode : SnapshotCodec.fromJson bytes with
    | none =>
      rw [hdecode] at h
      cases h
    | some persisted =>
      rw [hdecode] at h
      iterate 4 obtain ⟨_, -, h⟩ := bind_eq_ok_iff.mp h
      cases h
      rfl

end BudgetRaftStore

/-! ## Where a snapshot comes from -/

/-- The operations that write the current snapshot. -/
def StoreOp.TakesSnapshot : StoreOp → Prop
  | .buildSnapshot => True
  | .installSnapshot _ _ => True
  | _ => False

/-- `bytes` and `metadata` describe `state`. -/
structure SnapshotOf (state : RaftState) (metadata : SnapshotMeta) (bytes : List UInt8) : Prop where
  last_eq : metadata.lastLogId = state.lastApplied
  membership_eq : metadata.lastMembership = state.membership
  bound : bytes.length ≤ maxBudgetSnapshotBytes
  encodes : bytes = SnapshotCodec.toJson state ∨ SnapshotCodec.fromJson bytes = some state

variable {metadata : SnapshotMeta} {bytes : List UInt8}

theorem StoreStep.snapshot {store store' : BudgetRaftStore} {op : StoreOp}
    (h : StoreStep store op store') (hsnapshot : store'.snapshot = some (metadata, bytes)) :
    store.snapshot = some (metadata, bytes) ∨
      op.TakesSnapshot ∧ SnapshotOf store'.state metadata bytes := by
  cases h with
  | installed hdecode hbound hlast hmembership hreadable hread hconfig =>
    cases hsnapshot
    exact .inr ⟨trivial, hlast.symm, hmembership.symm, hbound, .inr hdecode⟩
  | built hread hbound =>
    cases hsnapshot
    exact .inr ⟨trivial, rfl, rfl, hbound, .inl rfl⟩
  | _ => exact .inl hsnapshot

/-- The current snapshot was taken by some operation of the run, of the state then. -/
theorem exists_snapshot_origin (hstart : start.snapshot = none) (ops : List StoreOp)
    (h : (run BudgetRaftStore.step start ops).1.snapshot = some (metadata, bytes)) :
    ∃ before op after, ops = before ++ op :: after ∧ op.TakesSnapshot ∧
      (run BudgetRaftStore.step start (before ++ [op])).1.snapshot = some (metadata, bytes) ∧
      SnapshotOf (run BudgetRaftStore.step start (before ++ [op])).1.state metadata bytes := by
  induction ops using List.reverseRecOn with
  | nil =>
    rw [run_nil, hstart] at h
    cases h
  | append_singleton ops op ih =>
    have hlast : (run BudgetRaftStore.step start (ops ++ [op])).1 =
        ((run BudgetRaftStore.step start ops).1.step op).1 := by
      rw [run_append]
      rfl
    have hsnapshot := h
    rw [hlast] at hsnapshot
    rcases (step_storeStep _ op).snapshot hsnapshot with hold | ⟨htakes, hof⟩
    · obtain ⟨before, op', after, rfl, hop', hmid, hof⟩ := ih hold
      exact ⟨before, op', after ++ [op], by simp, hop', hmid, hof⟩
    · exact ⟨ops, op, [], rfl, htakes, h, hlast ▸ hof⟩

/-! ## The guarantee -/

omit [Sha256] in
theorem SnapshotOf.decodes {state : RaftState} (h : SnapshotOf state metadata bytes)
    (hround : SnapshotCodec.fromJson (SnapshotCodec.toJson state) = some state) :
    SnapshotCodec.fromJson bytes = some state := by
  rcases h.encodes with rfl | hdecode
  · exact hround
  · exact hdecode

variable {target : BudgetRaftStore}

/-- Installing a snapshot of a state brings the target to that state, for good. -/
theorem install_of_snapshotOf {source target : BudgetRaftStore}
    (hsource : StoreInvariant config source)
    (htarget : StoreInvariant config target) (h : SnapshotOf source.state metadata bytes)
    (hround : SnapshotCodec.fromJson (SnapshotCodec.toJson source.state) = some source.state) :
    (target.step (.installSnapshot metadata bytes)).2 = .ok .done ∧
    (target.step (.installSnapshot metadata bytes)).1.state = source.state ∧
    ∀ batches, (target.step (.installSnapshot metadata bytes)).1.applyOutcomes batches =
      source.applyOutcomes batches := by
  have hstep := BudgetRaftStore.installSnapshot_of_readable (h.decodes hround) h.bound
    h.last_eq.symm h.membership_eq.symm hsource.readable htarget.readable
    (hsource.config_eq.trans htarget.config_eq.symm)
  rw [hstep]
  refine ⟨rfl, rfl, fun batches => BudgetRaftStore.applyOutcomes_congr ?_ batches⟩
  rfl

/-- **Snapshots.**  Let `source` be reached by a run from a fresh store, with an
encoding that gives back every state of the run, and `target` any store of the same
configuration.  Installing what `build_snapshot` returns on `source` makes the applied
state of `target` that of `source`; installing what `get_current_snapshot` returns
makes it that of `source` when the snapshot was built or installed.  From then on both
answer every sequence of batches alike.  Bytes that differ from their metadata or from
the local configuration are refused and change nothing. -/
theorem snapshot_restores_state (config : BudgetClusterConfig) (initial : BudgetLedger)
    (start : BudgetRaftStore) (hcreate : BudgetRaftStore.create initial = .ok start)
    (hconfig : initial.config = config) (ops : List StoreOp)
    (hround : ∀ before, before <+: ops →
      SnapshotCodec.fromJson
        (SnapshotCodec.toJson (run BudgetRaftStore.step start before).1.state) =
        some (run BudgetRaftStore.step start before).1.state)
    (target : BudgetRaftStore) (htarget : StoreReachable config target) :
    let source := (run BudgetRaftStore.step start ops).1
    (∀ metadata bytes, (source.step .buildSnapshot).2 = .ok (.snapshot metadata bytes) →
      (target.step (.installSnapshot metadata bytes)).2 = .ok .done ∧
      (target.step (.installSnapshot metadata bytes)).1.state = source.state ∧
      ∀ batches, (target.step (.installSnapshot metadata bytes)).1.applyOutcomes batches =
        source.applyOutcomes batches) ∧
    (∀ metadata bytes, source.getCurrentSnapshot = .ok (some (metadata, bytes)) →
      ∃ before op after, ops = before ++ op :: after ∧ op.TakesSnapshot ∧
        let taken := (run BudgetRaftStore.step start (before ++ [op])).1
        taken.snapshot = some (metadata, bytes) ∧
        (target.step (.installSnapshot metadata bytes)).2 = .ok .done ∧
        (target.step (.installSnapshot metadata bytes)).1.state = taken.state ∧
        ∀ batches, (target.step (.installSnapshot metadata bytes)).1.applyOutcomes batches =
          taken.applyOutcomes batches) ∧
    (∀ metadata bytes received, SnapshotCodec.fromJson bytes = some received →
      (received.lastApplied ≠ metadata.lastLogId ∨ received.membership ≠ metadata.lastMembership ∨
        received.ledger.config ≠ config) →
      ∃ e, target.step (.installSnapshot metadata bytes) = (target, .error e)) := by
  intro source
  subst hconfig
  obtain ⟨hstart, hempty⟩ := create_storeInvariant hcreate
  have hinv := run_storeInvariant hstart
  have htarget := reachable_storeInvariant htarget
  refine ⟨?_, ?_, ?_⟩
  · intro metadata bytes hbuild
    have hbody : StoreOp.buildSnapshot.body source =
        .ok ((source.step .buildSnapshot).1, .snapshot metadata bytes) := eq_ok_of_transact hbuild
    obtain ⟨⟨_, _, _⟩, hbuilt, hreply⟩ := map_eq_ok hbody
    simp only [Prod.mk.injEq, StoreReply.snapshot.injEq] at hreply
    obtain ⟨-, rfl, rfl⟩ := hreply
    obtain ⟨-, hbytes, hbound, hmeta, -⟩ := BudgetRaftStore.buildSnapshot_eq_ok hbuilt
    refine install_of_snapshotOf (hinv ops) htarget ?_ (hround ops (List.prefix_refl ops))
    rw [hmeta]
    exact ⟨rfl, rfl, hbound, .inl hbytes⟩
  · intro metadata bytes hcurrent
    have hsnapshot := BudgetRaftStore.snapshot_of_getCurrentSnapshot hcurrent
    obtain ⟨before, op, after, rfl, htakes, htaken, hof⟩ :=
      exists_snapshot_origin hempty ops hsnapshot
    refine ⟨before, op, after, rfl, htakes, htaken, ?_⟩
    exact install_of_snapshotOf (hinv _) htarget hof (hround _ ⟨after, by simp⟩)
  · intro metadata bytes received hdecode hdiffers
    rw [← htarget.config_eq] at hdiffers
    exact BudgetRaftStore.installSnapshot_refuses hdecode hdiffers

/-! ## Snapshots grow old -/

theorem step_apply {store store' : BudgetRaftStore} {entries : List RaftEntry}
    {replies : List BudgetReply} (h : store.apply entries = .ok (store', replies)) :
    store.step (.apply entries) = (store', .ok (.replies replies)) :=
  transact_of_ok (by rw [StoreOp.body, h]; rfl)

/-- After a snapshot has been built and more entries applied, the current snapshot still
takes another store to the state before those entries. -/
theorem current_snapshot_after_apply {source target : BudgetRaftStore}
    (hsource : StoreInvariant config source) (htarget : StoreInvariant config target)
    (hround : SnapshotCodec.fromJson (SnapshotCodec.toJson source.state) = some source.state)
    (hbound : (SnapshotCodec.toJson source.state).length ≤ maxBudgetSnapshotBytes)
    {entries : List RaftEntry} {replies : List BudgetReply} {next : RaftState}
    (happly : source.apply entries = .ok ({ source with state := next }, replies)) :
    ∃ metadata bytes,
      (run BudgetRaftStore.step source [.buildSnapshot, .apply entries]).2 =
        [.ok (.snapshot metadata bytes), .ok (.replies replies)] ∧
      (run BudgetRaftStore.step source [.buildSnapshot, .apply entries]).1.getCurrentSnapshot =
        .ok (some (metadata, bytes)) ∧
      (run BudgetRaftStore.step source [.buildSnapshot, .apply entries]).1.state = next ∧
      (target.step (.installSnapshot metadata bytes)).2 = .ok .done ∧
      (target.step (.installSnapshot metadata bytes)).1.state = source.state := by
  obtain ⟨hread, hconsecutive, hnext, hstate, hreplies⟩ :=
    BudgetRaftStore.apply_eq_ok_iff.mp happly
  have hnext_eq : next = (run BudgetRaftStore.applyEntry source.state entries).1 :=
    congrArg BudgetRaftStore.state hstate
  have hconfig := run_applyEntry_config_eq source.state entries
  rw [← hnext_eq] at hnext hconfig
  let built : BudgetRaftStore := { source with
    snapshot :=
      some (BudgetRaftStore.snapshotMeta source.state, SnapshotCodec.toJson source.state) }
  have hbuild := BudgetRaftStore.buildSnapshot_of_readable hread hbound
  have hlater : built.apply entries = .ok ({ built with state := next }, replies) := by
    refine BudgetRaftStore.apply_eq_ok_iff.mpr ⟨hread, hconsecutive, ?_, ?_, hreplies⟩
    · exact hnext_eq ▸ hnext
    · rw [hnext_eq]
  have hrun : run BudgetRaftStore.step source [.buildSnapshot, .apply entries] =
      ({ built with state := next }, [.ok (.snapshot (BudgetRaftStore.snapshotMeta source.state)
        (SnapshotCodec.toJson source.state)), .ok (.replies replies)]) := by
    simp only [run_cons, run_nil, hbuild]
    rw [step_apply hlater]
  refine ⟨_, _, congrArg Prod.snd hrun, ?_, by rw [hrun], ?_⟩
  · rw [hrun]
    exact BudgetRaftStore.getCurrentSnapshot_of_readable rfl hround hbound rfl rfl hread hnext
      hconfig.symm
  · have hof : SnapshotOf source.state (BudgetRaftStore.snapshotMeta source.state)
        (SnapshotCodec.toJson source.state) := ⟨rfl, rfl, hbound, .inl rfl⟩
    obtain ⟨hdone, hrestored, -⟩ := install_of_snapshotOf hsource htarget hof hround
    exact ⟨hdone, hrestored⟩

omit [Sha256] [SnapshotCodec] in
theorem sampleStore_invariant : @StoreInvariant Sha256.fips sampleConfig sampleStore :=
  @StoreInvariant.mk Sha256.fips _ _ sampleState_readable rfl

omit [Sha256] [SnapshotCodec] in
theorem sampleJson_bound : sampleJson.length ≤ maxBudgetSnapshotBytes := by
  decide +kernel

omit [Sha256] [SnapshotCodec] in
theorem sampleCodec_fromJson :
    sampleCodec.fromJson (sampleCodec.toJson sampleState) = some sampleState :=
  if_pos rfl

omit [Sha256] [SnapshotCodec] in
/-- The sample store builds a snapshot and applies an entry; another one that installs
its current snapshot is taken back to before the entry. -/
theorem current_snapshot_is_older :
    ∃ metadata bytes,
      @BudgetRaftStore.getCurrentSnapshot Sha256.fips sampleCodec
        (run (@BudgetRaftStore.step Sha256.fips sampleCodec) sampleStore
          [.buildSnapshot, .apply [sampleMembershipEntry]]).1 = .ok (some (metadata, bytes)) ∧
      (@BudgetRaftStore.step Sha256.fips sampleCodec sampleStore
        (.installSnapshot metadata bytes)).2 = .ok .done ∧
      (@BudgetRaftStore.step Sha256.fips sampleCodec sampleStore
        (.installSnapshot metadata bytes)).1.state ≠
        (run (@BudgetRaftStore.step Sha256.fips sampleCodec) sampleStore
          [.buildSnapshot, .apply [sampleMembershipEntry]]).1.state := by
  obtain ⟨metadata, bytes, -, hcurrent, hstate, hdone, hrestored⟩ :=
    @current_snapshot_after_apply Sha256.fips sampleCodec sampleConfig sampleStore sampleStore
      sampleStore_invariant sampleStore_invariant sampleCodec_fromJson sampleJson_bound
      [sampleMembershipEntry] _ _ sample_apply
  refine ⟨metadata, bytes, hcurrent, hdone, ?_⟩
  rw [hrestored, hstate]
  intro hsame
  cases congrArg RaftState.lastApplied hsame

/-- The JSON of the state with the voters taken up. -/
def sampleNextJson : List UInt8 :=
  let logId := utf8 "\x7b\"leader_id\":\x7b\"term\":1,\"node_id\":1\x7d,\"index\":1\x7d"
  let node (id name : Char) : List UInt8 :=
    utf8 "\"" ++ [UInt8.ofNat id.toNat] ++ utf8 "\":\x7b\"addr\":\"frozen:" ++
      List.replicate 64 (UInt8.ofNat name.toNat) ++ utf8 "\"\x7d"
  utf8 "[" ++ logId ++ utf8 ",\x7b\"log_id\":" ++ logId ++
    utf8 ",\"membership\":\x7b\"configs\":[[1,2,3]],\"nodes\":\x7b" ++
    node '1' 'a' ++ utf8 "," ++ node '2' 'b' ++ utf8 "," ++ node '3' 'c' ++ utf8 "\x7d\x7d\x7d," ++
    sampleLedgerJson ++ utf8 "]"

omit [Sha256] [SnapshotCodec] in
theorem sampleNextJson_bound : sampleNextJson.length ≤ maxBudgetSnapshotBytes := by
  decide +kernel

/-- An encoding that is right about both states. -/
@[reducible] def sampleCodecs : SnapshotCodec where
  toJson state := if state.lastApplied = none then sampleJson else sampleNextJson
  fromJson bytes :=
    if bytes = sampleJson then some sampleState
    else if bytes = sampleNextJson then some sampleNextState else none

omit [Sha256] [SnapshotCodec] in
theorem sampleCodecs_toJson : sampleCodecs.toJson sampleNextState = sampleNextJson :=
  if_neg (Option.some_ne_none _)

omit [Sha256] [SnapshotCodec] in
theorem sampleCodecs_fromJson : sampleCodecs.fromJson (sampleCodecs.toJson sampleNextState) =
    some sampleNextState := by
  have hne : sampleNextJson ≠ sampleJson := by decide +kernel
  exact (if_neg hne).trans (if_pos rfl)

omit [Sha256] [SnapshotCodec] in
/-- A store that has applied an entry and built a snapshot hands both on to a fresh one. -/
theorem snapshot_restores_state_sample :
    let source := (run (@BudgetRaftStore.step Sha256.fips sampleCodecs) sampleStore
      [.apply [sampleMembershipEntry], .buildSnapshot]).1
    sampleStore.state.lastApplied ≠ source.state.lastApplied ∧ ∃ metadata bytes,
      (@BudgetRaftStore.step Sha256.fips sampleCodecs source .buildSnapshot).2 =
        .ok (.snapshot metadata bytes) ∧
      (@BudgetRaftStore.step Sha256.fips sampleCodecs sampleStore
        (.installSnapshot metadata bytes)).1.state = source.state := by
  -- the states are variables while the run is unfolded
  have hrestored : ∀ [Sha256] [SnapshotCodec] (store : BudgetRaftStore) (next : RaftState)
      (replies : List BudgetReply), BudgetRaftStore.create sampleLedger = .ok store →
      store.apply [sampleMembershipEntry] = .ok ({ store with state := next }, replies) →
      Readable next →
      SnapshotCodec.fromJson (SnapshotCodec.toJson store.state) = some store.state →
      SnapshotCodec.fromJson (SnapshotCodec.toJson next) = some next →
      (SnapshotCodec.toJson next).length ≤ maxBudgetSnapshotBytes →
      let source := (run BudgetRaftStore.step store
        [.apply [sampleMembershipEntry], .buildSnapshot]).1
      source.state = next ∧ ∃ metadata bytes,
        (source.step .buildSnapshot).2 = .ok (.snapshot metadata bytes) ∧
        (store.step (.installSnapshot metadata bytes)).1.state = source.state := by
    intro _ _ store next replies hcreate happly hread hfirst hnext hbound
    have hstep := step_apply happly
    have hbuild (snapshot : Option (SnapshotMeta × List UInt8)) :=
      @BudgetRaftStore.buildSnapshot_of_readable _ _ { store with state := next, snapshot } hread
        hbound
    have hround : ∀ before, before <+: [.apply [sampleMembershipEntry], .buildSnapshot] →
        SnapshotCodec.fromJson (SnapshotCodec.toJson
          (run BudgetRaftStore.step store before).1.state) =
            some (run BudgetRaftStore.step store before).1.state := by
      intro before hbefore
      rcases List.prefix_cons_iff.mp hbefore with rfl | ⟨later, rfl, hlater⟩
      · exact hfirst
      · rcases List.prefix_cons_iff.mp hlater with rfl | ⟨last, rfl, hlast⟩
        · rw [run_cons, run_nil, hstep]
          exact hnext
        · rw [List.prefix_nil.mp hlast, run_cons, run_cons, run_nil, hstep, hbuild]
          exact hnext
    obtain ⟨hbuilt, -⟩ := snapshot_restores_state _ sampleLedger store hcreate rfl _ hround store
      ⟨sampleLedger, store, [], hcreate, rfl, rfl⟩
    rw [run_cons, run_cons, run_nil, hstep, hbuild] at hbuilt ⊢
    have houtcome := congrArg Prod.snd (hbuild (some (BudgetRaftStore.snapshotMeta next,
      SnapshotCodec.toJson next)))
    exact ⟨rfl, _, _, houtcome, (hbuilt _ _ houtcome).2.1⟩
  obtain ⟨hstate, hinstalled⟩ := @hrestored Sha256.fips sampleCodecs sampleStore sampleNextState _
    create_sampleLedger sample_apply sampleNextState_readable (if_pos rfl) sampleCodecs_fromJson
    (sampleCodecs_toJson ▸ sampleNextJson_bound)
  refine ⟨?_, hinstalled⟩
  rw [hstate]
  exact (Option.some_ne_none _).symm

end Neoth.BudgetRaft
