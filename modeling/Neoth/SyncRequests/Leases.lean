import Neoth.Authority.FailClosed
import Neoth.SyncRequests.Queue

/-!
# The leases of sync requests

A lease is named by timestamps: the generation of the request (`requested_at`) and the attempt
(`last_attempt_at`).  Rows of one peer and auth epoch only move on, to a later attempt, and a
request begins a later generation; the one way round this is a row that has gone when the clock is
behind it.

* `RowMoves`: what every call but a request does to a row;
* `SyncStep`: everything an event can do;
* `Marked`: what holds of the rows of a generation for ever;
* `sync_leases`: leases are unique, and none is used after it is superseded.
-/

open Lib Lib.Transaction

namespace Neoth.SyncRequests

open Neoth.Authority

/-! ## Rows move on -/

/-- Peer, auth epoch and `requested_at`. -/
def SyncRequestRow.generation (row : SyncRequestRow) : String × Nat × Int :=
  (row.peerPk, row.authEpoch, row.requestedAt)

def MeshSyncRequest.generation (request : MeshSyncRequest) : String × Nat × Int :=
  (request.peerPk, request.authEpoch, request.requestedAt)

/-- `last_attempt_at`, where none comes before all others. -/
def SyncRequestRow.attempt (row : SyncRequestRow) : WithBot Int := row.lastAttemptAt

def MeshSyncRequest.attempt (request : MeshSyncRequest) : WithBot Int := request.lastAttemptAt

/-- The row after a call that is not a request. -/
structure RowMoves (row row' : SyncRequestRow) : Prop where
  generation : row'.generation = row.generation
  expiry : row'.expiresAt = row.expiresAt
  attempt : row.attempt ≤ row'.attempt
  sends : row.sendAttempts ≤ row'.sendAttempts
  terminal : row.state.isOpen = false → row'.state.isOpen = false
  inactive : row'.attempt = row.attempt → row.state ≠ .active → row'.state ≠ .active

theorem RowMoves.refl (row : SyncRequestRow) : RowMoves row row :=
  ⟨rfl, rfl, le_rfl, le_rfl, id, fun _ => id⟩

theorem RowMoves.trans {row row' row'' : SyncRequestRow} (h : RowMoves row row')
    (h' : RowMoves row' row'') : RowMoves row row'' := by
  refine ⟨h'.generation.trans h.generation, h'.expiry.trans h.expiry, h.attempt.trans h'.attempt,
    h.sends.trans h'.sends, fun hterminal => h'.terminal (h.terminal hterminal),
    fun hsame hinactive => ?_⟩
  have hmid : row'.attempt = row.attempt := le_antisymm (hsame ▸ h'.attempt) h.attempt
  exact h'.inactive (hsame.trans hmid.symm) (h.inactive hmid hinactive)

variable {row row' : SyncRequestRow}

theorem generation_eq_iff : row'.generation = row.generation ↔
    row'.peerPk = row.peerPk ∧ row'.authEpoch = row.authEpoch ∧
    row'.requestedAt = row.requestedAt := by
  simp [SyncRequestRow.generation]

theorem RowMoves.peer (h : RowMoves row row') : row'.peerPk = row.peerPk :=
  (generation_eq_iff.mp h.generation).1

/-- Every row has moved on from one that was there. -/
def RowsFrom (requests requests' : RequestTable) : Prop :=
  ∀ row' ∈ requests', ∃ row ∈ requests, RowMoves row row'

theorem RowsFrom.refl (requests : RequestTable) : RowsFrom requests requests :=
  fun row hrow => ⟨row, hrow, .refl row⟩

theorem RowsFrom.trans {t u v : RequestTable} (h : RowsFrom t u) (h' : RowsFrom u v) :
    RowsFrom t v := by
  intro row'' hrow''
  obtain ⟨row', hrow', hmoves'⟩ := h' row'' hrow''
  obtain ⟨row, hrow, hmoves⟩ := h row' hrow'
  exact ⟨row, hrow, hmoves.trans hmoves'⟩

theorem RowsFrom.delete (t : RequestTable) (p : SyncRequestRow → Bool) :
    RowsFrom t (t.delete p) := by
  intro row hrow
  exact ⟨row, (Table.mem_delete.mp hrow).1, .refl row⟩

theorem RowsFrom.update {t : RequestTable} {p : SyncRequestRow → Bool}
    {f : SyncRequestRow → SyncRequestRow}
    {hf : ∀ row, (f row).peerPk = row.peerPk} (h : ∀ row, p row = true → RowMoves row (f row)) :
    RowsFrom t (t.update p f hf) := by
  intro row' hrow'
  simp only [Table.mem_update] at hrow'
  obtain ⟨row, hrow, rfl⟩ := hrow'
  refine ⟨row, hrow, ?_⟩
  split
  · rename_i hp
    exact h row hp
  · exact .refl row

/-! ## The fence -/

variable {t : RequestTable} {grant : MembershipGrant}

/-- A row after the activation is one from before, of the generation if it is the peer's, in which
only the membership epoch has changed. -/
theorem mem_activate (h : row' ∈ activateMembershipFence t grant) : ∃ row ∈ t,
      row' = { row with membershipEpoch := row'.membershipEpoch } ∧
      (row.peerPk = grant.stableNodeId → row'.membershipEpoch = grant.membershipEpoch ∧
        row.authEpoch = grant.authEpoch ∧ row.fenceActive = true ∧
        row.stableNodeId = grant.stableNodeId) ∧
      (row.peerPk ≠ grant.stableNodeId → row' = row) := by
  simp only [activateMembershipFence, Table.mem_update, Table.mem_delete] at h
  obtain ⟨row, ⟨hrow, hkept⟩, rfl⟩ := h
  refine ⟨row, hrow, by split <;> rfl, ?_, ?_⟩
  · intro hpeer
    simp only [hpeer, beq_self_eq_true, Bool.true_and, Bool.or_eq_false_iff, Bool.not_eq_false',
      bne_eq_false_iff_eq] at hkept
    obtain ⟨⟨hactive, hstable⟩, hauth⟩ := hkept
    rw [if_pos (by simp [hpeer, hactive, hstable, hauth])]
    exact ⟨rfl, hauth, hactive, hstable⟩
  · intro hpeer
    rw [if_neg (by simp [hpeer])]

theorem RowsFrom.activate (t : RequestTable) (grant : MembershipGrant) :
    RowsFrom t (activateMembershipFence t grant) := by
  intro row' hrow'
  obtain ⟨row, hrow, heq, -⟩ := mem_activate hrow'
  refine ⟨row, hrow, ?_⟩
  rw [heq]
  exact ⟨rfl, rfl, le_rfl, le_rfl, id, fun _ => id⟩

variable {q : SyncQueue} {effect : SyncEffect} {authorityNow : Int} {requests : RequestTable}

theorem validateAndActivate_spec (h : q.validateAndActivate effect authorityNow = .ok requests) :
    q.authority.validateAttached effect.registry effect.lease effect.grant authorityNow = .ok () ∧
      requests = activateMembershipFence q.requests effect.grant := by
  simp only [SyncQueue.validateAndActivate, bind_eq_ok_iff] at h
  obtain ⟨_, hvalid, h⟩ := h
  exact ⟨hvalid, (Except.ok.inj h).symm⟩

/-! ## Claims -/

variable {request : MeshSyncRequest}

theorem mapSyncRequestRow_eq_ok_iff :
    mapSyncRequestRow row = .ok request ↔ (0 < row.authEpoch ∧ 0 < row.membershipEpoch) ∧
    request = row.request := by
  simp only [mapSyncRequestRow, bind_eq_ok_iff, require_eq_ok_iff, decide_eq_true_eq]
  constructor
  · rintro ⟨_, hauth, _, hmember, h⟩
    exact ⟨⟨hauth, hmember⟩, (Except.ok.inj h).symm⟩
  · rintro ⟨⟨hauth, hmember⟩, rfl⟩
    exact ⟨(), hauth, (), hmember, rfl⟩

variable {now : Int}

/-- A claim takes a lease later than every earlier one of the row. -/
theorem claimable_moves {peerPk : String} {now requestedAt at_ : Int}
    (h : SyncQueue.claimable peerPk now at_ row = true) :
    RowMoves row { row with
      state := .active, updatedAt := max now requestedAt,
      lastAttemptAt := some (max now requestedAt)
      lastError := none } ∧ row.attempt < ((max now requestedAt : Int) : WithBot Int) := by
  simp only [SyncQueue.claimable, Bool.and_eq_true, beq_iff_eq, Option.all_eq_true,
    decide_eq_true_eq] at h
  obtain ⟨⟨⟨-, hopen⟩, -⟩, hlast⟩ := h
  have hlater : row.attempt < ((max now requestedAt : Int) : WithBot Int) := by
    cases hattempt : row.lastAttemptAt with
    | none =>
      rw [SyncRequestRow.attempt, hattempt]
      exact WithBot.bot_lt_coe _
    | some last =>
      have hle := hlast last hattempt
      rw [SyncRequestRow.attempt, hattempt]
      refine WithBot.coe_lt_coe.mpr ?_
      simp only [syncRequestRetrySecs] at hle
      omega
  refine ⟨⟨rfl, rfl, hlater.le, le_rfl, fun hterminal => ?_, fun hsame _ => ?_⟩, hlater⟩
  · rw [hopen] at hterminal
    cases hterminal
  · exact absurd hsame hlater.ne'

variable {requests' : RequestTable} {claim : MeshSyncRequest}

theorem claimOne_spec (h : SyncQueue.claimOne requests request now = .ok (requests', claim)) :
    RowsFrom requests requests' ∧ claim.peerPk = request.peerPk ∧
      (∃ row ∈ requests, row.generation = claim.generation ∧ row.attempt < claim.attempt) ∧
      ∃ row' ∈ requests', claim = row'.request := by
  simp only [SyncQueue.claimOne, bind_eq_ok_iff, require_eq_ok_iff, context_eq_ok_iff,
    beq_iff_eq] at h
  obtain ⟨_, hcount, row', hfind, claim', hclaim, h⟩ := h
  cases h
  obtain ⟨hrow', hpeer⟩ := Table.find_eq_some_iff.mp hfind
  have hrows := hrow'
  simp only [Table.mem_update] at hrows
  obtain ⟨row, hrow, rfl⟩ := hrows
  obtain ⟨-, rfl⟩ := mapSyncRequestRow_eq_ok_iff.mp hclaim
  refine ⟨.update fun row hselected => (claimable_moves hselected).1, hpeer, ⟨row, hrow, ?_⟩, _,
    hrow', rfl⟩
  have hselected : SyncQueue.claimable request.peerPk now (max now request.requestedAt) row =
      true := by
    by_contra hnot
    rw [if_neg hnot] at hpeer
    have hzero :
        requests.count (SyncQueue.claimable request.peerPk now (max now request.requestedAt)) =
          0 := by
      refine Table.count_eq_zero_iff.mpr fun other hother => Bool.eq_false_iff.mpr fun hclaimable =>
        ?_
      have hother' : other = row := by
        refine Table.eq_of_key_eq hother hrow ?_
        simp only [SyncQueue.claimable, Bool.and_eq_true, beq_iff_eq] at hclaimable
        rw [hclaimable.1.1.1, hpeer]
      exact hnot (hother' ▸ hclaimable)
    omega
  rw [if_pos hselected]
  exact ⟨rfl, (claimable_moves hselected).2⟩

theorem passOver_spec (h : SyncQueue.passOver requests request now = .ok requests') :
    RowsFrom requests requests' := by
  simp only [SyncQueue.passOver, bind_eq_ok_iff] at h
  obtain ⟨_, -, h⟩ := h
  cases h
  refine .update fun row hselected =>
    ⟨rfl, rfl, le_rfl, le_rfl, fun hterminal => ?_, fun _ _ => by simp⟩
  simp only [SyncQueue.claimable, Bool.and_eq_true] at hselected
  rw [hselected.1.1.1.2] at hterminal
  cases hterminal

/-- The peer's only row is of the claim's generation, and not behind its lease. -/
def Holds (requests : RequestTable) (claim : MeshSyncRequest) : Prop :=
  ∀ row ∈ requests, row.peerPk = claim.peerPk →
  row.generation = claim.generation ∧ claim.attempt ≤ row.attempt

theorem Holds.rowsFrom (h : Holds requests claim) (hfrom : RowsFrom requests requests') :
    Holds requests' claim := by
  intro row' hrow' hpeer
  obtain ⟨row, hrow, hmoves⟩ := hfrom row' hrow'
  obtain ⟨hgeneration, hattempt⟩ := h row hrow (hmoves.peer.symm.trans hpeer)
  exact ⟨hmoves.generation.trans hgeneration, hattempt.trans hmoves.attempt⟩

theorem holds_request (hrow : row ∈ requests) : Holds requests row.request := by
  intro other hother hpeer
  cases Table.eq_of_key_eq hother hrow hpeer
  exact ⟨rfl, le_rfl⟩

variable {due : List MeshSyncRequest}

theorem claimLoop_spec {eligible : List String} {claims claims' : List MeshSyncRequest}
    (h : SyncQueue.claimLoop eligible now due requests claims = .ok (requests', claims')) :
    RowsFrom requests requests' ∧ ∃ new, claims' = claims ++ new ∧
      (new.map (·.peerPk)).Sublist (due.map (·.peerPk)) ∧ ∀ c ∈ new, c.peerPk ∈ eligible ∧
      Holds requests' c ∧
        (∃ row ∈ requests, row.generation = c.generation ∧ row.attempt < c.attempt) := by
  induction due generalizing requests claims with
  | nil =>
    cases h
    exact ⟨.refl _, [], by simp⟩
  | cons request due ih =>
    unfold SyncQueue.claimLoop at h
    split at h
    · cases h
      exact ⟨.refl _, [], by simp⟩
    · split at h
      · simp only [bind_eq_ok_iff] at h
        obtain ⟨mid, hpass, h⟩ := h
        have hfrom := passOver_spec hpass
        obtain ⟨hrest, new, hclaims, hsub, hnew⟩ := ih h
        refine ⟨hfrom.trans hrest, new, hclaims, hsub.cons _, fun c hc => ?_⟩
        obtain ⟨heligible, hholds, row', hrow', hgeneration, hlt⟩ := hnew c hc
        obtain ⟨row, hrow, hmoves⟩ := hfrom row' hrow'
        exact ⟨heligible, hholds, row, hrow, hmoves.generation.symm.trans hgeneration,
          hmoves.attempt.trans_lt hlt⟩
      · rename_i heligible
        simp only [bind_eq_ok_iff] at h
        obtain ⟨⟨mid, claim⟩, hone, h⟩ := h
        obtain ⟨hfrom, hpeer, hlease, row', hrow', rfl⟩ := claimOne_spec hone
        obtain ⟨hrest, new, hclaims, hsub, hnew⟩ := ih h
        refine ⟨hfrom.trans hrest, row'.request :: new, by simp [hclaims], ?_, ?_⟩
        · rw [List.map_cons, List.map_cons, hpeer]
          exact hsub.cons_cons _
        · intro c hc
          rcases List.mem_cons.mp hc with rfl | hc
          · refine ⟨?_, (holds_request hrow').rowsFrom hrest, hlease⟩
            rw [hpeer]
            simpa using heligible
          · obtain ⟨hmem, hholds, other, hother, hgeneration, hlt⟩ := hnew c hc
            obtain ⟨row, hrow, hmoves⟩ := hfrom other hother
            exact ⟨hmem, hholds, row, hrow, hmoves.generation.symm.trans hgeneration,
              hmoves.attempt.trans_lt hlt⟩

/-! ## Requests and progress -/

/-- The row that a request of the grant finds, after activation and retention. -/
def SyncQueue.found (q : SyncQueue) (grant : MembershipGrant) (now : Int) : Option SyncRequestRow :=
  (retainRecent (activateMembershipFence q.requests grant) now).find grant.stableNodeId

/-- What is left of the table for the request to write to. -/
theorem mem_retain
    (h : row' ∈ SyncQueue.retainRecent (activateMembershipFence q.requests grant) now) :
    ∃ row ∈ q.requests, RowMoves row row' ∧
    (row'.peerPk = grant.stableNodeId → row'.authEpoch = grant.authEpoch) := by
  obtain ⟨row, hrow, heq, hpeer, -⟩ := mem_activate (Table.mem_delete.mp h).1
  refine ⟨row, hrow, ?_, fun hp => ?_⟩
  · rw [heq]
    exact ⟨rfl, rfl, le_rfl, le_rfl, id, fun _ => id⟩
  · rw [heq] at hp ⊢
    exact (hpeer hp).2.1

variable {q' : SyncQueue} {receipt : MeshSyncRequest}

theorem requestSync_spec (h : q.requestSync effect now authorityNow = .ok (q', receipt)) :
    q.authority.validateAttached effect.registry effect.lease effect.grant authorityNow = .ok () ∧
    ∃ requestedAt expiresAt,
      receipt = (SyncQueue.requestRow effect.grant requestedAt expiresAt).request ∧
      requestedAt < expiresAt ∧
      q' = { q with
        requests :=
          (SyncQueue.retainRecent (activateMembershipFence q.requests effect.grant) now).put
          (SyncQueue.requestRow effect.grant requestedAt expiresAt) } ∧
      ((q.found effect.grant now = none ∧ requestedAt = now) ∨
        ∃ row, q.found effect.grant now = some row ∧ row.requestedAt < requestedAt) := by
  simp only [SyncQueue.requestSync, bind_eq_ok_iff, context_eq_ok_iff] at h
  obtain ⟨_, -, requests, hactivate, requestedAt, hnext, expiresAt, hexpires, _, -, row, hfind,
      request, hmap, h⟩ := h
  obtain ⟨hvalid, rfl⟩ := validateAndActivate_spec hactivate
  cases h
  obtain ⟨hrow, hpeer⟩ := Table.find_eq_some_iff.mp hfind
  obtain ⟨-, rfl⟩ := mapSyncRequestRow_eq_ok_iff.mp hmap
  rcases Table.mem_put.mp hrow with rfl | ⟨-, hne⟩
  · obtain ⟨rfl, -⟩ := ite_eq_ok_iff.mp hexpires
    refine ⟨hvalid, requestedAt, _, rfl, by simp [syncRequestTtlSecs], rfl, ?_⟩
    unfold SyncQueue.nextGeneration at hnext
    split at hnext
    · rename_i hnone
      exact .inl ⟨hnone, (Except.ok.inj hnext).symm⟩
    · rename_i row hsome
      refine .inr ⟨row, hsome, ?_⟩
      split at hnext
      · rename_i hlt
        exact (Except.ok.inj hnext) ▸ hlt
      · obtain ⟨rfl, -⟩ := ite_eq_ok_iff.mp hnext
        omega
  · exact absurd hpeer hne

theorem mapM_map_request {rows : List SyncRequestRow} {requests : List MeshSyncRequest}
    (h : rows.mapM mapSyncRequestRow = .ok requests) : requests = rows.map SyncRequestRow.request :=
  ((mapM_eq_ok_iff fun _ _ => mapSyncRequestRow_eq_ok_iff).mp h).2

/-- Due requests are of different peers. -/
theorem listDue_nodup (h : SyncQueue.listDueSyncRequests requests now = .ok due) :
    (due.map (·.peerPk)).Nodup := by
  rw [mapM_map_request h, List.map_map]
  have hperm :=
    (List.perm_insertionSort SyncQueue.dueBefore (requests.rows.filter (SyncQueue.isDue now))).map
    SyncRequestRow.peerPk
  exact hperm.nodup_iff.mpr ((List.Sublist.map _ List.filter_sublist).nodup requests.nodup)

theorem RowsFrom.activateAll (t : RequestTable) (effects : List SyncEffect) :
    RowsFrom t (effects.foldl (fun requests effect => activateMembershipFence requests effect.grant)
      t) := by
  induction effects generalizing t with
  | nil => exact .refl t
  | cons effect effects ih => exact (RowsFrom.activate t effect.grant).trans (ih _)

theorem RowsFrom.expireDue (t : RequestTable) (now : Int) :
    RowsFrom t (SyncQueue.expireDue t now) :=
  .update fun _ _ => ⟨rfl, rfl, le_rfl, le_rfl, fun _ => rfl, fun _ _ => by simp⟩

theorem RowsFrom.expireLegacy (t : RequestTable) : RowsFrom t (SyncQueue.expireLegacy t) :=
  .update fun _ _ => ⟨rfl, rfl, le_rfl, le_rfl, fun _ => rfl, fun _ _ => by simp⟩

theorem RowsFrom.beforeClaims (q : SyncQueue) (effects : List SyncEffect) (now : Int) :
    RowsFrom q.requests (q.beforeClaims effects now) :=
  ((RowsFrom.activateAll q.requests effects).trans (.expireLegacy _)).trans (.expireDue _ now)

theorem claimDue_spec {effects : List SyncEffect} {claims : List MeshSyncRequest}
    (h : q.claimDueSyncRequests effects now authorityNow = .ok (q', claims)) :
    q'.authority = q.authority ∧ RowsFrom q.requests q'.requests ∧ (claims.map (·.peerPk)).Nodup ∧
      ∀ c ∈ claims, Holds q'.requests c ∧
        (∃ row ∈ q.requests, row.generation = c.generation ∧ row.attempt < c.attempt) := by
  unfold SyncQueue.claimDueSyncRequests at h
  split at h
  · cases h
    exact ⟨rfl, .refl _, by simp, by simp⟩
  · simp only [bind_eq_ok_iff] at h
    obtain ⟨_, -, _, -, due, hdue, ⟨requests, claimed⟩, hloop, h⟩ := h
    cases h
    have hbefore := RowsFrom.beforeClaims q effects now
    obtain ⟨hfrom, new, hclaims, hsub, hnew⟩ := claimLoop_spec hloop
    rw [List.nil_append] at hclaims
    subst hclaims
    refine ⟨rfl, hbefore.trans hfrom, hsub.nodup (listDue_nodup hdue), fun c hc => ?_⟩
    obtain ⟨-, hholds, row', hrow', hgeneration, hlt⟩ := hnew c hc
    obtain ⟨row, hrow, hmoves⟩ := hbefore row' hrow'
    exact ⟨hholds, row, hrow, hmoves.generation.symm.trans hgeneration, hmoves.attempt.trans_lt hlt⟩

theorem leasedTo_spec {claimedAt at_ : Int}
    (h : SyncQueue.leasedTo claim claimedAt at_ row = true) :
    row.generation = claim.generation ∧ row.state = .active ∧
    row.lastAttemptAt = some claimedAt := by
  simp only [SyncQueue.leasedTo, Bool.and_eq_true, beq_iff_eq] at h
  obtain ⟨⟨⟨⟨⟨⟨⟨⟨hpeer, hrequested⟩, hactive⟩, hlast⟩, -⟩, -⟩, -⟩, hauth⟩, -⟩ := h
  exact ⟨by rw [SyncRequestRow.generation, MeshSyncRequest.generation, hpeer, hrequested, hauth],
    hactive, hlast⟩

variable {changed : Bool}

/-- What an update of the leased row answers. -/
theorem updateLease_spec {peerPk : String} {selects : SyncRequestRow → Bool}
    {f : SyncRequestRow → SyncRequestRow} {hf : ∀ row, (f row).peerPk = row.peerPk}
    (h : q.updateLease requests peerPk selects f hf = .ok (q', changed)) :
    q' = { q with requests := requests.update selects f hf } ∧
      (changed = true → ∃ row ∈ requests, selects row = true) ∧
      (changed = false → q' = { q with requests := requests }) := by
  simp only [SyncQueue.updateLease, bind_eq_ok_iff, require_eq_ok_iff, decide_eq_true_eq] at h
  obtain ⟨_, hle, h⟩ := h
  obtain ⟨rfl, hchanged⟩ := Prod.mk.inj (Except.ok.inj h)
  refine ⟨rfl, ?_, ?_⟩
  · rintro rfl
    rw [beq_iff_eq] at hchanged
    by_contra hnone
    push Not at hnone
    have hzero := Table.count_eq_zero_iff.mpr fun row hrow => Bool.eq_false_iff.mpr (hnone row hrow)
    omega
  · rintro rfl
    rw [beq_eq_false_iff_ne] at hchanged
    rw [Table.update_eq_self (by omega)]

/-- The row of a lease before the activation that comes first. -/
theorem exists_leased {claimedAt at_ : Int} (hrow' : row' ∈ activateMembershipFence t grant)
    (h : SyncQueue.leasedTo claim claimedAt at_ row' = true) :
    ∃ row ∈ t, row.generation = claim.generation ∧ row.state = .active ∧
    row.lastAttemptAt = some claimedAt ∧
      row.sendAttempts = row'.sendAttempts := by
  obtain ⟨row, hrow, heq, -⟩ := mem_activate hrow'
  obtain ⟨hgeneration, hactive, hlast⟩ := leasedTo_spec h
  rw [heq] at hgeneration hactive hlast ⊢
  exact ⟨row, hrow, hgeneration, hactive, hlast, rfl⟩

/-- After an update of the one row of a lease. -/
theorem mem_update_leased {selects : SyncRequestRow → Bool} {f : SyncRequestRow → SyncRequestRow}
    {leased row' : SyncRequestRow} (hleased : leased ∈ t) (hselected : selects leased = true)
    (hpeer : leased.peerPk = claim.peerPk)
    (hrow' : ∃ row ∈ t, row' = if selects row then f row else row)
    (hrowPeer : row'.peerPk = claim.peerPk) (hf : ∀ row, (f row).peerPk = row.peerPk) :
      row' = f leased := by
  obtain ⟨row, hrow, rfl⟩ := hrow'
  have hsame : row.peerPk = claim.peerPk := by
    split at hrowPeer
    · exact (hf row).symm.trans hrowPeer
    · exact hrowPeer
  cases Table.eq_of_key_eq hrow hleased (hsame.trans hpeer.symm)
  rw [if_pos hselected]

theorem markSending_spec
    (h : q.markSyncRequestSending effect claim now authorityNow = .ok (q', changed)) :
    q'.authority = q.authority ∧ RowsFrom q.requests q'.requests ∧ (changed = true →
      (∃ row ∈ q.requests, row.generation = claim.generation ∧ row.state = .active ∧
        row.attempt = claim.attempt ∧
        row.sendAttempts = claim.sendAttempts) ∧
      ∀ row' ∈ q'.requests, row'.peerPk = claim.peerPk →
      claim.sendAttempts < row'.sendAttempts) := by
  simp only [SyncQueue.markSyncRequestSending, SyncQueue.validateActiveSyncClaim, bind_eq_ok_iff,
    context_eq_ok_iff, sqlInteger_eq_ok_iff] at h
  obtain ⟨_, -, _, -, claimedAt, ⟨_, -, _, -, hlast⟩, _, ⟨rfl, -⟩, requests, hactivate, h⟩ := h
  obtain ⟨-, rfl⟩ := validateAndActivate_spec hactivate
  obtain ⟨rfl, hchanged, -⟩ := updateLease_spec h
  refine ⟨rfl, (RowsFrom.activate q.requests effect.grant).trans ?_, ?_⟩
  · refine @RowsFrom.update _ _ _ ?_ ?_
    · exact fun _ => rfl
    · exact fun row _ => ⟨rfl, rfl, le_rfl, Nat.le_succ _, id, fun _ => id⟩
  intro htrue
  obtain ⟨leased, hmem, hselected⟩ := hchanged htrue
  have hboth := hselected
  simp only [Bool.and_eq_true, beq_iff_eq] at hboth
  obtain ⟨hlease, hsends⟩ := hboth
  obtain ⟨row, hrow, hgeneration, hactive, hattempt, hsame⟩ := exists_leased hmem hlease
  refine ⟨⟨row, hrow, hgeneration, hactive, ?_, hsame.trans hsends⟩, fun row' hrow' hpeer => ?_⟩
  · rw [SyncRequestRow.attempt, MeshSyncRequest.attempt, hattempt, hlast]
  · have hleasedPeer : leased.peerPk = claim.peerPk := congrArg Prod.fst (leasedTo_spec hlease).1
    simp only [Table.mem_update] at hrow'
    rw [mem_update_leased hmem hselected hleasedPeer hrow' hpeer fun _ => rfl]
    change claim.sendAttempts < leased.sendAttempts + 1
    omega

theorem resolve_spec {resolution : SyncQueue.Resolution}
    (h : q.resolveSyncRequestClaim effect claim resolution now authorityNow = .ok (q', changed)) :
    q'.authority = q.authority ∧ RowsFrom q.requests q'.requests ∧ (changed = true →
      (∃ row ∈ q.requests, row.generation = claim.generation ∧ row.state = .active ∧
        row.attempt = claim.attempt) ∧
      ∀ row' ∈ q'.requests, row'.peerPk = claim.peerPk →
      claim.attempt ≤ row'.attempt ∧ row'.state ≠ .active) := by
  simp only [SyncQueue.resolveSyncRequestClaim, SyncQueue.validateActiveSyncClaim, bind_eq_ok_iff,
    context_eq_ok_iff] at h
  obtain ⟨_, -, _, -, claimedAt, ⟨_, -, _, -, hlast⟩, requests, hactivate, h⟩ := h
  obtain ⟨-, rfl⟩ := validateAndActivate_spec hactivate
  obtain ⟨rfl, hchanged, -⟩ := updateLease_spec h
  have hinactive : resolution.state ≠ .active := by
    cases resolution <;> simp [SyncQueue.Resolution.state]
  have hmoved : ∀ row : SyncRequestRow, row.lastAttemptAt = some claimedAt →
      row.attempt ≤ ((max now claimedAt : Int) : WithBot Int) := by
    intro row hattempt
    rw [SyncRequestRow.attempt, hattempt]
    exact WithBot.coe_le_coe.mpr (le_max_right _ _)
  refine ⟨rfl, (RowsFrom.activate q.requests effect.grant).trans ?_, ?_⟩
  · refine @RowsFrom.update _ _ _ ?_ ?_
    · exact fun _ => rfl
    intro row hselected
    obtain ⟨-, hactive, hattempt⟩ := leasedTo_spec hselected
    refine ⟨rfl, rfl, hmoved row hattempt, le_rfl, fun hterminal => ?_, fun _ _ => hinactive⟩
    rw [hactive] at hterminal
    cases hterminal
  · intro htrue
    obtain ⟨leased, hmem, hselected⟩ := hchanged htrue
    obtain ⟨row, hrow, hgeneration, hactive, hattempt, -⟩ := exists_leased hmem hselected
    refine ⟨⟨row, hrow, hgeneration, hactive, ?_⟩, fun row' hrow' hpeer => ?_⟩
    · rw [SyncRequestRow.attempt, MeshSyncRequest.attempt, hattempt, hlast]
    · obtain ⟨hleasedGeneration, -, hleasedAttempt⟩ := leasedTo_spec hselected
      simp only [Table.mem_update] at hrow'
      rw [mem_update_leased hmem hselected (congrArg Prod.fst hleasedGeneration) hrow' hpeer
        fun _ => rfl]
      refine ⟨?_, hinactive⟩
      rw [MeshSyncRequest.attempt, hlast]
      exact WithBot.coe_le_coe.mpr (le_max_right _ _)

/-! ## Everything an event can do -/

inductive SyncStep (q : SyncQueue) : SyncEvent → SyncAnswer → SyncQueue → Prop
  | moved {event : SyncEvent} {a : SyncAnswer} {q' : SyncQueue}
    (hfrom : RowsFrom q.requests q'.requests)
      (ha : a = .quiet ∨ (∃ claim, a = .stale claim) ∨ ∃ e, a = .failed e) : SyncStep q event a q'
  | requested {effect : SyncEffect} {now authorityNow requestedAt expiresAt : Int} {q' : SyncQueue}
      (hnewer : (q.found effect.grant now = none ∧ requestedAt = now) ∨
        ∃ row, q.found effect.grant now = some row ∧ row.requestedAt < requestedAt)
      (hexpires : requestedAt < expiresAt)
      (hrows : q'.requests =
        (SyncQueue.retainRecent (activateMembershipFence q.requests effect.grant) now).put
        (SyncQueue.requestRow effect.grant requestedAt expiresAt)) :
      SyncStep q (.requestSync effect now authorityNow)
        (.requested (SyncQueue.requestRow effect.grant requestedAt expiresAt).request) q'
  | claimed {event : SyncEvent} {claims : List MeshSyncRequest} {q' : SyncQueue}
      (hfrom : RowsFrom q.requests q'.requests) (hnodup : (claims.map (·.peerPk)).Nodup)
      (hclaims : ∀ c ∈ claims, Holds q'.requests c ∧
        ∃ row ∈ q.requests, row.generation = c.generation ∧ row.attempt < c.attempt) :
      SyncStep q event (.claimed claims) q'
  | sent {event : SyncEvent} {claim : MeshSyncRequest} {q' : SyncQueue}
    (hfrom : RowsFrom q.requests q'.requests)
      (hrow : ∃ row ∈ q.requests, row.generation = claim.generation ∧ row.state = .active ∧
        row.attempt = claim.attempt ∧ row.sendAttempts = claim.sendAttempts)
      (hsent : ∀ row' ∈ q'.requests, row'.peerPk = claim.peerPk →
        claim.sendAttempts < row'.sendAttempts) :
      SyncStep q event (.sent claim) q'
  | resolved {event : SyncEvent} {claim : MeshSyncRequest} {q' : SyncQueue}
    (hfrom : RowsFrom q.requests q'.requests)
      (hrow : ∃ row ∈ q.requests, row.generation = claim.generation ∧ row.state = .active ∧
        row.attempt = claim.attempt)
      (hresolved : ∀ row' ∈ q'.requests, row'.peerPk = claim.peerPk →
        claim.attempt ≤ row'.attempt ∧ row'.state ≠ .active) :
      SyncStep q event (.resolved claim) q'

theorem SyncStep.resolution {q : SyncQueue} {event : SyncEvent} {effect : SyncEffect}
    {claim : MeshSyncRequest} {resolution : SyncQueue.Resolution} {now authorityNow : Int} :
    let next := q.commit (q.resolveSyncRequestClaim effect claim resolution now authorityNow)
      fun changed =>
      if changed then .resolved claim else .stale claim
    SyncStep q event next.2 next.1 := by
  simp only [SyncQueue.commit]
  split
  · rename_i q' changed h
    obtain ⟨-, hfrom, hchanged⟩ := resolve_spec h
    cases changed with
    | false => exact .moved hfrom (.inr (.inl ⟨claim, rfl⟩))
    | true =>
      obtain ⟨hrow, hresolved⟩ := hchanged rfl
      exact .resolved hfrom hrow hresolved
  · exact .moved (.refl _) (.inr (.inr ⟨_, rfl⟩))

theorem SyncQueue.step_spec [Sha256] [Ed25519] (path : String) (q : SyncQueue) (event : SyncEvent) :
    SyncStep q event (q.step path event).2 (q.step path event).1 := by
  cases event with
  | call action => exact .moved (.refl _) (.inl rfl)
  | quarantine stableNodeId => exact .moved (.delete _ _) (.inl rfl)
  | requestSync effect now authorityNow =>
    simp only [SyncQueue.step, SyncQueue.commit]
    split
    · rename_i q' receipt h
      obtain ⟨-, requestedAt, expiresAt, rfl, hexpires, rfl, hnewer⟩ := requestSync_spec h
      exact .requested hnewer hexpires rfl
    · exact .moved (.refl _) (.inr (.inr ⟨_, rfl⟩))
  | claimDue effects now authorityNow =>
    simp only [SyncQueue.step, SyncQueue.commit]
    split
    · rename_i q' claims h
      obtain ⟨-, hfrom, hnodup, hclaims⟩ := claimDue_spec h
      exact .claimed hfrom hnodup hclaims
    · exact .moved (.refl _) (.inr (.inr ⟨_, rfl⟩))
  | markSending effect claim now authorityNow =>
    simp only [SyncQueue.step, SyncQueue.commit]
    split
    · rename_i q' changed h
      obtain ⟨-, hfrom, hchanged⟩ := markSending_spec h
      cases changed with
      | false => exact .moved hfrom (.inr (.inl ⟨claim, rfl⟩))
      | true =>
        obtain ⟨hrow, hsent⟩ := hchanged rfl
        exact .sent hfrom hrow hsent
    · exact .moved (.refl _) (.inr (.inr ⟨_, rfl⟩))
  | markWaiting effect claim error now authorityNow => exact SyncStep.resolution
  | markComplete effect claim now authorityNow => exact SyncStep.resolution

/-! ## Generations -/

/-- A request has been given the generation. -/
def Receipted (answers : List SyncAnswer) (generation : String × Nat × Int) : Prop :=
  ∃ receipt, .requested receipt ∈ answers ∧ receipt.generation = generation

variable {answers : List SyncAnswer} {generation : String × Nat × Int}

theorem Receipted.append (h : Receipted answers generation) (more : List SyncAnswer) :
    Receipted (answers ++ more) generation := by
  obtain ⟨receipt, hmem, hgeneration⟩ := h
  exact ⟨receipt, List.mem_append_left _ hmem, hgeneration⟩

/-- A request that finds no row reads a clock that is ahead of every generation of the peer in this
auth epoch. -/
def ClockAhead (answers : List SyncAnswer) (q : SyncQueue) (event : SyncEvent) : Prop :=
  ∀ effect now authorityNow, event = .requestSync effect now authorityNow →
  q.found effect.grant now = none →
    ∀ receipt, .requested receipt ∈ answers → receipt.peerPk = effect.grant.stableNodeId →
      receipt.authEpoch = effect.grant.authEpoch → receipt.requestedAt < now

/-- Rows are of generations that have been given, each the latest one of its peer and auth epoch. -/
structure History (answers : List SyncAnswer) (requests : RequestTable) : Prop where
  rows : ∀ row ∈ requests, Receipted answers row.generation
  latest : ∀ receipt, .requested receipt ∈ answers → ∀ row ∈ requests, row.peerPk = receipt.peerPk →
    row.authEpoch = receipt.authEpoch → receipt.requestedAt ≤ row.requestedAt

/-- A new generation is later than all earlier ones of its peer and auth epoch. -/
theorem History.newer
    {now authorityNow requestedAt : Int} (h : History answers q.requests)
    (hclock : ClockAhead answers q (.requestSync effect now authorityNow))
    (hnewer : (q.found effect.grant now = none ∧ requestedAt = now) ∨
      ∃ row, q.found effect.grant now = some row ∧ row.requestedAt < requestedAt)
 (hreceipt : .requested receipt ∈ answers)
    (hpeer : receipt.peerPk = effect.grant.stableNodeId)
    (hauth : receipt.authEpoch = effect.grant.authEpoch) : receipt.requestedAt < requestedAt := by
  rcases hnewer with ⟨hnone, rfl⟩ | ⟨row, hsome, hlt⟩
  · exact hclock effect _ authorityNow rfl hnone receipt hreceipt hpeer hauth
  · obtain ⟨hrow, hrowPeer⟩ := Table.find_eq_some_iff.mp hsome
    obtain ⟨old, hold, hmoves, hrowAuth⟩ := mem_retain hrow
    obtain ⟨hgenPeer, hgenAuth, hgenAt⟩ := generation_eq_iff.mp hmoves.generation
    have hle := h.latest receipt hreceipt old hold (by rw [← hgenPeer, hrowPeer, hpeer])
      (by rw [← hgenAuth, hrowAuth hrowPeer, hauth])
    omega

variable {event : SyncEvent} {a : SyncAnswer}

theorem SyncStep.history (hstep : SyncStep q event a q') (h : History answers q.requests)
    (hclock : ClockAhead answers q event) : History (answers ++ [a]) q'.requests := by
  have hmoved : RowsFrom q.requests q'.requests → (∀ receipt, a ≠ .requested receipt) →
      History (answers ++ [a]) q'.requests := by
    intro hfrom ha
    refine ⟨fun row' hrow' => ?_, fun receipt hreceipt row' hrow' hpeer hauth => ?_⟩
    · obtain ⟨row, hrow, hmoves⟩ := hfrom row' hrow'
      rw [hmoves.generation]
      exact (h.rows row hrow).append _
    · obtain ⟨row, hrow, hmoves⟩ := hfrom row' hrow'
      obtain ⟨hgenPeer, hgenAuth, hgenAt⟩ := generation_eq_iff.mp hmoves.generation
      rcases List.mem_append.mp hreceipt with hreceipt | hreceipt
      · rw [hgenAt]
        exact h.latest receipt hreceipt row hrow (hgenPeer ▸ hpeer) (hgenAuth ▸ hauth)
      · exact absurd (List.mem_singleton.mp hreceipt).symm (ha receipt)
  cases hstep with
  | moved hfrom ha => exact hmoved hfrom (by rcases ha with rfl | ⟨_, rfl⟩ | ⟨_, rfl⟩ <;> simp)
  | claimed hfrom _ _ => exact hmoved hfrom (by simp)
  | sent hfrom _ _ => exact hmoved hfrom (by simp)
  | resolved hfrom _ _ => exact hmoved hfrom (by simp)
  | @requested effect now authorityNow requestedAt expiresAt _ hnewer _ hrows =>
    rw [hrows]
    refine ⟨fun row' hrow' => ?_, fun receipt hreceipt row' hrow' hpeer hauth => ?_⟩
    · rcases Table.mem_put.mp hrow' with rfl | ⟨hrow', -⟩
      · exact ⟨_, List.mem_append_right _ (List.mem_singleton.mpr rfl), rfl⟩
      · obtain ⟨row, hrow, hmoves, -⟩ := mem_retain hrow'
        rw [hmoves.generation]
        exact (h.rows row hrow).append _
    · rcases List.mem_append.mp hreceipt with hreceipt | hreceipt
      · rcases Table.mem_put.mp hrow' with rfl | ⟨hrow', -⟩
        · exact (h.newer hclock hnewer hreceipt hpeer.symm hauth.symm).le
        · obtain ⟨row, hrow, hmoves, -⟩ := mem_retain hrow'
          obtain ⟨hgenPeer, hgenAuth, hgenAt⟩ := generation_eq_iff.mp hmoves.generation
          rw [hgenAt]
          exact h.latest receipt hreceipt row hrow (hgenPeer ▸ hpeer) (hgenAuth ▸ hauth)
      · cases List.mem_singleton.mp hreceipt
        rcases Table.mem_put.mp hrow' with rfl | ⟨-, hne⟩
        · exact le_rfl
        · exact absurd hpeer hne

/-- The generation has been given, and its row, for as long as it is there, satisfies `p`. -/
def Marked (answers : List SyncAnswer) (requests : RequestTable) (generation : String × Nat × Int)
    (p : SyncRequestRow → Prop) : Prop :=
  Receipted answers generation ∧ ∀ row ∈ requests, row.generation = generation → p row

/-- What moves cannot undo holds of a generation for ever. -/
theorem Marked.step {p : SyncRequestRow → Prop} (h : Marked answers q.requests generation p)
    (hp : ∀ row row', RowMoves row row' → p row → p row') (hstep : SyncStep q event a q')
    (hhistory : History answers q.requests) (hclock : ClockAhead answers q event) :
    Marked (answers ++ [a]) q'.requests generation p := by
  refine ⟨h.1.append _, fun row' hrow' hgeneration => ?_⟩
  have hmoved : RowsFrom q.requests q'.requests → p row' := by
    intro hfrom
    obtain ⟨row, hrow, hmoves⟩ := hfrom row' hrow'
    exact hp row row' hmoves (h.2 row hrow (hmoves.generation.symm.trans hgeneration))
  cases hstep with
  | moved hfrom _ => exact hmoved hfrom
  | claimed hfrom _ _ => exact hmoved hfrom
  | sent hfrom _ _ => exact hmoved hfrom
  | resolved hfrom _ _ => exact hmoved hfrom
  | @requested effect now authorityNow requestedAt expiresAt _ hnewer _ hrows =>
    rw [hrows] at hrow'
    rcases Table.mem_put.mp hrow' with rfl | ⟨hrow', -⟩
    · obtain ⟨⟨receipt, hreceipt, hsame⟩, -⟩ := h
      rw [← hgeneration] at hsame
      simp only [MeshSyncRequest.generation, SyncRequestRow.generation, SyncQueue.requestRow,
        Prod.mk.injEq] at hsame
      have hlt := hhistory.newer hclock hnewer hreceipt hsame.1 hsame.2.1
      omega
    · obtain ⟨row, hrow, hmoves, -⟩ := mem_retain hrow'
      exact hp row row' hmoves (h.2 row hrow (hmoves.generation.symm.trans hgeneration))

/-! ## Leases -/

/-- What names a claim: peer, auth epoch, `requested_at` and `last_attempt_at`. -/
def MeshSyncRequest.lease (claim : MeshSyncRequest) : (String × Nat × Int) × Option Int :=
  (claim.generation, claim.lastAttemptAt)

def SyncAnswer.sentClaim : SyncAnswer → Option MeshSyncRequest
  | .sent claim => some claim
  | _ => none

def SyncAnswer.resolvedClaim : SyncAnswer → Option MeshSyncRequest
  | .resolved claim => some claim
  | _ => none

/-- The claims that have been handed out. -/
def issued (answers : List SyncAnswer) : List MeshSyncRequest := answers.flatMap SyncAnswer.claims

variable {c : MeshSyncRequest}

theorem mem_issued_append : c ∈ issued (answers ++ [a]) ↔ c ∈ issued answers ∨ c ∈ a.claims := by
  simp [issued]

structure Leases (answers : List SyncAnswer) (q : SyncQueue) : Prop where
  history : History answers q.requests
  claims : ∀ c ∈ issued answers, Marked answers q.requests c.generation (c.attempt ≤ ·.attempt)
  distinct : ((issued answers).map (·.lease)).Nodup
  sent : ∀ c, .sent c ∈ answers →
    Marked answers q.requests c.generation (c.sendAttempts < ·.sendAttempts)
  sentOnce : (answers.filterMap SyncAnswer.sentClaim).Nodup
  resolved : ∀ c, .resolved c ∈ answers → Marked answers q.requests c.generation
    fun row => c.attempt ≤ row.attempt ∧ (row.attempt = c.attempt → row.state ≠ .active)
  resolvedOnce : ((answers.filterMap SyncAnswer.resolvedClaim).map (·.lease)).Nodup

variable {attempt : WithBot Int}

theorem RowMoves.attempt_le (h : RowMoves row row') (hle : attempt ≤ row.attempt) :
    attempt ≤ row'.attempt :=
  hle.trans h.attempt

theorem RowMoves.resolved (h : RowMoves row row')
    (hrow : attempt ≤ row.attempt ∧ (row.attempt = attempt → row.state ≠ .active)) :
    attempt ≤ row'.attempt ∧ (row'.attempt = attempt → row'.state ≠ .active) := by
  refine ⟨h.attempt_le hrow.1, fun hsame => ?_⟩
  have hmid : row.attempt = attempt := le_antisymm (hsame ▸ h.attempt) hrow.1
  exact h.inactive (hsame.trans hmid.symm) (hrow.2 hmid)

/-- What the row of a claim shows after the claim has been used. -/
theorem marked_of_row {p : SyncRequestRow → Prop} (h : History answers q.requests)
    (hrow : ∃ row ∈ q.requests, row.generation = claim.generation)
    (hafter : ∀ row' ∈ q'.requests, row'.peerPk = claim.peerPk → p row') :
    Marked (answers ++ [a]) q'.requests claim.generation p := by
  obtain ⟨row, hrow, hgeneration⟩ := hrow
  refine ⟨hgeneration ▸ (h.rows row hrow).append _, fun row' hrow' hsame => ?_⟩
  exact hafter row' hrow' (congrArg Prod.fst hsame)

theorem SyncStep.claimsKept (hstep : SyncStep q event a q') (h : Leases answers q)
    (hclock : ClockAhead answers q event) :
    (∀ c ∈ issued (answers ++ [a]),
      Marked (answers ++ [a]) q'.requests c.generation (c.attempt ≤ ·.attempt)) ∧
      ((issued (answers ++ [a])).map (·.lease)).Nodup := by
  have hold : ∀ c ∈ issued answers,
      Marked (answers ++ [a]) q'.requests c.generation (c.attempt ≤ ·.attempt) := fun c hc =>
    (h.claims c hc).step (fun _ _ hmoves => hmoves.attempt_le) hstep h.history hclock
  cases hstep with
  | @claimed _ claims _ hfrom hnodup hclaims =>
    refine ⟨fun c hc => ?_, ?_⟩
    · rcases mem_issued_append.mp hc with hc | hc
      · exact hold c hc
      · obtain ⟨hholds, row, hrow, hgeneration, -⟩ := hclaims c hc
        exact marked_of_row h.history ⟨row, hrow, hgeneration⟩ fun row' hrow' hpeer =>
          (hholds row' hrow' hpeer).2
    · have happend : issued (answers ++ [.claimed claims]) =
          issued answers ++ claims := by simp [issued, SyncAnswer.claims]
      rw [happend, List.map_append, List.nodup_append]
      refine ⟨h.distinct, ?_, ?_⟩
      · have hpeers : claims.map (·.peerPk) = (claims.map (·.lease)).map fun lease =>
            lease.1.1 := by
          rw [List.map_map]
          rfl
        rw [hpeers] at hnodup
        exact List.Nodup.of_map _ hnodup
      · intro lease hlease lease' hlease' hsame
        obtain ⟨c, hc, rfl⟩ := List.mem_map.mp hlease
        obtain ⟨c', hc', rfl⟩ := List.mem_map.mp hlease'
        obtain ⟨-, row, hrow, hgeneration, hlt⟩ := hclaims c' hc'
        simp only [MeshSyncRequest.lease, Prod.mk.injEq] at hsame
        have hle := (h.claims c hc).2 row hrow (hgeneration.trans hsame.1.symm)
        rw [MeshSyncRequest.attempt, hsame.2] at hle
        exact absurd (hle.trans_lt hlt) (lt_irrefl _)
  | moved hfrom ha =>
    rcases ha with rfl | ⟨_, rfl⟩ | ⟨_, rfl⟩ <;>
      exact ⟨fun c hc => hold c (by simpa [mem_issued_append, SyncAnswer.claims] using hc),
        by simpa [issued, SyncAnswer.claims] using h.distinct⟩
  | requested hnewer _ _ =>
    exact ⟨fun c hc => hold c (by simpa [mem_issued_append, SyncAnswer.claims] using hc),
      by simpa [issued, SyncAnswer.claims] using h.distinct⟩
  | sent _ _ _ =>
    exact ⟨fun c hc => hold c (by simpa [mem_issued_append, SyncAnswer.claims] using hc),
      by simpa [issued, SyncAnswer.claims] using h.distinct⟩
  | resolved _ _ _ =>
    exact ⟨fun c hc => hold c (by simpa [mem_issued_append, SyncAnswer.claims] using hc),
      by simpa [issued, SyncAnswer.claims] using h.distinct⟩

theorem SyncStep.sentOnce {answers : List SyncAnswer} {q q' : SyncQueue} {event : SyncEvent}
    {a : SyncAnswer}
    (hstep : SyncStep q event a q') (h : Leases answers q) (hclock : ClockAhead answers q event) :
    (∀ c, .sent c ∈ answers ++ [a] →
      Marked (answers ++ [a]) q'.requests c.generation (c.sendAttempts < ·.sendAttempts)) ∧
      ((answers ++ [a]).filterMap SyncAnswer.sentClaim).Nodup := by
  have hold : ∀ c, .sent c ∈ answers →
      Marked (answers ++ [a]) q'.requests c.generation (c.sendAttempts < ·.sendAttempts) :=
        fun c hc =>
    (h.sent c hc).step (fun _ _ hmoves hlt => hlt.trans_le hmoves.sends) hstep h.history hclock
  have hother : (∀ c, a ≠ .sent c) → (∀ c, .sent c ∈ answers ++ [a] →
      Marked (answers ++ [a]) q'.requests c.generation (c.sendAttempts < ·.sendAttempts)) ∧
      ((answers ++ [a]).filterMap SyncAnswer.sentClaim).Nodup := by
    intro hne
    refine ⟨fun c hc => ?_, ?_⟩
    · rcases List.mem_append.mp hc with hc | hc
      · exact hold c hc
      · exact absurd (List.mem_singleton.mp hc).symm (hne c)
    · have hnone : a.sentClaim = none := by cases a <;> first | rfl | exact absurd rfl (hne _)
      simpa [List.filterMap_append, hnone] using h.sentOnce
  cases hstep with
  | moved _ ha => exact hother (by rcases ha with rfl | ⟨_, rfl⟩ | ⟨_, rfl⟩ <;> simp)
  | requested _ _ _ => exact hother (by simp)
  | claimed _ _ _ => exact hother (by simp)
  | resolved _ _ _ => exact hother (by simp)
  | @sent _ claim _ hfrom hrow hsent =>
    obtain ⟨row, hrow, hgeneration, -, -, hsends⟩ := hrow
    refine ⟨fun c hc => ?_, ?_⟩
    · rcases List.mem_append.mp hc with hc | hc
      · exact hold c hc
      · cases List.mem_singleton.mp hc
        exact marked_of_row h.history ⟨row, hrow, hgeneration⟩ hsent
    · rw [List.filterMap_append, List.nodup_append]
      refine ⟨h.sentOnce, by simp [SyncAnswer.sentClaim], ?_⟩
      rintro c hc c' hc' rfl
      obtain ⟨a, ha, hsame⟩ := List.mem_filterMap.mp hc
      simp only [List.filterMap_cons, SyncAnswer.sentClaim, List.filterMap_nil,
        List.mem_singleton] at hc'
      subst hc'
      cases a <;> cases hsame
      have hlt := (h.sent _ ha).2 row hrow hgeneration
      omega

theorem SyncStep.resolvedOnce {answers : List SyncAnswer} {q q' : SyncQueue} {event : SyncEvent}
    {a : SyncAnswer}
    (hstep : SyncStep q event a q') (h : Leases answers q) (hclock : ClockAhead answers q event) :
    (∀ c, .resolved c ∈ answers ++ [a] → Marked (answers ++ [a]) q'.requests c.generation
      fun row => c.attempt ≤ row.attempt ∧ (row.attempt = c.attempt → row.state ≠ .active)) ∧
      (((answers ++ [a]).filterMap SyncAnswer.resolvedClaim).map (·.lease)).Nodup := by
  have hold : ∀ c, .resolved c ∈ answers → Marked (answers ++ [a]) q'.requests c.generation
      fun row => c.attempt ≤ row.attempt ∧ (row.attempt = c.attempt → row.state ≠ .active) :=
        fun c hc =>
    (h.resolved c hc).step (fun _ _ hmoves => hmoves.resolved) hstep h.history hclock
  have hother : (∀ c, a ≠ .resolved c) → (∀ c, .resolved c ∈ answers ++ [a] →
      Marked (answers ++ [a]) q'.requests c.generation
        fun row => c.attempt ≤ row.attempt ∧ (row.attempt = c.attempt → row.state ≠ .active)) ∧
      (((answers ++ [a]).filterMap SyncAnswer.resolvedClaim).map (·.lease)).Nodup := by
    intro hne
    refine ⟨fun c hc => ?_, ?_⟩
    · rcases List.mem_append.mp hc with hc | hc
      · exact hold c hc
      · exact absurd (List.mem_singleton.mp hc).symm (hne c)
    · have hnone : a.resolvedClaim = none := by cases a <;> first | rfl | exact absurd rfl (hne _)
      simpa [List.filterMap_append, hnone] using h.resolvedOnce
  cases hstep with
  | moved _ ha => exact hother (by rcases ha with rfl | ⟨_, rfl⟩ | ⟨_, rfl⟩ <;> simp)
  | requested _ _ _ => exact hother (by simp)
  | claimed _ _ _ => exact hother (by simp)
  | sent _ _ _ => exact hother (by simp)
  | @resolved _ claim _ hfrom hrow hresolved =>
    obtain ⟨row, hrow, hgeneration, hactive, hattempt⟩ := hrow
    refine ⟨fun c hc => ?_, ?_⟩
    · rcases List.mem_append.mp hc with hc | hc
      · exact hold c hc
      · cases List.mem_singleton.mp hc
        refine marked_of_row h.history ⟨row, hrow, hgeneration⟩ fun row' hrow' hpeer => ?_
        obtain ⟨hle, hinactive⟩ := hresolved row' hrow' hpeer
        exact ⟨hle, fun _ => hinactive⟩
    · rw [List.filterMap_append, List.map_append, List.nodup_append]
      refine ⟨h.resolvedOnce, by simp [SyncAnswer.resolvedClaim], ?_⟩
      intro lease hlease lease' hlease' hsame
      obtain ⟨c, hc, rfl⟩ := List.mem_map.mp hlease
      obtain ⟨a, ha, hfound⟩ := List.mem_filterMap.mp hc
      simp only [List.filterMap_cons, SyncAnswer.resolvedClaim, List.filterMap_nil, List.map_cons,
        List.map_nil, List.mem_singleton] at hlease'
      subst hlease'
      cases a <;> cases hfound
      simp only [MeshSyncRequest.lease, Prod.mk.injEq] at hsame
      have hused := (h.resolved _ ha).2 row hrow (hgeneration.trans hsame.1.symm)
      exact hused.2 (by rw [hattempt, MeshSyncRequest.attempt, MeshSyncRequest.attempt, hsame.2])
        hactive

theorem SyncStep.leases (hstep : SyncStep q event a q') (h : Leases answers q)
    (hclock : ClockAhead answers q event) : Leases (answers ++ [a]) q' := by
  obtain ⟨hclaims, hdistinct⟩ := hstep.claimsKept h hclock
  obtain ⟨hsent, hsentOnce⟩ := hstep.sentOnce h hclock
  obtain ⟨hresolved, hresolvedOnce⟩ := hstep.resolvedOnce h hclock
  exact ⟨hstep.history h.history hclock, hclaims, hdistinct, hsent, hsentOnce, hresolved,
    hresolvedOnce⟩

theorem leases_fresh : Leases [] .fresh := by
  refine ⟨⟨?_, ?_⟩, ?_, ?_, ?_, ?_, ?_, ?_⟩ <;> simp [SyncQueue.fresh, issued]

/-- A newer request or claim for the peer. -/
def SyncAnswer.supersedes (a : SyncAnswer) (peerPk : String) : Prop :=
  (∃ receipt, a = .requested receipt ∧ receipt.peerPk = peerPk) ∨ ∃ c ∈ a.claims, c.peerPk = peerPk

/-- The row of a claim that is superseded is gone, or leased later. -/
theorem SyncStep.superseded (hstep : SyncStep q event a q') (h : Leases answers q)
    (hclock : ClockAhead answers q event) (hc : c ∈ issued answers) (ha : a.supersedes c.peerPk) :
    Marked (answers ++ [a]) q'.requests c.generation (c.attempt < ·.attempt) := by
  have hmarked := h.claims c hc
  refine ⟨hmarked.1.append _, fun row' hrow' hgeneration => ?_⟩
  have hpeer : row'.peerPk = c.peerPk := congrArg Prod.fst hgeneration
  cases hstep with
  | moved _ hquiet =>
    rcases hquiet with rfl | ⟨_, rfl⟩ | ⟨_, rfl⟩ <;> rcases ha with ⟨_, ha, -⟩ | ⟨_, ha, -⟩ <;>
      cases ha
  | sent _ _ _ => rcases ha with ⟨_, ha, -⟩ | ⟨_, ha, -⟩ <;> cases ha
  | resolved _ _ _ => rcases ha with ⟨_, ha, -⟩ | ⟨_, ha, -⟩ <;> cases ha
  | requested hnewer _ hrows =>
    rcases ha with ⟨receipt, ha, hreceipt⟩ | ⟨_, ha, -⟩
    · cases ha
      rw [hrows] at hrow'
      rcases Table.mem_put.mp hrow' with rfl | ⟨-, hne⟩
      · obtain ⟨receipt, hmem, hsame⟩ := hmarked.1
        rw [← hgeneration] at hsame
        simp only [MeshSyncRequest.generation, SyncRequestRow.generation, SyncQueue.requestRow,
          Prod.mk.injEq] at hsame
        have hlt := h.history.newer hclock hnewer hmem hsame.1 hsame.2.1
        omega
      · exact absurd (hpeer.trans hreceipt.symm) hne
    · cases ha
  | claimed _ _ hclaims =>
    rcases ha with ⟨_, ha, -⟩ | ⟨c', hc', hsame⟩
    · cases ha
    · obtain ⟨hholds, row, hrow, hrowGeneration, hlt⟩ := hclaims c' hc'
      obtain ⟨hgeneration', hle⟩ := hholds row' hrow' (hpeer.trans hsame.symm)
      have hearlier :=
        hmarked.2 row hrow (hrowGeneration.trans (hgeneration'.symm.trans hgeneration))
      exact hearlier.trans_lt (hlt.trans_le hle)

/-- A claim whose row is leased later cannot be used. -/
theorem SyncStep.refuses (hstep : SyncStep q event a q')
    (h : Marked answers q.requests c.generation (c.attempt < ·.attempt)) :
      a ≠ .sent c ∧ a ≠ .resolved c := by
  constructor
  · rintro rfl
    cases hstep with
    | moved _ ha => rcases ha with ha | ⟨_, ha⟩ | ⟨_, ha⟩ <;> cases ha
    | sent _ hrow _ =>
      obtain ⟨row, hrow, hgeneration, -, hattempt, -⟩ := hrow
      exact absurd hattempt (h.2 row hrow hgeneration).ne'
  · rintro rfl
    cases hstep with
    | moved _ ha => rcases ha with ha | ⟨_, ha⟩ | ⟨_, ha⟩ <;> cases ha
    | resolved _ hrow _ =>
      obtain ⟨row, hrow, hgeneration, -, hattempt⟩ := hrow
      exact absurd hattempt (h.2 row hrow hgeneration).ne'

end Neoth.SyncRequests
