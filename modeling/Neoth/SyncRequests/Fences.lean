import Neoth.SyncRequests.Leases

/-!
# Fences of sync requests

While the authority stays at an epoch, its active members and the fences of their rows stay as they
are. So a claim that is still of the current incarnation finds its row fenced for it, and a call
that does not find its lease changes nothing.

* `EpochKeeps`: what the authority keeps while its epoch stays;
* `FencesFrom`: where the fence of a row comes from;
* `Fenced`: what holds of the incarnation of a claim, from its issue on;
* `stale_unchanged`: a call that answers `false` leaves the table as it was;
* `claimLoop_total`: the claims of a poll find their rows.
-/

open Lib Lib.Transaction

namespace Neoth.SyncRequests

open Neoth.Authority

/-! ## The epoch of the authority -/

/-- The epoch does not decrease, and while it stays the active members do. -/
def EpochKeeps (db db' : AuthorityDb) : Prop :=
  db.membershipEpoch ≤ db'.membershipEpoch ∧ (db'.membershipEpoch = db.membershipEpoch →
    ∀ m ∈ db.members, m.state = .active → ∃ m' ∈ db'.members,
      m'.stableNodeId = m.stableNodeId ∧ m'.authEpoch = m.authEpoch ∧ m'.state = .active)

variable {db : AuthorityDb}

theorem EpochKeeps.of_subset {db db' : AuthorityDb}
    (hepoch : db'.membershipEpoch = db.membershipEpoch)
    (hmembers : ∀ m ∈ db.members, m.state = .active → m ∈ db'.members) : EpochKeeps db db' :=
  ⟨hepoch.ge, fun _ m hm hactive => ⟨m, hmembers m hm hactive, rfl, rfl, hactive⟩⟩

theorem EpochKeeps.trans {db₁ db₂ db₃ : AuthorityDb} (h : EpochKeeps db₁ db₂)
    (h' : EpochKeeps db₂ db₃) : EpochKeeps db₁ db₃ := by
  refine ⟨h.1.trans h'.1, fun hsame m hm hactive => ?_⟩
  have hmid : db₂.membershipEpoch = db₁.membershipEpoch := le_antisymm (hsame ▸ h'.1) h.1
  obtain ⟨m₂, hm₂, hid₂, hauth₂, hactive₂⟩ := h.2 hmid m hm hactive
  obtain ⟨m₃, hm₃, hid₃, hauth₃, hactive₃⟩ := h'.2 (hsame.trans hmid.symm) m₂ hm₂ hactive₂
  exact ⟨m₃, hm₃, hid₃.trans hid₂, hauth₃.trans hauth₂, hactive₃⟩

theorem raiseMember_state (db : AuthorityDb) (epoch : Nat) (m : Member) :
    (db.raiseMember epoch m).state = m.state := by
  unfold AuthorityDb.raiseMember
  split <;> rfl

variable {m : Member}

theorem confirmMember_state_active {invite : EnrollmentInviteRow} (h : m.state = .active) :
    (db.confirmMember invite m).state = .active := by
  unfold AuthorityDb.confirmMember
  split
  · rfl
  · rw [raiseMember_state, h]

theorem epochKeeps_of_step [Sha256] {action : Action} {db db' : AuthorityDb}
    (hstep : Step action db db') : EpochKeeps db db' := by
  cases hstep with
  | same hstep _ => exact .of_subset hstep.membershipEpoch fun m hm _ => hstep.members ▸ hm
  | imported _ hstep => exact .of_subset (by rw [hstep.eq]) fun m hm _ => hstep.members_subset hm
  | invited hstep =>
    refine .of_subset hstep.frame.1 fun m hm hactive =>
      hstep.mem_members.mpr (.inr ⟨hm, fun hid => ?_⟩)
    exact hstep.inactive m hm hid hactive
  | confirmed _ hstep =>
    refine ⟨hstep.epoch ▸ le_nextCommitted _ _, fun _ m hm hactive => ?_⟩
    exact ⟨_, (hstep.members _).mpr ⟨m, hm, rfl⟩, by simp, by
      simp, confirmMember_state_active hactive⟩
  | legacy hstep => exact .of_subset (by rw [hstep.eq]) fun m hm _ => hstep.members_subset hm
  | intended hstep =>
    rw [hstep.eq]
    exact .of_subset rfl fun m hm _ => hm
  | marked hstep =>
    rw [hstep.eq]
    exact .of_subset rfl fun m hm _ => hm
  | revoked hstep =>
    have hraised := hstep.epoch
    exact ⟨by omega, fun hsame => by omega⟩

theorem epochKeeps_step [Sha256] [Ed25519] (path : String) (db : AuthorityDb) (action : Action) :
    EpochKeeps db (db.step path action).1 :=
  step_keeps (P := EpochKeeps db) (fun _ _ h hstep => h.trans (epochKeeps_of_step hstep)) path
    (.of_subset rfl fun _ hm _ => hm)

/-! ## Where a fence comes from -/

/-- The columns of the membership fence. -/
def SyncRequestRow.fence (row : SyncRequestRow) : StableNodeId × Nat × Nat × Bool :=
  (row.stableNodeId, row.authEpoch, row.membershipEpoch, row.fenceActive)

/-- The fence of a member's current incarnation. -/
def memberFence (m : Member) : StableNodeId × Nat × Nat × Bool :=
  (m.stableNodeId, m.authEpoch, m.membershipEpoch, true)

variable {registry : GenerationEffectState} {lease : Option Nat} {grant : MembershipGrant}
  {now : Int}

/-- The grant of a validated effect names an active member as it stands. -/
theorem validateAttached_member (h : db.validateAttached registry lease grant now = .ok ()) :
    ∃ m ∈ db.members, m.state = .active ∧ m.stableNodeId = grant.stableNodeId ∧
    m.authEpoch = grant.authEpoch ∧
      m.membershipEpoch = grant.membershipEpoch ∧ m.membershipEpoch = db.membershipEpoch := by
  simp only [AuthorityDb.validateAttached, bind_eq_ok_iff, require_eq_ok_iff, Table.any_eq_true,
    Bool.and_eq_true, Bool.not_eq_true', beq_iff_eq] at h
  obtain ⟨_, -, _, -, _, -, m, hm, hjoin⟩ := h
  obtain ⟨⟨⟨⟨⟨⟨⟨⟨hid, hactive⟩, hauth⟩, hmember⟩, hcurrent⟩, -⟩, -⟩, -⟩, -⟩ := hjoin
  exact ⟨m, hm, hactive, hid, hauth, hmember, hcurrent⟩

/-- The fence of every row is one that the peer had, or that of an active member. -/
def FencesFrom (db : AuthorityDb) (requests requests' : RequestTable) : Prop :=
  ∀ row' ∈ requests', (∃ row ∈ requests, row.peerPk = row'.peerPk ∧ row'.fence = row.fence) ∨
    ∃ m ∈ db.members, m.state = .active ∧ m.stableNodeId = row'.peerPk ∧ row'.fence = memberFence m

theorem FencesFrom.refl (db : AuthorityDb) (requests : RequestTable) :
    FencesFrom db requests requests :=
  fun row hrow => .inl ⟨row, hrow, rfl, rfl⟩

theorem FencesFrom.trans {db : AuthorityDb} {t u v : RequestTable} (h : FencesFrom db t u)
    (h' : FencesFrom db u v) : FencesFrom db t v := by
  intro row'' hrow''
  rcases h' row'' hrow'' with ⟨row', hrow', hpeer', hfence'⟩ | hmember
  · rcases h row' hrow' with ⟨row, hrow, hpeer, hfence⟩ | ⟨m, hm, hactive, hid, hfence⟩
    · exact .inl ⟨row, hrow, hpeer.trans hpeer', hfence'.trans hfence⟩
    · exact .inr ⟨m, hm, hactive, hid.trans hpeer', hfence'.trans hfence⟩
  · exact .inr hmember

theorem FencesFrom.delete (db : AuthorityDb) (t : RequestTable) (p : SyncRequestRow → Bool) :
    FencesFrom db t (t.delete p) := by
  intro row hrow
  exact .inl ⟨row, (Table.mem_delete.mp hrow).1, rfl, rfl⟩

theorem FencesFrom.update {db : AuthorityDb} {t : RequestTable} {p : SyncRequestRow → Bool}
    {f : SyncRequestRow → SyncRequestRow} (hf : ∀ row, (f row).peerPk = row.peerPk)
    (h : ∀ row, (f row).fence = row.fence) : FencesFrom db t (t.update p f hf) := by
  intro row' hrow'
  simp only [Table.mem_update] at hrow'
  obtain ⟨row, hrow, rfl⟩ := hrow'
  refine .inl ⟨row, hrow, ?_⟩
  split
  · exact ⟨(hf row).symm, h row⟩
  · exact ⟨rfl, rfl⟩

variable {t : RequestTable}

/-- After the activation for a validated grant, the peer's row has the fence of the member. -/
theorem fence_activate (hid : m.stableNodeId = grant.stableNodeId)
    (hauth : m.authEpoch = grant.authEpoch) (hmember : m.membershipEpoch = grant.membershipEpoch) :
    ∀ row' ∈ activateMembershipFence t grant, row'.peerPk = grant.stableNodeId →
    row'.fence = memberFence m := by
  intro row' hrow' hpeer
  obtain ⟨row, -, heq, hsame, -⟩ := mem_activate hrow'
  have hrowPeer : row.peerPk = grant.stableNodeId := by
    rw [heq] at hpeer
    exact hpeer
  obtain ⟨hepoch, hrowAuth, hactive, hstable⟩ := hsame hrowPeer
  rw [heq]
  simp only [SyncRequestRow.fence, memberFence, hepoch, hrowAuth, hactive, hstable, hid, hauth,
    hmember]

theorem FencesFrom.activate (t : RequestTable)
    (h : db.validateAttached registry lease grant now = .ok ()) :
    FencesFrom db t (activateMembershipFence t grant) := by
  obtain ⟨m, hm, hactive, hid, hauth, hmember, -⟩ := validateAttached_member h
  intro row' hrow'
  by_cases hpeer : row'.peerPk = grant.stableNodeId
  · exact .inr ⟨m, hm, hactive, hid.trans hpeer.symm,
      fence_activate hid hauth hmember row' hrow' hpeer⟩
  · obtain ⟨row, hrow, heq, -, hother⟩ := mem_activate hrow'
    have hrowPeer : row.peerPk = row'.peerPk := by rw [heq]
    have hsame := hother (hrowPeer ▸ hpeer)
    exact .inl ⟨row, hrow, hrowPeer, by rw [hsame]⟩

variable {effects : List SyncEffect}

theorem FencesFrom.activateAll (t : RequestTable)
    (h : ∀ effect ∈ effects, db.validateAttached effect.registry effect.lease effect.grant now =
      .ok ()) :
    FencesFrom db t
      (effects.foldl (fun requests effect => activateMembershipFence requests effect.grant) t) := by
  induction effects generalizing t with
  | nil => exact .refl db t
  | cons effect effects ih =>
    have hfirst := FencesFrom.activate t (h effect (List.mem_cons_self ..))
    exact hfirst.trans (ih _ fun other hother => h other (List.mem_cons_of_mem _ hother))

theorem FencesFrom.claimLoop {db : AuthorityDb} {eligible : List String} {now : Int}
    {due : List MeshSyncRequest}
    {requests requests' : RequestTable} {claims claims' : List MeshSyncRequest}
    (h : SyncQueue.claimLoop eligible now due requests claims = .ok (requests', claims')) :
    FencesFrom db requests requests' := by
  induction due generalizing requests claims with
  | nil =>
    cases h
    exact .refl _ _
  | cons request due ih =>
    unfold SyncQueue.claimLoop at h
    split at h
    · cases h
      exact .refl _ _
    · split at h
      · simp only [SyncQueue.passOver, bind_eq_ok_iff] at h
        obtain ⟨mid, ⟨_, -, hpass⟩, h⟩ := h
        cases hpass
        refine FencesFrom.trans ?_ (ih h)
        refine FencesFrom.update _ ?_
        exact fun _ => rfl
      · simp only [SyncQueue.claimOne, bind_eq_ok_iff] at h
        obtain ⟨⟨mid, claim⟩, ⟨_, -, row, -, claim', -, hone⟩, h⟩ := h
        cases hone
        refine FencesFrom.trans ?_ (ih h)
        refine FencesFrom.update ?_ ?_
        · exact fun _ => rfl
        · exact fun _ => rfl

variable {q : SyncQueue}

theorem commit_authority {A : Type} {body : Except String (SyncQueue × A)} {answer : A → SyncAnswer}
    (h : ∀ q' a, body = .ok (q', a) →
      q'.authority = q.authority ∧ FencesFrom q.authority q.requests q'.requests) :
    (q.commit body answer).1.authority = q.authority ∧
      FencesFrom q.authority q.requests (q.commit body answer).1.requests := by
  cases body with
  | ok r => exact h r.1 r.2 rfl
  | error e => exact ⟨rfl, .refl _ _⟩

variable {q' : SyncQueue} {effect : SyncEffect} {authorityNow : Int}

theorem requestSync_fences {receipt : MeshSyncRequest}
    (h : q.requestSync effect now authorityNow = .ok (q', receipt)) :
    q'.authority = q.authority ∧ FencesFrom q.authority q.requests q'.requests := by
  obtain ⟨hvalid, requestedAt, expiresAt, -, -, rfl, -⟩ := requestSync_spec h
  refine ⟨rfl, fun row' hrow' => ?_⟩
  rcases Table.mem_put.mp hrow' with rfl | ⟨hrow', -⟩
  · obtain ⟨m, hm, hactive, hid, hauth, hmember, -⟩ := validateAttached_member hvalid
    refine .inr ⟨m, hm, hactive, hid, ?_⟩
    simp only [SyncRequestRow.fence, SyncQueue.requestRow, memberFence, hid, hauth, hmember]
  · exact FencesFrom.activate q.requests hvalid row' (Table.mem_delete.mp hrow').1

theorem validateAll {units : List Unit}
    (h : effects.mapM (fun effect =>
      q.authority.validateAttached effect.registry effect.lease effect.grant authorityNow) =
        .ok units) :
    ∀ effect ∈ effects,
      q.authority.validateAttached effect.registry effect.lease effect.grant authorityNow =
        .ok () :=
  ((mapM_eq_ok_iff (g := fun _ => ()) fun _ _ => (and_iff_left rfl).symm).mp h).1

theorem FencesFrom.expire (db : AuthorityDb) (t : RequestTable) (now : Int) :
    FencesFrom db t (SyncQueue.expireDue (SyncQueue.expireLegacy t) now) := by
  have hlegacy : FencesFrom db t (SyncQueue.expireLegacy t) := by
    refine FencesFrom.update _ ?_
    exact fun _ => rfl
  refine hlegacy.trans (FencesFrom.update _ ?_)
  exact fun _ => rfl

variable {claims : List MeshSyncRequest}

theorem claimDue_fences (h : q.claimDueSyncRequests effects now authorityNow = .ok (q', claims)) :
    q'.authority = q.authority ∧ FencesFrom q.authority q.requests q'.requests := by
  unfold SyncQueue.claimDueSyncRequests at h
  split at h
  · cases h
    exact ⟨rfl, .refl _ _⟩
  · simp only [bind_eq_ok_iff] at h
    obtain ⟨_, -, _, hvalid, due, -, ⟨requests, claimed⟩, hloop, h⟩ := h
    cases h
    have hactivated := FencesFrom.activateAll q.requests (validateAll hvalid)
    exact ⟨rfl, (hactivated.trans (.expire _ _ now)).trans (.claimLoop hloop)⟩

/-- The authority's epoch and the fences, over one event. -/
def FencesKept (q q' : SyncQueue) : Prop :=
  EpochKeeps q.authority q'.authority ∧ FencesFrom q.authority q.requests q'.requests

theorem FencesKept.of_same
    (h : q'.authority = q.authority ∧ FencesFrom q.authority q.requests q'.requests) :
    FencesKept q q' :=
  ⟨.of_subset (by rw [h.1]) fun m hm _ => h.1 ▸ hm, h.2⟩

variable {requests : RequestTable} {peerPk : String} {changed : Bool}

/-- A progress call writes no column of the fence. -/
theorem progress_fences {selects : SyncRequestRow → Bool} {f : SyncRequestRow → SyncRequestRow}
    {hf : ∀ row, (f row).peerPk = row.peerPk}
    (hactivate : q.validateAndActivate effect authorityNow = .ok requests)
    (h : q.updateLease requests peerPk selects f hf = .ok (q', changed))
    (hfence : ∀ row, (f row).fence = row.fence) :
    q'.authority = q.authority ∧ FencesFrom q.authority q.requests q'.requests := by
  obtain ⟨hvalid, rfl⟩ := validateAndActivate_spec hactivate
  obtain ⟨rfl, -, -⟩ := updateLease_spec h
  exact ⟨rfl, (FencesFrom.activate q.requests hvalid).trans (.update hf hfence)⟩

variable {claim : MeshSyncRequest}

theorem markSending_fences
    (h : q.markSyncRequestSending effect claim now authorityNow = .ok (q', changed)) :
    q'.authority = q.authority ∧ FencesFrom q.authority q.requests q'.requests := by
  simp only [SyncQueue.markSyncRequestSending, bind_eq_ok_iff] at h
  obtain ⟨_, -, _, -, claimedAt, -, sendAttempts, -, requests, hactivate, h⟩ := h
  exact progress_fences hactivate h fun _ => rfl

theorem resolve_fences {resolution : SyncQueue.Resolution}
    (h : q.resolveSyncRequestClaim effect claim resolution now authorityNow = .ok (q', changed)) :
    q'.authority = q.authority ∧ FencesFrom q.authority q.requests q'.requests := by
  simp only [SyncQueue.resolveSyncRequestClaim, bind_eq_ok_iff] at h
  obtain ⟨_, -, _, -, claimedAt, -, requests, hactivate, h⟩ := h
  exact progress_fences hactivate h fun _ => rfl

/-- Only a call of the authority moves it. -/
theorem SyncQueue.step_same [Sha256] [Ed25519] (path : String) (q : SyncQueue) {event : SyncEvent}
    (h : ∀ action, event ≠ .call action) : (q.step path event).1.authority = q.authority ∧
      FencesFrom q.authority q.requests (q.step path event).1.requests := by
  cases event with
  | call action => exact absurd rfl (h action)
  | quarantine stableNodeId => exact ⟨rfl, .delete _ _ _⟩
  | requestSync effect now authorityNow => exact commit_authority fun _ _ h => requestSync_fences h
  | claimDue effects now authorityNow => exact commit_authority fun _ _ h => claimDue_fences h
  | markSending effect claim now authorityNow =>
    exact commit_authority fun _ _ h => markSending_fences h
  | markWaiting effect claim error now authorityNow =>
    exact commit_authority fun _ _ h => resolve_fences h
  | markComplete effect claim now authorityNow =>
    exact commit_authority fun _ _ h => resolve_fences h

theorem SyncQueue.step_fences [Sha256] [Ed25519] (path : String) (q : SyncQueue)
    (event : SyncEvent) : FencesKept q (q.step path event).1 := by
  by_cases hcall : ∃ action, event = .call action
  · obtain ⟨action, rfl⟩ := hcall
    exact ⟨epochKeeps_step path q.authority action, .refl _ _⟩
  · exact .of_same (q.step_same path fun action h => hcall ⟨action, h⟩)

theorem SyncQueue.step_consistent [Sha256] [Ed25519] (path : String) (h : Consistent q.authority)
    (event : SyncEvent) : Consistent (q.step path event).1.authority := by
  by_cases hcall : ∃ action, event = .call action
  · obtain ⟨action, rfl⟩ := hcall
    exact step_keeps (fun _ _ h hstep => hstep.consistent h) path h
  · rw [(q.step_same path fun action h => hcall ⟨action, h⟩).1]
    exact h

/-! ## The fence of a member -/

/-- The peer's row, where there is one, is fenced for the member. -/
def FencedFor (requests : RequestTable) (m : Member) : Prop :=
  ∀ row ∈ requests, row.peerPk = m.stableNodeId → row.fence = memberFence m

theorem FencedFor.from {db : AuthorityDb} {requests requests' : RequestTable} {m : Member}
    (h : FencedFor requests m) (hm : m ∈ db.members) (hfrom : FencesFrom db requests requests') :
    FencedFor requests' m := by
  intro row' hrow' hpeer
  rcases hfrom row' hrow' with ⟨row, hrow, hsame, hfence⟩ | ⟨other, hother, -, hid, hfence⟩
  · exact hfence.trans (h row hrow (hsame.trans hpeer))
  · cases member_eq hother hm (hid.trans hpeer)
    exact hfence

theorem fencedFor_activateAll
 (hvalid : ∀ effect ∈ effects,
      db.validateAttached effect.registry effect.lease effect.grant now = .ok ())
    (heffect : effect ∈ effects) (hm : m ∈ db.members)
    (hid : m.stableNodeId = effect.grant.stableNodeId) (t : RequestTable) :
    FencedFor (effects.foldl (fun requests effect => activateMembershipFence requests effect.grant)
      t) m := by
  induction effects generalizing t with
  | nil => cases heffect
  | cons first effects ih =>
    have hrest : ∀ effect ∈ effects,
        db.validateAttached effect.registry effect.lease effect.grant now = .ok () :=
      fun other hother => hvalid other (List.mem_cons_of_mem _ hother)
    rcases List.mem_cons.mp heffect with rfl | heffect
    · obtain ⟨n, hn, -, hnid, hauth, hmember, -⟩ :=
        validateAttached_member (hvalid _ (List.mem_cons_self ..))
      cases member_eq hn hm (hnid.trans hid.symm)
      have hfirst : FencedFor (activateMembershipFence t effect.grant) m := fun row hrow hpeer =>
        fence_activate hid hauth hmember row hrow (hpeer.trans hid)
      exact hfirst.from hm (FencesFrom.activateAll _ hrest)
    · exact ih hrest heffect _

/-! ## The incarnation of a claim -/

/-- The columns of the fence, as the claim has them. -/
def MeshSyncRequest.fence (claim : MeshSyncRequest) : StableNodeId × Nat × Nat × Bool :=
  (claim.stableNodeId, claim.authEpoch, claim.membershipEpoch, true)

/-- The claim is of an incarnation that the authority has left, or of the one that it is at, in
which the peer is active and its row fenced for the claim. -/
def Fenced (q : SyncQueue) (claim : MeshSyncRequest) : Prop :=
  claim.membershipEpoch ≤ q.authority.membershipEpoch ∧
  (q.authority.membershipEpoch = claim.membershipEpoch →
    ∃ m ∈ q.authority.members, m.state = .active ∧ m.stableNodeId = claim.peerPk ∧
    memberFence m = claim.fence ∧
      FencedFor q.requests m)

theorem Fenced.kept (h : Fenced q claim) (hkept : FencesKept q q') (hstamped : Stamped q.authority)
    (hstamped' : Stamped q'.authority) : Fenced q' claim := by
  refine ⟨h.1.trans hkept.1.1, fun hsame => ?_⟩
  have hbefore : q.authority.membershipEpoch = claim.membershipEpoch :=
    le_antisymm (hsame ▸ hkept.1.1) h.1
  obtain ⟨m, hm, hactive, hid, hfence, hrows⟩ := h.2 hbefore
  obtain ⟨m', hm', hid', hauth', hactive'⟩ := hkept.1.2 (hsame.trans hbefore.symm) m hm hactive
  have hepoch : m'.membershipEpoch = m.membershipEpoch := by
    rw [hstamped'.active m' hm' hactive', hstamped.active m hm hactive, hsame, hbefore]
  have hmember : memberFence m' = memberFence m := by
    rw [memberFence, memberFence, hid', hauth', hepoch]
  refine ⟨m', hm', hactive', hid'.trans hid, hmember.trans hfence, fun row hrow hpeer => ?_⟩
  rw [hmember]
  exact hrows.from hm hkept.2 row hrow (hpeer.trans hid')

variable {eligible : List String} {due : List MeshSyncRequest}

/-- A claim shows the fence of the row that it is taken from. -/
theorem claimLoop_fence {requests requests' : RequestTable} {claims claims' : List MeshSyncRequest}
    (hm : m ∈ db.members) (hfenced : FencedFor requests m)
    (h : SyncQueue.claimLoop eligible now due requests claims = .ok (requests', claims')) :
    ∀ c ∈ claims', c ∈ claims ∨ (c.peerPk = m.stableNodeId → c.fence = memberFence m) := by
  induction due generalizing requests claims with
  | nil =>
    cases h
    exact fun c hc => .inl hc
  | cons request due ih =>
    unfold SyncQueue.claimLoop at h
    split at h
    · cases h
      exact fun c hc => .inl hc
    · split at h
      · simp only [SyncQueue.passOver, bind_eq_ok_iff] at h
        obtain ⟨mid, ⟨_, -, hpass⟩, h⟩ := h
        cases hpass
        refine ih (hfenced.from hm ?_) h
        refine FencesFrom.update _ ?_
        exact fun _ => rfl
      · simp only [SyncQueue.claimOne, bind_eq_ok_iff, context_eq_ok_iff] at h
        obtain ⟨⟨mid, claim⟩, ⟨_, -, row, hfind, claim', hclaim, hone⟩, h⟩ := h
        cases hone
        have hmid : FencedFor _ m := @FencedFor.from _ _ (requests.update
            (SyncQueue.claimable request.peerPk now (max now request.requestedAt)) ({ · with
              state := .active, updatedAt := max now request.requestedAt
              lastAttemptAt := some (max now request.requestedAt), lastError := none }) fun _ =>
                rfl) _ hfenced hm <| by
          refine FencesFrom.update _ ?_
          exact fun _ => rfl
        intro c hc
        rcases ih hmid h c hc with hc | hc
        · rcases List.mem_append.mp hc with hc | hc
          · exact .inl hc
          · cases List.mem_singleton.mp hc
            obtain ⟨-, rfl⟩ := mapSyncRequestRow_eq_ok_iff.mp hclaim
            refine .inr fun hpeer => ?_
            have hfence := hmid row (Table.find_eq_some_iff.mp hfind).1 hpeer
            simp only [SyncRequestRow.fence, memberFence, Prod.mk.injEq] at hfence
            simp only [MeshSyncRequest.fence, SyncRequestRow.request, memberFence, hfence]
        · exact .inr hc

theorem claimDue_fenced (h : q.claimDueSyncRequests effects now authorityNow = .ok (q', claims)) :
    ∀ c ∈ claims, Fenced q' c := by
  unfold SyncQueue.claimDueSyncRequests at h
  split at h
  · cases h
    simp
  · simp only [bind_eq_ok_iff] at h
    obtain ⟨_, -, _, hvalid, due, -, ⟨requests, claimed⟩, hloop, h⟩ := h
    cases h
    have hvalid := validateAll hvalid
    intro c hc
    obtain ⟨-, new, hclaims, -, hnew⟩ := claimLoop_spec hloop
    rw [List.nil_append] at hclaims
    subst hclaims
    obtain ⟨effect, heffect, hpeer⟩ := List.mem_map.mp (hnew c hc).1
    obtain ⟨m, hm, hactive, hid, -, -, hcurrent⟩ := validateAttached_member (hvalid effect heffect)
    have hrows : FencedFor (q.beforeClaims effects now) m :=
      (fencedFor_activateAll hvalid heffect hm hid q.requests).from hm (.expire _ _ now)
    have hcid : m.stableNodeId = c.peerPk := hid.trans hpeer
    have hfence : c.fence = memberFence m := by
      rcases claimLoop_fence hm hrows hloop c hc with hnone | hfence
      · cases hnone
      · exact hfence hcid.symm
    have hepoch : c.membershipEpoch = m.membershipEpoch := congrArg (·.2.2.1) hfence
    exact ⟨(hepoch.trans hcurrent).le, fun _ => ⟨m, hm, hactive, hcid, hfence.symm,
      hrows.from hm (.claimLoop hloop)⟩⟩

theorem SyncQueue.step_claims_fenced [Sha256] [Ed25519] (path : String) (q : SyncQueue)
    (event : SyncEvent) : ∀ c ∈ (q.step path event).2.claims, Fenced (q.step path event).1 c := by
  intro c hc
  cases event with
  | claimDue effects now authorityNow =>
    simp only [SyncQueue.step] at hc ⊢
    cases hok : q.claimDueSyncRequests effects now authorityNow with
    | ok r =>
      rw [hok] at hc
      exact claimDue_fenced hok c hc
    | error e =>
      rw [hok] at hc
      cases hc
  | call action => cases hc
  | quarantine stableNodeId => cases hc
  | requestSync effect now authorityNow =>
    simp only [SyncQueue.step, SyncQueue.commit] at hc
    split at hc <;> cases hc
  | markSending effect claim now authorityNow =>
    simp only [SyncQueue.step, SyncQueue.commit] at hc
    split at hc
    · split at hc <;> cases hc
    · cases hc
  | markWaiting effect claim error now authorityNow =>
    simp only [SyncQueue.step, SyncQueue.commit] at hc
    split at hc
    · split at hc <;> cases hc
    · cases hc
  | markComplete effect claim now authorityNow =>
    simp only [SyncQueue.step, SyncQueue.commit] at hc
    split at hc
    · split at hc <;> cases hc
    · cases hc

/-! ## A stale answer -/

/-- An activation for the incarnation that the rows are fenced for changes nothing. -/
theorem activate_of_fenced (h : FencedFor t m)
    (hgrant : memberFence m = (grant.stableNodeId, grant.authEpoch, grant.membershipEpoch, true)) :
    activateMembershipFence t grant = t := by
  have hrows : ∀ row ∈ t, row.peerPk = grant.stableNodeId → row.fenceActive = true ∧
      row.stableNodeId = grant.stableNodeId ∧ row.authEpoch = grant.authEpoch ∧
      row.membershipEpoch = grant.membershipEpoch := by
    intro row hrow hpeer
    have hid : m.stableNodeId = grant.stableNodeId := congrArg Prod.fst hgrant
    have hfence := (h row hrow (hpeer.trans hid.symm)).trans hgrant
    simp only [SyncRequestRow.fence, Prod.mk.injEq] at hfence
    exact ⟨hfence.2.2.2, hfence.1, hfence.2.1, hfence.2.2.1⟩
  unfold activateMembershipFence
  rw [Table.delete_eq_self]
  · refine Table.update_of_fixed fun row hrow hselected => ?_
    simp only [Bool.and_eq_true, beq_iff_eq] at hselected
    obtain ⟨-, -, -, hepoch⟩ := hrows row hrow hselected.1.1.1
    rw [← hepoch]
  · refine Table.count_eq_zero_iff.mpr fun row hrow => ?_
    by_cases hpeer : row.peerPk = grant.stableNodeId
    · obtain ⟨hactive, hstable, hauth, -⟩ := hrows row hrow hpeer
      simp [hactive, hstable, hauth]
    · simp [hpeer]

theorem ensureClaimMatchesEffect_eq_ok
    (h : SyncQueue.ensureClaimMatchesEffect claim grant = .ok ()) :
    claim.fence = (grant.stableNodeId, grant.authEpoch, grant.membershipEpoch, true) := by
  simp only [SyncQueue.ensureClaimMatchesEffect, require_eq_ok_iff, Bool.and_eq_true,
    beq_iff_eq] at h
  obtain ⟨⟨hstable, hauth⟩, hmember⟩ := h
  rw [MeshSyncRequest.fence, hstable, hauth, hmember]

/-- A progress call that answers `false` for a claim leaves the table as it was. -/
theorem progress_stale {selects : SyncRequestRow → Bool} {f : SyncRequestRow → SyncRequestRow}
    {hf : ∀ row, (f row).peerPk = row.peerPk} (hfenced : Fenced q claim)
    (hmatches : SyncQueue.ensureClaimMatchesEffect claim effect.grant = .ok ())
    (hactivate : q.validateAndActivate effect authorityNow = .ok requests)
    (h : q.updateLease requests peerPk selects f hf = .ok (q', false)) : q' = q := by
  obtain ⟨hvalid, rfl⟩ := validateAndActivate_spec hactivate
  obtain ⟨-, -, hsame⟩ := updateLease_spec h
  obtain ⟨n, -, -, -, -, hepoch, hcurrent⟩ := validateAttached_member hvalid
  have hfence := ensureClaimMatchesEffect_eq_ok hmatches
  have hclaim : claim.membershipEpoch = effect.grant.membershipEpoch := congrArg (·.2.2.1) hfence
  obtain ⟨m, -, -, -, hmember, hrows⟩ := hfenced.2 (by rw [← hcurrent, hepoch, hclaim])
  rw [hsame rfl, activate_of_fenced hrows (hmember.trans hfence)]

theorem SyncQueue.stale_unchanged [Sha256] [Ed25519] {path : String} {event : SyncEvent}
    (hfenced : Fenced q claim) (h : (q.step path event).2 = .stale claim) :
      (q.step path event).1 = q := by
  have hresolve : ∀ effect (c : MeshSyncRequest) resolution now authorityNow,
      let next := q.commit (q.resolveSyncRequestClaim effect c resolution now authorityNow)
        fun changed =>
        if changed then .resolved c else .stale c
      next.2 = .stale claim → next.1 = q := by
    intro effect c resolution now authorityNow next hstale
    simp only [next, SyncQueue.commit] at hstale ⊢
    split at hstale
    · rename_i q' changed hok
      cases changed with
      | true => cases hstale
      | false =>
        cases hstale
        simp only [SyncQueue.resolveSyncRequestClaim, bind_eq_ok_iff] at hok
        obtain ⟨⟨⟩, hmatches, _, -, claimedAt, -, requests, hactivate, hok⟩ := hok
        exact progress_stale hfenced hmatches hactivate hok
    · cases hstale
  cases event with
  | call action => cases h
  | quarantine stableNodeId => cases h
  | requestSync effect now authorityNow =>
    simp only [SyncQueue.step, SyncQueue.commit] at h
    split at h <;> cases h
  | claimDue effects now authorityNow =>
    simp only [SyncQueue.step, SyncQueue.commit] at h
    split at h <;> cases h
  | markSending effect c now authorityNow =>
    simp only [SyncQueue.step, SyncQueue.commit] at h ⊢
    split at h
    · rename_i q' changed hok
      cases changed with
      | true => cases h
      | false =>
        cases h
        simp only [SyncQueue.markSyncRequestSending, bind_eq_ok_iff] at hok
        obtain ⟨⟨⟩, hmatches, _, -, claimedAt, -, sendAttempts, -, requests, hactivate, hok⟩ := hok
        exact progress_stale hfenced hmatches hactivate hok
    · cases h
  | markWaiting effect c error now authorityNow =>
    exact hresolve effect c (.waiting error) now authorityNow h
  | markComplete effect c now authorityNow => exact hresolve effect c .complete now authorityNow h

/-! ## The claims of a poll -/

/-- Rows are asked for before they expire. -/
def Timed (requests : RequestTable) : Prop :=
  ∀ row ∈ requests, row.requestedAt < row.expiresAt

variable {row : SyncRequestRow}

theorem RowMoves.timed {row row' : SyncRequestRow} (hmoves : RowMoves row row')
    (h : row.requestedAt < row.expiresAt) : row'.requestedAt < row'.expiresAt := by
  obtain ⟨-, -, hat⟩ := generation_eq_iff.mp hmoves.generation
  rwa [hat, hmoves.expiry]

theorem Timed.rowsFrom {t u : RequestTable} (h : Timed t) (hfrom : RowsFrom t u) : Timed u := by
  intro row' hrow'
  obtain ⟨row, hrow, hmoves⟩ := hfrom row' hrow'
  exact hmoves.timed (h row hrow)

theorem SyncStep.timed {q q' : SyncQueue} {event : SyncEvent} {a : SyncAnswer}
    (hstep : SyncStep q event a q') (h : Timed q.requests) : Timed q'.requests := by
  cases hstep with
  | moved hfrom _ => exact h.rowsFrom hfrom
  | claimed hfrom _ _ => exact h.rowsFrom hfrom
  | sent hfrom _ _ => exact h.rowsFrom hfrom
  | resolved hfrom _ _ => exact h.rowsFrom hfrom
  | requested _ hexpires hrows =>
    rw [hrows]
    intro row' hrow'
    rcases Table.mem_put.mp hrow' with rfl | ⟨hrow', -⟩
    · exact hexpires
    · obtain ⟨row, hrow, hmoves, -⟩ := mem_retain hrow'
      exact hmoves.timed (h row hrow)

/-- The request of a row that may be claimed. -/
structure Claimable (requests : RequestTable) (now : Int) (request : MeshSyncRequest)
    (row : SyncRequestRow) : Prop where
  mem : row ∈ requests
  request : request = row.request
  due : SyncQueue.isDue now row = true
  timed : row.requestedAt < row.expiresAt
  readable : 0 < row.authEpoch ∧ 0 < row.membershipEpoch

theorem claimable_peer {now at_ : Int} (h : SyncQueue.claimable peerPk now at_ row = true) :
    row.peerPk = peerPk := by
  simp only [SyncQueue.claimable, Bool.and_eq_true, beq_iff_eq] at h
  exact h.1.1.1

variable {request : MeshSyncRequest}

theorem Claimable.selected (h : Claimable requests now request row) :
    SyncQueue.claimable request.peerPk now (max now request.requestedAt) row = true := by
  have hdue := h.due
  simp only [SyncQueue.isDue, Bool.and_eq_true, decide_eq_true_eq] at hdue
  obtain ⟨⟨hopen, hbefore⟩, hlast⟩ := hdue
  have hat : max now row.requestedAt < row.expiresAt := max_lt hbefore h.timed
  rw [h.request]
  simp only [SyncQueue.claimable, SyncRequestRow.request, beq_self_eq_true, hopen, hat, hlast,
    decide_true, Bool.and_self]

/-- A turn for one peer leaves the rows of the others as they are. -/
theorem Claimable.of_update (h : Claimable requests now request row)
    (hother : request.peerPk ≠ peerPk)
    {selects : SyncRequestRow → Bool} {f : SyncRequestRow → SyncRequestRow}
    {hf : ∀ row, (f row).peerPk = row.peerPk}
    (hselects : ∀ row, selects row = true → row.peerPk = peerPk) :
    Claimable (requests.update selects f hf) now request row := by
  refine ⟨?_, h.request, h.due, h.timed, h.readable⟩
  simp only [Table.mem_update]
  refine ⟨row, h.mem, (if_neg fun hselected => hother ?_).symm⟩
  rw [h.request]
  exact hselects row hselected

/-- A claim finds its row, and the others stay claimable. -/
theorem Claimable.claimOne {requests : RequestTable} {now : Int} {request : MeshSyncRequest}
    {row : SyncRequestRow}
    (h : Claimable requests now request row) : ∃ mid claim,
      SyncQueue.claimOne requests request now = .ok (mid, claim) ∧
      ∀ later other, later.peerPk ≠ request.peerPk → Claimable requests now later other →
        Claimable mid now later other := by
  have hone :
      requests.count (SyncQueue.claimable request.peerPk now (max now request.requestedAt)) =
        1 := by
    refine le_antisymm (Table.count_le_one (k := request.peerPk) fun _ => claimable_peer) ?_
    by_contra hzero
    have hnone := Table.count_eq_zero_iff.mp (Nat.lt_one_iff.mp (not_le.mp hzero)) row h.mem
    rw [h.selected] at hnone
    cases hnone
  let mid : RequestTable :=
    requests.update (SyncQueue.claimable request.peerPk now (max now request.requestedAt)) ({ · with
      state := .active, updatedAt := max now request.requestedAt
      lastAttemptAt := some (max now request.requestedAt), lastError := none }) fun _ => rfl
  have htaken : mid.find request.peerPk = some { row with
      state := .active, updatedAt := max now request.requestedAt
      lastAttemptAt := some (max now request.requestedAt), lastError := none } := by
    refine Table.find_eq_some_iff.mpr ⟨Table.mem_update.mpr ⟨row, h.mem, (if_pos h.selected).symm⟩,
      ?_⟩
    rw [h.request]
    rfl
  have hok : ∃ claim, SyncQueue.claimOne requests request now = .ok (mid, claim) := by
    simp only [SyncQueue.claimOne, bind_eq_ok_iff, require_eq_ok_iff, context_eq_ok_iff, beq_iff_eq]
    exact ⟨_, (), hone, _, htaken, _, mapSyncRequestRow_eq_ok_iff.mpr ⟨h.readable, rfl⟩, rfl⟩
  obtain ⟨claim, hok⟩ := hok
  exact ⟨mid, claim, hok, fun later other hother hlater => hlater.of_update hother fun _ =>
    claimable_peer⟩

theorem passOver_total (requests : RequestTable) (request : MeshSyncRequest) (now : Int) :
    ∃ mid, SyncQueue.passOver requests request now = .ok mid ∧
      ∀ later other, later.peerPk ≠ request.peerPk → Claimable requests now later other →
        Claimable mid now later other := by
  have hpeer : ∀ row, (SyncQueue.claimable request.peerPk now (max now request.requestedAt) row &&
      row.requestedAt == request.requestedAt) = true → row.peerPk = request.peerPk :=
        fun row hselected =>
    claimable_peer (Bool.and_eq_true_iff.mp hselected).1
  have hcount := Table.count_le_one (t := requests) hpeer
  refine ⟨_, (bind_eq_ok_iff ..).mpr ⟨(), require_eq_ok_iff.mpr (decide_eq_true hcount), rfl⟩, ?_⟩
  exact fun later other hother hlater => hlater.of_update hother hpeer

theorem claimLoop_total (claims : List MeshSyncRequest) (hnodup : (due.map (·.peerPk)).Nodup)
    (hdue : ∀ request ∈ due, ∃ row, Claimable requests now request row) :
    ∃ r, SyncQueue.claimLoop eligible now due requests claims = .ok r := by
  induction due generalizing requests claims with
  | nil => exact ⟨_, rfl⟩
  | cons request due ih =>
    obtain ⟨hfresh, hnodup⟩ := List.nodup_cons.mp hnodup
    have hother : ∀ later ∈ due, later.peerPk ≠ request.peerPk := fun later hlater hsame =>
      hfresh (List.mem_map.mpr ⟨later, hlater, hsame⟩)
    have hrest : ∀ mid : RequestTable, (∀ later other, later.peerPk ≠ request.peerPk →
        Claimable requests now later other → Claimable mid now later other) →
        ∀ later ∈ due, ∃ row, Claimable mid now later row := by
      intro mid hmid later hlater
      obtain ⟨other, hclaimable⟩ := hdue later (List.mem_cons_of_mem _ hlater)
      exact ⟨other, hmid later other (hother later hlater) hclaimable⟩
    obtain ⟨row, hrow⟩ := hdue request (List.mem_cons_self ..)
    unfold SyncQueue.claimLoop
    split
    · exact ⟨_, rfl⟩
    · split
      · obtain ⟨mid, hpass, hmid⟩ := passOver_total requests request now
        obtain ⟨r, hr⟩ := ih claims hnodup (hrest mid hmid)
        exact ⟨r, (bind_eq_ok_iff ..).mpr ⟨mid, hpass, hr⟩⟩
      · obtain ⟨mid, claim, hone, hmid⟩ := hrow.claimOne
        obtain ⟨r, hr⟩ := ih (claims ++ [claim]) hnodup (hrest mid hmid)
        exact ⟨r, (bind_eq_ok_iff ..).mpr ⟨(mid, claim), hone, hr⟩⟩

/-- The claims of a poll that has read its due requests all find their rows. -/
theorem claims_total (eligible : List String) (h : Timed requests)
    (hlist : SyncQueue.listDueSyncRequests requests now = .ok due) :
    ∃ r, SyncQueue.claimLoop eligible now due requests [] = .ok r := by
  refine claimLoop_total [] (listDue_nodup hlist) fun request hrequest => ?_
  obtain ⟨hreadable, hmap⟩ := (mapM_eq_ok_iff fun _ _ => mapSyncRequestRow_eq_ok_iff).mp hlist
  rw [hmap] at hrequest
  obtain ⟨row, hrow, rfl⟩ := List.mem_map.mp hrequest
  have hsorted := hrow
  rw [List.mem_insertionSort, List.mem_filter] at hrow
  exact ⟨row, hrow.1, rfl, hrow.2, h row hrow.1, hreadable row hsorted⟩

end Neoth.SyncRequests
