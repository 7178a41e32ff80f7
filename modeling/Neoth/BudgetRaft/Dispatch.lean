import Neoth.BudgetRaft.LedgerSafety

/-!
# Provider dispatch: at most once per grant

`cluster/budget_raft/service.rs` hands a provider call to a caller only with a
`NewDispatchPermit`, and `begin_dispatch` is the only place that makes one, from
a `NewClaimed` reply.  Callers race, retry and lose acknowledgements; the ledger
sees some interleaving of their commands, and each reply reaches at most the
caller that wrote its command.

* `Shows`: what a claim or a release leaves in the ledger for good;
* `claims_and_releases_exclude`: replies of a run that may not go together;
* `dispatch_at_most_once`: the guarantee for callers.
-/

open Std Lib.TreeMap Lib.Machine

namespace Neoth.BudgetRaft

/-! ## The service -/

inductive BudgetServiceError
  | configuration (detail : String)
  | recovery (detail : String)
  | unavailable (detail : String)
  | rejected (reason : BudgetRejection)
  | unexpectedReply
  | originMismatch

structure AuthenticatedLocalInvocation where
  stableNodeId : StableNodeId
  transportIdentity : TransportIdentity
  membershipEpoch : UInt64
  deriving DecidableEq

/-- The capability for one provider call. -/
structure NewDispatchPermit where
  grantId : BudgetGrantId
  dispatchFence : DispatchFence
  owner : StableNodeId
  attemptId : DispatchAttemptId
  providerIntentId : String
  claimReceipt : ClaimReceipt

/-- What the service knows of itself. -/
structure BudgetRaftService where
  config : BudgetClusterConfig
  localNodeId : UInt64
  localStableNodeId : StableNodeId
  localTransportIdentity : TransportIdentity

namespace BudgetRaftService

def verifyLocalOrigin (service : BudgetRaftService) (origin : AuthenticatedLocalInvocation)
    (requestedOwner : StableNodeId) : Except BudgetServiceError Unit :=
  if origin.stableNodeId ≠ service.localStableNodeId ∨
      origin.transportIdentity ≠ service.localTransportIdentity ∨
      origin.membershipEpoch ≠ service.config.membershipEpoch ∨
      requestedOwner ≠ service.localStableNodeId ∨ service.localNodeId = 0 then
    .error .originMismatch
  else .ok ()

/-- The reply of `write` turned into a permit: only a first claim makes one. -/
def mintPermit : BudgetReply → Except BudgetServiceError NewDispatchPermit
  | .newClaimed receipt => .ok {
      grantId := receipt.grantId
      dispatchFence := receipt.dispatchFence
      owner := receipt.owner
      attemptId := receipt.attemptId
      providerIntentId := receipt.providerIntentId
      claimReceipt := receipt }
  | .alreadyClaimed _ =>
    .error (.unavailable "claim is already committed; reconcile before any provider retry")
  | .reconcileOnly _ =>
    .error (.unavailable "claim is already committed; reconcile before any provider retry")
  | .rejected reason => .error (.rejected reason)
  | _ => .error .unexpectedReply

/-- `begin_dispatch`.  `revalidated` is what the membership validator answers, and
`write` the outcome of a quorum write: a reply of the ledger, or an error when
none arrived in time. -/
def beginDispatch (service : BudgetRaftService)
    (revalidated : Except BudgetServiceError AuthenticatedLocalInvocation)
    (write : BudgetCommand → Except BudgetServiceError BudgetReply)
    (origin : AuthenticatedLocalInvocation) (request : BeginDispatch) :
    Except BudgetServiceError NewDispatchPermit := do
  let fresh ← revalidated
  if fresh ≠ origin then
    .error .originMismatch
  else
    service.verifyLocalOrigin fresh request.owner
    let reply ← write (.beginDispatch request)
    mintPermit reply

end BudgetRaftService

/-- The grant a reply claims for the first time. -/
def BudgetReply.claimedGrant : BudgetReply → Option BudgetGrantId
  | .newClaimed receipt => some receipt.grantId
  | _ => none

/-- The grant a reply confirms as released. -/
def BudgetReply.releasedGrant : BudgetReply → Option BudgetGrantId
  | .released receipt => some receipt.grantId
  | _ => none

open BudgetRaftService in
/-- A caller that holds a permit was handed a first claim of that grant. -/
theorem claimedGrant_of_mintPermit {reply : BudgetReply} {permit : NewDispatchPermit}
    (h : mintPermit reply = .ok permit) : reply.claimedGrant = some permit.grantId := by
  cases reply <;> cases h
  rfl

open BudgetRaftService in
/-- `begin_dispatch` returns a permit only for a first claim of the grant asked for. -/
theorem write_of_beginDispatch {service : BudgetRaftService}
    {revalidated : Except BudgetServiceError AuthenticatedLocalInvocation}
    {write : BudgetCommand → Except BudgetServiceError BudgetReply}
    {origin : AuthenticatedLocalInvocation} {request : BeginDispatch} {permit : NewDispatchPermit}
    (h : service.beginDispatch revalidated write origin request = .ok permit) :
    ∃ reply, write (.beginDispatch request) = .ok reply ∧ mintPermit reply = .ok permit := by
  unfold beginDispatch at h
  cases hfresh : revalidated with
  | error e => simp [hfresh, bind, Except.bind] at h
  | ok fresh =>
    rw [hfresh] at h
    simp only [bind, Except.bind] at h
    split at h
    · cases h
    · split at h
      · cases h
      · split at h
        · cases h
        · rename_i reply hreply
          exact ⟨reply, hreply, h⟩

/-! ## What claims and releases leave behind -/

variable [Sha256]

/-- A grant that has been claimed, whatever came of it. -/
def GrantState.isClaimed : GrantState → Bool
  | .claimed _ => true
  | .settled _ _ _ => true
  | .overrun _ _ _ _ => true
  | _ => false

def GrantState.isReleased : GrantState → Bool
  | .released _ => true
  | _ => false

/-- The ledger shows what `reply` said: the claimed grant as claimed, the released
one as released. -/
structure Shows (reply : BudgetReply) (ledger : BudgetLedger) : Prop where
  claimed : ∀ id, reply.claimedGrant = some id →
    ∃ record, ledger.grants[id]? = some record ∧ record.state.isClaimed = true
  released : ∀ id, reply.releasedGrant = some id →
    ∃ record, ledger.grants[id]? = some record ∧ record.state.isReleased = true

/-- Neither two first claims of one grant, nor a claim and a release of it. -/
structure Compatible (first second : BudgetReply) : Prop where
  claim_claim : ∀ id, first.claimedGrant = some id → second.claimedGrant ≠ some id
  release_claim : ∀ id, first.releasedGrant = some id → second.claimedGrant ≠ some id
  claim_release : ∀ id, first.claimedGrant = some id → second.releasedGrant ≠ some id

section Step
variable {ledger ledger' : BudgetLedger} {position : CommittedLogPosition} {command : BudgetCommand}
  {reply : BudgetReply} {id : BudgetGrantId}

/-- A first claim is the answer to a claim command, on a grant still reserved. -/
theorem Step.of_claimedGrant (h : Step ledger position command ledger' reply)
    (hclaim : reply.claimedGrant = some id) : command.grantId = id ∧
      (∃ record, ledger.grants[id]? = some record ∧ record.state = .reserved) ∧
      (∃ record, ledger'.grants[id]? = some record ∧ record.state.isClaimed = true) := by
  cases h with
  | claimed hchecks hstate =>
    cases hclaim
    exact ⟨rfl, ⟨_, hchecks.get, hstate⟩, _, getElem?_setState _ _ _ _, rfl⟩
  | replayed h => cases h <;> cases hclaim
  | _ => cases hclaim

/-- A release is the answer to a release command, on a grant reserved or released. -/
theorem Step.of_releasedGrant (hvalid : ledger.validate = .ok ())
    (h : Step ledger position command ledger' reply) (hrelease : reply.releasedGrant = some id) :
    command.grantId = id ∧
      (∃ record, ledger.grants[id]? = some record ∧ record.state.isClaimed = false) ∧
      (∃ record, ledger'.grants[id]? = some record ∧ record.state.isReleased = true) := by
  cases h with
  | released hget hfence hstate =>
    cases hrelease
    exact ⟨rfl, ⟨_, hget, by rw [hstate]; rfl⟩, _, getElem?_setState _ _ _ _, rfl⟩
  | replayed h =>
    cases h with
    | @released grantId fence record receipt hget hfence hstate =>
      cases hrelease
      -- validation ties the receipt on record to the id it is stored under
      have hid : receipt.grantId = grantId := by
        obtain ⟨hid, -, -, hvalidState⟩ :=
          ((validate_eq_ok_iff ledger).mp hvalid).2.1 grantId record hget
        rw [validateState, hstate] at hvalidState
        dsimp only at hvalidState
        by_contra hne
        rw [if_pos (.inl (hid ▸ hne))] at hvalidState
        cases hvalidState
      subst hid
      exact ⟨rfl, ⟨_, hget, by rw [hstate]; rfl⟩, _, hget, by rw [hstate]; rfl⟩
    | _ => cases hrelease
  | _ => cases hrelease

theorem Step.shows (hvalid : ledger.validate = .ok ())
    (h : Step ledger position command ledger' reply) : Shows reply ledger' :=
  ⟨fun _ hclaim => (h.of_claimedGrant hclaim).2.2,
    fun _ hrelease => (h.of_releasedGrant hvalid hrelease).2.2⟩

theorem Step.isClaimed (h : Step ledger position command ledger' reply) {record : GrantRecord}
    (hget : ledger.grants[id]? = some record) (hclaimed : record.state.isClaimed = true) :
    ∃ record', ledger'.grants[id]? = some record' ∧ record'.state.isClaimed = true := by
  rcases h.grant hget with hsame | ⟨state, hmoves, hmoved⟩
  · exact ⟨record, hsame, hclaimed⟩
  · refine ⟨_, hmoved, ?_⟩
    generalize hstate : record.state = before at hmoves hclaimed
    cases hmoves with
    | settle => rfl
    | overrun => rfl
    | claim => cases hclaimed
    | release => cases hclaimed

theorem Step.isReleased (h : Step ledger position command ledger' reply) {record : GrantRecord}
    (hget : ledger.grants[id]? = some record) (hreleased : record.state.isReleased = true) :
    ledger'.grants[id]? = some record := by
  rcases h.grant hget with hsame | ⟨state, hmoves, -⟩
  · exact hsame
  · generalize hstate : record.state = before at hmoves hreleased
    cases hmoves <;> cases hreleased

theorem Shows.step {earlier : BudgetReply} (h : Step ledger position command ledger' reply)
    (hshows : Shows earlier ledger) : Shows earlier ledger' := by
  constructor
  · intro id hclaim
    obtain ⟨record, hget, hclaimed⟩ := hshows.claimed id hclaim
    exact h.isClaimed hget hclaimed
  · intro id hrelease
    obtain ⟨record, hget, hreleased⟩ := hshows.released id hrelease
    exact ⟨record, h.isReleased hget hreleased, hreleased⟩

theorem Shows.compatible {earlier : BudgetReply} (hvalid : ledger.validate = .ok ())
    (h : Step ledger position command ledger' reply) (hshows : Shows earlier ledger) :
    Compatible earlier reply := by
  constructor
  · intro id hclaim hagain
    obtain ⟨record, hget, hclaimed⟩ := hshows.claimed id hclaim
    obtain ⟨-, ⟨record', hget', hreserved⟩, -⟩ := h.of_claimedGrant hagain
    rw [hget] at hget'
    cases hget'
    rw [hreserved] at hclaimed
    cases hclaimed
  · intro id hrelease hagain
    obtain ⟨record, hget, hreleased⟩ := hshows.released id hrelease
    obtain ⟨-, ⟨record', hget', hreserved⟩, -⟩ := h.of_claimedGrant hagain
    rw [hget] at hget'
    cases hget'
    rw [hreserved] at hreleased
    cases hreleased
  · intro id hclaim hagain
    obtain ⟨record, hget, hclaimed⟩ := hshows.claimed id hclaim
    obtain ⟨-, ⟨record', hget', hunclaimed⟩, -⟩ := h.of_releasedGrant hvalid hagain
    rw [hget] at hget'
    cases hget'
    rw [hunclaimed] at hclaimed
    cases hclaimed

end Step

/-! ## Runs -/

theorem claims_and_releases_exclude {ledger : BudgetLedger} (hvalid : ledger.validate = .ok ())
    (calls : List Call) :
    (run BudgetLedger.applyCall ledger calls).2.Pairwise Compatible :=
  pairwise_run (Q := Shows) applyCall_valid
    (fun _ call hvalid => (applyCall_step hvalid call).shows hvalid)
    (fun _ _ call hvalid hshows => hshows.step (applyCall_step hvalid call))
    (fun _ _ call hvalid hshows => hshows.compatible hvalid (applyCall_step hvalid call))
    ledger hvalid calls

/-- Every reply of a run shows in the ledger at its end. -/
theorem shows_of_mem_run {ledger : BudgetLedger} (hvalid : ledger.validate = .ok ())
    (calls : List Call) :
    ∀ reply ∈ (run BudgetLedger.applyCall ledger calls).2,
      Shows reply (run BudgetLedger.applyCall ledger calls).1 := by
  intro reply hmem
  obtain ⟨before, call, after, rfl, rfl⟩ := exists_step_of_mem_run hmem
  rw [run_append]
  have hbefore := run_invariant applyCall_valid ledger hvalid before
  have hstep := applyCall_step hbefore call
  refine (run_invariant (P := fun ledger' => ledger'.validate = .ok () ∧ Shows _ ledger') ?_ _
    ⟨hstep.valid hbefore, hstep.shows hbefore⟩ after).2
  rintro ledger' call' ⟨hvalid', hshows⟩
  exact ⟨applyCall_valid ledger' call' hvalid', hshows.step (applyCall_step hvalid' call')⟩

/-- The grants that got a first claim, in order. -/
def claimedGrants (replies : List BudgetReply) : List BudgetGrantId :=
  replies.filterMap BudgetReply.claimedGrant

omit [Sha256] in
theorem nodup_claimedGrants {replies : List BudgetReply} (h : replies.Pairwise Compatible) :
    (claimedGrants replies).Nodup := by
  unfold claimedGrants List.Nodup
  rw [List.pairwise_filterMap]
  refine h.imp ?_
  rintro first second hcompatible id hid id' hid' rfl
  exact hcompatible.claim_claim id hid hid'

omit [Sha256] in
theorem compatible_of_lt {replies : List BudgetReply} (h : replies.Pairwise Compatible) {i j : Nat}
    (hij : i < j) {first second : BudgetReply} (hfirst : replies[i]? = some first)
    (hsecond : replies[j]? = some second) : Compatible first second := by
  obtain ⟨hi, rfl⟩ := List.getElem?_eq_some_iff.mp hfirst
  obtain ⟨hj, rfl⟩ := List.getElem?_eq_some_iff.mp hsecond
  exact List.pairwise_iff_getElem.mp h i j hi hj hij

/-- The bound of a grant in the ledger, 0 for none. -/
def BudgetLedger.boundOf (ledger : BudgetLedger) (id : BudgetGrantId) : Nat :=
  (ledger.grants[id]?.map bound).getD 0

/-- The caller whose write became log entry `i` is answered with the reply of that
entry, or not at all. -/
def AnsweredAt (calls : List Call) (replies : List BudgetReply) (i : Nat)
    (write : BudgetCommand → Except BudgetServiceError BudgetReply) : Prop :=
  ∀ command reply, write command = .ok reply →
    calls[i]?.map Call.command = some command ∧ replies[i]? = some reply

/-- **Dispatch happens at most once per grant.**  Over any run, a grant id gets at
most one first claim; no first claim follows a release of the grant and no release
a first claim; the bounds of the grants claimed sum to at most the cap; and two
callers that were handed a permit for the same grant are the same caller, at the
same entry of the log. -/
theorem dispatch_at_most_once (config : BudgetClusterConfig) (hconfig : config.validate = .ok ()) :
    ∃ start, BudgetLedger.new config = .ok start ∧ ∀ calls : List Call,
      let ledger := (run BudgetLedger.applyCall start calls).1
      let replies := (run BudgetLedger.applyCall start calls).2
      (∀ id, (claimedGrants replies).count id ≤ 1) ∧
      (∀ (i j : Nat) (released claimed : BudgetReply) (id : BudgetGrantId), i < j →
        replies[i]? = some released → replies[j]? = some claimed →
        released.releasedGrant = some id → claimed.claimedGrant ≠ some id) ∧
      (∀ (i j : Nat) (claimed released : BudgetReply) (id : BudgetGrantId), i < j →
        replies[i]? = some claimed → replies[j]? = some released →
        claimed.claimedGrant = some id → released.releasedGrant ≠ some id) ∧
      (∀ id ∈ claimedGrants replies, ∃ record, ledger.grants[id]? = some record) ∧
      ((claimedGrants replies).map ledger.boundOf).sum ≤ config.capUsdNanos.toNat ∧
      (∀ (i j : Nat) (service service' : BudgetRaftService)
        (revalidated revalidated' : Except BudgetServiceError AuthenticatedLocalInvocation)
        (write write' : BudgetCommand → Except BudgetServiceError BudgetReply)
        (origin origin' : AuthenticatedLocalInvocation) (request request' : BeginDispatch)
        (permit permit' : NewDispatchPermit),
        AnsweredAt calls replies i write → AnsweredAt calls replies j write' →
        service.beginDispatch revalidated write origin request = .ok permit →
        service'.beginDispatch revalidated' write' origin' request' = .ok permit' →
        permit.grantId = permit'.grantId → i = j) := by
  refine ⟨_, new_eq_ok hconfig, ?_⟩
  intro calls ledger replies
  have hstart := (reachable_valid ⟨_, [], new_eq_ok hconfig, rfl⟩).1
  obtain ⟨hvalid, hledger⟩ : ledger.validate = .ok () ∧ ledger.config = config :=
    reachable_valid ⟨_, calls, new_eq_ok hconfig, rfl⟩
  have hpairwise : replies.Pairwise Compatible := claims_and_releases_exclude hstart calls
  have hclaimed : ∀ id ∈ claimedGrants replies, ∃ record, ledger.grants[id]? = some record := by
    intro id hid
    obtain ⟨reply, hmem, hreply⟩ := List.mem_filterMap.mp hid
    obtain ⟨record, hget, -⟩ := (shows_of_mem_run hstart calls reply hmem).claimed id hreply
    exact ⟨record, hget⟩
  have hsum : ((claimedGrants replies).map ledger.boundOf).sum ≤ ledger.reservedSum := by
    refine sum_map_le_total bound ledger.boundOf _ ledger.grants (nodup_claimedGrants hpairwise) ?_
    intro id hid
    obtain ⟨record, hget⟩ := hclaimed id hid
    exact ⟨record, hget, by simp [BudgetLedger.boundOf, hget]⟩
  have hcap : ledger.reservedSum ≤ config.capUsdNanos.toNat :=
    hledger ▸ ((validate_eq_ok_iff ledger).mp hvalid).2.2
  refine ⟨fun id => List.nodup_iff_count_le_one.mp (nodup_claimedGrants hpairwise) id, ?_, ?_,
    hclaimed, hsum.trans hcap, ?_⟩
  · intro i j released claimed id hij hi hj
    exact (compatible_of_lt hpairwise hij hi hj).release_claim id
  · intro i j claimed released id hij hi hj
    exact (compatible_of_lt hpairwise hij hi hj).claim_release id
  · intro i j service service' revalidated revalidated' write write' origin origin' request request'
      permit permit' hi hj hpermit hpermit' hsame
    obtain ⟨reply, hreply, hmint⟩ := write_of_beginDispatch hpermit
    obtain ⟨reply', hreply', hmint'⟩ := write_of_beginDispatch hpermit'
    have hclaim := claimedGrant_of_mintPermit hmint
    have hclaim' := hsame ▸ claimedGrant_of_mintPermit hmint'
    have hget := (hi _ _ hreply).2
    have hget' := (hj _ _ hreply').2
    rcases Nat.lt_trichotomy i j with hlt | heq | hlt
    · exact absurd hclaim' ((compatible_of_lt hpairwise hlt hget hget').claim_claim _ hclaim)
    · exact heq
    · exact absurd hclaim ((compatible_of_lt hpairwise hlt hget' hget).claim_claim _ hclaim')

omit [Sha256] in
theorem dispatch_at_most_once_sample :
    ∃ start, @BudgetLedger.new Sha256.fips sampleConfig = .ok start ∧
      let replies := (run (@BudgetLedger.applyCall Sha256.fips) start (@sampleCalls Sha256.fips)).2
      claimedGrants replies = [sampleReserve.grantId, anotherReserve.grantId] ∧
        (claimedGrants replies).count sampleReserve.grantId ≤ 1 ∧
        ((claimedGrants replies).map (run (@BudgetLedger.applyCall Sha256.fips) start
          (@sampleCalls Sha256.fips)).1.boundOf).sum ≤ 1000 := by
  obtain ⟨start, hnew, hrun⟩ :=
    @dispatch_at_most_once Sha256.fips sampleConfig sampleConfig_validate
  obtain rfl : start = sampleLedger := by
    rw [@new_eq_ok Sha256.fips _ sampleConfig_validate] at hnew
    exact (Except.ok.inj hnew).symm
  obtain ⟨_, _, claim, _, _, claim', _, _, hreplies, hfirst, hsecond, -⟩ :=
    @run_sampleCalls Sha256.fips sampleConfig_validate
  obtain ⟨hcount, -, -, -, hsum, -⟩ := hrun (@sampleCalls Sha256.fips)
  refine ⟨_, hnew, ?_, hcount _, hsum⟩
  rw [hreplies, ← hfirst, ← hsecond]
  rfl

end Neoth.BudgetRaft
