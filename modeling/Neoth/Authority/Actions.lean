import Neoth.Authority.Steps

/-!
# The authority as a machine

The calls of the store as actions, and the one list of everything an action can do to the database
(`Step`), from which every invariant is proved.

* `step_spec`: an action is a `Step`, or, when a store is opened, a sequence of them;
* `step_keeps`, `step_keeps_of_meets`: what every `Step` of an action keeps, the action keeps.
-/

open Lib Lib.Transaction

namespace Neoth.Authority

open AuthorityDb

/-- A call of the store, with its arguments and what it draws at random or reads from the clock. -/
inductive Action
  | openStore (peers : List LegacyPeer)
  | createInvite (inviteId : String) (stableNodeId : StableNodeId) (signingPublicKey : PublicKey)
      (carrier : CarrierKind) (transport : TransportIdentity) (endpoint label : String)
      (now expiresAt : Int)
  | confirmInvite (inviteId : String) (attestation : EndpointAttestation) (carrier : CarrierKind)
      (transport : TransportIdentity) (endpoint : String) (now : Int)
  | recordLegacyPending (carrier : CarrierKind) (transport : TransportIdentity)
    (endpoint label : String)
  | startRevocationIntent (binding : MembershipRevokeBinding) (externalEffectsUnclassified : Bool)
  | markRevocationIndeterminate (requestId reason : String)
  | finalizeRevocationIntent (binding : MembershipRevokeBinding) (receiptId liveTeardown : String)
      (details : TeardownDetails)
  | markOutboxDelivered (id : Nat) (deliveredAt : Int)
  | updateTeardown (receiptId status : String) (details : TeardownDetails)
  | appendMembershipAudit (event : OutboxRow)
  | applyMembershipProjection (event : OutboxRow)

/-- The writes of a drain. -/
def Action.ofDrain : Action → Bool
  | .markOutboxDelivered .. | .updateTeardown .. | .appendMembershipAudit .. |
    .applyMembershipProjection .. => true
  | _ => false

inductive Answer
  | done
  | invited (row : EnrollmentInviteRow)
  | named (stableNodeId : StableNodeId)
  | intent (row : RevocationIntent)
  | revoked (tombstone : Except String RevocationTombstone)

/-- A body that answers with nothing. -/
def unit (body : Except String AuthorityDb) : Except String (AuthorityDb × Answer) :=
  body.map fun db => (db, .done)

/-- A body and how its result is answered. -/
def answer {A : Type} (f : A → Answer) (body : Except String (AuthorityDb × A)) :
    Except String (AuthorityDb × Answer) :=
  body.map fun r => (r.1, f r.2)

def AuthorityDb.perform [Sha256] [Ed25519] (path : String) (db : AuthorityDb) :
    Action → Except String (AuthorityDb × Answer)
  | .openStore peers => unit (db.importLegacyOnce peers)
  | .createInvite inviteId stableNodeId key carrier transport endpoint label now expiresAt =>
    answer .invited
      (db.createInvite inviteId stableNodeId key carrier transport endpoint label now expiresAt)
  | .confirmInvite inviteId attestation carrier transport endpoint now =>
    answer .invited (db.confirmInvite inviteId attestation carrier transport endpoint now)
  | .recordLegacyPending carrier transport endpoint label =>
    answer .named (db.recordLegacyPending carrier transport endpoint label)
  | .startRevocationIntent binding unclassified =>
    answer .intent (db.startRevocationIntent path binding unclassified)
  | .markRevocationIndeterminate requestId reason =>
    unit (db.markRevocationIndeterminate requestId reason)
  | .finalizeRevocationIntent binding receiptId liveTeardown details =>
    answer .revoked (db.finalizeRevocationIntent path binding receiptId liveTeardown details)
  | .markOutboxDelivered id deliveredAt => unit (db.markOutboxDelivered id deliveredAt)
  | .updateTeardown receiptId status details => unit (db.updateTeardown receiptId status details)
  | .appendMembershipAudit event => unit (.ok (db.appendMembershipAudit event))
  | .applyMembershipProjection event => unit (.ok (db.applyMembershipProjection event))

/-- One call; an error leaves the database as it was. -/
def AuthorityDb.step [Sha256] [Ed25519] (path : String) (db : AuthorityDb) (action : Action) :
    AuthorityDb × Except String Answer :=
  transact (fun db => db.perform path action) db

/-! ## Everything a step can do -/

/-- The tables of membership are the same, and so is what intents and invites there are. -/
structure SameMembership (db db' : AuthorityDb) : Prop where
  membershipEpoch : db'.membershipEpoch = db.membershipEpoch
  revocationFloor : db'.revocationFloor = db.revocationFloor
  members : db'.members = db.members
  bindings : db'.bindings = db.bindings
  tombstones : db'.tombstones = db.tombstones
  invites : db'.invites = db.invites
  intents : db'.intents = db.intents
  nextOutboxId : db'.nextOutboxId = db.nextOutboxId
  /-- Events are only ever marked as delivered. -/
  outbox : db'.outbox.rows.map OutboxRow.id = db.outbox.rows.map OutboxRow.id

theorem SameMembership.refl (db : AuthorityDb) : SameMembership db db :=
  ⟨rfl, rfl, rfl, rfl, rfl, rfl, rfl, rfl, rfl⟩

/-- What an action can do to the database in one transaction. -/
inductive Step [Sha256] : Action → AuthorityDb → AuthorityDb → Prop
  | same {action : Action} {db db' : AuthorityDb} (h : SameMembership db db')
      (hevents : action.ofDrain = false → SameEvents db db') : Step action db db'
  | imported {db db' : AuthorityDb} {peers : List LegacyPeer} {peer : LegacyPeer}
    (hpeer : peer ∈ peers)
      (h : LegacyAdded db db' peer.pubKeyHex) : Step (.openStore peers) db db'
  | invited {db db' : AuthorityDb} {inviteId : String} {stableNodeId : StableNodeId}
    {key : PublicKey}
      {carrier : CarrierKind} {transport : TransportIdentity} {endpoint label : String}
      {now expiresAt : Int} {row : EnrollmentInviteRow} (h : Invited db db' row) :
      Step (.createInvite inviteId stableNodeId key carrier transport endpoint label now expiresAt)
        db db'
  | confirmed {db db' : AuthorityDb} {attestation : EndpointAttestation}
      {carrier : CarrierKind} {transport : TransportIdentity} {endpoint : String} {now : Int}
      {invite : EnrollmentInviteRow} (hid : invite.stableNodeId = attestation.stableNodeId)
      (h : Confirmed db db' invite now attestation.expiresAtUnix) :
      Step (.confirmInvite invite.inviteId attestation carrier transport endpoint now) db db'
  | legacy {db db' : AuthorityDb} {carrier : CarrierKind} {transport : TransportIdentity}
      {endpoint label : String} (h : LegacyAdded db db' transport) :
      Step (.recordLegacyPending carrier transport endpoint label) db db'
  | intended {db db' : AuthorityDb} {binding : MembershipRevokeBinding} {unclassified : Bool}
      {row : RevocationIntent} (h : Intended db db' row) :
      Step (.startRevocationIntent binding unclassified) db db'
  | marked {db db' : AuthorityDb} {requestId id reason : String} (h : Marked db db' id reason) :
      Step (.markRevocationIndeterminate requestId reason) db db'
  | revoked {db db' : AuthorityDb} {binding : MembershipRevokeBinding}
    {receiptId liveTeardown : String}
      {details : TeardownDetails} {tombstone : RevocationTombstone}
      (h : Revoked db db' binding tombstone) :
      Step (.finalizeRevocationIntent binding receiptId liveTeardown details) db db'

theorem Step.refl [Sha256] (action : Action) (db : AuthorityDb) : Step action db db :=
  .same (.refl db) fun _ => ⟨rfl, rfl, rfl⟩

/-- Steps of one action, one after the other: opening a store may import several peers. -/
abbrev Steps [Sha256] (action : Action) : AuthorityDb → AuthorityDb → Prop :=
  Relation.ReflTransGen (Step action)

variable {db db' : AuthorityDb}

theorem foldlM_importPeer_spec [Sha256] {peers all : List LegacyPeer} (hsub : peers ⊆ all)
    (h : peers.foldlM importPeer db = .ok db') : Steps (.openStore all) db db' := by
  induction peers generalizing db with
  | nil =>
    cases h
    exact .refl
  | cons peer peers ih =>
    simp only [List.foldlM_cons, bind_eq_ok_iff] at h
    obtain ⟨next, hnext, h⟩ := h
    obtain ⟨hpeer, hpeers⟩ := List.cons_subset.mp hsub
    exact .head (.imported hpeer (importPeer_spec hnext)) (ih hpeers h)

theorem importLegacyOnce_spec [Sha256] {peers : List LegacyPeer}
    (h : db.importLegacyOnce peers = .ok db') : Steps (.openStore peers) db db' := by
  unfold importLegacyOnce at h
  split at h
  · cases h
    exact .refl
  · simp only [bind_eq_ok_iff] at h
    obtain ⟨imported, himported, h⟩ := h
    cases h
    exact (foldlM_importPeer_spec (List.Subset.refl peers) himported).tail
      (.same ⟨rfl, rfl, rfl, rfl, rfl, rfl, rfl, rfl, rfl⟩ fun _ => ⟨rfl, rfl, rfl⟩)

theorem markOutboxDelivered_same {id : Nat} {deliveredAt : Int}
    (h : db.markOutboxDelivered id deliveredAt = .ok db') : SameMembership db db' := by
  simp only [markOutboxDelivered, bind_eq_ok_iff] at h
  obtain ⟨_, -, h⟩ := h
  cases h
  refine ⟨rfl, rfl, rfl, rfl, rfl, rfl, rfl, rfl, ?_⟩
  simp only [Table.update, Table.mapRows, List.map_map]
  refine List.map_congr_left fun row _ => ?_
  dsimp only [Function.comp]
  split <;> rfl

theorem updateTeardown_same {receiptId status : String} {details : TeardownDetails}
    (h : db.updateTeardown receiptId status details = .ok db') : SameMembership db db' := by
  simp only [updateTeardown, bind_eq_ok_iff] at h
  obtain ⟨_, -, h⟩ := h
  cases h
  exact ⟨rfl, rfl, rfl, rfl, rfl, rfl, rfl, rfl, rfl⟩

variable {a : Answer}

theorem unit_eq_ok {body : Except String AuthorityDb} (h : unit body = .ok (db, a)) :
    body = .ok db := by
  obtain ⟨db', hbody, heq⟩ := map_eq_ok h
  cases heq
  exact hbody

theorem answer_eq_ok {A : Type} {f : A → Answer} {body : Except String (AuthorityDb × A)}
    (h : answer f body = .ok (db, a)) : ∃ r, body = .ok (db, r) ∧ a = f r := by
  obtain ⟨⟨db', r⟩, hbody, heq⟩ := map_eq_ok h
  cases heq
  exact ⟨r, hbody, rfl⟩

variable {action : Action}

theorem perform_spec [Sha256] [Ed25519] {path : String}
    (h : db.perform path action = .ok (db', a)) :
    (∃ peers, action = .openStore peers ∧ Steps action db db') ∨ Step action db db' := by
  cases action with
  | openStore peers => exact .inl ⟨peers, rfl, importLegacyOnce_spec (unit_eq_ok h)⟩
  | createInvite =>
    obtain ⟨row, hbody, -⟩ := answer_eq_ok h
    exact .inr (.invited (createInvite_spec hbody))
  | confirmInvite =>
    obtain ⟨invite, hbody, -⟩ := answer_eq_ok h
    obtain ⟨hconfirmed, rfl, hid⟩ := confirmInvite_spec hbody
    exact .inr (.confirmed hid hconfirmed)
  | recordLegacyPending =>
    obtain ⟨id, hbody, -⟩ := answer_eq_ok h
    exact .inr (.legacy (recordLegacyPending_spec hbody))
  | startRevocationIntent =>
    obtain ⟨row, hbody, -⟩ := answer_eq_ok h
    rcases startRevocationIntent_spec hbody with rfl | hintended
    · exact .inr (.refl ..)
    · exact .inr (.intended hintended)
  | markRevocationIndeterminate =>
    obtain ⟨id, hmarked⟩ := markRevocationIndeterminate_spec (unit_eq_ok h)
    exact .inr (.marked hmarked)
  | finalizeRevocationIntent =>
    obtain ⟨row, hbody, -⟩ := answer_eq_ok h
    rcases finalizeRevocationIntent_spec hbody with rfl | ⟨tombstone, hrevoked⟩
    · exact .inr (.refl ..)
    · exact .inr (.revoked hrevoked)
  | markOutboxDelivered =>
    exact .inr (.same (markOutboxDelivered_same (unit_eq_ok h)) (by simp [Action.ofDrain]))
  | updateTeardown =>
    exact .inr (.same (updateTeardown_same (unit_eq_ok h)) (by simp [Action.ofDrain]))
  | appendMembershipAudit event =>
    cases unit_eq_ok h
    exact .inr (.same ⟨rfl, rfl, rfl, rfl, rfl, rfl, rfl, rfl, rfl⟩ (by simp [Action.ofDrain]))
  | applyMembershipProjection event =>
    cases unit_eq_ok h
    exact .inr (.same ⟨rfl, rfl, rfl, rfl, rfl, rfl, rfl, rfl, rfl⟩ (by simp [Action.ofDrain]))

theorem step_spec [Sha256] [Ed25519] (path : String) (db : AuthorityDb) (action : Action) :
    (∃ peers, action = .openStore peers ∧ Steps action db (db.step path action).1) ∨
      Step action db (db.step path action).1 := by
  unfold AuthorityDb.step transact
  split
  · rename_i hbody
    exact perform_spec hbody
  · exact .inr (.refl ..)

/-- A predicate that every `Step` of an action keeps is kept by the action.  A condition on the
state before it may be used, if it is none for opening a store. -/
theorem step_keeps_of_meets [Sha256] [Ed25519] {P : AuthorityDb → Prop}
    {M : AuthorityDb → Action → Prop} (hopen : ∀ db peers, M db (.openStore peers))
    (keep : ∀ db db', P db → M db action → Step action db db' → P db') (path : String) (h : P db)
    (hmeets : M db action) : P (db.step path action).1 := by
  rcases step_spec path db action with ⟨peers, rfl, hsteps⟩ | hstep
  · generalize (db.step path (.openStore peers)).1 = next at hsteps ⊢
    induction hsteps with
    | refl => exact h
    | tail _ hstep ih => exact keep _ _ ih (hopen _ peers) hstep
  · exact keep _ _ h hmeets hstep

theorem step_keeps [Sha256] [Ed25519] {P : AuthorityDb → Prop}
    (keep : ∀ db db', P db → Step action db db' → P db') (path : String) (h : P db) :
    P (db.step path action).1 :=
  step_keeps_of_meets (M := fun _ _ => True) (fun _ _ => trivial)
    (fun db db' h _ hstep => keep db db' h hstep) path h trivial

end Neoth.Authority
