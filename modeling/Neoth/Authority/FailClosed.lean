import Neoth.Authority.History

/-!
# Revocation is fail-closed

An unresolved intent shuts its node out by a join on the exact generation, auth and membership
epoch, that it names.  Moving the authority restamps every active member, and so takes a member out
from under its intent.

* `Shut`: every intent is behind its member's auth epoch, or names its current generation;
* `fail_closed`: as long as nothing moves the authority past an unresolved intent, a node is not
  admitted in an auth epoch that it was to be revoked in.
-/

open Lib Lib.Encoding Lib.Transaction

namespace Neoth.Authority

open AuthorityDb

/-! ## What admission reads -/

/-- A member that may act: active, and without an intent on its generation. -/
def AuthorityDb.Admitted (db : AuthorityDb) (stableNodeId : StableNodeId) (authEpoch : Nat) :
    Prop :=
  ∃ m ∈ db.members, m.stableNodeId = stableNodeId ∧ m.authEpoch = authEpoch ∧ m.state = .active ∧
    db.revocationPending m = false

variable {db : AuthorityDb} {transport : TransportIdentity} {now : Int} {grant : MembershipGrant}

theorem admitTransport_admitted {carrier : CarrierKind}
    (h : db.admitTransport carrier transport now = .ok grant) :
    db.Admitted grant.stableNodeId grant.authEpoch := by
  simp only [admitTransport, bind_eq_ok_iff, context_eq_ok_iff, require_eq_ok_iff, beq_iff_eq] at h
  obtain ⟨⟨b, m⟩, hrow, _, hactive, _, -, _, -, h⟩ := h
  cases h
  obtain ⟨b', -, hrow⟩ := List.exists_of_findSome?_eq_some hrow
  simp only [admissible, Option.bind_eq_some_iff] at hrow
  obtain ⟨m', hfind, hrow⟩ := hrow
  split at hrow
  · rename_i hjoin
    cases hrow
    obtain ⟨hm, -⟩ := Table.find_eq_some_iff.mp hfind
    simp only [Bool.and_eq_true, Bool.not_eq_true'] at hjoin
    exact ⟨m, hm, rfl, rfl, hactive, hjoin.2⟩
  · cases hrow

theorem revalidateGrantOn_admitted (h : db.revalidateGrantOn grant now = .ok ()) :
    db.Admitted grant.stableNodeId grant.authEpoch := by
  simp only [revalidateGrantOn, bind_eq_ok_iff, context_eq_ok_iff, require_eq_ok_iff,
    Bool.not_eq_true', Bool.and_eq_true, beq_iff_eq] at h
  obtain ⟨_, -, ⟨b, m⟩, hrow, _, hactive, _, -, _, hpending, _, ⟨hauth, -⟩, -⟩ := h
  obtain ⟨b', -, hrow⟩ := List.exists_of_findSome?_eq_some hrow
  simp only [Option.bind_eq_some_iff] at hrow
  obtain ⟨m', hfind, hrow⟩ := hrow
  split at hrow
  · rename_i hjoin
    cases hrow
    obtain ⟨hm, -⟩ := Table.find_eq_some_iff.mp hfind
    simp only [Bool.and_eq_true, beq_iff_eq] at hjoin
    exact ⟨m, hm, hjoin.1.1.1.1, hauth, hactive, hpending⟩
  · cases hrow

theorem validateAttached_admitted {registry : GenerationEffectState} {lease : Option Nat}
    (h : db.validateAttached registry lease grant now = .ok ()) :
    db.Admitted grant.stableNodeId grant.authEpoch := by
  simp only [validateAttached, bind_eq_ok_iff, require_eq_ok_iff, Table.any_eq_true,
    Bool.and_eq_true, Bool.not_eq_true', beq_iff_eq] at h
  obtain ⟨_, -, _, -, _, -, m, hm, hjoin⟩ := h
  exact ⟨m, hm, hjoin.1.1.1.1.1.1.1.1, hjoin.1.1.1.1.1.1.2, hjoin.1.1.1.1.1.1.1.2, hjoin.1.2⟩

/-! ## Every intent shuts its node out -/

/-- The intent is behind its member, or names the member's current generation. -/
def Shut (db : AuthorityDb) : Prop :=
  ∀ r ∈ db.intents, ∃ m ∈ db.members, m.stableNodeId = r.stableNodeId ∧
    (r.memberAuthEpoch < m.authEpoch ∨ (r.memberAuthEpoch = m.authEpoch ∧ m.state = .active ∧
      r.unresolved = true ∧ r.memberMembershipEpoch = m.membershipEpoch))

variable {r : RevocationIntent}

theorem Shut.lt_of_admitted (h : Shut db) (hr : r ∈ db.intents) {authEpoch : Nat}
    (hadmitted : db.Admitted r.stableNodeId authEpoch) : r.memberAuthEpoch < authEpoch := by
  obtain ⟨m, hm, hid, hshut⟩ := h r hr
  obtain ⟨n, hn, hnid, hauth, -, hpending⟩ := hadmitted
  obtain rfl := member_eq hn hm (hnid.trans hid.symm)
  rcases hshut with hlt | ⟨heq, -, hunresolved, hepoch⟩
  · omega
  · have hblocked : db.revocationPending n = true := by
      simp only [revocationPending, Table.any_eq_true, Bool.and_eq_true, beq_iff_eq]
      exact ⟨r, hr, ⟨⟨hid.symm, heq⟩, hepoch⟩, hunresolved⟩
    rw [hpending] at hblocked
    cases hblocked

/-- No active member, other than one of the node `except`, has an intent on its generation. -/
def AuthorityDb.NonePending (db : AuthorityDb) (except : Option StableNodeId) : Prop :=
  ∀ m ∈ db.members, m.state = .active → some m.stableNodeId ≠ except →
  db.revocationPending m = false

/-- The action does not move the authority past an unresolved intent: a confirmation is of an invite
issued for the current epoch, or no active member has an intent on its generation; and a revocation
is completed when no other active member has one. -/
def Serialized (db : AuthorityDb) : Action → Prop
  | .confirmInvite inviteId _ _ _ _ _ =>
    (∀ i ∈ db.invites, i.inviteId = inviteId → i.membershipEpoch = db.membershipEpoch) ∨
    db.NonePending none
  | .finalizeRevocationIntent binding _ _ _ => db.NonePending (some binding.stableNodeId)
  | _ => True

/-- An intent on the current generation of an active member, where there is none. -/
theorem NonePending.elim {except : Option StableNodeId} (h : db.NonePending except)
    {m : Member} (hm : m ∈ db.members) (hr : r ∈ db.intents)
    (hid : m.stableNodeId = r.stableNodeId) (hexcept : some m.stableNodeId ≠ except)
    (hcurrent : r.memberAuthEpoch = m.authEpoch ∧ m.state = .active ∧ r.unresolved = true ∧
      r.memberMembershipEpoch = m.membershipEpoch) : False := by
  obtain ⟨hauth, hactive, hunresolved, hepoch⟩ := hcurrent
  have hpending : db.revocationPending m = true := by
    simp only [revocationPending, Table.any_eq_true, Bool.and_eq_true, beq_iff_eq]
    exact ⟨r, hr, ⟨⟨hid.symm, hauth⟩, hepoch⟩, hunresolved⟩
  rw [h m hm hactive hexcept] at hpending
  cases hpending

variable {db' : AuthorityDb}

/-- Members that stay as they are keep an intent shut, and so do ones that advance. -/
theorem Shut.of_members (h : Shut db) (hintents : db'.intents = db.intents)
    (hmembers : ∀ m ∈ db.members, ∃ m' ∈ db'.members, m'.stableNodeId = m.stableNodeId ∧
      m.authEpoch ≤ m'.authEpoch ∧ (m.state = .active → m' = m)) : Shut db' := by
  intro r hr
  rw [hintents] at hr
  obtain ⟨m, hm, hid, hshut⟩ := h r hr
  obtain ⟨m', hm', hid', hle, hsame⟩ := hmembers m hm
  refine ⟨m', hm', hid'.trans hid, ?_⟩
  rcases hshut with hlt | ⟨hauth, hactive, hrest⟩
  · exact .inl (hlt.trans_le hle)
  · rw [hsame hactive]
    exact .inr ⟨hauth, hactive, hrest⟩

theorem LegacyAdded.shut [Sha256] (hstep : LegacyAdded db db' transport) (h : Shut db) :
    Shut db' := by
  obtain ⟨-, -, -, -, hintents, -⟩ := hstep.frame
  exact h.of_members hintents fun m hm => ⟨m, hstep.members_subset hm, rfl, le_rfl, fun _ => rfl⟩

theorem Invited.shut {row : EnrollmentInviteRow} (hstep : Invited db db' row) (h : Shut db) :
    Shut db' := by
  obtain ⟨-, -, -, -, hintents, -⟩ := hstep.frame
  refine h.of_members hintents fun m hm => ?_
  by_cases hactive : m.state = .active
  · refine ⟨m, hstep.mem_members.mpr (.inr ⟨hm, ?_⟩), rfl, le_rfl, fun _ => rfl⟩
    intro hid
    exact hstep.inactive m hm hid hactive
  · obtain ⟨m', hm', hid, hle⟩ := hstep.advance m hm
    exact ⟨m', hm', hid, hle, fun h => absurd h hactive⟩

variable {invite : EnrollmentInviteRow}

/-- A confirmation that does not move the authority leaves the active members as they are. -/
theorem confirmMember_eq_self {m : Member} (hstamped : Stamped db) (hm : m ∈ db.members)
    (hactive : m.state = .active) (hissued : invite.membershipEpoch = db.membershipEpoch) :
    db.confirmMember invite m = m := by
  have hcommitted : db.nextCommitted invite = m.membershipEpoch := by
    rw [nextCommitted, if_pos hissued.ge, hissued, hstamped.active m hm hactive]
  unfold confirmMember raiseMember
  rw [hcommitted]
  split
  · rw [← hactive]
  · split <;> rfl

theorem Confirmed.shut {now expiresAt : Int} (hstep : Confirmed db db' invite now expiresAt)
    (hstamped : Stamped db) (hserialized : invite.membershipEpoch = db.membershipEpoch ∨
      db.NonePending none)
    (h : Shut db) :
    Shut db' := by
  intro r hr
  rw [hstep.intents] at hr
  obtain ⟨m, hm, hid, hshut⟩ := h r hr
  refine ⟨_, (hstep.members _).mpr ⟨m, hm, rfl⟩, by simpa using hid, ?_⟩
  rcases hshut with hlt | hcurrent
  · exact .inl (by simpa using hlt)
  · rcases hserialized with hissued | hnone
    · rw [confirmMember_eq_self hstamped hm hcurrent.2.1 hissued]
      exact .inr hcurrent
    · exact (NonePending.elim hnone hm hr hid (by simp) hcurrent).elim

theorem Intended.shut {row : RevocationIntent} (hstep : Intended db db' row) (h : Shut db) :
    Shut db' := by
  intro r hr
  have hmembers : db'.members = db.members := by rw [hstep.eq]
  rw [hmembers]
  rcases (Table.mem_insert hstep.inserted).mp hr with hold | rfl
  · exact h r hold
  · obtain ⟨m, hm, hid, hactive, hauth, hepoch⟩ := hstep.member
    have hunresolved : r.unresolved = true := by simp [RevocationIntent.unresolved, hstep.pending]
    exact ⟨m, hm, hid, .inr ⟨hauth.symm, hactive, hunresolved, hepoch.symm⟩⟩

theorem Marked.shut {requestId reason : String} (hstep : Marked db db' requestId reason)
    (h : Shut db) : Shut db' := by
  intro r' hr'
  have hmembers : db'.members = db.members := by rw [hstep.eq]
  rw [hstep.intents, Table.mem_update] at hr'
  obtain ⟨r, hr, rfl⟩ := hr'
  rw [hmembers]
  obtain ⟨m, hm, hid, hshut⟩ := h r hr
  refine ⟨m, hm, ?_⟩
  split
  · refine ⟨hid, hshut.imp id ?_⟩
    rintro ⟨hauth, hactive, -, hepoch⟩
    exact ⟨hauth, hactive, rfl, hepoch⟩
  · exact ⟨hid, hshut⟩

theorem Revoked.shut {binding : MembershipRevokeBinding} {tombstone : RevocationTombstone}
    (hstep : Revoked db db' binding tombstone)
    (hserialized : db.NonePending (some binding.stableNodeId)) (h : Shut db) : Shut db' := by
  intro r' hr'
  rw [hstep.intents, Table.mem_update] at hr'
  obtain ⟨r, hr, hr'⟩ := hr'
  have hsame : r'.stableNodeId = r.stableNodeId ∧ r'.memberAuthEpoch = r.memberAuthEpoch := by
    rw [hr']
    split <;> exact ⟨rfl, rfl⟩
  obtain ⟨m, hm, hid, hshut⟩ := h r hr
  refine ⟨_, (hstep.members _).mpr ⟨m, hm, rfl⟩, by simp [hid, hsame.1], .inl ?_⟩
  rw [hsame.2]
  unfold revokedMember
  split
  · rcases hshut with hlt | ⟨hauth, -⟩
    · exact hlt.trans (Nat.lt_succ_self _)
    · exact hauth ▸ Nat.lt_succ_self _
  · rename_i hother
    rcases hshut with hlt | hcurrent
    · simpa using hlt
    · have hexcept : some m.stableNodeId ≠ some binding.stableNodeId :=
        fun heq => hother (Option.some.inj heq)
      exact (NonePending.elim hserialized hm hr hid hexcept hcurrent).elim

theorem Step.shut [Sha256] {action : Action} (hstep : Step action db db')
    (hserialized : Serialized db action)
    (hconsistent : Consistent db) (h : Shut db) : Shut db' := by
  cases hstep with
  | same hstep _ =>
    exact h.of_members hstep.intents fun m hm => ⟨m, hstep.members ▸ hm, rfl, le_rfl, fun _ => rfl⟩
  | imported _ hstep => exact hstep.shut h
  | invited hstep => exact hstep.shut h
  | confirmed _ hstep =>
    exact hstep.shut hconsistent.stamped
      (hserialized.imp_left fun hissued => hissued _ hstep.mem rfl) h
  | legacy hstep => exact hstep.shut h
  | intended hstep => exact hstep.shut h
  | marked hstep => exact hstep.shut h
  | revoked hstep => exact hstep.shut hserialized h

theorem shut_after [Sha256] [Ed25519] (path : String) (actions : List Action)
    (hserialized : ∀ before action later, actions = before ++ action :: later →
      Serialized (after path before) action) : Shut (after path actions) := by
  have hfresh : Shut .fresh := by
    intro r hr
    cases hr
  have hkeep : ∀ (db : AuthorityDb) action, Consistent db ∧ Shut db → Serialized db action →
      Consistent (db.step path action).1 ∧ Shut (db.step path action).1 := by
    intro db action hdb hmeets
    refine step_keeps_of_meets (P := fun db => Consistent db ∧ Shut db) (fun _ _ => trivial) ?_ path
      hdb hmeets
    intro db db' hdb hmeets hstep
    exact ⟨hstep.consistent hdb.1, hstep.shut hmeets hdb.1 hdb.2⟩
  exact (Lib.Machine.run_invariant_of_meets hkeep _ ⟨consistent_fresh, hfresh⟩ actions
    hserialized).2

/-! ## Intents stay -/

/-- Since `db`, intents have stayed, with what they name. -/
def IntentsKept (db db' : AuthorityDb) : Prop :=
  ∀ r ∈ db.intents, ∃ r' ∈ db'.intents, r'.requestId = r.requestId ∧
  r'.stableNodeId = r.stableNodeId ∧
    r'.memberAuthEpoch = r.memberAuthEpoch

theorem IntentsKept.of_eq (h : db'.intents = db.intents) : IntentsKept db db' :=
  fun r hr => ⟨r, h ▸ hr, rfl, rfl, rfl⟩

theorem IntentsKept.trans {db₁ db₂ db₃ : AuthorityDb} (h : IntentsKept db₁ db₂)
    (h' : IntentsKept db₂ db₃) : IntentsKept db₁ db₃ := by
  intro r hr
  obtain ⟨r₂, hr₂, hid₂, hnode₂, hauth₂⟩ := h r hr
  obtain ⟨r₃, hr₃, hid₃, hnode₃, hauth₃⟩ := h' r₂ hr₂
  exact ⟨r₃, hr₃, hid₃.trans hid₂, hnode₃.trans hnode₂, hauth₃.trans hauth₂⟩

theorem Step.intentsKept [Sha256] {action : Action} (hstep : Step action db db') :
    IntentsKept db db' := by
  cases hstep with
  | same hstep _ => exact .of_eq hstep.intents
  | imported _ hstep => exact .of_eq hstep.frame.2.2.2.2.1
  | invited hstep => exact .of_eq hstep.frame.2.2.2.2.1
  | confirmed _ hstep => exact .of_eq hstep.intents
  | legacy hstep => exact .of_eq hstep.frame.2.2.2.2.1
  | intended hstep =>
    intro r hr
    exact ⟨r, (Table.mem_insert hstep.inserted).mpr (.inl hr), rfl, rfl, rfl⟩
  | marked hstep =>
    intro r hr
    refine ⟨_, hstep.intents ▸ Table.mem_update.mpr ⟨r, hr, rfl⟩, ?_⟩
    split <;> exact ⟨rfl, rfl, rfl⟩
  | revoked hstep =>
    intro r hr
    refine ⟨_, hstep.intents ▸ Table.mem_update.mpr ⟨r, hr, rfl⟩, ?_⟩
    split <;> exact ⟨rfl, rfl, rfl⟩

theorem intentsKept_after [Sha256] [Ed25519] (path : String) (before later : List Action) :
    IntentsKept (after path before) (after path (before ++ later)) := by
  rw [after_append]
  refine Lib.Machine.run_relation (P := fun _ => True) (R := IntentsKept) (fun _ _ _ => trivial)
    (fun _ => .of_eq rfl) IntentsKept.trans ?_ _ trivial later
  intro db action _
  exact step_keeps (P := IntentsKept db) (fun _ _ h hstep => h.trans hstep.intentsKept) path
    (.of_eq rfl)

/-- **Revocation is fail-closed.** In a run that never moves the authority past an unresolved
intent: once an intent to revoke a node in an auth epoch is stored, then, whatever follows, the node
is neither admitted nor is one of its grants revalidated, nor one of its effects validated, in that
auth epoch or an earlier one. -/
theorem fail_closed [Sha256] [Ed25519] (path : String) (before later : List Action)
    (hserialized : ∀ pre action post, before ++ later = pre ++ action :: post →
      Serialized (after path pre) action)
    (r : RevocationIntent) (hr : r ∈ (after path before).intents) :
    let db := after path (before ++ later)
    (∀ carrier transport now grant, db.admitTransport carrier transport now = .ok grant →
      grant.stableNodeId = r.stableNodeId → r.memberAuthEpoch < grant.authEpoch) ∧
    (∀ grant now, db.revalidateGrantOn grant now = .ok () →
      grant.stableNodeId = r.stableNodeId → r.memberAuthEpoch < grant.authEpoch) ∧
    ∀ registry lease grant now, db.validateAttached registry lease grant now = .ok () →
      grant.stableNodeId = r.stableNodeId → r.memberAuthEpoch < grant.authEpoch := by
  intro db
  have hshut : Shut db := shut_after path (before ++ later) hserialized
  obtain ⟨r', hr', -, hnode, hauth⟩ := intentsKept_after path before later r hr
  have hlt : ∀ (grant : MembershipGrant), db.Admitted grant.stableNodeId grant.authEpoch →
      grant.stableNodeId = r.stableNodeId → r.memberAuthEpoch < grant.authEpoch := by
    intro grant hadmitted hid
    rw [← hauth]
    exact hshut.lt_of_admitted hr' (by rw [hnode, ← hid]; exact hadmitted)
  refine ⟨?_, ?_, ?_⟩
  · intro carrier transport now grant h
    exact hlt grant (admitTransport_admitted h)
  · intro grant now h
    exact hlt grant (revalidateGrantOn_admitted h)
  · intro registry lease grant now h
    exact hlt grant (validateAttached_admitted h)

/-! ## A request, and another node that enrolls meanwhile -/

/-- The revocation of the node is requested. -/
def sampleRequested : List Action :=
  sampleEnrolled ++ [.startRevocationIntent sampleRevocation false]

theorem sampleRequested_serialized (pre : List Action) (action : Action) (post : List Action)
    (h : sampleRequested ++ [] = pre ++ action :: post) :
    Serialized (@after Sha256.fips sampleEd25519 samplePath pre) action := by
  simp only [sampleRequested, sampleEnrolled, List.cons_append, List.nil_append] at h
  rcases pre with _ | ⟨a, _ | ⟨b, _ | ⟨c, rest⟩⟩⟩
  · cases h
    trivial
  · -- at the confirmation the node itself is pending
    cases h
    refine .inr fun m hm hactive _ => ?_
    have hpending : (@after Sha256.fips sampleEd25519 samplePath
        [sampleInvite "5f1c2d3e-0a1b-4c2d-8e3f-000000000001" sampleEnrollment]).members.any
          (·.state == .active) = false := by
      rw [Sha256.fips_eq]
      decide +kernel
    have hm := Table.any_eq_false.mp hpending m hm
    simp [hactive] at hm
  · cases h
    trivial
  · simp at h

theorem fail_closed_sample :
    ∃ r ∈ (@after Sha256.fips sampleEd25519 samplePath sampleRequested).intents,
      ∀ carrier transport now grant,
        (@after Sha256.fips sampleEd25519 samplePath (sampleRequested ++ [])).admitTransport carrier
          transport now = .ok grant →
        grant.stableNodeId = r.stableNodeId → r.memberAuthEpoch < grant.authEpoch := by
  have hstored : (@after Sha256.fips sampleEd25519 samplePath sampleRequested).intents.any
      (·.unresolved) = true := by
    rw [sampleRequested, @after_append Sha256.fips sampleEd25519, after_sampleEnrolled,
      Sha256.fips_eq]
    decide +kernel
  obtain ⟨r, hr, -⟩ := Table.any_eq_true.mp hstored
  exact ⟨r, hr, (@fail_closed Sha256.fips sampleEd25519 samplePath sampleRequested []
    sampleRequested_serialized r hr).1⟩

/-- Another node is invited and enrolls. -/
def sampleMeanwhile : List Action :=
  [sampleInvite "5f1c2d3e-0a1b-4c2d-8e3f-000000000002" sampleOtherEnrollment,
    sampleConfirm "5f1c2d3e-0a1b-4c2d-8e3f-000000000002" sampleOtherEnrollment]

/-- The node of an unresolved intent is admitted in the auth epoch it is to be revoked in. -/
def readmitted (db db' : AuthorityDb) : Bool :=
  db.intents.any fun r => r.unresolved &&
  (db'.admitTransport .peeroxide "alpha-transport" 1002).toOption.any fun grant =>
    grant.stableNodeId == r.stableNodeId && grant.authEpoch ≤ r.memberAuthEpoch

theorem sampleMeanwhile_readmitted :
    readmitted (@after Sha256.fips sampleEd25519 samplePath sampleRequested)
      (@after Sha256.fips sampleEd25519 samplePath (sampleRequested ++ sampleMeanwhile)) =
        true := by
  rw [@after_append Sha256.fips sampleEd25519, sampleRequested,
    @after_append Sha256.fips sampleEd25519, after_sampleEnrolled, Sha256.fips_eq]
  decide +kernel

theorem readmitted_after_enrollment :
    ¬ ∀ (path : String) (before later : List Action),
      ∀ r ∈ (@after Sha256.fips sampleEd25519 path before).intents, r.unresolved = true →
      ∀ carrier transport now grant,
        (@after Sha256.fips sampleEd25519 path (before ++ later)).admitTransport carrier transport
          now = .ok grant →
        grant.stableNodeId = r.stableNodeId → r.memberAuthEpoch < grant.authEpoch := by
  intro h
  have hreadmitted := sampleMeanwhile_readmitted
  simp only [readmitted, Table.any_eq_true, Bool.and_eq_true] at hreadmitted
  obtain ⟨r, hr, hunresolved, hgrant⟩ := hreadmitted
  obtain ⟨grant, hadmit, hgrant⟩ := exists_ok_of_any hgrant
  simp only [Bool.and_eq_true, beq_iff_eq, decide_eq_true_eq] at hgrant
  have hlt := h samplePath sampleRequested sampleMeanwhile r hr hunresolved _ _ _ grant hadmit
    hgrant.1
  omega

end Neoth.Authority
