import Neoth.Permissions.Gate

/-!
# What an Allow of the gate rests on

Leases and confirmations reach a gate only through the calls that configure it
(`build_leaseCtx`, `build_preconfirmedSource`), and the world between a question and
its answer only through the policy read again.

* `resolveAsked_allow`, `resolveDecisionAt_allow`: every way to an Allow;
* `resolveDecisionAt_justified`: an Allow is `Justified` under the snapshot recorded;
* `resolveDecisionAt_unleased`: leases decide nothing about an action without a scope;
* `resolveDurableDecisionAt_allow`: what is admitted durably is allowed interactively
  and without a question.

**Verdict.** `allow_only_justified`: the gate is sound.
-/

open Lib
open Lib.Encoding (trim)

namespace Neoth.Permissions

namespace Gate

/-! ## What the configuring calls leave -/

theorem build_append (policy : AutonomyPolicySnapshot) (calls : List With) (call : With) :
    build policy (calls ++ [call]) = (build policy calls).configure call := by
  simp [build]

variable {policy : AutonomyPolicySnapshot} {calls : List With} {c : LeaseContext}

theorem build_leaseCtx (h : (build policy calls).leaseCtx = some c) :
    ∃ store takenAt, With.leaseSnapshot store c.subject takenAt ∈ calls ∧
      c.leases = store.active takenAt := by
  induction calls using List.reverseRecOn with
  | nil => simp [build, forPolicy] at h
  | append_singleton calls call ih =>
    rw [build_append] at h
    have kept (hsame : (build policy calls).leaseCtx = some c) :
        ∃ store takenAt, With.leaseSnapshot store c.subject takenAt ∈ calls ++ [call] ∧
          c.leases = store.active takenAt := by
      obtain ⟨store, takenAt, hmem, hleases⟩ := ih hsame
      exact ⟨store, takenAt, List.mem_append_left _ hmem, hleases⟩
    cases call with
    | leaseSnapshot store subject takenAt =>
      simp only [configure] at h
      split at h
      · exact kept h
      · obtain rfl := Option.some.inj h
        exact ⟨store, takenAt, by simp, rfl⟩
    | _ => exact kept h

theorem build_preconfirmedSource {source : String}
    (h : (build policy calls).preconfirmedSource = some source) :
    With.preconfirmedConfirmation source ∈ calls ∧ trim source ≠ "" := by
  induction calls using List.reverseRecOn with
  | nil => simp [build, forPolicy] at h
  | append_singleton calls call ih =>
    rw [build_append] at h
    have kept (hsame : (build policy calls).preconfirmedSource = some source) :
        With.preconfirmedConfirmation source ∈ calls ++ [call] ∧ trim source ≠ "" :=
      ⟨List.mem_append_left _ (ih hsame).1, (ih hsame).2⟩
    cases call with
    | preconfirmedConfirmation given =>
      simp only [configure] at h
      split at h
      · cases h
      · rename_i hblank
        obtain rfl := Option.some.inj h
        exact ⟨by simp, hblank⟩
    | leaseSnapshot store subject takenAt =>
      simp only [configure] at h
      split at h <;> exact kept h
    | _ => exact kept h

/-! ## The ways to an Allow -/

/-- The operator's side answered the question with yes. -/
def Approved (g : Gate) (operator : Operator) (question : String) : Prop :=
  (g.confirm = .channel ∧ g.channelAsker = true ∧ operator.channel question = some (some true)) ∨
    (g.confirm = .tty ∧ operator.terminal question = .answered true)

variable {g : Gate} {operator : Operator}

theorem resolveConfirm_isAllow {question : String}
    (h : (g.resolveConfirm question operator).isAllow = true) : g.Approved operator question := by
  cases hconfirm : g.confirm with
  | failClosed => simp [resolveConfirm, hconfirm, Decision.isAllow] at h
  | channel =>
    by_cases hasker : g.channelAsker = true
    · rcases hanswer : operator.channel question with _ | _ | _ | _
      all_goals simp [resolveConfirm, hconfirm, hasker, hanswer, Decision.isAllow] at h
      exact .inl ⟨hconfirm, hasker, hanswer⟩
    · simp [resolveConfirm, hconfirm, hasker, Decision.isAllow] at h
  | tty =>
    rcases hanswer : operator.terminal question with _ | _ | _ | _
    case answered yes =>
      cases yes
      · simp [resolveConfirm, hconfirm, hanswer, Decision.isAllow] at h
      · exact .inr ⟨hconfirm, hanswer⟩
    all_goals simp [resolveConfirm, hconfirm, hanswer, Decision.isAllow] at h

variable {action : Action} {nowUnix : Int} {lease : CapabilityLease}

theorem coveringLease_spec (h : c.coveringLease action nowUnix = some lease) :
    lease ∈ c.leases ∧ leaseScopeFor action = some lease.scope ∧ lease.grantedTo = c.subject ∧
      nowUnix < lease.expiresUnix := by
  obtain ⟨scope, hscope, hfind⟩ := Option.bind_eq_some_iff.mp h
  have hcovers : lease.covers c.subject scope nowUnix = true :=
    List.find?_some (p := fun l : CapabilityLease => l.covers c.subject scope nowUnix) hfind
  obtain ⟨-, hactive, hgranted, hsame⟩ := CapabilityLease.covers_iff.mp hcovers
  exact ⟨List.mem_of_find?_eq_some hfind, by rw [hscope, hsame], hgranted, hactive⟩

variable [FloatText]

/-- What an Allow of `resolveDecisionAt` on the Confirm question `reason` rests on. -/
inductive Grounds (g : Gate) (action : Action) (nowUnix : Int) (operator : Operator)
    (reason : String) : Resolution → Prop
  | lease {r : Resolution} (c : LeaseContext) (lease : CapabilityLease)
      (hctx : g.leaseCtx = some c) (hcovering : c.coveringLease action nowUnix = some lease)
      (hid : r.leaseId = some lease.leaseId) (hasked : r.question = none) :
      Grounds g action nowUnix operator reason r
  | preconfirmed {r : Resolution} (source : String) (hsource : g.preconfirmedSource = some source)
      (hrecorded : r.confirmationSource = some source) (hid : r.leaseId = none)
      (hasked : r.question = none) : Grounds g action nowUnix operator reason r
  | answered {r : Resolution} (happroved : g.Approved operator reason)
      (hasked : r.question = some reason) (hid : r.leaseId = none) :
      Grounds g action nowUnix operator reason r

variable {p : AutonomyPolicySnapshot} {r : Resolution}

theorem resolveAsked_allow {reason : String} {later : World}
    (h : g.resolveAsked action p reason operator later = some r) (hallow : r.decision = .allow)
    (nowUnix : Int) :
    (∃ d, g.effectiveDecisionAt action r.policySnapshot = some d ∧ d.isDeny = false) ∧
      Grounds g action nowUnix operator reason r := by
  simp only [resolveAsked] at h
  split at h
  · rename_i hyes
    -- the policy is read again where the gate has a cap; a Deny there takes the answer back
    obtain ⟨d, hd, h⟩ := Option.bind_eq_some_iff.mp h
    cases d with
    | deny reason' =>
      obtain rfl := Option.some.inj h
      simp at hallow
    | allow | confirm =>
      obtain rfl := Option.some.inj h
      exact ⟨⟨_, hd, rfl⟩, .answered (resolveConfirm_isAllow hyes) rfl rfl⟩
  · rename_i hno
    obtain rfl := Option.some.inj h
    rw [show g.resolveConfirm reason operator = .allow from hallow] at hno
    exact absurd rfl hno

theorem resolveDecisionAt_allow {later : World}
    (h : g.resolveDecisionAt action nowUnix p operator later = some r)
    (hallow : r.decision = .allow) :
    (∃ d, g.effectiveDecisionAt action r.policySnapshot = some d ∧ d.isDeny = false) ∧
      (g.effectiveDecisionAt action p = some .allow ∧ r.policySnapshot = p ∧ r.leaseId = none ∧
          r.question = none ∨
        ∃ reason, g.effectiveDecisionAt action p = some (.confirm reason) ∧
          Grounds g action nowUnix operator reason r) := by
  obtain ⟨d, hd, h⟩ := Option.bind_eq_some_iff.mp h
  cases d with
  | allow =>
    obtain rfl := Option.some.inj h
    exact ⟨⟨_, hd, rfl⟩, .inl ⟨hd, rfl, rfl, rfl⟩⟩
  | deny reason =>
    obtain rfl := Option.some.inj h
    simp at hallow
  | confirm reason =>
    simp only at h
    split at h
    · rename_i id hid
      obtain rfl := Option.some.inj h
      obtain ⟨c, hctx, hid⟩ := Option.bind_eq_some_iff.mp hid
      obtain ⟨lease, hcovering, rfl⟩ := Option.map_eq_some_iff.mp hid
      exact ⟨⟨_, hd, rfl⟩, .inr ⟨reason, hd, .lease c lease hctx hcovering rfl rfl⟩⟩
    · split at h
      · rename_i source hsource
        obtain rfl := Option.some.inj h
        exact ⟨⟨_, hd, rfl⟩, .inr ⟨reason, hd, .preconfirmed source hsource rfl rfl rfl⟩⟩
      · obtain ⟨hsnapshot, hgrounds⟩ := resolveAsked_allow h hallow nowUnix
        exact ⟨hsnapshot, .inr ⟨reason, hd, hgrounds⟩⟩

/-! ## Leases and actions without a scope -/

omit [FloatText] in
theorem coveringLeaseId_unscoped (h : leaseScopeFor action = none) (c : LeaseContext)
    (nowUnix : Int) : c.coveringLeaseId action nowUnix = none := by
  simp [LeaseContext.coveringLeaseId, LeaseContext.coveringLease, h]

omit [FloatText] in
theorem bind_coveringLeaseId_unscoped (h : leaseScopeFor action = none) (ctx : Option LeaseContext)
    (nowUnix : Int) : ctx.bind (·.coveringLeaseId action nowUnix) = none := by
  cases ctx with
  | none => rfl
  | some c => exact coveringLeaseId_unscoped h c nowUnix

/-- The gate with its leases taken away. -/
def unleased (g : Gate) : Gate := { g with leaseCtx := none }

theorem resolveDecisionAt_unleased (g : Gate) (h : leaseScopeFor action = none) (nowUnix : Int)
    (p : AutonomyPolicySnapshot) (operator : Operator) (later : World) :
    g.resolveDecisionAt action nowUnix p operator later =
      g.unleased.resolveDecisionAt action nowUnix p operator later := by
  simp only [resolveDecisionAt, bind_coveringLeaseId_unscoped h]
  rfl

theorem resolveDurableDecisionAt_unleased (g : Gate) (h : leaseScopeFor action = none)
    (nowUnix : Int) (p : AutonomyPolicySnapshot) :
    g.resolveDurableDecisionAt action nowUnix p =
      g.unleased.resolveDurableDecisionAt action nowUnix p := by
  simp only [resolveDurableDecisionAt, bind_coveringLeaseId_unscoped h]
  rfl

/-! ## Durable admission -/

variable {d : Resolution}

theorem resolveDurableDecisionAt_allow (h : g.resolveDurableDecisionAt action nowUnix p = some d)
    (hallow : d.decision = .allow) (operator : Operator) (later : World) :
    ∃ r, g.resolveDecisionAt action nowUnix p operator later = some r ∧ r.decision = .allow ∧
      r.question = none ∧ r.leaseId = d.leaseId ∧ r.policySnapshot = d.policySnapshot := by
  obtain ⟨decision, hd, h⟩ := Option.bind_eq_some_iff.mp h
  simp only [resolveDecisionAt, hd, Option.bind_eq_bind, Option.bind_some]
  cases decision with
  | allow =>
    obtain rfl := Option.some.inj h
    exact ⟨_, rfl, rfl, rfl, rfl, rfl⟩
  | deny reason =>
    obtain rfl := Option.some.inj h
    simp at hallow
  | confirm reason =>
    simp only at h ⊢
    split at h
    · obtain rfl := Option.some.inj h
      exact ⟨_, rfl, rfl, rfl, rfl, rfl⟩
    · obtain rfl := Option.some.inj h
      simp at hallow

theorem effectiveDecisionAt_ge {d : Decision} (h : g.effectiveDecisionAt action p = some d) :
    ∃ global, evaluateSnapshot action p = some global ∧ global.rank ≤ d.rank := by
  unfold effectiveDecisionAt at h
  split at h
  · exact ⟨d, h, le_rfl⟩
  · exact SkillInvocationPolicy.evaluateAtSnapshot_ge h

/-! ## The checks -/

theorem checkAtWithAudit_spec {sink : PermissionAuditSink} {auditRequired : Bool}
    {binding : Option String} {w later : World} {c : Checked}
    (h : g.checkAtWithAudit action sink auditRequired binding operator w later = some c) :
    g.resolveDecisionAt action w.nowUnix (g.currentPolicySnapshot w) operator later =
      some c.resolution ∧
      (c.result = .ok () → c.resolution.decision = .allow) ∧
      (auditRequired = false → c.result = outcome c.resolution.decision) ∧
      (∀ evidence, c.audited = some evidence →
        evidence.level = c.resolution.policySnapshot.level) := by
  obtain ⟨r, hr, h⟩ := Option.bind_eq_some_iff.mp h
  have allow_of_outcome : outcome r.decision = .ok () → r.decision = .allow := by
    intro hok
    cases hd : r.decision with
    | allow => rfl
    | confirm | deny => simp [hd, outcome] at hok
  cases sink with
  | none =>
    cases auditRequired with
    | true =>
      obtain rfl := Option.some.inj h
      exact ⟨hr, by simp, by simp, by simp⟩
    | false =>
      obtain rfl := Option.some.inj h
      exact ⟨hr, allow_of_outcome, fun _ => rfl, by simp⟩
  | append appended =>
    simp only at h
    split at h
    · obtain rfl := Option.some.inj h
      refine ⟨hr, allow_of_outcome, fun _ => rfl, ?_⟩
      intro evidence hevidence
      obtain rfl := Option.some.inj hevidence
      rfl
    · split at h
      · rename_i hrequired
        obtain rfl := Option.some.inj h
        exact ⟨hr, by simp, by simp [hrequired], by simp⟩
      · obtain rfl := Option.some.inj h
        exact ⟨hr, allow_of_outcome, fun _ => rfl, by simp⟩

/-- A lease for the gate's own subject and the action's own scope, from the store the
gate was configured with and not yet expired, is the one recorded. -/
def Leased (calls : List With) (g : Gate) (action : Action) (nowUnix : Int) (r : Resolution) :
    Prop :=
  ∃ store subject takenAt lease, With.leaseSnapshot store subject takenAt ∈ calls ∧
    g.leaseCtx.map (·.subject) = some subject ∧ subject ≠ "" ∧ lease ∈ store.leases ∧
    lease.grantedTo = subject ∧ leaseScopeFor action = some lease.scope ∧
    nowUnix < lease.expiresUnix ∧
    r.leaseId = some lease.leaseId

/-- The gate was handed a confirmation, and records it. -/
def Preconfirmed (calls : List With) (r : Resolution) : Prop :=
  ∃ source, With.preconfirmedConfirmation source ∈ calls ∧ trim source ≠ "" ∧
    r.confirmationSource = some source

/-- The question the gate put, the reason of its own Confirm, was answered with yes. -/
def Answered (g : Gate) (action : Action) (w : World) (operator : Operator) (r : Resolution) :
    Prop :=
  ∃ question, r.question = some question ∧
    g.effectiveDecisionAt action (g.currentPolicySnapshot w) = some (.confirm question) ∧
    g.Approved operator question

/-- What an Allow rests on, under the policy snapshot recorded with it. -/
def Justified (calls : List With) (g : Gate) (action : Action) (w : World) (operator : Operator)
    (r : Resolution) : Prop :=
  ∃ d, g.effectiveDecisionAt action r.policySnapshot = some d ∧ d.isDeny = false ∧
    ∀ reason, d = .confirm reason →
      Leased calls g action w.nowUnix r ∨ Preconfirmed calls r ∨ Answered g action w operator r

omit [FloatText] in
theorem leased_of_covering (hctx : (build policy calls).leaseCtx = some c)
    (hcovering : c.coveringLease action nowUnix = some lease)
    (hid : r.leaseId = some lease.leaseId) :
    Leased calls (build policy calls) action nowUnix r := by
  obtain ⟨store, takenAt, hcall, hleases⟩ := build_leaseCtx hctx
  obtain ⟨hmem, hscope, hgranted, hexpiry⟩ := coveringLease_spec hcovering
  rw [hleases, LeaseStore.mem_active_iff] at hmem
  exact ⟨store, c.subject, takenAt, lease, hcall, by simp [hctx], c.subject_ne, hmem.1,
    hgranted, hscope, hexpiry, hid⟩

theorem resolveDecisionAt_justified
 {w later : World}
    (h : (build policy calls).resolveDecisionAt action w.nowUnix
      ((build policy calls).currentPolicySnapshot w) operator later = some r)
    (hallow : r.decision = .allow) : Justified calls (build policy calls) action w operator r := by
  obtain ⟨⟨d, hd, hdeny⟩, hways⟩ := resolveDecisionAt_allow h hallow
  refine ⟨d, hd, hdeny, ?_⟩
  rintro reason rfl
  rcases hways with ⟨hstart, hsame, -⟩ | ⟨question, hquestion, hgrounds⟩
  · rw [hsame, hstart] at hd
    cases hd
  · cases hgrounds with
    | lease c lease hctx hcovering hid hasked => exact .inl (leased_of_covering hctx hcovering hid)
    | preconfirmed source hsource hrecorded hid hasked =>
      obtain ⟨hcall, hblank⟩ := build_preconfirmedSource hsource
      exact .inr (.inl ⟨source, hcall, hblank, hrecorded⟩)
    | answered happroved hasked hid => exact .inr (.inr ⟨question, hasked, hquestion, happroved⟩)

theorem resolveDurableDecisionAt_leased
    (h : (build policy calls).resolveDurableDecisionAt action nowUnix p = some d)
    (hallow : d.decision = .allow) :
    (build policy calls).effectiveDecisionAt action d.policySnapshot = some .allow ∨
      ∃ reason, (build policy calls).effectiveDecisionAt action d.policySnapshot =
        some (.confirm reason) ∧
        Leased calls (build policy calls) action nowUnix d := by
  obtain ⟨decision, hd, h⟩ := Option.bind_eq_some_iff.mp h
  cases decision with
  | allow =>
    obtain rfl := Option.some.inj h
    exact .inl hd
  | deny reason =>
    obtain rfl := Option.some.inj h
    simp at hallow
  | confirm reason =>
    simp only at h
    split at h
    · rename_i id hid
      obtain rfl := Option.some.inj h
      obtain ⟨c, hctx, hid⟩ := Option.bind_eq_some_iff.mp hid
      obtain ⟨lease, hcovering, rfl⟩ := Option.map_eq_some_iff.mp hid
      exact .inr ⟨reason, hd, leased_of_covering hctx hcovering rfl⟩
    · obtain rfl := Option.some.inj h
      simp at hallow

/-- **The gate is sound.** For every gate, action, world and operator, whatever is
reloaded, granted or revoked before the answer: an Allow is justified under the
snapshot recorded, a durable one by the policy or a lease alone; the effective decision is at least
as strict as the policy without the skill's cap; leases decide nothing about an action without a
scope; and what is admitted durably is allowed interactively, under the same lease and with no
question. -/
theorem allow_only_justified (policy : AutonomyPolicySnapshot) (calls : List With) (action : Action)
    (sink : PermissionAuditSink) (auditRequired : Bool) (binding : Option String)
    (operator : Operator) (w : World) (events : List Event) :
    (∀ c, (build policy calls).checkAtWithAudit action sink auditRequired binding operator w
        (w.after events) = some c → c.result = .ok () →
      Justified calls (build policy calls) action w operator c.resolution) ∧
    (∀ admitted, (build policy calls).resolveTrustAdmission action w = some admitted →
      admitted.decision = .allow →
      (build policy calls).effectiveDecisionAt action admitted.policySnapshot = some .allow ∨
        ∃ reason,
          (build policy calls).effectiveDecisionAt action admitted.policySnapshot =
            some (.confirm reason) ∧
          Leased calls (build policy calls) action w.nowUnix admitted) ∧
    (∀ snapshot d, (build policy calls).effectiveDecisionAt action snapshot = some d →
      ∃ uncapped, evaluateSnapshot action snapshot = some uncapped ∧ uncapped.rank ≤ d.rank) ∧
    (leaseScopeFor action = none →
      (∀ snapshot, (build policy calls).resolveDecisionAt action w.nowUnix snapshot operator
          (w.after events) =
        (build policy calls).unleased.resolveDecisionAt action w.nowUnix snapshot operator
          (w.after events)) ∧
      ∀ snapshot, (build policy calls).resolveDurableDecisionAt action w.nowUnix snapshot =
        (build policy calls).unleased.resolveDurableDecisionAt action w.nowUnix snapshot) ∧
    (∀ admitted, (build policy calls).resolveTrustAdmission action w = some admitted →
      admitted.decision = .allow →
      ∃ c, (build policy calls).checkAtWithAudit action .none false binding operator w
          (w.after events) = some c ∧ c.result = .ok () ∧ c.resolution.question = none ∧
        c.resolution.leaseId = admitted.leaseId ∧
        c.resolution.policySnapshot = admitted.policySnapshot) := by
  refine ⟨?_, fun _ h => resolveDurableDecisionAt_leased h, fun _ _ h => effectiveDecisionAt_ge h,
    ?_, ?_⟩
  · intro c hc hok
    obtain ⟨hr, hallow, -⟩ := checkAtWithAudit_spec hc
    exact resolveDecisionAt_justified hr (hallow hok)
  · intro hscope
    exact ⟨fun snapshot => resolveDecisionAt_unleased _ hscope _ snapshot operator _,
      fun snapshot => resolveDurableDecisionAt_unleased _ hscope _ snapshot⟩
  · intro admitted hadmitted hallow
    obtain ⟨r, hr, hrallow, hasked, hid, hsnapshot⟩ :=
      resolveDurableDecisionAt_allow hadmitted hallow operator (w.after events)
    refine ⟨⟨outcome r.decision, r, none⟩, ?_, ?_, hasked, hid, hsnapshot⟩
    · simp [checkAtWithAudit, hr]
    · simp [hrallow, outcome]

end Gate

end Neoth.Permissions
