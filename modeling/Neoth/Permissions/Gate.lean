import Neoth.Permissions.Policy
import Neoth.Permissions.Leases

/-!
# The permission gate

A gate carries a policy, the cap of a selected skill, a way to ask the operator, a
snapshot of the leases of one subject and at most one earlier confirmation.
`checkAtWithAudit` decides an action, asking the operator where nothing else
answers a Confirm; the answer comes in a later world, where the policy may have
been reloaded and leases revoked.  `resolveDurableDecisionAt` decides without a
question.
-/

open Lib Std
open Lib.Encoding (trim)

namespace Neoth.Permissions

/-! ## Gates -/

inductive ConfirmStrategy where
  | tty
  | channel
  | failClosed

inductive AuditPresentation where
  | canonical
  | releasedResearch

/-- The active leases of a store, taken once, and the subject decided for. -/
structure LeaseContext where
  leases : List CapabilityLease
  subject : String
  subject_ne : subject ≠ ""

def LeaseContext.coveringLease (c : LeaseContext) (action : Action) (nowUnix : Int) :
    Option CapabilityLease := do
  let scope ← leaseScopeFor action
  c.leases.find? (·.covers c.subject scope nowUnix)

def LeaseContext.coveringLeaseId (c : LeaseContext) (action : Action) (nowUnix : Int) :
    Option String :=
  (c.coveringLease action nowUnix).map (·.leaseId)

structure Gate where
  policy : AutonomyPolicySnapshot
  skillInvocationPolicy : Option SkillInvocationPolicy
  confirm : ConfirmStrategy
  /-- Whether a `ChannelAsker` is wired. -/
  channelAsker : Bool
  channelTimeoutSecs : Nat
  leaseCtx : Option LeaseContext
  preconfirmedSource : Option String
  auditPresentation : AuditPresentation

namespace Gate

def forPolicy (policy : AutonomyPolicySnapshot) : Gate where
  policy := policy
  skillInvocationPolicy := none
  confirm := .failClosed
  channelAsker := false
  channelTimeoutSecs := 90
  leaseCtx := none
  preconfirmedSource := none
  auditPresentation := .canonical

/-- The calls that configure a gate. -/
inductive With where
  | skillInvocationPolicy (policy : Option SkillInvocationPolicy)
  | confirm (strategy : ConfirmStrategy)
  | channelAsker
  | channelTimeout (secs : Nat)
  | preconfirmedConfirmation (source : String)
  | releasedResearchAudit
  | leaseSnapshot (store : LeaseStore) (subject : String) (nowUnix : Int)

def configure (g : Gate) : With → Gate
  | .skillInvocationPolicy policy => { g with skillInvocationPolicy := policy }
  | .confirm strategy => { g with confirm := strategy }
  | .channelAsker => { g with channelAsker := true }
  | .channelTimeout secs => { g with channelTimeoutSecs := secs }
  | .preconfirmedConfirmation source =>
    { g with preconfirmedSource := if trim source = "" then none else some source }
  | .releasedResearchAudit => { g with auditPresentation := .releasedResearch }
  | .leaseSnapshot store subject nowUnix =>
    if h : subject = "" then g
    else { g with leaseCtx := some ⟨store.active nowUnix, subject, h⟩ }

def build (policy : AutonomyPolicySnapshot) (calls : List With) : Gate :=
  calls.foldl configure (forPolicy policy)

end Gate

/-! ## What changes while the gate waits -/

structure World where
  /-- The policy the reload controller holds. -/
  autonomyPolicy : AutonomyPolicySnapshot
  leases : LeaseStore
  nowUnix : Int

inductive Event where
  | reload (policy : AutonomyPolicySnapshot)
  | grant (lease : CapabilityLease)
  | revoke (leaseIdOrPrefix : String)
  | pruneExpired
  | tick (nowUnix : Int)

def World.step (w : World) : Event → World
  | .reload policy => { w with autonomyPolicy := policy }
  | .grant lease => { w with leases := w.leases.grant lease }
  | .revoke leaseIdOrPrefix => { w with leases := w.leases.revoke leaseIdOrPrefix }
  | .pruneExpired => { w with leases := w.leases.pruneExpired w.nowUnix }
  | .tick nowUnix => { w with nowUnix := nowUnix }

def World.after (w : World) (events : List Event) : World := events.foldl World.step w

/-- What a terminal prompt comes to. -/
inductive Prompt where
  | wizardDisabled
  | noTerminal
  | answered (yes : Bool)
  | failed (error : String)

/-- The operator, by what each question put to him comes to.  A channel question that
is not answered within the timeout has no outcome. -/
structure Operator where
  channel : String → Option (Option Bool)
  terminal : String → Prompt

/-! ## Deciding -/

structure Resolution where
  decision : Decision
  leaseId : Option String
  confirmationSource : Option String
  /-- The snapshot the audit evidence records. -/
  policySnapshot : AutonomyPolicySnapshot
  /-- The reason handed to the operator's side, where it came to that. -/
  question : Option String

namespace Gate

section Deciding

variable [FloatText] (g : Gate) (action : Action)

def currentPolicySnapshot (w : World) : AutonomyPolicySnapshot :=
  match g.skillInvocationPolicy with
  | none => g.policy
  | some routePolicy => routePolicy.currentGlobalSnapshot w.autonomyPolicy g.policy

def effectiveDecisionAt (policySnapshot : AutonomyPolicySnapshot) : Option Decision :=
  match g.skillInvocationPolicy with
  | none => evaluateSnapshot action policySnapshot
  | some routePolicy => routePolicy.evaluateAtSnapshot action policySnapshot

def resolveConfirm (reason : String) (operator : Operator) : Decision :=
  match g.confirm with
  | .failClosed => .deny s!"daemon-mode fail-closed; {reason}"
  | .channel =>
    if g.channelAsker then
      match operator.channel reason with
      | some (some true) => .allow
      | some (some false) => .deny s!"operator denied via channel: {reason}"
      | some none => .deny s!"channel unavailable for confirm; {reason}"
      | none => .deny s!"channel-confirm timed out after {g.channelTimeoutSecs}s; {reason}"
    else .deny ("channel-confirm not wired (wire a ChannelAsker via " ++
      s!"Gate::with_channel_asker); {reason}")
  | .tty =>
    match operator.terminal reason with
    | .wizardDisabled => .deny s!"wizard feature disabled; cannot prompt. {reason}"
    | .noTerminal => .deny s!"no TTY for confirm; {reason}"
    | .answered true => .allow
    | .answered false => .deny s!"operator declined; {reason}"
    | .failed error => .deny s!"confirm dialog error: {error}"

/-- The source recorded for a positive answer. -/
def answerSource : Option String :=
  match g.confirm with
  | .tty => some "tty_operator_confirm"
  | .channel => some "channel_operator_confirm"
  | .failClosed => none

def hasSkillCap : Bool :=
  match g.skillInvocationPolicy with
  | none => false
  | some routePolicy => routePolicy.hasSkillCap

/-- The part of `resolve_decision_at` that asks; `later` is the world the answer comes in. -/
def resolveAsked (policySnapshot : AutonomyPolicySnapshot) (reason : String) (operator : Operator)
    (later : World) : Option Resolution :=
  let resolved := g.resolveConfirm reason operator
  if resolved.isAllow then do
    let auditPolicySnapshot := if g.hasSkillCap then g.currentPolicySnapshot later
      else policySnapshot
    match ← g.effectiveDecisionAt action auditPolicySnapshot with
    | .deny reason' => some ⟨.deny reason', none, none, auditPolicySnapshot, some reason⟩
    | _ => some ⟨.allow, none, g.answerSource, auditPolicySnapshot, some reason⟩
  else some ⟨resolved, none, none, policySnapshot, some reason⟩

def resolveDecisionAt (nowUnix : Int) (policySnapshot : AutonomyPolicySnapshot)
    (operator : Operator) (later : World) : Option Resolution := do
  match ← g.effectiveDecisionAt action policySnapshot with
  | .allow => some ⟨.allow, none, g.preconfirmedSource, policySnapshot, none⟩
  | .deny reason => some ⟨.deny reason, none, none, policySnapshot, none⟩
  | .confirm reason =>
    match g.leaseCtx.bind (·.coveringLeaseId action nowUnix) with
    | some id => some ⟨.allow, some id, some "capability_lease", policySnapshot, none⟩
    | none =>
      match g.preconfirmedSource with
      | some source => some ⟨.allow, none, some source, policySnapshot, none⟩
      | none => g.resolveAsked action policySnapshot reason operator later

def durableDenial (reason : String) : String :=
  match g.confirm with
  | .failClosed => s!"daemon-mode fail-closed; {reason}"
  | .channel => s!"durable admission refuses ephemeral channel confirmation; {reason}"
  | .tty => s!"durable admission requires a request-bound confirmation receipt; {reason}"

def resolveDurableDecisionAt (nowUnix : Int) (policySnapshot : AutonomyPolicySnapshot) :
    Option Resolution := do
  match ← g.effectiveDecisionAt action policySnapshot with
  | .allow => some ⟨.allow, none, none, policySnapshot, none⟩
  | .deny reason => some ⟨.deny reason, none, none, policySnapshot, none⟩
  | .confirm reason =>
    match g.leaseCtx.bind (·.coveringLeaseId action nowUnix) with
    | some id => some ⟨.allow, some id, some "capability_lease", policySnapshot, none⟩
    | none => some ⟨.deny (g.durableDenial reason), none, none, policySnapshot, none⟩

end Deciding

end Gate

/-! ## The two entry points -/

inductive GateError where
  | denied (reason : String)
  | aborted (reason : String)
  | unavailable (reason : String)

structure AuditContext where
  level : AutonomyLevel
  decision : Decision
  subject : Option String
  leaseId : Option String
  confirmationSource : Option String
  requestBindingSha256 : Option String
  presentation : AuditPresentation

/-- Where the evidence goes, by how appending it comes out. -/
inductive PermissionAuditSink where
  | none
  | append (outcome : AuditContext → Except String Unit)

structure Checked where
  result : Except GateError Unit
  resolution : Resolution
  audited : Option AuditContext

namespace Gate

section EntryPoints

variable [FloatText] (g : Gate) (action : Action)

def outcome : Decision → Except GateError Unit
  | .allow => .ok ()
  | .deny reason => .error (.denied reason)
  | .confirm reason => .error (.aborted reason)

def auditContext (r : Resolution) (requestBindingSha256 : Option String) : AuditContext where
  level := r.policySnapshot.level
  decision := r.decision
  subject := g.leaseCtx.map (·.subject)
  leaseId := r.leaseId
  confirmationSource := r.confirmationSource
  requestBindingSha256 := requestBindingSha256
  presentation := g.auditPresentation

/-- `check_at_with_audit`, begun in the world `w` and answered, where it asks, in `later`. -/
def checkAtWithAudit (sink : PermissionAuditSink) (auditRequired : Bool)
    (requestBindingSha256 : Option String) (operator : Operator) (w later : World) :
      Option Checked := do
  let r ← g.resolveDecisionAt action w.nowUnix (g.currentPolicySnapshot w) operator later
  match sink with
  | .none =>
    if auditRequired then
      some ⟨.error (.unavailable
        "required permission audit has no WAL writer or daemon audit-RPC sink"), r, none⟩
    else some ⟨outcome r.decision, r, none⟩
  | .append appended =>
    let evidence := g.auditContext r requestBindingSha256
    match appended evidence with
    | .ok () => some ⟨outcome r.decision, r, some evidence⟩
    | .error error =>
      if auditRequired then
        some ⟨.error (.unavailable s!"required permission audit WAL append failed: {error}"),
          r, none⟩
      else some ⟨outcome r.decision, r, none⟩

/-- The decision `resolve_trust_admission` writes into its descriptor. -/
def resolveTrustAdmission (w : World) : Option Resolution :=
  g.resolveDurableDecisionAt action w.nowUnix (g.currentPolicySnapshot w)

end EntryPoints

end Gate

end Neoth.Permissions
