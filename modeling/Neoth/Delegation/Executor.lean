import Neoth.Delegation.Worker
import Neoth.Lib.Text

/-!
# The executor of delegated tasks

`run_one_task_execution` of `cluster/executor.rs`: what becomes of a job, by the answers that it
gets on its way to the provider and from it.  A body whose delivery is not suppressed goes to the
outbox, which validates it.

* `truncateToBytes_spec`: a completion is cut to its cap, behind a prefix and before a marker;
* `validateTaskResult_iff`, `ended_valid_iff`: what the outbox asks of a body, field by field;
* **`deliverable_iff`**: the outbox accepts the body of every run that ends without a text of the
  provider, and of the others exactly those whose provider identity or redacted error it would
  accept by itself.

Redaction is a parameter.
-/

open Lib Lib.Encoding Lib.Text Lib.Transaction

namespace Neoth.Delegation

/-! ## The end of a text -/

def truncationMarker : List Char := "\n…[truncated by cluster slave]".toList

def truncateToBytes (s : List Char) (max : Nat) : List Char :=
  if bytes s ≤ max then s
  else if max < bytes truncationMarker then takeBytes max s
  else takeBytes (max - bytes truncationMarker) s ++ truncationMarker

/-- At most `max` bytes: a prefix of the text, and the marker behind it only if something is left
out. -/
theorem truncateToBytes_spec (s : List Char) (max : Nat) :
    bytes (truncateToBytes s max) ≤ max ∧ ∃ kept, kept <+: s ∧
      (truncateToBytes s max = kept ∨ truncateToBytes s max = kept ++ truncationMarker ∧
        max < bytes s) := by
  unfold truncateToBytes
  split_ifs with hfits hsmall
  · exact ⟨hfits, s, List.prefix_rfl, .inl rfl⟩
  · exact ⟨bytes_takeBytes_le _ _, _, takeBytes_initial _ _, .inl rfl⟩
  · have hkept := bytes_takeBytes_le (max - bytes truncationMarker) s
    refine ⟨?_, _, takeBytes_initial _ _, .inr ⟨rfl, not_le.mp hfits⟩⟩
    rw [bytes_append]
    omega

/-! ## A run -/

/-- `redact_text`. -/
class Redaction where
  redactText : String → String

/-- A job holds the delegate of a frame that has been validated. -/
structure ClusterTaskJob where
  delegate : TaskDelegateBody
  valid : validateTaskDelegate delegate = .ok ()
  deadlineUnix : Int

structure CompletionIdentity where
  provider : String
  wireModel : String

def CompletionIdentity.isBound (identity : CompletionIdentity) : Bool :=
  identity.provider != "" && identity.wireModel != ""

inductive ProviderOutcome
  | completion (text : String) (identity : CompletionIdentity)
  | error (text : String)
  | elapsed

inductive ProviderCall
  | revoked
  | deadline
  | finished (outcome : ProviderOutcome)

/-- The provider, with the ceiling it has for the assembled request. -/
structure AuthorizedProvider where
  name : String
  outputTokenCeiling : Option Nat

/-- What `begin_task_delegate_external` answers. -/
inductive ExternalAdmission
  | permitted
  | assignmentDenied
  | authority

/-- The answers that a run gets, in the order in which it asks. -/
structure Answers where
  queuedEffect : Bool
  entryUnix : Int
  provider : Option AuthorizedProvider
  assigned : Bool
  assembled : Bool
  consented : Bool
  dispatchUnix : Int
  admission : ExternalAdmission
  call : ProviderCall
  /-- The end of the permit at delivery, or none. -/
  permitValid : Bool
  /-- A withheld outcome is noted as indeterminate. -/
  classified : Bool

structure TaskExecutionResult where
  body : TaskResultBody
  guarded : Bool
  suppressDelivery : Bool

namespace TaskExecutionResult

/-- `From<TaskResultBody>`. -/
def plain (body : TaskResultBody) : TaskExecutionResult := ⟨body, false, false⟩

def delivered (body : TaskResultBody) : TaskExecutionResult := ⟨body, true, false⟩

def suppressed (body : TaskResultBody) : TaskExecutionResult := ⟨body, false, true⟩

end TaskExecutionResult

namespace ClusterTaskJob

variable [Redaction] (job : ClusterTaskJob)

omit [Redaction] in
/-- A body without a result. -/
def ended (status : TaskResultStatus) (providerName : Option String) (ceiling : Option Nat) :
    TaskResultBody where
  taskId := job.delegate.taskId
  status := status
  result := none
  providerName := providerName
  requestedMaxOutputTokens := job.delegate.maxOutputTokens
  effectiveOutputTokenCeiling := ceiling

/-- The body of a call that has come to its end. -/
def outcomeBody (provider : AuthorizedProvider) : ProviderOutcome → TaskResultBody
  | .completion text identity =>
    if identity.isBound then
      { job.ended .completed (some identity.provider) provider.outputTokenCeiling with
        result := some (String.ofList (truncateToBytes text.toList maxTaskResultBytes)) }
    else
      job.ended (.failed "provider returned no authenticated response identity")
        (some provider.name) provider.outputTokenCeiling
  | .error text =>
    job.ended (.failed (Redaction.redactText text)) (some provider.name) provider.outputTokenCeiling
  | .elapsed => job.ended (.failed "timeout") (some provider.name) provider.outputTokenCeiling

/-- From the provider call on. -/
def finishCall (provider : AuthorizedProvider) (a : Answers) : TaskExecutionResult :=
  let withheld (failure : String) (providerName : Option String) : TaskExecutionResult :=
    .suppressed (job.ended (.failed failure) providerName provider.outputTokenCeiling)
  match a.call with
  | .revoked =>
    if a.classified then withheld "provider_outcome_indeterminate_after_membership_revoke"
      (some provider.name)
    else withheld "membership_revocation_classification_failed" (some provider.name)
  | .deadline =>
    if a.classified then withheld "provider_outcome_indeterminate_after_deadline"
      (some provider.name)
    else withheld "deadline_expiry_classification_failed" (some provider.name)
  | .finished outcome =>
    let result := job.outcomeBody provider outcome
    if a.permitValid then .delivered result
    else if a.classified then
      withheld "provider_outcome_indeterminate_after_membership_revoke" result.providerName
    else withheld "membership_revocation_classification_failed" result.providerName

/-- From the assembly of the request on. -/
def dispatch (provider : AuthorizedProvider) (a : Answers) : TaskExecutionResult :=
  if ¬ a.assembled then
    .plain (job.ended (.failed "request_assembly_failed") (some provider.name) none)
  else
    let ended (status : TaskResultStatus) : TaskExecutionResult :=
      .plain (job.ended status (some provider.name) provider.outputTokenCeiling)
    if ¬ a.consented then ended (.failed "provider_consent_revoked")
    else if job.deadlineUnix ≤ a.dispatchUnix then ended (.rejected "deadline_expired")
    else
      match a.admission with
      | .assignmentDenied => ended (.rejected "operator_assignment_denied")
      | .authority => ended (.failed "membership_revoked")
      | .permitted => job.finishCall provider a

def runOneTaskExecution (a : Answers) : TaskExecutionResult :=
  if ¬ a.queuedEffect then .plain (job.ended (.failed "membership_effect_missing") none none)
  else if job.deadlineUnix ≤ a.entryUnix then
    .plain (job.ended (.rejected "deadline_expired") none none)
  else
    match a.provider with
    | none => .plain (job.ended (.failed "no_provider_on_this_node") none none)
    | some provider =>
      if ¬ a.assigned then .plain (job.ended (.rejected "operator_assignment_denied") none none)
      else job.dispatch provider a

end ClusterTaskJob

/-! ## What the outbox asks -/

/-- The check of a provider name. -/
def isProviderName (name : String) : Bool := name != "" && byteLen name ≤ maxTaskIdBytes &&
    !name.toList.any isControl

/-- The check of a reason or an error. -/
def isDiagnostic (reason : String) : Bool :=
  reason != "" && byteLen reason ≤ maxTaskResultMetadataBytes && !reason.toList.any isControl

theorem checkSome_eq_ok_iff {A : Type} {value : Option A} {check : A → Except String Unit}
    {u : Unit} : checkSome value check = .ok u ↔ ∀ a ∈ value, check a = .ok () := by
  cases value <;> simp [checkSome]

theorem probe_valid_iff {taskId prompt : String} (hne : prompt ≠ "")
    (hlen : byteLen prompt ≤ maxTaskPromptBytes) :
    validateTaskDelegate (.probe taskId prompt) = .ok () ↔
      taskId ≠ "" ∧ byteLen taskId ≤ maxTaskIdBytes ∧ taskId.toList.all isTaskIdChar = true := by
  unfold validateTaskDelegate TaskDelegateBody.probe
  simp only [bind_eq_ok_iff, require_eq_ok_iff, checkSome, bne_iff_ne, decide_eq_true_eq]
  simp [hne, hlen]

/-- What passes, field by field. -/
theorem validateTaskResult_iff {body : TaskResultBody} : validateTaskResult body = .ok () ↔
    (body.taskId ≠ "" ∧ byteLen body.taskId ≤ maxTaskIdBytes ∧
      body.taskId.toList.all isTaskIdChar = true) ∧
    (body.result.isSome = true ↔ body.status = .completed) ∧
    (∀ result ∈ body.result, byteLen result ≤ maxTaskResultBytes) ∧
    (∀ name ∈ body.providerName, isProviderName name = true) ∧
    (∀ reason ∈ body.status.diagnostic, isDiagnostic reason = true) ∧
    (∀ tokens ∈ body.requestedMaxOutputTokens, isOutputCeiling tokens = true) ∧
    ∀ tokens ∈ body.effectiveOutputTokenCeiling, isOutputCeiling tokens = true := by
  rw [← @probe_valid_iff body.taskId "result-validation" (by decide) (by decide)]
  obtain ⟨taskId, status, result, providerName, requested, effective⟩ := body
  unfold validateTaskResult isProviderName isDiagnostic
  cases status <;>
    simp only [bind_eq_ok_iff, Unique.exists_iff, checkSome_eq_ok_iff, require_eq_ok_iff,
      decide_eq_true_eq, iff_true, iff_false, reduceCtorEq, Option.isNone_iff_eq_none,
      Option.not_isSome_iff_eq_none]

section
variable [Redaction] {job : ClusterTaskJob} {provider : AuthorizedProvider}

omit [Redaction] in
theorem ClusterTaskJob.delegate_valid (job : ClusterTaskJob) :
    (job.delegate.taskId ≠ "" ∧ byteLen job.delegate.taskId ≤ maxTaskIdBytes ∧
      job.delegate.taskId.toList.all isTaskIdChar = true) ∧
    ∀ tokens ∈ job.delegate.maxOutputTokens, isOutputCeiling tokens = true := by
  have hvalid := job.valid
  unfold validateTaskDelegate at hvalid
  simp only [bind_eq_ok_iff, Unique.exists_iff, checkSome_eq_ok_iff, require_eq_ok_iff,
    decide_eq_true_eq, bne_iff_ne] at hvalid
  obtain ⟨hne, hlen, hchars, -, -, -, -, hceiling, -⟩ := hvalid
  exact ⟨⟨hne, hlen, hchars⟩, hceiling⟩

omit [Redaction] in
/-- A body without a result passes if what it carries does. -/
theorem ended_valid_iff {status : TaskResultStatus} {name : Option String} {ceiling : Option Nat}
    (hstatus : status ≠ .completed) : validateTaskResult (job.ended status name ceiling) = .ok () ↔
      (∀ n ∈ name, isProviderName n = true) ∧
      (∀ reason ∈ status.diagnostic, isDiagnostic reason = true) ∧
        ∀ tokens ∈ ceiling, isOutputCeiling tokens = true := by
  obtain ⟨hid, htokens⟩ := job.delegate_valid
  rw [validateTaskResult_iff]
  constructor
  · rintro ⟨-, -, -, hname, hreason, -, hceiling⟩
    exact ⟨hname, hreason, hceiling⟩
  · rintro ⟨hname, hreason, hceiling⟩
    exact ⟨hid, by simp [ClusterTaskJob.ended, hstatus], by simp [ClusterTaskJob.ended], hname,
      hreason, htokens, hceiling⟩

end

/-! ## Which bodies pass -/

namespace Answers

variable (a : Answers) (job : ClusterTaskJob) (provider : AuthorizedProvider)

/-- The run comes to its provider. -/
structure Starts : Prop where
  queued : a.queuedEffect = true
  inTime : a.entryUnix < job.deadlineUnix
  provided : a.provider = some provider
  assigned : a.assigned = true

/-- The provider is called. -/
structure Dispatches : Prop extends a.Starts job provider where
  assembled : a.assembled = true
  consented : a.consented = true
  stillInTime : a.dispatchUnix < job.deadlineUnix
  admitted : a.admission = .permitted

/-- What has become of the call is not delivered. -/
def Withheld : Prop := a.call = .revoked ∨ a.call = .deadline ∨ a.permitValid = false

/-- An outcome of the call is delivered. -/
structure Delivers (outcome : ProviderOutcome) : Prop extends a.Dispatches job provider where
  finished : a.call = .finished outcome
  permitValid : a.permitValid = true

end Answers

/-- What `persist_and_offer` makes of it: a body that is not suppressed is one that the outbox
accepts. -/
def TaskExecutionResult.Deliverable (r : TaskExecutionResult) : Prop :=
  r.suppressDelivery = false → validateTaskResult r.body = .ok ()

section
variable [Redaction] {job : ClusterTaskJob} {provider : AuthorizedProvider} {a : Answers}

/-- What a run copies into a body that is delivered has the shape that the outbox asks for. -/
structure Shaped (job : ClusterTaskJob) (a : Answers) : Prop where
  /-- the name of the provider, unless a completion has an identity of its own -/
  name : ∀ provider, a.Starts job provider → ¬ (a.Dispatches job provider ∧ a.Withheld) →
    (∀ text identity, a.Delivers job provider (.completion text identity) →
      identity.isBound = false) →
    isProviderName provider.name = true
  ceiling : ∀ provider, a.Starts job provider →
    a.assembled = true → ¬ (a.Dispatches job provider ∧ a.Withheld) →
    ∀ tokens ∈ provider.outputTokenCeiling, isOutputCeiling tokens = true
  identity : ∀ provider text identity, a.Delivers job provider (.completion text identity) →
    identity.isBound = true → isProviderName identity.provider = true
  error : ∀ provider text, a.Delivers job provider (.error text) →
    isDiagnostic (Redaction.redactText text) = true

theorem outcome_valid_iff {outcome : ProviderOutcome} :
    validateTaskResult (job.outcomeBody provider outcome) = .ok () ↔
      (∀ tokens ∈ provider.outputTokenCeiling, isOutputCeiling tokens = true) ∧
      match outcome with
      | .completion _ identity =>
        if identity.isBound then isProviderName identity.provider = true
        else isProviderName provider.name = true
      | .error text => isProviderName provider.name = true ∧
        isDiagnostic (Redaction.redactText text) = true
      | .elapsed => isProviderName provider.name = true := by
  cases outcome with
  | completion text identity =>
    unfold ClusterTaskJob.outcomeBody
    dsimp only
    split_ifs
    · obtain ⟨hid, htokens⟩ := job.delegate_valid
      have hfits := (truncateToBytes_spec text.toList maxTaskResultBytes).1
      rw [← byteLen_ofList] at hfits
      rw [validateTaskResult_iff]
      constructor
      · rintro ⟨-, -, -, hname, -, -, hceiling⟩
        exact ⟨hceiling, hname _ rfl⟩
      · rintro ⟨hceiling, hname⟩
        exact ⟨hid, by simp [ClusterTaskJob.ended], by simpa using hfits, by
          simpa [ClusterTaskJob.ended] using hname,
          by simp [ClusterTaskJob.ended, TaskResultStatus.diagnostic], htokens, hceiling⟩
    · rw [ended_valid_iff (by simp)]
      have hreason : isDiagnostic "provider returned no authenticated response identity" =
          true := by decide
      simp [TaskResultStatus.diagnostic, hreason, and_comm]
  | error text =>
    rw [ClusterTaskJob.outcomeBody, ended_valid_iff (by simp)]
    simp only [TaskResultStatus.diagnostic, Option.mem_def, Option.some.injEq, forall_eq']
    tauto
  | elapsed =>
    rw [ClusterTaskJob.outcomeBody, ended_valid_iff (by simp)]
    have hreason : isDiagnostic "timeout" = true := by decide
    simp [TaskResultStatus.diagnostic, hreason, and_comm]

omit [Redaction] in
theorem Answers.Starts.unique {provider' : AuthorizedProvider} (h : a.Starts job provider)
    (h' : a.Starts job provider') : provider = provider' :=
  Option.some.inj (h.provided.symm.trans h'.provided)

omit [Redaction] in
/-- A status that is no completion, and whose reason passes. -/
def IsRefusal (status : TaskResultStatus) : Prop :=
  status ≠ .completed ∧ ∀ reason ∈ status.diagnostic, isDiagnostic reason = true

omit [Redaction] in
theorem IsRefusal.failed {error : String} (h : isDiagnostic error = true) :
    IsRefusal (.failed error) :=
  ⟨by simp, by simpa [TaskResultStatus.diagnostic] using h⟩

omit [Redaction] in
theorem IsRefusal.rejected {reason : String} (h : isDiagnostic reason = true) :
    IsRefusal (.rejected reason) :=
  ⟨by simp, by simpa [TaskResultStatus.diagnostic] using h⟩

omit [Redaction] in
theorem plain_deliverable_iff {status : TaskResultStatus} {name : Option String}
    {ceiling : Option Nat}
    (h : IsRefusal status) :
      (TaskExecutionResult.plain (job.ended status name ceiling)).Deliverable ↔
      (∀ n ∈ name, isProviderName n = true) ∧ ∀ tokens ∈ ceiling,
        isOutputCeiling tokens = true := by
  have hplain : (TaskExecutionResult.plain (job.ended status name ceiling)).Deliverable ↔
      validateTaskResult (job.ended status name ceiling) = .ok () := ⟨fun h => h rfl, fun h _ => h⟩
  rw [hplain, ended_valid_iff h.1]
  exact ⟨fun hvalid => ⟨hvalid.1, hvalid.2.2⟩, fun hvalid => ⟨hvalid.1, h.2, hvalid.2⟩⟩

/-- A run that does not come to its provider. -/
theorem run_of_not_starts (h : ∀ provider, ¬ a.Starts job provider) :
    ∃ status, IsRefusal status ∧
    job.runOneTaskExecution a = .plain (job.ended status none none) := by
  unfold ClusterTaskJob.runOneTaskExecution
  by_cases hqueued : a.queuedEffect = true
  · rw [if_neg (not_not.mpr hqueued)]
    by_cases hlate : job.deadlineUnix ≤ a.entryUnix
    · exact ⟨_, .rejected (by decide), if_pos hlate⟩
    · rw [if_neg hlate]
      cases hprovider : a.provider with
      | none => exact ⟨_, .failed (by decide), rfl⟩
      | some provider =>
        have hassigned : ¬ a.assigned = true := fun hassigned =>
          h provider ⟨hqueued, not_le.mp hlate, hprovider, hassigned⟩
        exact ⟨_, .rejected (by decide), if_pos hassigned⟩
  · exact ⟨_, .failed (by decide), if_pos hqueued⟩

theorem run_of_starts (h : a.Starts job provider) :
    job.runOneTaskExecution a = job.dispatch provider a := by
  unfold ClusterTaskJob.runOneTaskExecution
  rw [if_neg (by simp [h.queued]), if_neg (not_le.mpr h.inTime), h.provided]
  exact if_neg (by simp [h.assigned])

/-- A run that ends between the assembly and the call. -/
theorem dispatch_of_not_dispatches (hstarts : a.Starts job provider)
    (hassembled : a.assembled = true)
    (h : ¬ a.Dispatches job provider) : ∃ status, IsRefusal status ∧
      job.dispatch provider a =
        .plain (job.ended status (some provider.name) provider.outputTokenCeiling) := by
  unfold ClusterTaskJob.dispatch
  rw [if_neg (not_not.mpr hassembled)]
  dsimp only
  by_cases hconsented : a.consented = true
  · rw [if_neg (not_not.mpr hconsented)]
    by_cases hlate : job.deadlineUnix ≤ a.dispatchUnix
    · exact ⟨_, .rejected (by decide), if_pos hlate⟩
    · rw [if_neg hlate]
      cases hadmission : a.admission with
      | assignmentDenied => exact ⟨_, .rejected (by decide), rfl⟩
      | authority => exact ⟨_, .failed (by decide), rfl⟩
      | permitted => exact absurd ⟨hstarts, hassembled, hconsented, not_le.mp hlate, hadmission⟩ h
  · exact ⟨_, .failed (by decide), if_pos hconsented⟩

theorem dispatch_of_dispatches (h : a.Dispatches job provider) :
    job.dispatch provider a = job.finishCall provider a := by
  unfold ClusterTaskJob.dispatch
  rw [if_neg (by simp [h.assembled])]
  dsimp only
  rw [if_neg (by simp [h.consented]), if_neg (not_le.mpr h.stillInTime), h.admitted]

/-- A call whose outcome is withheld, or delivered as it is. -/
theorem finishCall_cases : (a.Withheld ∧ (job.finishCall provider a).suppressDelivery = true) ∨
    ∃ outcome, a.call = .finished outcome ∧ a.permitValid = true ∧
      job.finishCall provider a = .delivered (job.outcomeBody provider outcome) := by
  unfold ClusterTaskJob.finishCall
  cases hcall : a.call with
  | revoked =>
    refine .inl ⟨.inl hcall, ?_⟩
    dsimp only
    split_ifs <;> rfl
  | deadline =>
    refine .inl ⟨.inr (.inl hcall), ?_⟩
    dsimp only
    split_ifs <;> rfl
  | finished outcome =>
    dsimp only
    split_ifs with hvalid hclassified
    · exact .inr ⟨outcome, rfl, hvalid, rfl⟩
    · exact .inl ⟨.inr (.inr (by simpa using hvalid)), rfl⟩
    · exact .inl ⟨.inr (.inr (by simpa using hvalid)), rfl⟩

omit [Redaction] in
theorem Answers.Delivers.not_withheld {outcome : ProviderOutcome}
    (h : a.Delivers job provider outcome) : ¬ a.Withheld := by
  rintro (hcall | hcall | hpermit)
  · exact absurd (h.finished.symm.trans hcall) (by simp)
  · exact absurd (h.finished.symm.trans hcall) (by simp)
  · exact absurd (h.permitValid.symm.trans hpermit) (by simp)

/-- A run that does not come to the delivery of an outcome copies the name and the ceiling of its
provider. -/
theorem shaped_iff_of_not_dispatches (hstarts : a.Starts job provider)
    (h : ¬ a.Dispatches job provider) : Shaped job a ↔ isProviderName provider.name = true ∧
      (a.assembled = true → ∀ tokens ∈ provider.outputTokenCeiling,
        isOutputCeiling tokens = true) := by
  have hnone : ∀ {p outcome}, ¬ a.Delivers job p outcome := fun hp =>
    h (hstarts.unique hp.toStarts ▸ hp.toDispatches)
  constructor
  · intro hshaped
    exact ⟨hshaped.name provider hstarts (fun hd => h hd.1) fun _ _ hp => absurd hp hnone,
      fun hassembled => hshaped.ceiling provider hstarts hassembled fun hd => h hd.1⟩
  · rintro ⟨hname, hceiling⟩
    refine ⟨fun p hp _ _ => ?_, fun p hp hassembled _ => ?_, fun _ _ _ hp => absurd hp hnone,
      fun _ _ hp => absurd hp hnone⟩
    · rw [← hstarts.unique hp]
      exact hname
    · rw [← hstarts.unique hp]
      exact hceiling hassembled

/-- A run whose outcome is withheld copies nothing that is delivered. -/
theorem shaped_of_withheld (hdispatches : a.Dispatches job provider) (hwithheld : a.Withheld) :
    Shaped job a where
  name _ hp hnot _ := absurd ⟨hdispatches.toStarts.unique hp ▸ hdispatches, hwithheld⟩ hnot
  ceiling _ hp _ hnot := absurd ⟨hdispatches.toStarts.unique hp ▸ hdispatches, hwithheld⟩ hnot
  identity _ _ _ hp := absurd hwithheld hp.not_withheld
  error _ _ hp := absurd hwithheld hp.not_withheld

/-- A run whose outcome is delivered copies what the body of the outcome holds. -/
theorem shaped_iff_of_delivers {outcome : ProviderOutcome} (h : a.Delivers job provider outcome) :
    Shaped job a ↔ validateTaskResult (job.outcomeBody provider outcome) = .ok () := by
  have hsame : ∀ {p outcome'}, a.Delivers job p outcome' → provider = p ∧ outcome = outcome' :=
    fun hp =>
    ⟨h.toStarts.unique hp.toStarts, by simpa using h.finished.symm.trans hp.finished⟩
  rw [outcome_valid_iff]
  constructor
  · intro hshaped
    refine ⟨hshaped.ceiling provider h.toStarts h.assembled fun hd => h.not_withheld hd.2, ?_⟩
    have hname := hshaped.name provider h.toStarts fun hd => h.not_withheld hd.2
    cases outcome with
    | completion text identity =>
      dsimp only
      split_ifs with hbound
      · exact hshaped.identity provider text identity h hbound
      · refine hname fun text' identity' hp => ?_
        obtain ⟨-, houtcome⟩ := hsame hp
        injection houtcome with _ hidentity
        rw [← hidentity]
        simpa using hbound
    | error text =>
      exact ⟨hname fun _ _ hp => absurd (hsame hp).2 (by simp), hshaped.error provider text h⟩
    | elapsed => exact hname fun _ _ hp => absurd (hsame hp).2 (by simp)
  · rintro ⟨hceiling, hbody⟩
    refine ⟨fun p hp _ hunbound => ?_, fun p hp _ _ => ?_, fun p text identity hp hbound => ?_,
      fun p text hp => ?_⟩
    · rw [← h.toStarts.unique hp]
      cases outcome with
      | completion text identity =>
        have hnot : identity.isBound = false := hunbound text identity (h.toStarts.unique hp ▸ h)
        dsimp only at hbody
        rwa [if_neg (by simp [hnot])] at hbody
      | error text => exact hbody.1
      | elapsed => exact hbody
    · rw [← h.toStarts.unique hp]
      exact hceiling
    · obtain ⟨-, rfl⟩ := hsame hp
      simpa [hbound] using hbody
    · obtain ⟨-, rfl⟩ := hsame hp
      exact hbody.2

/-- **The outbox accepts every body that a run does not suppress if and only if what the run copies
into it has the shape that the outbox asks for.  A completion is cut to the cap, behind a prefix and
before the marker.** -/
theorem deliverable_iff :
    (∀ (s : List Char) (max : Nat), bytes (truncateToBytes s max) ≤ max ∧ ∃ kept, kept <+: s ∧
      (truncateToBytes s max = kept ∨ truncateToBytes s max = kept ++ truncationMarker ∧
        max < bytes s)) ∧
    ∀ (job : ClusterTaskJob) (a : Answers), (job.runOneTaskExecution a).Deliverable ↔
    Shaped job a := by
  refine ⟨truncateToBytes_spec, fun job a => ?_⟩
  by_cases hstarts : ∃ provider, a.Starts job provider
  · obtain ⟨provider, hstarts⟩ := hstarts
    rw [run_of_starts hstarts]
    by_cases hdispatches : a.Dispatches job provider
    · rw [dispatch_of_dispatches hdispatches]
      rcases @finishCall_cases _ job provider a with ⟨hwithheld, hsuppressed⟩ | ⟨outcome, hcall,
        hvalid, hresult⟩
      · refine ⟨fun _ => shaped_of_withheld hdispatches hwithheld, fun _ hnot => ?_⟩
        rw [hsuppressed] at hnot
        cases hnot
      · rw [shaped_iff_of_delivers ⟨hdispatches, hcall, hvalid⟩, hresult]
        exact ⟨fun h => h rfl, fun h _ => h⟩
    · rw [shaped_iff_of_not_dispatches hstarts hdispatches]
      by_cases hassembled : a.assembled = true
      · obtain ⟨status, hrefusal, hbody⟩ :=
          dispatch_of_not_dispatches hstarts hassembled hdispatches
        rw [hbody, plain_deliverable_iff hrefusal]
        simp [hassembled]
      · have hbody : job.dispatch provider a =
            .plain (job.ended (.failed "request_assembly_failed") (some provider.name) none) := by
          unfold ClusterTaskJob.dispatch
          exact if_pos hassembled
        rw [hbody, plain_deliverable_iff (.failed (by decide))]
        simp [hassembled]
  · obtain ⟨status, hrefusal, hbody⟩ := run_of_not_starts fun provider hp => hstarts ⟨provider, hp⟩
    have hnone : ∀ provider, ¬ a.Starts job provider := fun provider hp => hstarts ⟨provider, hp⟩
    rw [hbody, plain_deliverable_iff hrefusal]
    refine ⟨fun _ => ⟨fun p hp => absurd hp (hnone p), fun p hp => absurd hp (hnone p),
      fun p _ _ hp => absurd hp.toStarts (hnone p), fun p _ hp => absurd hp.toStarts (hnone p)⟩,
      fun _ => by simp⟩

end

/-! ## An error of two lines -/

def sampleExecutorJob : ClusterTaskJob :=
  ⟨.probe "task-7" "translate this", by decide, 1_800_000_000⟩

/-- Everything goes well up to the provider, which quotes the two lines that its process left on
stderr. -/
def sampleErrorAnswers : Answers where
  queuedEffect := true
  entryUnix := 1_799_999_000
  provider := some ⟨"claude_cli", none⟩
  assigned := true
  assembled := true
  consented := true
  dispatchUnix := 1_799_999_001
  admission := .permitted
  call :=
    .finished (.error "claude CLI exited with Some(1): Error: connection refused\n    at connect")
  permitValid := true
  classified := true

/-- A redaction that has nothing to redact. -/
@[reducible] def sampleRedaction : Redaction := ⟨id⟩

/-- The body of an error with a line break goes to the outbox, and the outbox refuses it. -/
theorem error_line_refused :
    (@ClusterTaskJob.runOneTaskExecution sampleRedaction sampleExecutorJob
      sampleErrorAnswers).suppressDelivery = false ∧
    validateTaskResult (@ClusterTaskJob.runOneTaskExecution sampleRedaction sampleExecutorJob
      sampleErrorAnswers).body = .error "task_result: terminal diagnostic is invalid" ∧
    ¬ ∀ (r : Redaction) (job : ClusterTaskJob) (a : Answers),
      (@ClusterTaskJob.runOneTaskExecution r job a).Deliverable := by
  have hdelivers : (@ClusterTaskJob.runOneTaskExecution sampleRedaction sampleExecutorJob
      sampleErrorAnswers).suppressDelivery = false := by decide
  have hrefused :
      validateTaskResult (@ClusterTaskJob.runOneTaskExecution sampleRedaction sampleExecutorJob
      sampleErrorAnswers).body = .error "task_result: terminal diagnostic is invalid" := by
        decide +kernel
  refine ⟨hdelivers, hrefused, fun h => ?_⟩
  have haccepted := h sampleRedaction sampleExecutorJob sampleErrorAnswers hdelivers
  rw [hrefused] at haccepted
  cases haccepted

end Neoth.Delegation
