import Neoth.Authority.Store

/-!
# Delegated tasks: frames

The bodies of the task frames of `cluster/heartbeat.rs`, their checks, and the digests that bind a
request (`cluster/result_outbox.rs`) and a result.

* `validateTaskDelegate`, `validateTaskResult`, `validateTaskResultAck`: the checks;
* `taskResultDigest`, `delegateContextDigest`: the digests.
-/

open Lib Lib.Encoding Lib.Transaction

namespace Neoth.Delegation

open Neoth.Authority

/-! ## Frames -/

def maxTaskPromptBytes : Nat := 8 * 1024

def maxTaskIdBytes : Nat := 64

def maxTaskScopeIdBytes : Nat := 128

def maxTaskOutputTokens : Nat := 131072

def maxTaskResultBytes : Nat := 32 * 1024

def maxTaskResultMetadataBytes : Nat := 4 * 1024

structure TaskDelegateScope where
  skillId : String
  channelId : Option String
  accountId : Option String

structure TaskDelegateBody where
  taskId : String
  prompt : String
  modelHint : Option String
  maxOutputTokens : Option Nat
  deadlineUnix : Option Int
  scope : Option TaskDelegateScope

inductive TaskResultStatus
  | completed
  | rejected (reason : String)
  | failed (error : String)
  deriving DecidableEq

structure TaskResultBody where
  taskId : String
  status : TaskResultStatus
  result : Option String
  providerName : Option String
  requestedMaxOutputTokens : Option Nat
  effectiveOutputTokenCeiling : Option Nat
  deriving DecidableEq

structure TaskResultAckBody where
  taskId : String
  resultDigest : String

/-! ## Checks -/

/-- `[A-Za-z0-9._:-]`. -/
def isTaskIdChar (c : Char) : Bool := c.isAlphanum || ['-', '_', '.', ':'].contains c

def validateTaskScopeId (label value : String) : Except String Unit := do
  require (value != "") s!"task_delegate: {label} is empty"
  require (byteLen value ≤ maxTaskScopeIdBytes) s!"task_delegate: {label} exceeds cap"
  require (value.toList.all isTaskIdChar)
    s!"task_delegate: {label} contains non canonical characters"

/-- A check of an optional value, made when it is there. -/
def checkSome {A : Type} (value : Option A) (check : A → Except String Unit) : Except String Unit :=
  match value with
  | none => .ok ()
  | some value => check value

def validateTaskDelegateScope (scope : TaskDelegateScope) : Except String Unit := do
  validateTaskScopeId "skill_id" scope.skillId
  checkSome scope.channelId (validateTaskScopeId "channel_id")
  checkSome scope.accountId (validateTaskScopeId "account_id")

/-- `1 ≤ tokens ≤ MAX_TASK_OUTPUT_TOKENS`. -/
def isOutputCeiling (tokens : Nat) : Bool := 0 < tokens && tokens ≤ maxTaskOutputTokens

def validateTaskDelegate (body : TaskDelegateBody) : Except String Unit := do
  require (body.taskId != "") "task_delegate: empty task_id"
  require (byteLen body.taskId ≤ maxTaskIdBytes)
    s!"task_delegate: task_id {byteLen body.taskId} bytes exceeds cap {maxTaskIdBytes}"
  require (body.taskId.toList.all isTaskIdChar)
    "task_delegate: task_id contains non [A-Za-z0-9._:-] characters"
  require (body.prompt != "") "task_delegate: empty prompt"
  require (byteLen body.prompt ≤ maxTaskPromptBytes)
    s!"task_delegate: prompt {byteLen body.prompt} bytes exceeds cap {maxTaskPromptBytes}"
  checkSome body.scope validateTaskDelegateScope
  checkSome body.modelHint fun hint => require (byteLen hint ≤ maxTaskIdBytes)
    s!"task_delegate: model_hint {byteLen hint} bytes exceeds cap {maxTaskIdBytes}"
  checkSome body.maxOutputTokens fun tokens => require (isOutputCeiling tokens)
    s!"task_delegate: max_output_tokens must be within [1, {maxTaskOutputTokens}], got {tokens}"
  checkSome body.deadlineUnix fun deadline => require (0 < deadline)
    "task_delegate: deadline_unix must be a positive Unix timestamp"

/-- The delegate that the checks of a result and of an acknowledgement validate for its task id. -/
def TaskDelegateBody.probe (taskId prompt : String) : TaskDelegateBody :=
  { taskId := taskId, prompt := prompt, modelHint := none, maxOutputTokens := none,
    deadlineUnix := none
    scope := none }

/-- The reason or error of a result that is not a completion. -/
def TaskResultStatus.diagnostic : TaskResultStatus → Option String
  | .completed => none
  | .rejected reason => some reason
  | .failed error => some error

def validateTaskResult (body : TaskResultBody) : Except String Unit := do
  validateTaskDelegate (.probe body.taskId "result-validation")
  match body.status with
  | .completed => require body.result.isSome "task_result: completed status omitted result"
  | .rejected _ | .failed _ =>
    require body.result.isNone "task_result: non-completed status carries a result"
  checkSome body.result fun result => require (byteLen result ≤ maxTaskResultBytes)
    s!"task_result: result {byteLen result} bytes exceeds cap {maxTaskResultBytes}"
  checkSome body.providerName fun name =>
    require (name != "" && byteLen name ≤ maxTaskIdBytes && !name.toList.any isControl)
      "task_result: provider_name is invalid"
  checkSome body.status.diagnostic fun reason =>
    require (reason != "" && byteLen reason ≤ maxTaskResultMetadataBytes &&
      !reason.toList.any isControl) "task_result: terminal diagnostic is invalid"
  checkSome body.requestedMaxOutputTokens fun tokens => require (isOutputCeiling tokens)
    "task_result: requested_max_output_tokens is invalid"
  checkSome body.effectiveOutputTokenCeiling fun tokens => require (isOutputCeiling tokens)
    "task_result: effective_output_token_ceiling is invalid"

def validateTaskResultAck (ack : TaskResultAckBody) : Except String Unit := do
  validateTaskDelegate (.probe ack.taskId "task-result-ack-validation")
  require (isLowerSha256 ack.resultDigest)
    "task_result_ack: result_digest must be lowercase sha256 hex"

/-- `validate_task_delegate_operation_id`. -/
def validateTaskDelegateOperationId (value : String) : Except String Unit :=
  require (value != "" && byteLen value ≤ 64 && value.toList.all isTaskIdChar)
    "outbound task delegation operation id is invalid"

def validateLowerSha256 (value label : String) : Except String Unit :=
  require (isLowerSha256 value) s!"{label} must be lowercase sha256 hex"

/-- `validate_peeroxide_transport_key`. -/
def validatePeeroxideTransportKey (value : String) : Except String Unit :=
  require (isLowerSha256 value) "task delegate peer key must be exactly 64 lowercase hex characters"

/-! ## Digests -/

/-- A field that is skipped when it is `None`. -/
def optionalField {A : Type} (key : String) (write : A → List UInt8) (value : Option A) :
    List (List UInt8) :=
  (value.map fun value => Json.field key (write value)).toList

/-- Tagged by `status`, in snake case. -/
def TaskResultStatus.toJson : TaskResultStatus → List UInt8
  | .completed => Json.object [Json.field "status" (Json.string "completed")]
  | .rejected reason =>
    Json.object [Json.field "status" (Json.string "rejected"),
      Json.field "reason" (Json.string reason)]
  | .failed error =>
    Json.object [Json.field "status" (Json.string "failed"), Json.field "error" (Json.string error)]

def TaskResultBody.toJson (body : TaskResultBody) : List UInt8 :=
  Json.object
    ([Json.field "task_id" (Json.string body.taskId), Json.field "status" body.status.toJson] ++
    optionalField "result" Json.string body.result ++
    optionalField "provider_name" Json.string body.providerName ++
    optionalField "requested_max_output_tokens" Json.nat body.requestedMaxOutputTokens ++
    optionalField "effective_output_token_ceiling" Json.nat body.effectiveOutputTokenCeiling)

def TaskDelegateScope.toJson (scope : TaskDelegateScope) : List UInt8 :=
  Json.object (Json.field "skill_id" (Json.string scope.skillId) ::
    optionalField "channel_id" Json.string scope.channelId ++
    optionalField "account_id" Json.string scope.accountId)

def taskResultDigest [Sha256] (body : TaskResultBody) : Except String String := do
  validateTaskResult body
  .ok (hexEncode (Sha256.digest body.toJson).val)

/-- `[u8::from(value.is_some())]`. -/
def presence {A : Type} (value : Option A) : List UInt8 := [if value.isSome then 1 else 0]

/-- `delegate_context_digest_fields`: each value after its length. -/
def delegateContextDigestFields [Sha256] (transport : TransportIdentity)
    (delegate : TaskDelegateBody) : String :=
  hexEncode (Sha256.digest (utf8 "neoth.cluster.worker-task-result-context.v2" ++ 0 ::
    [utf8 transport, utf8 delegate.taskId, utf8 delegate.prompt, utf8 (delegate.modelHint.getD ""),
      Json.option TaskDelegateScope.toJson delegate.scope,
      Sha256.beBytes 4 (delegate.maxOutputTokens.getD 0), presence delegate.maxOutputTokens,
      presence delegate.modelHint, Sha256.beBytes 8 ((delegate.deadlineUnix.getD 0) % 2 ^ 64).toNat,
      presence delegate.deadlineUnix].flatMap
        fun value => Sha256.beBytes 8 value.length ++ value)).val

def delegateContextDigest [Sha256] (grant : MembershipGrant) (delegate : TaskDelegateBody) :
    String :=
  delegateContextDigestFields grant.transportIdentity delegate

/-! ## Lemmas -/

/-- The hexadecimal form of a digest passes the check for one. -/
theorem hexEncode_isLowerSha256 [Sha256] (bytes : List UInt8) :
    isLowerSha256 (hexEncode (Sha256.digest bytes).val) = true :=
  isLowerHex64_hexEncode (Sha256.digest bytes).property

theorem validateLowerSha256_eq_ok_iff {value label : String} {u : Unit} :
    validateLowerSha256 value label = .ok u ↔ isLowerSha256 value = true :=
  require_eq_ok_iff

theorem taskResultDigest_of_valid [Sha256] {body : TaskResultBody}
    (h : validateTaskResult body = .ok ()) :
    taskResultDigest body = .ok (hexEncode (Sha256.digest body.toJson).val) := by
  simp only [taskResultDigest, h]
  rfl

end Neoth.Delegation
