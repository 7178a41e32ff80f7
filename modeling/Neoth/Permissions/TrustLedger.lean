import Neoth.Lib.JsonEscapes
import Neoth.Lib.Sha256
import Neoth.Permissions.ChannelSubject
import Neoth.Permissions.Gate

/-!
# The trust ledger

`permissions/trust_ledger.rs`: one typed event for each decision of the gate, and the descriptor of
a decision that must be recorded before it takes effect.

* `validateLabel_eq_ok_iff`, `validate_eq_ok_iff`: what an event must look like;
* `fromSlice_toVec`: an event that is valid is read back from its JSON;
* `fromGate_eq_ok_iff`, `fromGateResolution_isOk_iff`: when a decision has an event;
* **`audited_iff`**: a channel's decision has one exactly if its subject fits the ledger.
-/

open Lib Lib.Encoding Lib.JsonDecode Lib.Text Lib.Transaction

namespace Neoth.Permissions

def trustEventSchemaVersion : Nat := 1

def trustAdmissionEventSchemaVersion : Nat := 2

def trustAdmissionDescriptorSchemaVersion : Nat := 1

def localSubject : String := "local"

def maxSubjectBytes : Nat := 256

def maxLeaseIdBytes : Nat := 128

def maxConfirmationSourceBytes : Nat := 128

inductive TrustOutcome
  | allowed
  | denied

def TrustOutcome.asStr : TrustOutcome → String
  | .allowed => "allowed"
  | .denied => "denied"

/-! ## Checks -/

def sha256Hex [Sha256] (value : String) : String := hexEncode (Sha256.digest (utf8 value)).val

def validateDigest (label value : String) : Except String Unit :=
  require (isLowerHex64 value) s!"{label} must be 64 lowercase hexadecimal characters"

def validateLabel (label value : String) (maxBytes : Nat) : Except String Unit := do
  require (trim value != "") s!"{label} must not be empty"
  require (byteLen value ≤ maxBytes) s!"{label} exceeds {maxBytes} bytes"
  require (!value.toList.any isControl) s!"{label} contains a control character"

/-- The loops over the optional fields. -/
def validateOptional (check : String → Except String Unit) : Option String → Except String Unit
  | none => .ok ()
  | some value => check value

/-! ## Events -/

structure TrustEvent where
  schemaVersion : Nat
  subject : String
  action : ActionKind
  autonomyLevel : AutonomyLevel
  outcome : TrustOutcome
  reasonSha256 : Option String
  leaseId : Option String
  confirmationSource : Option String
  authorizationId : Option String
  requestBindingSha256 : Option String
  operationIdSha256 : Option String
  policySnapshotSha256 : Option String
  decidedAtNs : UInt64

namespace TrustEvent

def validate (e : TrustEvent) : Except String Unit := do
  require (e.schemaVersion = trustEventSchemaVersion ∨
    e.schemaVersion = trustAdmissionEventSchemaVersion)
    s!"unsupported TrustEvent schema version {e.schemaVersion}"
  validateLabel "TrustEvent subject" e.subject maxSubjectBytes
  validateOptional (validateLabel "TrustEvent lease id" · maxLeaseIdBytes) e.leaseId
  validateOptional (validateLabel "TrustEvent confirmation source" · maxConfirmationSourceBytes)
    e.confirmationSource
  validateOptional (validateDigest "TrustEvent reason digest") e.reasonSha256
  validateOptional (validateDigest "TrustEvent authorization id") e.authorizationId
  validateOptional (validateDigest "TrustEvent request binding") e.requestBindingSha256
  validateOptional (validateDigest "TrustEvent operation id") e.operationIdSha256
  validateOptional (validateDigest "TrustEvent policy snapshot") e.policySnapshotSha256
  if e.schemaVersion = trustEventSchemaVersion then
    require (e.operationIdSha256.isNone && e.policySnapshotSha256.isNone)
      "schema-1 TrustEvent must not carry durable-admission fields"
  else do
    require (e.operationIdSha256.isSome && e.policySnapshotSha256.isSome)
      "schema-2 TrustEvent requires operation id and policy snapshot"
    require e.requestBindingSha256.isSome "schema-2 TrustEvent requires request binding"
    require e.authorizationId.isNone "schema-2 TrustEvent must not carry a generic authorization id"

end TrustEvent

/-- The bindings that an action carries of its own. -/
def intrinsicBindings : Action → Option String × Option String
  | .paidProviderCall _ _ authorizationId requestBindingSha256 _ =>
    (some authorizationId, some requestBindingSha256)
  | .unboundedPaidProviderCall _ _ authorizationId requestBindingSha256 =>
    (some authorizationId, some requestBindingSha256)
  | .externalTtsSynthesis _ _ _ requestBindingSha256 => (none, some requestBindingSha256)
  | .externalHttpRequest _ _ _ _ requestBindingSha256 => (none, some requestBindingSha256)
  | _ => (none, none)

/-- `subject.map(str::trim).filter(..).unwrap_or(LOCAL_SUBJECT)`. -/
def auditSubject (subject : Option String) : String :=
  ((subject.map trim).filter (· != "")).getD localSubject

section
variable [Sha256]

def outcomeOf : Decision → TrustOutcome × Option String
  | .allow => (.allowed, none)
  | .deny reason => (.denied, some (sha256Hex reason))
  | .confirm reason => (.denied, some (sha256Hex reason))

namespace TrustEvent

def fromDecisionFields (action : Action) (autonomyLevel : AutonomyLevel) (decision : Decision)
    (subject leaseId confirmationSource requestBindingSha256 : Option String)
    (decidedAtNs : UInt64) : Except String TrustEvent := do
  let (authorizationId, intrinsicBinding) := intrinsicBindings action
  require (requestBindingSha256.all fun explicit => intrinsicBinding.all (explicit == ·))
    "explicit permission request binding does not match the action binding"
  let (outcome, reason) := outcomeOf decision
  let event : TrustEvent :=
    { schemaVersion := trustEventSchemaVersion, subject := auditSubject subject,
      action := action.kind, autonomyLevel,
      outcome, reasonSha256 := reason, leaseId, confirmationSource, authorizationId,
      requestBindingSha256 := requestBindingSha256.or intrinsicBinding, operationIdSha256 := none,
      policySnapshotSha256 := none, decidedAtNs }
  event.validate
  pure event

def fromGate (action : Action) (autonomyLevel : AutonomyLevel) (decision : Decision)
    (subject leaseId confirmationSource requestBindingSha256 : Option String)
    (decidedAtNs : UInt64) : Except String TrustEvent :=
  fromDecisionFields action autonomyLevel decision subject leaseId confirmationSource
    requestBindingSha256 decidedAtNs

end TrustEvent

end

/-! ## The descriptor of a durable admission -/

structure TrustAdmissionDescriptor where
  schemaVersion : Nat
  operationIdSha256 : String
  subject : String
  action : ActionKind
  outcome : TrustOutcome
  autonomyLevel : AutonomyLevel
  requestBindingSha256 : String
  leaseId : Option String
  confirmationSource : Option String
  reasonSha256 : Option String
  policySnapshotSha256 : String

namespace TrustAdmissionDescriptor

def validate (d : TrustAdmissionDescriptor) : Except String Unit := do
  require (d.schemaVersion = trustAdmissionDescriptorSchemaVersion)
    s!"unsupported TrustAdmissionDescriptor schema version {d.schemaVersion}"
  validateLabel "TrustAdmissionDescriptor subject" d.subject maxSubjectBytes
  validateDigest "TrustAdmissionDescriptor operation id" d.operationIdSha256
  validateDigest "TrustAdmissionDescriptor request binding" d.requestBindingSha256
  validateDigest "TrustAdmissionDescriptor policy snapshot" d.policySnapshotSha256
  validateOptional (validateLabel "TrustAdmissionDescriptor lease id" · maxLeaseIdBytes) d.leaseId
  validateOptional
    (validateLabel "TrustAdmissionDescriptor confirmation source" · maxConfirmationSourceBytes)
    d.confirmationSource
  validateOptional (validateDigest "TrustAdmissionDescriptor reason digest") d.reasonSha256

def fromGateResolution [Sha256] (operationIdSha256 : String) (action : Action)
    (autonomyLevel : AutonomyLevel)
    (decision : Decision) (subject leaseId confirmationSource : Option String)
    (requestBindingSha256 : String)
    (policySnapshotSha256 : String) : Except String TrustAdmissionDescriptor := do
  let (outcome, reasonSha256) := outcomeOf decision
  let descriptor : TrustAdmissionDescriptor :=
    { schemaVersion := trustAdmissionDescriptorSchemaVersion, operationIdSha256,
      subject := auditSubject subject,
      action := action.kind, outcome, autonomyLevel, requestBindingSha256, leaseId,
      confirmationSource, reasonSha256,
      policySnapshotSha256 }
  descriptor.validate
  pure descriptor

end TrustAdmissionDescriptor

/-- `audit`, up to what the sink does with the event. -/
def audit [Sha256] (append : TrustEvent → Except String Unit) (action : Action)
    (context : AuditContext) (decidedAtNs : UInt64) : Except String Unit := do
  let decision ← match context.presentation, action, context.decision with
    | .canonical, _, decision => pure decision
    | .releasedResearch, .externalHttpRequest .., .allow => pure .allow
    | .releasedResearch, .externalHttpRequest .., .deny _ =>
      pure (.deny "released_research_request_denied")
    | .releasedResearch, .externalHttpRequest .., .confirm _ =>
      pure (.confirm "released_research_request_denied")
    | .releasedResearch, _, _ =>
      .error "released-research audit presentation requires an external HTTP action"
  let event ← TrustEvent.fromGate action context.level decision context.subject context.leaseId
    context.confirmationSource context.requestBindingSha256 decidedAtNs
  append event

/-! ## The wire form -/

namespace TrustEvent

def entries (e : TrustEvent) : List Entry :=
  [natEntry "schema_version" e.schemaVersion, textEntry "subject" e.subject,
    textEntry "action" e.action.asStr, textEntry "autonomy_level" e.autonomyLevel.asStr,
    textEntry "outcome" e.outcome.asStr, optionEntry "reason_sha256" e.reasonSha256,
    optionEntry "lease_id" e.leaseId, optionEntry "confirmation_source" e.confirmationSource,
    optionEntry "authorization_id" e.authorizationId,
    optionEntry "request_binding_sha256" e.requestBindingSha256] ++
  presentEntry "operation_id_sha256" e.operationIdSha256 ++
    presentEntry "policy_snapshot_sha256" e.policySnapshotSha256 ++
  [natEntry "decided_at_ns" e.decidedAtNs.toNat]

/-- `serde_json::to_vec`, its characters. -/
def toVec (e : TrustEvent) : List Char := objectText (texts e.entries)

def encode (e : TrustEvent) : Except String (List Char) := do
  e.validate
  pure e.toVec

end TrustEvent

/-- A unit variant, by its name. -/
def variant? {A : Type} (all : List A) (asStr : A → String) (value : Value) : Option A := do
  let text ← text? value
  all.find? (asStr · == text)

def ActionKind.all : List ActionKind :=
  [.read, .writeNeothHome, .writeOutsideHome, .execScripts, .execArbitrary, .paidProviderCall,
    .unboundedPaidProviderCall, .externalTtsSynthesis, .externalHttpRequest, .channelSend,
    .dangerousTarget, .mcpToolInvocation, .patchApplyToRepo, .clusterPeerPairing,
    .selfBinaryReplace, .proactiveChannelSend, .osFileRead, .osDirectoryList, .osFileWrite,
    .osAppLaunch, .osClipboardRead, .osClipboardWrite, .clusterTaskAccept, .externalTaskWrite,
    .selfSkillToggle, .selfCronRegister, .selfSourceEdit, .obsidianPreloadWrite]

namespace TrustEvent

def fieldNames : List String :=
  ["schema_version", "subject", "action", "autonomy_level", "outcome", "reason_sha256", "lease_id",
    "confirmation_source", "authorization_id", "request_binding_sha256", "operation_id_sha256",
    "policy_snapshot_sha256", "decided_at_ns"]

/-- `#[serde(deny_unknown_fields)]`. -/
def fromMembers (members : List (String × Value)) : Option TrustEvent := do
  guard (members.all (fieldNames.contains ·.1))
  let schemaVersion ← member? members "schema_version" >>= uint? 8
  let subject ← member? members "subject" >>= text?
  let action ← member? members "action" >>= variant? ActionKind.all ActionKind.asStr
  let autonomyLevel ← member? members "autonomy_level" >>=
    variant? [.strict, .standard, .elevated, .full, .custom] AutonomyLevel.asStr
  let outcome ← member? members "outcome" >>= variant? [.allowed, .denied] TrustOutcome.asStr
  let reasonSha256 ← optionText? members "reason_sha256"
  let leaseId ← optionText? members "lease_id"
  let confirmationSource ← optionText? members "confirmation_source"
  let authorizationId ← optionText? members "authorization_id"
  let requestBindingSha256 ← optionText? members "request_binding_sha256"
  let operationIdSha256 ← optionText? members "operation_id_sha256"
  let policySnapshotSha256 ← optionText? members "policy_snapshot_sha256"
  let decidedAtNs ← member? members "decided_at_ns" >>= uint? 64
  pure { schemaVersion, subject, action, autonomyLevel, outcome, reasonSha256, leaseId,
         confirmationSource, authorizationId, requestBindingSha256, operationIdSha256,
         policySnapshotSha256, decidedAtNs := .ofNat decidedAtNs }

/-- `serde_json::from_slice`. -/
def fromSlice (payload : List Char) : Option TrustEvent := do
  match ← JsonDecode.decode payload with
  | .object members => fromMembers members
  | _ => none

def decode (payload : List Char) : Except String TrustEvent := do
  let event ← context (fromSlice payload) "decode TrustEvent"
  event.validate
  pure event

end TrustEvent

/-! ## Read after write -/

namespace TrustEvent

theorem members_entries (e : TrustEvent) : Members e.entries := by
  have happend : ∀ {as bs : List Entry}, Members as → Members bs → Members (as ++ bs) :=
    fun ha hb entry hentry =>
    (List.mem_append.mp hentry).elim (ha entry) (hb entry)
  refine happend (happend (happend ?_ (reads_presentEntry (by decide) _))
    (reads_presentEntry (by decide) _)) ?_
  · simp only [Members, List.forall_mem_cons, List.not_mem_nil, false_imp_iff, implies_true,
      and_true]
    exact ⟨reads_natEntry (by decide) _, reads_textEntry (by decide) _,
      reads_textEntry (by decide) _, reads_textEntry (by decide) _, reads_textEntry (by decide) _,
      reads_optionEntry (by decide) _, reads_optionEntry (by decide) _,
      reads_optionEntry (by decide) _, reads_optionEntry (by decide) _,
      reads_optionEntry (by decide) _⟩
  · simpa [Members] using reads_natEntry (by decide) e.decidedAtNs.toNat

theorem fromMembers_eq {members : List (String × Value)} {e : TrustEvent}
    (hknown : members.all (fieldNames.contains ·.1) = true)
    (hversion : (member? members "schema_version" >>= uint? 8) = some e.schemaVersion)
    (hsubject : (member? members "subject" >>= text?) = some e.subject)
    (haction : (member? members "action" >>= variant? ActionKind.all ActionKind.asStr) =
      some e.action)
    (hlevel : (member? members "autonomy_level" >>=
      variant? [.strict, .standard, .elevated, .full, .custom]
      AutonomyLevel.asStr) = some e.autonomyLevel)
    (houtcome : (member? members "outcome" >>= variant? [.allowed, .denied] TrustOutcome.asStr) =
      some e.outcome)
    (hreason : optionText? members "reason_sha256" = some e.reasonSha256)
    (hlease : optionText? members "lease_id" = some e.leaseId)
    (hconfirmation : optionText? members "confirmation_source" = some e.confirmationSource)
    (hauthorization : optionText? members "authorization_id" = some e.authorizationId)
    (hbinding : optionText? members "request_binding_sha256" = some e.requestBindingSha256)
    (hoperation : optionText? members "operation_id_sha256" = some e.operationIdSha256)
    (hpolicy : optionText? members "policy_snapshot_sha256" = some e.policySnapshotSha256)
    (hnow : (member? members "decided_at_ns" >>= uint? 64) = some e.decidedAtNs.toNat) :
    fromMembers members = some e := by
  unfold fromMembers
  rw [hversion, hsubject, haction, hlevel, houtcome, hreason, hlease, hconfirmation, hauthorization,
    hbinding, hoperation, hpolicy, hnow, hknown]
  simp [guard]

theorem fromMembers_values (e : TrustEvent) (hversion : e.schemaVersion < 2 ^ 8) :
    fromMembers (values e.entries) = some e := by
  obtain ⟨version, subject, action, level, outcome, reason, lease, confirmation, authorization,
      binding, operation,
    policy, now⟩ := e
  have haction : variant? ActionKind.all ActionKind.asStr (.string action.asStr) = some action := by
    cases action <;> rfl
  have hlevel : variant? [.strict, .standard, .elevated, .full, .custom] AutonomyLevel.asStr
      (.string level.asStr) = some level := by cases level <;> rfl
  have houtcome : variant? [.allowed, .denied] TrustOutcome.asStr (.string outcome.asStr) =
      some outcome := by
    cases outcome <;> rfl
  have hnow : uint? 64 (.nat now.toNat) = some now.toNat := uint_nat now.toNat_lt
  -- which of the two members of schema 2 are there decides what the object looks like
  cases operation <;> cases policy
  all_goals
    apply fromMembers_eq
    · rfl
    · exact uint_nat hversion
    · rfl
    · exact haction
    · exact hlevel
    · exact houtcome
    · exact optionText_of_member rfl rfl
    · exact optionText_of_member rfl rfl
    · exact optionText_of_member rfl rfl
    · exact optionText_of_member rfl rfl
    · exact optionText_of_member rfl rfl
    · rfl
    · rfl
    · exact hnow

theorem fromSlice_toVec (e : TrustEvent) (hversion : e.schemaVersion < 2 ^ 8) :
    fromSlice e.toVec = some e := by
  rw [fromSlice, toVec, decode_of_reads (reads_object e.members_entries)]
  exact fromMembers_values e hversion

end TrustEvent

/-! ## What is valid -/

structure LabelOk (maxBytes : Nat) (value : String) : Prop where
  shown : trim value ≠ ""
  fits : byteLen value ≤ maxBytes
  visible : ∀ c ∈ value.toList, isControl c = false

theorem validateLabel_eq_ok_iff {label value : String} {maxBytes : Nat} {u : Unit} :
    validateLabel label value maxBytes = .ok u ↔ LabelOk maxBytes value := by
  simp only [validateLabel, bind_eq_ok_iff, require_eq_ok_iff]
  constructor
  · rintro ⟨_, hshown, _, hfits, hvisible⟩
    exact ⟨by simpa using hshown, by simpa using hfits, by simpa using hvisible⟩
  · rintro ⟨hshown, hfits, hvisible⟩
    exact ⟨(), by simpa using hshown, (), by simpa using hfits, by simpa using hvisible⟩

theorem validateOptional_eq_ok_iff {check : String → Except String Unit} {value : Option String}
    {u : Unit} : validateOptional check value = .ok u ↔ ∀ v ∈ value, check v = .ok u := by
  cases value <;> simp [validateOptional]

theorem validateDigest_eq_ok_iff {label value : String} {u : Unit} :
    validateDigest label value = .ok u ↔ isLowerHex64 value = true :=
  require_eq_ok_iff

theorem isLowerHex64_reason [Sha256] (decision : Decision) : ∀ v ∈ (outcomeOf decision).2,
    isLowerHex64 v = true := by
  cases decision with
  | allow => simp [outcomeOf]
  | deny reason =>
    simpa [outcomeOf, sha256Hex] using isLowerHex64_hexEncode (Sha256.digest (utf8 reason)).property
  | confirm reason =>
    simpa [outcomeOf, sha256Hex] using isLowerHex64_hexEncode (Sha256.digest (utf8 reason)).property

/-! ## The subject of a channel in the ledger -/

section
variable (binding : ChannelAccountBinding) (sender : String)

theorem trim_subject : trim (channelBoundLeaseSubject binding sender) =
    channelBoundLeaseSubject binding sender := by
  have hblank : ∀ c ∈ (channelBoundLeaseSubject binding sender).toList, isWhitespace c = false := by
    intro c hc
    have hprintable := printable_subject binding sender c hc
    simp only [isWhitespace, Bool.or_eq_false_iff, Bool.and_eq_false_iff, decide_eq_false_iff_not,
      beq_eq_false_iff_ne]
    omega
  have htrim := trimText_eq_self (fun c hc => hblank c (List.mem_of_mem_head? hc))
    fun c hc => hblank c (List.mem_of_getLast? hc)
  exact (congrArg String.ofList htrim).trans String.ofList_toList

theorem subject_ne : channelBoundLeaseSubject binding sender ≠ "" := by
  intro hempty
  have hlen := byteLen_subject binding sender
  have hzero : byteLen "" = 0 := rfl
  rw [hempty, hzero, subjectBytes] at hlen
  split at hlen <;> omega

theorem labelOk_subject_iff : LabelOk maxSubjectBytes (channelBoundLeaseSubject binding sender) ↔
    subjectBytes binding sender ≤ maxSubjectBytes := by
  constructor
  · intro h
    rw [← byteLen_subject]
    exact h.fits
  · intro h
    refine ⟨by rw [trim_subject]; exact subject_ne binding sender, by rwa [byteLen_subject],
      fun c hc => ?_⟩
    have hprintable := printable_subject binding sender c hc
    simp only [isControl, Bool.or_eq_false_iff, Bool.and_eq_false_iff, decide_eq_false_iff_not]
    omega

theorem auditSubject_subject : auditSubject (some (channelBoundLeaseSubject binding sender)) =
    channelBoundLeaseSubject binding sender := by
  simp [auditSubject, trim_subject, Option.filter, subject_ne]

end

/-- What the caller of the gate sees to: digests, a binding that is the action's own, labels within
their limits. -/
structure Limited (action : Action)
    (leaseId confirmationSource requestBindingSha256 : Option String) : Prop where
  authorization : ∀ v ∈ (intrinsicBindings action).1, isLowerHex64 v = true
  intrinsic : ∀ v ∈ (intrinsicBindings action).2, isLowerHex64 v = true
  explicit : ∀ v ∈ requestBindingSha256, isLowerHex64 v = true ∧
    ∀ own ∈ (intrinsicBindings action).2, v = own
  leaseId : ∀ v ∈ leaseId, LabelOk maxLeaseIdBytes v
  confirmation : ∀ v ∈ confirmationSource, LabelOk maxConfirmationSourceBytes v

section
variable [Sha256] {action : Action}
  {leaseId confirmationSource requestBindingSha256 : Option String}

/-- The event that the decision has, if it is valid. -/
def gateEvent (action : Action) (level : AutonomyLevel) (decision : Decision) (subject : String)
    (leaseId confirmationSource requestBindingSha256 : Option String) (now : UInt64) :
      TrustEvent where
  schemaVersion := trustEventSchemaVersion
  subject := subject
  action := action.kind
  autonomyLevel := level
  outcome := (outcomeOf decision).1
  reasonSha256 := (outcomeOf decision).2
  leaseId := leaseId
  confirmationSource := confirmationSource
  authorizationId := (intrinsicBindings action).1
  requestBindingSha256 := requestBindingSha256.or (intrinsicBindings action).2
  operationIdSha256 := none
  policySnapshotSha256 := none
  decidedAtNs := now

theorem validate_gateEvent_iff (h : Limited action leaseId confirmationSource requestBindingSha256)
    (level : AutonomyLevel) (decision : Decision) (subject : String) (now : UInt64) :
    (gateEvent action level decision subject leaseId confirmationSource requestBindingSha256
      now).validate = .ok () ↔
      LabelOk maxSubjectBytes subject := by
  have hbinding : ∀ v ∈ requestBindingSha256.or (intrinsicBindings action).2,
      isLowerHex64 v = true := by
    intro v hv
    cases requestBindingSha256 with
    | none => exact h.intrinsic v hv
    | some own => exact (h.explicit v hv).1
  simp only [TrustEvent.validate, gateEvent, bind_eq_ok_iff, require_eq_ok_iff,
    validateLabel_eq_ok_iff, validateOptional_eq_ok_iff, validateDigest_eq_ok_iff]
  constructor
  · rintro ⟨_, -, _, hsubject, -⟩
    exact hsubject
  · intro hsubject
    exact ⟨(), rfl, (), hsubject, (), h.leaseId, (), h.confirmation, (),
      isLowerHex64_reason decision, (), h.authorization, (), hbinding, (), by simp, (), by
        simp, by simp⟩

theorem fromGate_eq_ok_iff (h : Limited action leaseId confirmationSource requestBindingSha256)
    (level : AutonomyLevel) (decision : Decision) (binding : ChannelAccountBinding)
    (sender : String) (now : UInt64) (e : TrustEvent) :
    TrustEvent.fromGate action level decision (some (channelBoundLeaseSubject binding sender))
      leaseId confirmationSource requestBindingSha256 now = .ok e ↔
    subjectBytes binding sender ≤ maxSubjectBytes ∧ e = gateEvent action level decision
      (channelBoundLeaseSubject binding sender) leaseId confirmationSource requestBindingSha256
        now := by
  have hown :
      (requestBindingSha256.all fun explicit => (intrinsicBindings action).2.all (explicit == ·)) =
        true := by
    cases requestBindingSha256 with
    | none => rfl
    | some explicit =>
      have hsame := (h.explicit explicit rfl).2
      cases hintrinsic : (intrinsicBindings action).2 with
      | none => simp
      | some own => simpa [hintrinsic] using hsame own hintrinsic
  have hvalid :=
    validate_gateEvent_iff h level decision (channelBoundLeaseSubject binding sender) now
  rw [labelOk_subject_iff] at hvalid
  simp only [TrustEvent.fromGate, TrustEvent.fromDecisionFields, bind_eq_ok_iff, require_eq_ok_iff,
    hown, true_and, auditSubject_subject]
  constructor
  · rintro ⟨_, _, hok, heq⟩
    exact ⟨hvalid.mp hok, (Except.ok.inj heq).symm⟩
  · rintro ⟨hfits, rfl⟩
    exact ⟨(), (), hvalid.mpr hfits, rfl⟩

theorem fromGateResolution_isOk_iff
    (h : Limited action leaseId confirmationSource requestBindingSha256)
    (level : AutonomyLevel) (decision : Decision) (binding : ChannelAccountBinding)
    (sender : String)
    {operationId requestBinding policySnapshot : String}
    (hoperation : isLowerHex64 operationId = true)
    (hbinding : isLowerHex64 requestBinding = true) (hpolicy : isLowerHex64 policySnapshot = true) :
    (∃ d, TrustAdmissionDescriptor.fromGateResolution operationId action level decision
      (some (channelBoundLeaseSubject binding sender)) leaseId confirmationSource requestBinding
        policySnapshot = .ok d ∧
      d.subject = channelBoundLeaseSubject binding sender) ↔
      subjectBytes binding sender ≤ maxSubjectBytes := by
  rw [← labelOk_subject_iff]
  simp only [TrustAdmissionDescriptor.fromGateResolution, TrustAdmissionDescriptor.validate,
    bind_eq_ok_iff, require_eq_ok_iff, validateLabel_eq_ok_iff, validateOptional_eq_ok_iff,
    validateDigest_eq_ok_iff, auditSubject_subject]
  constructor
  · rintro ⟨_, ⟨_, ⟨_, -, _, hsubject, -⟩, -⟩, -⟩
    exact hsubject
  · intro hsubject
    exact ⟨_,
      ⟨(), ⟨(), by simp, (), hsubject, (), hoperation, (), hbinding, (), hpolicy, (), h.leaseId, (),
        h.confirmation, isLowerHex64_reason decision⟩, rfl⟩, rfl⟩

/-- The decision of a channel's sender has its event under the sender's subject, which is read back
as it was, and its descriptor; and the gate's audit comes to the sink. -/
structure Audited (action : Action) (level : AutonomyLevel) (decision : Decision)
    (binding : ChannelAccountBinding)
    (sender : String) (leaseId confirmationSource requestBindingSha256 : Option String)
    (operationId requestBinding policySnapshot : String) (now : UInt64) : Prop where
  event : ∃ e payload, TrustEvent.fromGate action level decision
    (some (channelBoundLeaseSubject binding sender))
    leaseId confirmationSource requestBindingSha256 now = .ok e ∧
    e.subject = channelBoundLeaseSubject binding sender ∧
    e.encode = .ok payload ∧ TrustEvent.decode payload = .ok e
  descriptor : ∃ d, TrustAdmissionDescriptor.fromGateResolution operationId action level decision
    (some (channelBoundLeaseSubject binding sender)) leaseId confirmationSource requestBinding
      policySnapshot = .ok d ∧
    d.subject = channelBoundLeaseSubject binding sender
  recorded : ∀ append : TrustEvent → Except String Unit, (∀ e, append e = .ok ()) →
    audit append action
    ⟨level, decision, some (channelBoundLeaseSubject binding sender), leaseId, confirmationSource,
      requestBindingSha256, .canonical⟩ now = .ok ()

/-- **A channel's decision is audited under its own subject exactly if the subject fits the
ledger**, and a subject belongs to one channel, account, incarnation and sender. -/
theorem audited_iff (level : AutonomyLevel) (decision : Decision) (binding : ChannelAccountBinding)
    (sender : String)
    (now : UInt64) (h : Limited action leaseId confirmationSource requestBindingSha256)
    {operationId requestBinding policySnapshot : String}
    (hoperation : isLowerHex64 operationId = true)
    (hbinding : isLowerHex64 requestBinding = true) (hpolicy : isLowerHex64 policySnapshot = true) :
    (Audited action level decision binding sender leaseId confirmationSource requestBindingSha256
      operationId
      requestBinding policySnapshot now ↔ subjectBytes binding sender ≤ maxSubjectBytes) ∧
    ∀ binding' sender',
      channelBoundLeaseSubject binding' sender' = channelBoundLeaseSubject binding sender →
      binding' = binding ∧ sender' = sender := by
  refine ⟨?_, fun binding' sender' heq => subject_inj heq⟩
  constructor
  · intro haudited
    exact (fromGateResolution_isOk_iff h level decision binding sender hoperation hbinding
      hpolicy).mp haudited.descriptor
  · intro hfits
    have hgate := (fromGate_eq_ok_iff h level decision binding sender now _).mpr ⟨hfits, rfl⟩
    have hvalid := (validate_gateEvent_iff h level decision _ now).mpr
      ((labelOk_subject_iff binding sender).mpr hfits)
    refine ⟨⟨_, _, hgate, rfl, bind_eq_ok_iff.mpr ⟨(), hvalid, rfl⟩, ?_⟩,
      (fromGateResolution_isOk_iff h level decision binding sender hoperation hbinding hpolicy).mpr
        hfits, ?_⟩
    · have hread := TrustEvent.fromSlice_toVec
        (gateEvent action level decision (channelBoundLeaseSubject binding sender)
        leaseId confirmationSource requestBindingSha256 now) (show 1 < 2 ^ 8 by decide)
      exact bind_eq_ok_iff.mpr ⟨_, context_eq_ok_iff.mpr hread,
        bind_eq_ok_iff.mpr ⟨(), hvalid, rfl⟩⟩
    · intro append happend
      exact bind_eq_ok_iff.mpr ⟨_, rfl, bind_eq_ok_iff.mpr ⟨_, hgate, happend _⟩⟩

end

/-! ## A sender that does not fit -/

def sampleBinding : ChannelAccountBinding := ⟨⟨.matrix, ⟨"default", by decide +kernel⟩⟩, none⟩

/-- A Matrix user, of 110 bytes. -/
def longSender : String := String.ofList ('@' :: List.replicate 98 'a') ++ ":matrix.org"

def sampleDigest : String := String.ofList (List.replicate 64 'a')

theorem limited_channelSend : Limited .channelSend (some "lease-7") (some "capability_lease")
    (some sampleDigest) where
  authorization := by simp [intrinsicBindings]
  intrinsic := by simp [intrinsicBindings]
  explicit := by
    simpa [intrinsicBindings] using (by decide +kernel : isLowerHex64 sampleDigest = true)
  leaseId := by simpa using (@validateLabel_eq_ok_iff "" _ _ ()).mp (by decide +kernel)
  confirmation := by simpa using (@validateLabel_eq_ok_iff "" _ _ ()).mp (by decide +kernel)

theorem not_audited_long : ¬ @Audited Sha256.fips .channelSend .standard .allow sampleBinding
    longSender
    (some "lease-7") (some "capability_lease") (some sampleDigest) sampleDigest sampleDigest
      sampleDigest 0 := by
  intro h
  have hfits :=
    (@fromGateResolution_isOk_iff Sha256.fips _ _ _ _ limited_channelSend .standard .allow
      sampleBinding
    longSender _ _ _ (by decide +kernel) (by decide +kernel) (by decide +kernel)).mp
    (@Audited.descriptor Sha256.fips _ _ _ _ _ _ _ _ _ _ _ _ h)
  revert hfits
  decide +kernel

theorem audited_ada :
    @Audited Sha256.fips .channelSend .standard .allow sampleBinding "@ada:matrix.org"
    (some "lease-7") (some "capability_lease") (some sampleDigest) sampleDigest sampleDigest
      sampleDigest 0 :=
  (@audited_iff Sha256.fips _ _ _ _ .standard .allow sampleBinding "@ada:matrix.org" 0
    limited_channelSend _ _ _
    (by decide +kernel) (by decide +kernel) (by decide +kernel)).1.mpr (by decide +kernel)

end Neoth.Permissions
