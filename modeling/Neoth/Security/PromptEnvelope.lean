import Neoth.Lib.Table
import Neoth.Lib.Transaction
import Neoth.Pipeline.Envelope

/-!
# The prompt envelope

`security/prompt_envelope.rs`: untrusted values are written into a JSON object in an order that the
purpose fixes, and a scanner then spells the characters that could look like markup, inside the
strings, as escapes.

* `good_spelling`: a character of a string after both passes;
* `render_eq`: the scanner turns one spelling into the other;
* `serialize_eq_ok_iff`: what is accepted, and what is then returned;
* **`serialize_law`**: that, the order of the fields, the decoded value, and the characters in the
  strings.
-/

open Lib Lib.Encoding Lib.JsonDecode Lib.Text Lib.Transaction Neoth.Pipeline

namespace Neoth.Security

/-! ## Purposes and fields -/

inductive PromptEnvelopePurpose
  | arxivAbstractSummary | codingSecondOpinion | codingPlanReview | codingDecomposition
  | codingDecompositionRepair
  | codingProviderWorkerTask | memoryEntityExtraction | memoryWarmSummary | doctorDiagnose
  | emailThreatTiebreak
  | subAgentReview | skillAutoExtract | chatClarificationReissue | chatHemisphereLiveTest
  | chatSessionNaming
  | councilGroundTruthAssertions | councilGroundTruthQuestion | callosumSynthesis
  | mirrorRefusalAnalysis
  | mirrorRefusalSynthesis | councilSelfReflect | subAgentPrimary | subAgentQa | subAgentRetry

inductive PromptFieldKind
  | documentTitle | documentAbstract | taskTitle | taskDescription | planText | priorCritiques
  | decomposerOperatorRequest | decomposerProjectContext | priorProviderOutput | workerTaskTitle
  | workerTaskDescription | workerCodeMapContext | workerTaskType | workerTaskHemisphere
  | workerRoleHint
  | workerSessionIdentifier | workerTaskIdentifier | workerAssignedWorker | workerToolHint
  | memoryEntitySourceText
  | warmSummaryInstruction | warmSummarySystem | warmSummaryEventData | warmSummaryEventsTruncated
  | diagnosticFindings | emailSubject | emailBody | skillExtractionQuery | skillExtractionContext
  | clarificationAnswer | sessionOpening | groundTruthAssertions | originalQuestion | priorAnswer
  | mirrorOriginalRequest | mirrorLeftRefusal | mirrorRightAnalysis | qaContract | operatorTask
  | candidate
  | previousCandidate | qaFailures
  deriving DecidableEq

def PromptEnvelopePurpose.expectedFields : PromptEnvelopePurpose → List PromptFieldKind
  | .arxivAbstractSummary => [.documentTitle, .documentAbstract]
  | .codingSecondOpinion => [.taskTitle, .taskDescription]
  | .codingPlanReview => [.planText, .priorCritiques]
  | .codingDecomposition => [.decomposerOperatorRequest, .decomposerProjectContext]
  | .codingDecompositionRepair =>
    [.decomposerOperatorRequest, .decomposerProjectContext, .priorProviderOutput]
  | .codingProviderWorkerTask =>
    [.workerTaskTitle, .workerTaskDescription, .workerCodeMapContext, .workerTaskType,
    .workerTaskHemisphere, .workerRoleHint, .workerSessionIdentifier, .workerTaskIdentifier,
    .workerAssignedWorker, .workerToolHint]
  | .memoryEntityExtraction => [.memoryEntitySourceText]
  | .memoryWarmSummary => [.warmSummarySystem, .warmSummaryInstruction, .warmSummaryEventData,
    .warmSummaryEventsTruncated]
  | .doctorDiagnose => [.diagnosticFindings]
  | .emailThreatTiebreak => [.emailSubject, .emailBody]
  | .subAgentReview => [.operatorTask, .candidate]
  | .skillAutoExtract => [.skillExtractionQuery, .skillExtractionContext]
  | .chatClarificationReissue => [.originalQuestion, .clarificationAnswer]
  | .chatHemisphereLiveTest => [.originalQuestion]
  | .chatSessionNaming => [.sessionOpening]
  | .councilGroundTruthAssertions => [.groundTruthAssertions]
  | .councilGroundTruthQuestion => [.originalQuestion]
  | .callosumSynthesis => [.originalQuestion]
  | .mirrorRefusalAnalysis => [.mirrorOriginalRequest, .mirrorLeftRefusal]
  | .mirrorRefusalSynthesis => [.mirrorOriginalRequest, .mirrorLeftRefusal, .mirrorRightAnalysis]
  | .councilSelfReflect => [.originalQuestion, .priorAnswer]
  | .subAgentPrimary => [.operatorTask]
  | .subAgentQa => [.qaContract, .operatorTask, .candidate]
  | .subAgentRetry => [.operatorTask, .previousCandidate, .qaFailures]

/-- `as_str`, which is also the name that is serialised. -/
def PromptEnvelopePurpose.asStr : PromptEnvelopePurpose → String
  | .arxivAbstractSummary => "arxiv_abstract_summary"
  | .codingSecondOpinion => "coding_second_opinion"
  | .codingPlanReview => "coding_plan_review"
  | .codingDecomposition => "coding_decomposition"
  | .codingDecompositionRepair => "coding_decomposition_repair"
  | .codingProviderWorkerTask => "coding_provider_worker_task"
  | .memoryEntityExtraction => "memory_entity_extraction"
  | .memoryWarmSummary => "memory_warm_summary"
  | .doctorDiagnose => "doctor_diagnose"
  | .emailThreatTiebreak => "email_threat_tiebreak"
  | .subAgentReview => "sub_agent_review"
  | .skillAutoExtract => "skill_auto_extract"
  | .chatClarificationReissue => "chat_clarification_reissue"
  | .chatHemisphereLiveTest => "chat_hemisphere_live_test"
  | .chatSessionNaming => "chat_session_naming"
  | .councilGroundTruthAssertions => "council_ground_truth_assertions"
  | .councilGroundTruthQuestion => "council_ground_truth_question"
  | .callosumSynthesis => "callosum_synthesis"
  | .mirrorRefusalAnalysis => "mirror_refusal_analysis"
  | .mirrorRefusalSynthesis => "mirror_refusal_synthesis"
  | .councilSelfReflect => "council_self_reflect"
  | .subAgentPrimary => "sub_agent_primary"
  | .subAgentQa => "sub_agent_qa"
  | .subAgentRetry => "sub_agent_retry"

def PromptFieldKind.asStr : PromptFieldKind → String
  | .documentTitle => "document_title"
  | .documentAbstract => "document_abstract"
  | .taskTitle => "task_title"
  | .taskDescription => "task_description"
  | .planText => "plan_text"
  | .priorCritiques => "prior_critiques"
  | .decomposerOperatorRequest => "decomposer_operator_request"
  | .decomposerProjectContext => "decomposer_project_context"
  | .priorProviderOutput => "prior_provider_output"
  | .workerTaskTitle => "worker_task_title"
  | .workerTaskDescription => "worker_task_description"
  | .workerCodeMapContext => "worker_code_map_context"
  | .workerTaskType => "worker_task_type"
  | .workerTaskHemisphere => "worker_task_hemisphere"
  | .workerRoleHint => "worker_role_hint"
  | .workerSessionIdentifier => "worker_session_identifier"
  | .workerTaskIdentifier => "worker_task_identifier"
  | .workerAssignedWorker => "worker_assigned_worker"
  | .workerToolHint => "worker_tool_hint"
  | .memoryEntitySourceText => "memory_entity_source_text"
  | .warmSummaryInstruction => "warm_summary_instruction"
  | .warmSummarySystem => "warm_summary_system"
  | .warmSummaryEventData => "warm_summary_event_data"
  | .warmSummaryEventsTruncated => "warm_summary_events_truncated"
  | .diagnosticFindings => "diagnostic_findings"
  | .emailSubject => "email_subject"
  | .emailBody => "email_body"
  | .skillExtractionQuery => "skill_extraction_query"
  | .skillExtractionContext => "skill_extraction_context"
  | .clarificationAnswer => "clarification_answer"
  | .sessionOpening => "session_opening"
  | .groundTruthAssertions => "ground_truth_assertions"
  | .originalQuestion => "original_question"
  | .priorAnswer => "prior_answer"
  | .mirrorOriginalRequest => "mirror_original_request"
  | .mirrorLeftRefusal => "mirror_left_refusal"
  | .mirrorRightAnalysis => "mirror_right_analysis"
  | .qaContract => "qa_contract"
  | .operatorTask => "operator_task"
  | .candidate => "candidate"
  | .previousCandidate => "previous_candidate"
  | .qaFailures => "qa_failures"

def PromptFieldKind.maxBytes : PromptFieldKind → Nat
  | .documentTitle | .taskTitle | .workerTaskTitle | .workerToolHint | .warmSummaryInstruction
    | .warmSummarySystem => 16 * 1024
  | .documentAbstract | .taskDescription | .planText | .priorCritiques | .decomposerOperatorRequest
  | .decomposerProjectContext | .workerTaskDescription | .workerCodeMapContext
    | .memoryEntitySourceText
  | .warmSummaryEventData | .diagnosticFindings | .clarificationAnswer | .groundTruthAssertions
    | .originalQuestion
  | .mirrorOriginalRequest | .mirrorLeftRefusal | .mirrorRightAnalysis | .qaContract | .operatorTask
    | .qaFailures => 64 * 1024
  | .priorProviderOutput | .priorAnswer | .candidate | .previousCandidate => 128 * 1024
  | .workerTaskType | .workerTaskHemisphere | .workerRoleHint | .workerAssignedWorker
    | .emailSubject => 4 * 1024
  | .workerSessionIdentifier | .workerTaskIdentifier => 256
  | .warmSummaryEventsTruncated => 5
  | .emailBody => 8000
  | .skillExtractionQuery | .skillExtractionContext | .sessionOpening => 2 * 1024

structure UntrustedPromptField where
  kind : PromptFieldKind
  value : String
  deriving DecidableEq

def UntrustedPromptField.bytes (field : UntrustedPromptField) : Nat := byteLen field.value

inductive PromptEnvelopeError
  | missingField (purpose : PromptEnvelopePurpose) (kind : PromptFieldKind)
  | unexpectedField (purpose : PromptEnvelopePurpose) (kind : PromptFieldKind)
  | duplicateField (kind : PromptFieldKind)
  | fieldTooLarge (kind : PromptFieldKind) (actualBytes maxBytes : Nat)
  | totalDataTooLarge (actualBytes maxBytes : Nat)
  | renderedEnvelopeTooLarge (actualBytes maxBytes : Nat)

structure PromptFieldWire where
  kind : PromptFieldKind
  utf8Bytes : Nat
  data : String

def UntrustedPromptField.wire (field : UntrustedPromptField) : PromptFieldWire :=
  ⟨field.kind, field.bytes, field.value⟩

def maxPromptEnvelopeDataBytes : Nat := 256 * 1024
def maxPromptEnvelopeRenderedBytes : Nat := 384 * 1024
def promptEnvelopeSchema : String := "neoth.untrusted-prompt-envelope.v1"
def promptEnvelopeTrust : String := "untrusted_data_only"

/-! ## Texts -/

/-- The object of a field, with the strings in a spelling. -/
def fieldText (spelling : Char → List Char) (field : PromptFieldWire) : List Char :=
  objectText [("kind", quoted spelling field.kind.asStr),
    ("utf8_bytes", Nat.toDigits 10 field.utf8Bytes), ("data", quoted spelling field.data)]

def envelopeText (spelling : Char → List Char) (purpose : PromptEnvelopePurpose)
    (fields : List PromptFieldWire) : List Char :=
  objectText [("schema", quoted spelling promptEnvelopeSchema),
    ("trust", quoted spelling promptEnvelopeTrust), ("purpose", quoted spelling purpose.asStr),
    ("fields", arrayText (fields.map (fieldText spelling)))]

/-- The characters of the last arm. -/
def isInvisible (c : Char) : Bool :=
  let cp := c.toNat
  (0x7f ≤ cp && cp ≤ 0x9f) || cp == 0xad || cp == 0x34f || cp == 0x61c ||
  (0x200b ≤ cp && cp ≤ 0x200f) ||
    (0x2028 ≤ cp && cp ≤ 0x202e) || (0x2060 ≤ cp && cp ≤ 0x206f) || cp == 0xfeff

def escapeCharacter (c : Char) : List Char :=
  if c = '<' then "\\u003c".toList
  else if c = '>' then "\\u003e".toList
  else if c = '&' then "\\u0026".toList
  else if c = '[' then "\\u005b".toList
  else if c = ']' then "\\u005d".toList
  else if isInvisible c then '\\' :: 'u' :: hex4 c.toNat
  else [c]

def escapePromptMetacharacters (json : List Char) : List Char :=
  scanStrings (fun c => [c]) (fun c => [c]) escapeCharacter false false json

/-- `serde_json::to_string`, and the scanner over it. -/
def render (purpose : PromptEnvelopePurpose) (fields : List PromptFieldWire) : List Char :=
  escapePromptMetacharacters (envelopeText serdeEscape purpose fields)

/-! ## The serializer -/

/-- The first loop, over the rest of the fields. -/
def checkFields (purpose : PromptEnvelopePurpose) (fields : List UntrustedPromptField) :
    List UntrustedPromptField → Except PromptEnvelopeError Unit
  | [] => .ok ()
  | field :: rest =>
    if field.kind ∉ purpose.expectedFields then .error (.unexpectedField purpose field.kind)
    else if 1 < fields.countP (·.kind = field.kind) then .error (.duplicateField field.kind)
    else checkFields purpose fields rest

/-- The second loop, over the kinds that are still expected. -/
def wireFields (purpose : PromptEnvelopePurpose) (fields : List UntrustedPromptField)
    (totalDataBytes : Nat) :
    List PromptFieldKind → Except PromptEnvelopeError (List PromptFieldWire)
  | [] => .ok []
  | kind :: rest =>
    match fields.find? (·.kind = kind) with
    | none => .error (.missingField purpose kind)
    | some field =>
      if kind.maxBytes < field.bytes then .error (.fieldTooLarge kind field.bytes kind.maxBytes)
      -- `checked_add`
      else if 2 ^ 64 ≤ totalDataBytes + field.bytes then
        .error (.totalDataTooLarge (2 ^ 64 - 1) maxPromptEnvelopeDataBytes)
      else if maxPromptEnvelopeDataBytes < totalDataBytes + field.bytes then
        .error (.totalDataTooLarge (totalDataBytes + field.bytes) maxPromptEnvelopeDataBytes)
      else (wireFields purpose fields (totalDataBytes + field.bytes) rest).map
        (⟨kind, field.bytes, field.value⟩ :: ·)

def serializeUntrustedPrompt (purpose : PromptEnvelopePurpose)
    (fields : List UntrustedPromptField) : Except PromptEnvelopeError (List Char) := do
  checkFields purpose fields fields
  let wire ← wireFields purpose fields 0 purpose.expectedFields
  let rendered := render purpose wire
  if maxPromptEnvelopeRenderedBytes < Text.bytes rendered then
    .error (.renderedEnvelopeTooLarge (Text.bytes rendered) maxPromptEnvelopeRenderedBytes)
  else .ok rendered

/-! ## Spellings -/

/-- A character that the scanner would not have written as it is. -/
def isPromptMeta (c : Char) : Bool :=
  c == '<' || c == '>' || c == '&' || c == '[' || c == ']' || decide (c.toNat < 0x20) ||
  isInvisible c

theorem clean_of_all {cs : List Char} (h : (cs.all fun c => !isPromptMeta c) = true) :
    ∀ c ∈ cs, isPromptMeta c = false := by
  simpa using h

theorem hexDigit_clean : ∀ k < 16, escapeCharacter (hexDigit k) = [hexDigit k] ∧
    isPromptMeta (hexDigit k) = false := by
  decide

theorem flatMap_hex4 (n : Nat) : (hex4 n).flatMap escapeCharacter = hex4 n := by
  have hself : ∀ d ∈ hex4 n, escapeCharacter d = [d] := by
    intro d hd
    obtain ⟨k, hk, rfl⟩ := mem_hex4 hd
    exact (hexDigit_clean k hk).1
  rw [List.flatMap_congr hself, List.flatMap_singleton']

/-- How a character of a string is spelt in the end. -/
def spelling (c : Char) : List Char := scanPiece (fun d => [d]) escapeCharacter (serdeEscape c)

theorem clean_unicode (n : Nat) : ∀ d ∈ '\\' :: 'u' :: hex4 n, isPromptMeta d = false := by
  intro d hd
  rcases List.mem_cons.mp hd with rfl | hd
  · decide
  rcases List.mem_cons.mp hd with rfl | hd
  · decide
  · obtain ⟨k, hk, rfl⟩ := mem_hex4 hd
    exact (hexDigit_clean k hk).2

/-- A spelling that the decoder reads, and the scanner would leave alone. -/
structure Good (piece : List Char) (c : Char) : Prop where
  spells : Spells piece c
  form : Piece piece
  clean : ∀ d ∈ piece, isPromptMeta d = false

theorem good_unicode {c : Char} (h : c.toNat < 0xd800 ∨ (0xe000 ≤ c.toNat ∧ c.toNat < 0x10000)) :
    Good ('\\' :: 'u' :: hex4 c.toNat) c :=
  ⟨spells_unicode h, piece_unicode _, clean_unicode _⟩

/-- The escape of a letter or a quote. -/
theorem good_letter {c d : Char} (hspells : ∀ rest, escaped (d :: rest) = some (c, rest))
    (hclean : isPromptMeta d = false) : Good ['\\', d] c :=
  ⟨spells_letter hspells, .escape d (by simp), by simpa using ⟨by decide, hclean⟩⟩

theorem escapeCharacter_cases (c : Char) :
    (escapeCharacter c = '\\' :: 'u' :: hex4 c.toNat ∧
      (c.toNat < 0xd800 ∨ (0xe000 ≤ c.toNat ∧ c.toNat < 0x10000))) ∨
      (escapeCharacter c = [c] ∧ (isPromptMeta c = false ∨ c.toNat < 0x20)) := by
  unfold escapeCharacter
  split_ifs with h1 h2 h3 h4 h5 h6
  · subst h1
    exact .inl ⟨by decide, by decide⟩
  · subst h2
    exact .inl ⟨by decide, by decide⟩
  · subst h3
    exact .inl ⟨by decide, by decide⟩
  · subst h4
    exact .inl ⟨by decide, by decide⟩
  · subst h5
    exact .inl ⟨by decide, by decide⟩
  · refine .inl ⟨rfl, ?_⟩
    simp only [isInvisible, Bool.or_eq_true, Bool.and_eq_true, decide_eq_true_eq, beq_iff_eq] at h6
    omega
  · refine .inr ⟨rfl, ?_⟩
    simp only [isPromptMeta, Bool.or_eq_false_iff, beq_eq_false_iff_ne, decide_eq_false_iff_not]
    rcases Nat.lt_or_ge c.toNat 0x20 with hlt | hge
    · exact .inr hlt
    · exact .inl ⟨⟨⟨⟨⟨⟨h1, h2⟩, h3⟩, h4⟩, h5⟩, by omega⟩, by simpa using h6⟩

theorem good_spelling (c : Char) : Good (spelling c) c := by
  unfold spelling serdeEscape
  split_ifs with h1 h2 h3 h4 h5 h6 h7 h8
  · subst h1
    exact good_letter (fun _ => rfl) (by decide)
  · subst h2
    exact good_letter (fun _ => rfl) (by decide)
  · obtain rfl := eq_of_toNat h3
    exact good_letter (fun _ => rfl) (by decide)
  · obtain rfl := eq_of_toNat h4
    exact good_letter (fun _ => rfl) (by decide)
  · obtain rfl := eq_of_toNat h5
    exact good_letter (fun _ => rfl) (by decide)
  · obtain rfl := eq_of_toNat h6
    exact good_letter (fun _ => rfl) (by decide)
  · obtain rfl := eq_of_toNat h7
    exact good_letter (fun _ => rfl) (by decide)
  · simp only [scanPiece, List.cons_append, List.nil_append, flatMap_hex4]
    exact good_unicode (.inl (by omega))
  · change Good (escapeCharacter c) c
    obtain ⟨heq, hunit⟩ | ⟨heq, hclean | hlow⟩ := escapeCharacter_cases c
    · rw [heq]
      exact good_unicode hunit
    · rw [heq]
      exact ⟨spells_self h1 h2 (by omega), .plain h1 h2, by simpa using hclean⟩
    · omega

/-! ## Rendering -/

theorem rewrites_field (field : PromptFieldWire) :
    Rewrites escapeCharacter (fieldText serdeEscape field) (fieldText spelling field) :=
  @rewrites_object _
    [("kind", quoted serdeEscape field.kind.asStr, quoted spelling field.kind.asStr),
    ("utf8_bytes", Nat.toDigits 10 field.utf8Bytes, Nat.toDigits 10 field.utf8Bytes),
    ("data", quoted serdeEscape field.data, quoted spelling field.data)] (by
  simp only [List.forall_mem_cons, List.not_mem_nil, false_imp_iff, implies_true, and_true]
  refine ⟨⟨⟨by decide, by decide⟩, rewrites_quoted piece_serdeEscape _⟩,
    ⟨⟨by decide, by decide⟩, rewrites_self _ ?_⟩,
    ⟨⟨by decide, by decide⟩, rewrites_quoted piece_serdeEscape _⟩⟩
  rintro c hc rfl
  exact absurd (isDigit_toDigits hc) (by decide))

/-- The scanner turns the spelling of the serializer into the final one. -/
theorem render_eq (purpose : PromptEnvelopePurpose) (fields : List PromptFieldWire) :
    render purpose fields = envelopeText spelling purpose fields := by
  have harray : Rewrites escapeCharacter (arrayText (fields.map (fieldText serdeEscape)))
      (arrayText (fields.map (fieldText spelling))) := by
    have h := @rewrites_array escapeCharacter
      (fields.map fun field => (fieldText serdeEscape field, fieldText spelling field))
      (by simpa using fun field _ => rewrites_field field)
    simpa [Function.comp_def] using h
  have h : Rewrites escapeCharacter (envelopeText serdeEscape purpose fields)
      (envelopeText spelling purpose fields) :=
    @rewrites_object _
      [("schema", quoted serdeEscape promptEnvelopeSchema, quoted spelling promptEnvelopeSchema),
      ("trust", quoted serdeEscape promptEnvelopeTrust, quoted spelling promptEnvelopeTrust),
      ("purpose", quoted serdeEscape purpose.asStr, quoted spelling purpose.asStr),
      ("fields", arrayText (fields.map (fieldText serdeEscape)),
        arrayText (fields.map (fieldText spelling)))] (by
    simp only [List.forall_mem_cons, List.not_mem_nil, false_imp_iff, implies_true, and_true]
    exact ⟨⟨⟨by decide, by decide⟩, rewrites_quoted piece_serdeEscape _⟩,
      ⟨⟨by decide, by decide⟩, rewrites_quoted piece_serdeEscape _⟩,
      ⟨⟨by decide, by decide⟩, rewrites_quoted piece_serdeEscape _⟩,
      ⟨⟨by decide, by decide⟩, harray⟩⟩)
  have hend := h []
  rw [List.append_nil] at hend
  rw [render, escapePromptMetacharacters, hend, scanStrings, List.append_nil]

/-! ## What a reader gets -/

def fieldValue (field : PromptFieldWire) : Value :=
  .object [("kind", .string field.kind.asStr), ("utf8_bytes", .nat field.utf8Bytes),
    ("data", .string field.data)]

def envelopeValue (purpose : PromptEnvelopePurpose) (fields : List PromptFieldWire) : Value :=
  .object [("schema", .string promptEnvelopeSchema), ("trust", .string promptEnvelopeTrust),
    ("purpose", .string purpose.asStr), ("fields", .array (fields.map fieldValue))]

theorem reads_spelling (text : String) : Reads (quoted spelling text) (.string text) :=
  reads_string fun c _ => (good_spelling c).spells

theorem reads_field (field : PromptFieldWire) :
    Reads (fieldText spelling field) (fieldValue field) :=
  @reads_object [("kind", quoted spelling field.kind.asStr, .string field.kind.asStr),
    ("utf8_bytes", Nat.toDigits 10 field.utf8Bytes, .nat field.utf8Bytes),
    ("data", quoted spelling field.data, .string field.data)] (by
  simp only [Members, List.forall_mem_cons, List.not_mem_nil, false_imp_iff, implies_true, and_true]
  exact ⟨⟨by decide, reads_spelling _⟩, ⟨by decide, reads_nat _⟩, ⟨by decide, reads_spelling _⟩⟩)

theorem decode_render (purpose : PromptEnvelopePurpose) (fields : List PromptFieldWire) :
    decode (render purpose fields) = some (envelopeValue purpose fields) := by
  have harray : Reads (arrayText (fields.map (fieldText spelling)))
      (.array (fields.map fieldValue)) := by
    have h := @reads_array (fields.map fun field => (fieldText spelling field, fieldValue field))
      (by simpa using fun field _ => reads_field field)
    simpa [Function.comp_def] using h
  rw [render_eq]
  exact decode_of_reads (@reads_object
    [("schema", quoted spelling promptEnvelopeSchema, .string promptEnvelopeSchema),
    ("trust", quoted spelling promptEnvelopeTrust, .string promptEnvelopeTrust),
    ("purpose", quoted spelling purpose.asStr, .string purpose.asStr),
    ("fields", arrayText (fields.map (fieldText spelling)), .array (fields.map fieldValue))] (by
    simp only [Members, List.forall_mem_cons, List.not_mem_nil, false_imp_iff, implies_true,
      and_true]
    exact ⟨⟨by decide, reads_spelling _⟩, ⟨by decide, reads_spelling _⟩,
      ⟨by decide, reads_spelling _⟩, ⟨by decide, harray⟩⟩))

/-! ## What stands in the strings -/

theorem clean_envelopeText (purpose : PromptEnvelopePurpose) (fields : List PromptFieldWire) :
    StringsAll (isPromptMeta · = false) (envelopeText spelling purpose fields) := by
  have hquoted : ∀ text, StringsAll (isPromptMeta · = false) (quoted spelling text) :=
    stringsAll_quoted (fun c => (good_spelling c).form) fun c => (good_spelling c).clean
  have hkey : ∀ key : String, PlainKey key → (key.toList.all fun c => !isPromptMeta c) = true →
      KeyAll (isPromptMeta · = false) key := fun key hplain hall => ⟨hplain, clean_of_all hall⟩
  have hfield : ∀ field, StringsAll (isPromptMeta · = false) (fieldText spelling field) := by
    intro field
    refine stringsAll_object ?_
    simp only [List.forall_mem_cons, List.not_mem_nil, false_imp_iff, implies_true, and_true]
    refine ⟨⟨hkey _ (by decide) (by decide), hquoted _⟩,
      ⟨hkey _ (by decide) (by decide), stringsAll_outer _ ?_⟩,
      ⟨hkey _ (by decide) (by decide), hquoted _⟩⟩
    rintro c hc rfl
    exact absurd (isDigit_toDigits hc) (by decide)
  refine stringsAll_object ?_
  simp only [List.forall_mem_cons, List.not_mem_nil, false_imp_iff, implies_true, and_true]
  refine ⟨⟨hkey _ (by decide) (by decide), hquoted _⟩, ⟨hkey _ (by decide) (by decide), hquoted _⟩,
    ⟨hkey _ (by decide) (by decide), hquoted _⟩,
    ⟨hkey _ (by decide) (by decide), stringsAll_array ?_⟩⟩
  simpa using fun field _ => hfield field

/-! ## What is accepted -/

variable {purpose : PromptEnvelopePurpose} {fields : List UntrustedPromptField}

theorem checkFields_eq_ok_iff {fields rest : List UntrustedPromptField} {u : Unit} :
    checkFields purpose fields rest = .ok u ↔
      ∀ field ∈ rest, field.kind ∈ purpose.expectedFields ∧
      fields.countP (·.kind = field.kind) ≤ 1 := by
  induction rest with
  | nil => simp [checkFields]
  | cons field rest ih =>
    rw [checkFields, List.forall_mem_cons]
    by_cases hkind : field.kind ∈ purpose.expectedFields
    · rw [if_neg (not_not.mpr hkind), and_iff_right hkind]
      split_ifs with hcount
      · simp only [false_iff, not_and]
        omega
      · rw [ih, and_iff_right (by omega)]
    · simp [hkind]

theorem maxBytes_le (kind : PromptFieldKind) : kind.maxBytes ≤ 128 * 1024 := by
  cases kind <;> decide

variable {kinds : List PromptFieldKind}

/-- The fields that the second loop finds, in its order. -/
theorem wireFields_eq_ok_iff {total : Nat} (htotal : total ≤ maxPromptEnvelopeDataBytes)
    {wire : List PromptFieldWire} : wireFields purpose fields total kinds = .ok wire ↔
      ∃ found : List UntrustedPromptField,
        List.Forall₂ (fun kind field => fields.find? (·.kind = kind) = some field)
        kinds found ∧ (∀ field ∈ found, field.bytes ≤ field.kind.maxBytes) ∧
        total + (found.map UntrustedPromptField.bytes).sum ≤ maxPromptEnvelopeDataBytes ∧
        wire = found.map UntrustedPromptField.wire := by
  induction kinds generalizing total wire with
  | nil => simp [wireFields, htotal, eq_comm]
  | cons kind kinds ih =>
    rw [wireFields]
    cases hfind : fields.find? (·.kind = kind) with
    | none =>
      simp only [reduceCtorEq, false_iff]
      rintro ⟨found, hfound, -⟩
      obtain ⟨field, rest, hfirst, -, rfl⟩ := List.forall₂_cons_left_iff.mp hfound
      rw [hfind] at hfirst
      cases hfirst
    | some field =>
      have hkind : field.kind = kind := by simpa using List.find?_some hfind
      have hsmall := maxBytes_le kind
      have hlimit : maxPromptEnvelopeDataBytes = 256 * 1024 := rfl
      have hsplit : ∀ {found : List UntrustedPromptField},
          List.Forall₂ (fun kind field => fields.find? (·.kind = kind) = some field)
            (kind :: kinds) found →
          ∃ rest, found = field :: rest ∧
            List.Forall₂ (fun kind field => fields.find? (·.kind = kind) = some field) kinds
              rest := by
        intro found hfound
        obtain ⟨first, rest, hfirst, hrest, rfl⟩ := List.forall₂_cons_left_iff.mp hfound
        rw [hfind] at hfirst
        cases hfirst
        exact ⟨rest, rfl, hrest⟩
      dsimp only
      split_ifs with hlarge hoverflow htoomuch
      · simp only [false_iff]
        rintro ⟨found, hfound, hfits, -⟩
        obtain ⟨rest, rfl, -⟩ := hsplit hfound
        have hfirst := hfits field (List.mem_cons_self ..)
        rw [hkind] at hfirst
        omega
      · omega
      · simp only [false_iff]
        rintro ⟨found, hfound, -, hsum, -⟩
        obtain ⟨rest, rfl, -⟩ := hsplit hfound
        rw [List.map_cons, List.sum_cons] at hsum
        omega
      · constructor
        · intro hmap
          obtain ⟨wire, hwire, rfl⟩ := map_eq_ok hmap
          obtain ⟨found, hfound, hfits, hsum, rfl⟩ := (ih (by omega)).mp hwire
          refine ⟨field :: found, .cons hfind hfound, ?_, ?_, by rw [← hkind]; rfl⟩
          · rw [List.forall_mem_cons, hkind]
            exact ⟨by omega, hfits⟩
          · rw [List.map_cons, List.sum_cons]
            omega
        · rintro ⟨found, hfound, hfits, hsum, rfl⟩
          obtain ⟨rest, rfl, hrest⟩ := hsplit hfound
          rw [List.map_cons, List.sum_cons] at hsum
          have hwire := (@ih (total + field.bytes) (by omega)).mpr
            ⟨rest, hrest, fun f hf => hfits f (List.mem_cons_of_mem _ hf), by omega, rfl⟩
          rw [hwire, ← hkind]
          rfl

theorem nodup_expectedFields (purpose : PromptEnvelopePurpose) : purpose.expectedFields.Nodup := by
  cases purpose <;> decide

/-- The fields in the order of the purpose. -/
def canonical (purpose : PromptEnvelopePurpose) (fields : List UntrustedPromptField) :
    List UntrustedPromptField :=
  purpose.expectedFields.filterMap fun kind => fields.find? (·.kind = kind)

theorem filterMap_of_forall₂ {fields found : List UntrustedPromptField}
    (h : List.Forall₂ (fun kind field => fields.find? (·.kind = kind) = some field) kinds found) :
    kinds.filterMap (fun kind => fields.find? (·.kind = kind)) = found ∧
    found.map (·.kind) = kinds ∧
      ∀ field ∈ found, field ∈ fields := by
  induction h with
  | nil => simp
  | @cons kind field kinds found hfirst hrest ih =>
    obtain ⟨hfound, hkinds, hmem⟩ := ih
    have hkind : field.kind = kind := by simpa using List.find?_some hfirst
    refine ⟨by simp only [List.filterMap_cons, hfirst, hfound], by
      rw [List.map_cons, hkinds, hkind], ?_⟩
    rw [List.forall_mem_cons]
    exact ⟨List.mem_of_find?_eq_some hfirst, hmem⟩

/-- The fields by their kinds. -/
def fieldTable (fields : List UntrustedPromptField)
    (h : (fields.map UntrustedPromptField.kind).Nodup) :
    Table UntrustedPromptField.kind := ⟨fields, h⟩

theorem perm_canonical (h : (fields.map UntrustedPromptField.kind).Perm purpose.expectedFields) :
    List.Forall₂ (fun kind field => fields.find? (·.kind = kind) = some field)
      purpose.expectedFields
      (canonical purpose fields) ∧ (canonical purpose fields).Perm fields := by
  have hnodup : (fields.map UntrustedPromptField.kind).Nodup :=
    h.nodup_iff.mpr (nodup_expectedFields purpose)
  have hfind : ∀ {kind field}, fields.find? (·.kind = kind) = some field ↔
      field ∈ fields ∧ field.kind = kind :=
    fun {kind _} => (fieldTable fields hnodup).find_eq_some_iff (k := kind)
  have hall : ∀ kinds : List PromptFieldKind, (∀ kind ∈ kinds, kind ∈ purpose.expectedFields) →
      List.Forall₂ (fun kind field => fields.find? (·.kind = kind) = some field) kinds
        (kinds.filterMap fun kind => fields.find? (·.kind = kind)) := by
    intro kinds hkinds
    induction kinds with
    | nil => exact .nil
    | cons kind kinds ih =>
      obtain ⟨field, hfield, hkind⟩ :=
        List.mem_map.mp (h.mem_iff.mpr (hkinds kind (List.mem_cons_self ..)))
      have hfirst := hfind.mpr ⟨hfield, hkind⟩
      simp only [List.filterMap_cons, hfirst]
      exact .cons hfirst (ih fun k hk => hkinds k (List.mem_cons_of_mem _ hk))
  have hforall := hall purpose.expectedFields fun _ hk => hk
  obtain ⟨-, hkinds, hmem⟩ := filterMap_of_forall₂ hforall
  refine ⟨hforall, ?_⟩
  have hcanonical : ((canonical purpose fields).map UntrustedPromptField.kind).Nodup := by
    rw [canonical, hkinds]
    exact nodup_expectedFields purpose
  refine (List.perm_ext_iff_of_nodup hcanonical.of_map hnodup.of_map).mpr fun field =>
    ⟨hmem field, fun hfield => ?_⟩
  exact List.mem_filterMap.mpr ⟨field.kind, h.mem_iff.mp (List.mem_map_of_mem hfield),
    hfind.mpr ⟨hfield, rfl⟩⟩

/-- What the serializer takes. -/
structure Accepted (purpose : PromptEnvelopePurpose) (fields : List UntrustedPromptField) :
    Prop where
  kinds : (fields.map UntrustedPromptField.kind).Perm purpose.expectedFields
  fits : ∀ field ∈ fields, field.bytes ≤ field.kind.maxBytes
  total : (fields.map UntrustedPromptField.bytes).sum ≤ maxPromptEnvelopeDataBytes
  rendered :
    Text.bytes (render purpose ((canonical purpose fields).map UntrustedPromptField.wire)) ≤
    maxPromptEnvelopeRenderedBytes

theorem serialize_eq_ok_iff {text : List Char} :
    serializeUntrustedPrompt purpose fields = .ok text ↔
      Accepted purpose fields ∧
      text = render purpose ((canonical purpose fields).map UntrustedPromptField.wire) := by
  have hzero : 0 ≤ maxPromptEnvelopeDataBytes := Nat.zero_le _
  unfold serializeUntrustedPrompt
  simp only [bind_eq_ok_iff, checkFields_eq_ok_iff, wireFields_eq_ok_iff hzero, Nat.zero_add]
  constructor
  · rintro ⟨-, hchecked, wire, ⟨found, hfound, hfits, hsum, rfl⟩, hrendered⟩
    obtain ⟨hcanonical, hkinds, hmem⟩ := filterMap_of_forall₂ hfound
    have hnodup : (fields.map UntrustedPromptField.kind).Nodup := by
      refine List.nodup_iff_count_le_one.mpr fun kind => ?_
      by_cases hkind : kind ∈ fields.map UntrustedPromptField.kind
      · obtain ⟨field, hfield, rfl⟩ := List.mem_map.mp hkind
        rw [List.count, List.countP_map]
        refine le_trans (le_of_eq (List.countP_congr fun f _ => ?_)) (hchecked field hfield).2
        simp
      · rw [List.count_eq_zero.mpr hkind]
        exact Nat.zero_le _
    have hperm : (fields.map UntrustedPromptField.kind).Perm purpose.expectedFields := by
      refine (List.perm_ext_iff_of_nodup hnodup (nodup_expectedFields purpose)).mpr fun kind =>
        ⟨?_, fun hkind => ?_⟩
      · rintro hkind
        obtain ⟨field, hfield, rfl⟩ := List.mem_map.mp hkind
        exact (hchecked field hfield).1
      · rw [← hkinds] at hkind
        obtain ⟨field, hfield, rfl⟩ := List.mem_map.mp hkind
        exact List.mem_map_of_mem (hmem field hfield)
    have hcanonical : canonical purpose fields = found := hcanonical
    have hsame := (perm_canonical hperm).2
    rw [hcanonical] at hsame
    split_ifs at hrendered with hlarge
    obtain rfl := Except.ok.inj hrendered
    refine ⟨⟨hperm, fun field hfield => hfits field (hsame.mem_iff.mpr hfield), ?_, ?_⟩, by
      rw [hcanonical]⟩
    · rwa [← (hsame.map _).sum_eq]
    · rw [hcanonical]
      omega
  · rintro ⟨h, rfl⟩
    obtain ⟨hfound, hsame⟩ := perm_canonical h.kinds
    have hnodup := h.kinds.nodup_iff.mpr (nodup_expectedFields purpose)
    refine ⟨(), fun field hfield => ⟨h.kinds.mem_iff.mp (List.mem_map_of_mem hfield), ?_⟩, _,
      ⟨canonical purpose fields, hfound, fun field hfield => h.fits field (hsame.mem_iff.mp hfield),
        ?_, rfl⟩, ?_⟩
    · have hcount := List.nodup_iff_count_le_one.mp hnodup field.kind
      rw [List.count, List.countP_map] at hcount
      refine le_trans (le_of_eq (List.countP_congr fun f _ => ?_)) hcount
      simp
    · rw [(hsame.map _).sum_eq]
      exact h.total
    · rw [if_neg (not_lt.mpr h.rendered)]

/-- The order of the fields is lost. -/
theorem canonical_perm {fields fields' : List UntrustedPromptField}
    (hkinds : (fields.map UntrustedPromptField.kind).Perm purpose.expectedFields)
    (h : fields'.Perm fields) : canonical purpose fields' = canonical purpose fields := by
  have hnodup : (fields.map UntrustedPromptField.kind).Nodup :=
    hkinds.nodup_iff.mpr (nodup_expectedFields purpose)
  have hnodup' : (fields'.map UntrustedPromptField.kind).Nodup := (h.map _).nodup_iff.mpr hnodup
  refine List.filterMap_congr fun kind _ => Option.ext fun field => ?_
  change (fieldTable fields' hnodup').find kind = some field ↔
    (fieldTable fields hnodup).find kind = some field
  rw [Table.find_eq_some_iff, Table.find_eq_some_iff]
  exact and_congr_left fun _ => h.mem_iff

theorem Accepted.perm {fields fields' : List UntrustedPromptField} (h : Accepted purpose fields)
    (hperm : fields'.Perm fields) : Accepted purpose fields' where
  kinds := (hperm.map _).trans h.kinds
  fits := fun field hfield => h.fits field (hperm.mem_iff.mp hfield)
  total := by
    rw [(hperm.map _).sum_eq]
    exact h.total
  rendered := by
    rw [canonical_perm h.kinds hperm]
    exact h.rendered

/-! ## The envelope -/

theorem toOption_eq_some_iff {E A : Type} {x : Except E A} {a : A} : x.toOption = some a ↔
    x = .ok a := by
  cases x <;> simp [Except.toOption]

/-- What is accepted, that the order of the fields does not matter, what a reader gets, and what its
strings hold. -/
theorem serialize_law (purpose : PromptEnvelopePurpose) (fields : List UntrustedPromptField) :
    ((∃ text, serializeUntrustedPrompt purpose fields = .ok text) ↔ Accepted purpose fields) ∧
    (∀ fields', fields'.Perm fields →
      (serializeUntrustedPrompt purpose fields').toOption =
        (serializeUntrustedPrompt purpose fields).toOption) ∧
    ∀ text, serializeUntrustedPrompt purpose fields = .ok text →
      (canonical purpose fields).Perm fields ∧
      (canonical purpose fields).map UntrustedPromptField.kind = purpose.expectedFields ∧
      decode text = some
        (envelopeValue purpose ((canonical purpose fields).map UntrustedPromptField.wire)) ∧
      ∀ c ∈ insideStrings text, isPromptMeta c = false := by
  refine ⟨?_, fun fields' hperm => ?_, fun text htext => ?_⟩
  · simp [serialize_eq_ok_iff]
  · refine Option.ext fun text => ?_
    rw [toOption_eq_some_iff, toOption_eq_some_iff, serialize_eq_ok_iff, serialize_eq_ok_iff]
    constructor
    · rintro ⟨h, rfl⟩
      have h' := h.perm hperm.symm
      exact ⟨h', by rw [canonical_perm h'.kinds hperm]⟩
    · rintro ⟨h, rfl⟩
      exact ⟨h.perm hperm, by rw [canonical_perm h.kinds hperm]⟩
  · obtain ⟨h, rfl⟩ := serialize_eq_ok_iff.mp htext
    obtain ⟨hfound, hsame⟩ := perm_canonical h.kinds
    refine ⟨hsame, (filterMap_of_forall₂ hfound).2.1, decode_render _ _, ?_⟩
    rw [render_eq]
    exact (clean_envelopeText _ _).inside

/-- Which error is reported is a matter of the order. -/
theorem serialize_error_of_order :
    List.Perm [(⟨.operatorTask, ""⟩ : UntrustedPromptField), ⟨.operatorTask, ""⟩, ⟨.candidate, ""⟩]
      [⟨.candidate, ""⟩, ⟨.operatorTask, ""⟩, ⟨.operatorTask, ""⟩] ∧
    serializeUntrustedPrompt .subAgentPrimary [⟨.operatorTask, ""⟩, ⟨.operatorTask, ""⟩,
      ⟨.candidate, ""⟩] ≠
      serializeUntrustedPrompt .subAgentPrimary [⟨.candidate, ""⟩, ⟨.operatorTask, ""⟩,
        ⟨.operatorTask, ""⟩] := by
  have hrepeated : serializeUntrustedPrompt .subAgentPrimary
      [⟨.operatorTask, ""⟩, ⟨.operatorTask, ""⟩, ⟨.candidate, ""⟩] =
        .error (.duplicateField .operatorTask) := rfl
  have hunexpected : serializeUntrustedPrompt .subAgentPrimary
      [⟨.candidate, ""⟩, ⟨.operatorTask, ""⟩, ⟨.operatorTask, ""⟩] =
      .error (.unexpectedField .subAgentPrimary .candidate) := rfl
  refine ⟨by decide, ?_⟩
  rw [hrepeated, hunexpected]
  simp

end Neoth.Security
