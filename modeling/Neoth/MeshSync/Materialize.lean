import Neoth.Lib.Binary64
import Neoth.Memory.GroundTruth
import Neoth.MeshSync.Gossip
import Neoth.MeshSync.WalFrame

/-!
# Materialising an event

The WAL events of the mesh name rows; what is sent is the row.  `materializeEnvelope`
reads the memory and ground-truth tables of `views.db` (`Views`) and builds the
`SyncEnvelope`.  `serde_json`'s reader is a parameter, `SerdeJson`; columns of type
`REAL` are the bit patterns of doubles.

* `loadMemorySnapshot_spec`, `loadGroundTruthSnapshot_spec`: what the sender's own
  checks already promise of a snapshot;
* `materializeEnvelope_spec`: the four kinds of content, and the events they stand for.
-/

open Std Lib.Encoding Lib.Transaction Lib.Binary64
open Neoth.Memory (maturityFor maxEvidenceBacklinks)

namespace Neoth.MeshSync

/-! ## JSON that is read -/

inductive JsonValue
  | null
  | bool (value : Bool)
  | number (asI64 : Option Int)
  | string (text : String)
  | array (values : List JsonValue)
  | object (fields : List (String × JsonValue))

/-- `serde_json`: `from_slice` of a `Value`, and `from_str` of the two provenance columns. -/
class SerdeJson where
  value : List UInt8 → Option JsonValue
  sourceWeight : String → Option (ExtTreeMap String Nat)
  evidence : String → Option (List Int)

/-- `Value::get` of an object. -/
def JsonValue.get : JsonValue → String → Option JsonValue
  | .object fields, key => (fields.find? (·.1 == key)).map (·.2)
  | _, _ => none

def JsonValue.asI64 : JsonValue → Option Int
  | .number value => value
  | _ => none

def jsonI64 [SerdeJson] (payload : List UInt8) (field : String) : Except String Int := do
  let value ← context (SerdeJson.value payload) "decode materialized mesh WAL payload"
  context ((value.get field).bind JsonValue.asI64) s!"mesh WAL payload has no integer {field}"

/-! ## The tables -/

structure MemoryRow where
  text : String
  textHash : String
  ts : Int
  importance : UInt64
  lastAccessTs : Int
  accessCount : Int

structure ConsolidatedRow where
  id : Int
  eventId : Option Int
  row : MemoryRow

structure GroundTruthRow where
  statement : String
  source : String
  scope : String
  assertedAt : Int
  revokedAt : Option Int
  factState : String
  sourceWeight : String
  confidence : UInt64
  evidence : String
  maturity : String
  confirmedCount : Int

structure Views where
  idxEpisode : List (Int × MemoryRow)
  idxConsolidated : List ConsolidatedRow
  idxLongterm : List (Int × MemoryRow)
  idxGroundtruth : List (Int × GroundTruthRow)

/-- `ORDER BY id DESC LIMIT 1`. -/
def latest : List ConsolidatedRow → Option ConsolidatedRow
  | [] => none
  | row :: rows =>
    match latest rows with
    | none => some row
    | some other => if other.id ≤ row.id then some row else some other

/-- The row of a memory event and the tier it was found in: hot, else warm, else cold. -/
def Views.memoryRow (views : Views) (eventId : Int) : Option (MemoryRow × String) :=
  match views.idxEpisode.lookup eventId with
  | some row => some (row, "hot")
  | none =>
    match latest (views.idxConsolidated.filter (·.eventId == some eventId)) with
    | some consolidated => some (consolidated.row, "warm")
    | none => (views.idxLongterm.lookup eventId).map fun row => (row, "cold")

def scoreMicros (value : UInt64) (label : String) : Except String Nat :=
  if isUnit value then .ok (mulRound value 1000000) else .error s!"invalid {label}"

theorem scoreMicros_le {value : UInt64} {label : String} {micros : Nat}
    (h : scoreMicros value label = .ok micros) : micros ≤ 1000000 := by
  unfold scoreMicros at h
  split at h
  · rename_i hunit
    cases h
    exact mulRound_le hunit (by decide)
  · cases h

section Hashing
variable [Sha256]

/-! ## Memory -/

def memoryStableId (text : String) : String :=
  "memory:" ++ hexEncode (Sha256.digest (utf8 text)).val

def loadMemorySnapshot (views : Views) (eventId : Int) : Except String MemorySnapshot :=
  match views.memoryRow eventId with
  | none => .error s!"memory event {eventId} has no materializable content row"
  | some (row, tier) => do
    require (decide (0 ≤ row.accessCount)) s!"negative memory access_count for event {eventId}"
    let importanceMicros ← scoreMicros row.importance "memory importance"
    pure ⟨memoryStableId row.text, row.text, row.textHash, tier, row.ts, importanceMicros,
      row.lastAccessTs, row.accessCount.toNat⟩

/-- A snapshot is its row, with a tier, an importance in range and a canonical id. -/
theorem loadMemorySnapshot_spec {views : Views} {eventId : Int} {snapshot : MemorySnapshot}
    (h : loadMemorySnapshot views eventId = .ok snapshot) :
    ∃ row tier, views.memoryRow eventId = some (row, tier) ∧
      (tier = "hot" ∨ tier = "warm" ∨ tier = "cold") ∧ snapshot.tier = tier ∧
      snapshot.text = row.text ∧ snapshot.tsNs = row.ts ∧ snapshot.lastAccessTs = row.lastAccessTs ∧
      snapshot.stableId = memoryStableId snapshot.text ∧ snapshot.importanceMicros ≤ 1000000 := by
  unfold loadMemorySnapshot at h
  cases hrow : views.memoryRow eventId with
  | none =>
    rw [hrow] at h
    cases h
  | some found =>
    obtain ⟨row, tier⟩ := found
    rw [hrow] at h
    simp only [bind_eq_ok_iff, require_eq_ok_iff] at h
    obtain ⟨-, -, micros, hmicros, h⟩ := h
    cases h
    refine ⟨row, tier, rfl, ?_, rfl, rfl, rfl, rfl, rfl, scoreMicros_le hmicros⟩
    unfold Views.memoryRow at hrow
    split at hrow
    · cases hrow
      exact .inl rfl
    · split at hrow
      · cases hrow
        exact .inr (.inl rfl)
      · rw [Option.map_eq_some_iff] at hrow
        obtain ⟨_, -, hrow⟩ := hrow
        cases hrow
        exact .inr (.inr rfl)

/-! ## Ground truth -/

def isFactState (state : String) : Bool :=
  ["raw", "candidate", "verified", "superseded", "contradicted", "deprecated"].contains state

def isMaturity (maturity : String) : Bool := ["emerging", "working", "stable"].contains maturity

def isBlank (text : String) : Bool := trim text == ""

/-- At most 64 sources, each named in at most 256 bytes and counted at least once. -/
def isSourceWeight (weight : ExtTreeMap String Nat) : Bool :=
  decide (weight.size ≤ 64) && weight.toList.all fun (source, count) =>
    !isBlank source && decide (byteLen source ≤ 256) && decide (0 < count)

/-- The loop over the evidence rows: the stable ids, each once. -/
def evidenceContentIds (views : Views) : List Int → List String → Except String (List String)
  | [], seen => .ok seen
  | evidenceId :: rest, seen => do
    require (decide (0 < evidenceId)) "invalid ground-truth evidence row id"
    let snapshot ← loadMemorySnapshot views evidenceId
    evidenceContentIds views rest
      (if seen.contains snapshot.stableId then seen else seen ++ [snapshot.stableId])

def groundTruthStableId (scope statement : String) : String :=
  "ground_truth:" ++ hexEncode (Sha256.digest (utf8 scope ++ 0 :: utf8 statement)).val

def loadGroundTruthSnapshot [SerdeJson] (views : Views) (id : Int) :
    Except String GroundTruthSnapshot :=
  match views.idxGroundtruth.lookup id with
  | none => .error s!"ground-truth event {id} has no materializable content row"
  | some row => do
    require (!isBlank row.source && decide (byteLen row.source ≤ 256))
      "invalid local ground-truth source"
    let sourceWeight ← context (SerdeJson.sourceWeight row.sourceWeight)
      "invalid local ground-truth source_weight provenance"
    require (isSourceWeight sourceWeight) "invalid local ground-truth source_weight provenance"
    let evidenceIds ← context (SerdeJson.evidence row.evidence)
      "invalid local ground-truth evidence provenance"
    require (decide (evidenceIds.length ≤ maxEvidenceBacklinks))
      "ground-truth evidence exceeds the canonical limit"
    let evidence ← evidenceContentIds views evidenceIds []
    require (decide (0 ≤ row.confirmedCount ∧ row.confirmedCount < 2 ^ 32))
      "invalid local ground-truth confirmed_count"
    let confirmedCount := row.confirmedCount.toNat
    require (row.maturity == maturityFor confirmedCount)
      "ground-truth maturity/confirmation count mismatch"
    require (isFactState row.factState) "invalid local ground-truth state"
    require (isMaturity row.maturity) "invalid local ground-truth maturity"
    let confidenceMicros ← scoreMicros row.confidence "ground-truth confidence"
    pure ⟨groundTruthStableId row.scope row.statement, row.statement, row.source, row.scope,
      row.assertedAt, row.revokedAt, row.factState, sourceWeight, confidenceMicros, evidence,
      row.maturity, confirmedCount⟩

/-- `is_canonical_memory_id`. -/
def isCanonicalMemoryId (contentId : String) : Bool :=
  "memory:".toList.isPrefixOf contentId.toList &&
    isLowerHex64 (String.ofList (contentId.toList.drop 7))

theorem isCanonicalMemoryId_memoryStableId (text : String) :
    isCanonicalMemoryId (memoryStableId text) = true := by
  have hlist : (memoryStableId text).toList =
      "memory:".toList ++ (hexEncode (Sha256.digest (utf8 text)).val).toList := String.toList_append
  have hdrop : (memoryStableId text).toList.drop 7 =
      (hexEncode (Sha256.digest (utf8 text)).val).toList := by
    rw [hlist]
    exact List.drop_left' (by decide)
  unfold isCanonicalMemoryId
  rw [hdrop, hlist, String.ofList_toList,
    isLowerHex64_hexEncode (Sha256.digest (utf8 text)).property]
  simp

/-- Evidence ids are canonical, distinct, and no more than the rows they come from. -/
theorem evidenceContentIds_spec {views : Views} {ids : List Int} {seen result : List String}
    (h : evidenceContentIds views ids seen = .ok result) (hnodup : seen.Nodup)
    (hcanonical : ∀ id ∈ seen, isCanonicalMemoryId id = true) :
    result.Nodup ∧ (∀ id ∈ result, isCanonicalMemoryId id = true) ∧
      result.length ≤ seen.length + ids.length := by
  induction ids generalizing seen with
  | nil =>
    cases h
    exact ⟨hnodup, hcanonical, Nat.le_refl _⟩
  | cons id ids ih =>
    unfold evidenceContentIds at h
    simp only [bind_eq_ok_iff] at h
    obtain ⟨-, -, snapshot, hload, h⟩ := h
    obtain ⟨-, -, -, -, -, -, -, -, hid, -⟩ := loadMemorySnapshot_spec hload
    split at h
    · obtain ⟨hn, hc, hlen⟩ := ih h hnodup hcanonical
      refine ⟨hn, hc, ?_⟩
      rw [List.length_cons]
      omega
    · rename_i hnew
      have hnotin : snapshot.stableId ∉ seen := by simpa using hnew
      obtain ⟨hn, hc, hlen⟩ := ih h
        (List.nodup_append.mpr ⟨hnodup, List.nodup_singleton _, by
          rintro a ha b hb rfl
          rw [List.mem_singleton] at hb
          exact hnotin (hb ▸ ha)⟩)
        (by
          intro a ha
          rcases List.mem_append.mp ha with ha | ha
          · exact hcanonical a ha
          · rw [List.mem_singleton] at ha
            rw [ha, hid]
            exact isCanonicalMemoryId_memoryStableId _)
      refine ⟨hn, hc, ?_⟩
      rw [List.length_append, List.length_singleton] at hlen
      rw [List.length_cons]
      omega

/-- What the sender's checks leave of a ground-truth snapshot: every field in its canonical
range but the texts' blankness and the timestamps, which are the row's. -/
theorem loadGroundTruthSnapshot_spec [SerdeJson] {views : Views} {id : Int}
    {snapshot : GroundTruthSnapshot} (h : loadGroundTruthSnapshot views id = .ok snapshot) :
    ∃ row, views.idxGroundtruth.lookup id = some row ∧ snapshot.statement = row.statement ∧
      snapshot.scope = row.scope ∧ snapshot.assertedAt = row.assertedAt ∧
      snapshot.revokedAt = row.revokedAt ∧
      (!isBlank snapshot.source && decide (byteLen snapshot.source ≤ 256)) = true ∧
      snapshot.confidenceMicros ≤ 1000000 ∧ isFactState snapshot.factState = true ∧
      isMaturity snapshot.maturity = true ∧
      snapshot.maturity = maturityFor snapshot.confirmedCount ∧
      isSourceWeight snapshot.sourceWeight = true ∧
      snapshot.evidenceContentIds.length ≤ maxEvidenceBacklinks ∧
      snapshot.evidenceContentIds.Nodup ∧
      (∀ id ∈ snapshot.evidenceContentIds, isCanonicalMemoryId id = true) ∧
      snapshot.stableId = groundTruthStableId snapshot.scope snapshot.statement := by
  unfold loadGroundTruthSnapshot at h
  cases hrow : views.idxGroundtruth.lookup id with
  | none =>
    rw [hrow] at h
    cases h
  | some row =>
    rw [hrow] at h
    simp only [bind_eq_ok_iff, require_eq_ok_iff] at h
    obtain ⟨-, hsource, weight, -, -, hweight, ids, -, -, hids, evidence, hevidence, -, -, -,
      hmaturity, -, hstate, -, hmaturity', micros, hmicros, h⟩ := h
    cases h
    obtain ⟨hnodup, hcanonical, hlen⟩ := evidenceContentIds_spec hevidence List.nodup_nil (by simp)
    have hids := of_decide_eq_true hids
    rw [List.length_nil, Nat.zero_add] at hlen
    exact ⟨row, rfl, rfl, rfl, rfl, rfl, hsource, scoreMicros_le hmicros, hstate, hmaturity',
      eq_of_beq hmaturity, hweight, hlen.trans hids, hnodup, hcanonical, rfl⟩

/-! ## Envelopes -/

def SyncContent.contentId : SyncContent → String
  | .memory snapshot => snapshot.stableId
  | .groundTruth snapshot => snapshot.stableId
  | .metadata _ _ walFrame => "metadata:" ++ hexEncode (Sha256.digest walFrame).val
  | .rawPrivate _ walFrame => "raw:" ++ hexEncode (Sha256.digest walFrame).val

variable [SerdeJson]

def materializeContent (views : Views) (eventType eventSubtype : UInt8) (raw payload : List UInt8)
    (policy : GossipPolicy) : Except String SyncContent :=
  if 0x90 ≤ eventType ∧ eventType ≤ 0x92 then do
    let eventId ← jsonI64 payload "event_id"
    let snapshot ← loadMemorySnapshot views eventId
    pure (.memory snapshot)
  else if eventType = 0x98 then do
    let id ← jsonI64 payload "id"
    let snapshot ← loadGroundTruthSnapshot views id
    pure (.groundTruth snapshot)
  else match classifyEventExt eventType eventSubtype with
    | .rawIngressGated => do
      require policy.replicateRawIngress "raw mesh replication is disabled"
      pure (.rawPrivate eventType raw)
    | .replicate => .ok (.metadata eventType eventSubtype raw)
    | .doNotGossip => .error "forbidden event cannot be materialized"

def materializeEnvelope (views : Views) (eventType eventSubtype : UInt8) (raw : List UInt8)
    (updatedAtUnix : Int) (policy : GossipPolicy) : Except String SyncEnvelope :=
  match decodeFrame raw with
  | .error _ => .error "materialize durable mesh envelope: decode WAL frame"
  | .ok decoded => do
    require (decoded.header.totalLen == raw.length && decoded.header.eventType == eventType &&
        decoded.header.eventSubtype == eventSubtype)
      "materialize durable mesh envelope: outer/inner WAL metadata mismatch"
    let content ← materializeContent views eventType eventSubtype raw decoded.payload policy
    pure ⟨syncEnvelopeVersion, content.contentId, updatedAtUnix, content⟩

theorem materializeEnvelope_spec {views : Views} {eventType eventSubtype : UInt8}
    {raw : List UInt8} {updatedAtUnix : Int} {policy : GossipPolicy} {envelope : SyncEnvelope}
    (h : materializeEnvelope views eventType eventSubtype raw updatedAtUnix policy = .ok envelope) :
    ∃ d content, IsFrame raw d ∧ d.header.eventType = eventType ∧
      d.header.eventSubtype = eventSubtype ∧
      materializeContent views eventType eventSubtype raw d.payload policy = .ok content ∧
      envelope = ⟨syncEnvelopeVersion, content.contentId, updatedAtUnix, content⟩ := by
  unfold materializeEnvelope at h
  cases hdecode : decodeFrame raw with
  | error e =>
    rw [hdecode] at h
    cases h
  | ok d =>
    rw [hdecode] at h
    simp only [bind_eq_ok_iff, require_eq_ok_iff, Bool.and_eq_true, beq_iff_eq] at h
    obtain ⟨-, ⟨⟨hlen, htype⟩, hsubtype⟩, content, hcontent, h⟩ := h
    cases h
    exact ⟨d, content, ⟨hdecode, hlen⟩, htype, hsubtype, hcontent, rfl⟩

end Hashing

end Neoth.MeshSync
