import Neoth.MeshSync.Materialize

/-!
# The shape of inbound content

`validate_content_shape`: the checks the receiver makes of a frame's envelope before it
opens its transaction.  They are not the checks the sender made when it built the
envelope, and `validateContentShape_iff` says what is left between the two: an envelope
that was materialised passes exactly when its row keeps the limits that only the
receiver knows (`RowWithinLimits`).
-/

open Std Lib.Encoding Lib.Transaction
open Neoth.Memory (maturityFor maxEvidenceBacklinks)

namespace Neoth.MeshSync

def maxMemoryTextBytes : Nat := 1048576
def maxStableContentIdBytes : Nat := 128

section Shape
variable [Sha256]

def validateMemory (snapshot : MemorySnapshot) (contentId : String) : Except String Unit := do
  require (decide (byteLen snapshot.text ≤ maxMemoryTextBytes))
    "memory text exceeds the 1 MiB cluster limit"
  require (decide (byteLen snapshot.stableId ≤ maxStableContentIdBytes))
    "memory stable id exceeds the cluster limit"
  require (decide (snapshot.importanceMicros ≤ 1000000))
    "memory importance exceeds canonical range"
  require (decide (0 ≤ snapshot.tsNs ∧ 0 ≤ snapshot.lastAccessTs))
    "memory timestamp is outside the canonical range"
  require (["hot", "warm", "cold"].contains snapshot.tier) "unknown canonical memory tier"
  require ("memory:".toList.isPrefixOf snapshot.stableId.toList) "invalid stable memory id"
  require (snapshot.stableId == memoryStableId snapshot.text) "memory stable id/content mismatch"
  require (contentId == snapshot.stableId) "memory envelope content_id mismatch"

def validateGroundTruth (snapshot : GroundTruthSnapshot) (contentId : String) :
    Except String Unit := do
  require (!isBlank snapshot.statement && !isBlank snapshot.source &&
      decide (byteLen snapshot.source ≤ 256) && !isBlank snapshot.scope)
    "invalid canonical ground-truth identity/provenance"
  require (decide (0 ≤ snapshot.assertedAt) && snapshot.revokedAt.all fun t => decide (0 ≤ t))
    "ground-truth timestamp is outside the canonical range"
  require (decide (snapshot.confidenceMicros ≤ 1000000))
    "ground-truth confidence exceeds canonical range"
  require (isFactState snapshot.factState) "unknown canonical ground-truth state"
  require (isMaturity snapshot.maturity) "unknown canonical ground-truth maturity"
  require (snapshot.maturity == maturityFor snapshot.confirmedCount)
    "ground-truth maturity/confirmation count mismatch"
  require (isSourceWeight snapshot.sourceWeight) "invalid canonical ground-truth source provenance"
  require (decide (snapshot.evidenceContentIds.length ≤ maxEvidenceBacklinks) &&
      snapshot.evidenceContentIds.dedup.length == snapshot.evidenceContentIds.length &&
      snapshot.evidenceContentIds.all isCanonicalMemoryId)
    "invalid canonical ground-truth evidence provenance"
  require (snapshot.stableId == groundTruthStableId snapshot.scope snapshot.statement)
    "ground-truth stable id/content mismatch"
  require (contentId == snapshot.stableId) "ground-truth envelope content_id mismatch"

def validateContentShape (frame : GossipFrame) (eventType eventSubtype : UInt8)
    (policy : GossipPolicy) : Except String Unit := do
  require (frame.envelope.version == syncEnvelopeVersion) "unknown mesh envelope version"
  require (frame.envelope.updatedAtUnix == frame.timestampUnix)
    "mesh envelope timestamp does not match WAL source"
  match frame.envelope.content with
  | .memory snapshot =>
    if 0x90 ≤ eventType ∧ eventType ≤ 0x92 then validateMemory snapshot frame.envelope.contentId
    else .error "mesh content kind does not match WAL event type"
  | .groundTruth snapshot =>
    if eventType = 0x98 then validateGroundTruth snapshot frame.envelope.contentId
    else .error "mesh content kind does not match WAL event type"
  | .rawPrivate inner walFrame => do
    require policy.replicateRawIngress "raw private mesh content is disabled"
    require (inner == eventType && walFrame == frame.payload) "raw private envelope mismatch"
    require (classifyEventExt eventType eventSubtype == .rawIngressGated)
      "raw private envelope used for non-raw event"
    require (frame.envelope.contentId == "raw:" ++ hexEncode (Sha256.digest walFrame).val)
      "raw private envelope content_id mismatch"
  | .metadata inner sub walFrame => do
    require (inner == eventType && sub == eventSubtype && walFrame == frame.payload)
      "metadata envelope mismatch"
    require (classifyEventExt eventType eventSubtype == .replicate)
      "metadata envelope used for non-metadata event"
    require (frame.envelope.contentId == "metadata:" ++ hexEncode (Sha256.digest walFrame).val)
      "metadata envelope content_id mismatch"

/-! ## What the sender does not check -/

/-- The limits of a memory row that only the receiver enforces. -/
def MemoryRow.WithinLimits (row : MemoryRow) : Prop :=
  byteLen row.text ≤ maxMemoryTextBytes ∧ 0 ≤ row.ts ∧ 0 ≤ row.lastAccessTs

/-- The limits of a ground-truth row that only the receiver enforces. -/
def GroundTruthRow.WithinLimits (row : GroundTruthRow) : Prop :=
  isBlank row.statement = false ∧ isBlank row.scope = false ∧ 0 ≤ row.assertedAt ∧
    ∀ t, row.revokedAt = some t → 0 ≤ t

/-- The row an event names keeps the receiver's limits. -/
def RowWithinLimits [SerdeJson] (views : Views) (d : DecodedFrame) : Prop :=
  (0x90 ≤ d.header.eventType ∧ d.header.eventType ≤ 0x92 →
    ∀ eventId row tier, jsonI64 d.payload "event_id" = .ok eventId →
      views.memoryRow eventId = some (row, tier) → row.WithinLimits) ∧
  (d.header.eventType = 0x98 →
    ∀ id row, jsonI64 d.payload "id" = .ok id → views.idxGroundtruth.lookup id = some row →
      row.WithinLimits)

theorem byteLen_memoryStableId (text : String) : byteLen (memoryStableId text) = 71 := by
  have hhex := (utf8_hexEncode (Sha256.digest (utf8 text)).val).1
  rw [(Sha256.digest (utf8 text)).property] at hhex
  unfold byteLen at hhex ⊢
  unfold memoryStableId
  rw [utf8_append, List.length_append, hhex]
  decide

theorem isPrefixOf_memoryStableId (text : String) :
    "memory:".toList.isPrefixOf (memoryStableId text).toList = true := by
  unfold memoryStableId
  rw [String.toList_append, List.isPrefixOf_iff_prefix]
  exact List.prefix_append ..

theorem validateMemory_iff {views : Views} {eventId : Int} {snapshot : MemorySnapshot}
    {row : MemoryRow} {tier : String} (hload : loadMemorySnapshot views eventId = .ok snapshot)
    (hrow : views.memoryRow eventId = some (row, tier)) :
    validateMemory snapshot snapshot.stableId = .ok () ↔ row.WithinLimits := by
  obtain ⟨row', tier', hrow', htier, hsnapTier, htext, hts, haccess, hid, himportance⟩ :=
    loadMemorySnapshot_spec hload
  cases hrow.symm.trans hrow'
  have hprefix := isPrefixOf_memoryStableId snapshot.text
  have hlen := byteLen_memoryStableId snapshot.text
  rw [← hid] at hprefix hlen
  have hknown : ["hot", "warm", "cold"].contains snapshot.tier = true := by
    rw [hsnapTier]
    rcases htier with rfl | rfl | rfl <;> decide
  unfold validateMemory MemoryRow.WithinLimits
  simp only [bind_eq_ok_iff, require_eq_ok_iff, decide_eq_true_eq, beq_iff_eq, hprefix,
    hlen, hknown, htext, hts, haccess, himportance]
  constructor
  · rintro ⟨-, hsize, -, -, -, -, -, htimes, -⟩
    exact ⟨hsize, htimes⟩
  · rintro ⟨hsize, htimes⟩
    refine ⟨(), hsize, (), by decide, (), trivial, (), htimes, (), trivial, (), trivial, (), ?_,
      trivial⟩
    rw [← htext]
    exact hid

theorem validateGroundTruth_iff [SerdeJson] {views : Views} {id : Int}
    {snapshot : GroundTruthSnapshot} {row : GroundTruthRow}
    (hload : loadGroundTruthSnapshot views id = .ok snapshot)
    (hrow : views.idxGroundtruth.lookup id = some row) :
    validateGroundTruth snapshot snapshot.stableId = .ok () ↔ row.WithinLimits := by
  obtain ⟨row', hrow', hstatement, hscope, hasserted, hrevoked, hsource, hconfidence, hstate,
    hmaturity, hcount, hweight, hbacklinks, hnodup, hcanonical, hid⟩ :=
    loadGroundTruthSnapshot_spec hload
  cases hrow.symm.trans hrow'
  obtain ⟨hsource, hsourceLen⟩ := Bool.and_eq_true_iff.mp hsource
  have hevidence : snapshot.evidenceContentIds.all isCanonicalMemoryId = true :=
    List.all_eq_true.mpr hcanonical
  have hdedup : snapshot.evidenceContentIds.dedup = snapshot.evidenceContentIds :=
    List.dedup_eq_self.mpr hnodup
  rw [hscope, hstatement] at hid
  unfold validateGroundTruth GroundTruthRow.WithinLimits
  simp only [bind_eq_ok_iff, require_eq_ok_iff, Bool.and_eq_true, decide_eq_true_eq, beq_iff_eq,
    hsource, hsourceLen, hconfidence, hstate, hmaturity, hweight, hbacklinks, hevidence, hdedup,
    ← hcount, hid, hstatement, hscope, hasserted, hrevoked, Bool.not_eq_true']
  constructor
  · rintro ⟨-, ⟨⟨⟨hstatement, -⟩, -⟩, hscope⟩, -, ⟨hasserted, hrevoked⟩, -⟩
    refine ⟨hstatement, hscope, hasserted, ?_⟩
    intro t ht
    rw [ht] at hrevoked
    exact of_decide_eq_true hrevoked
  · rintro ⟨hstatement, hscope, hasserted, hrevoked⟩
    refine ⟨(), ⟨⟨⟨hstatement, trivial⟩, trivial⟩, hscope⟩, (), ⟨hasserted, ?_⟩, (), trivial, (),
      trivial, (), trivial, (), trivial, (), trivial, (), ⟨⟨trivial, trivial⟩, trivial⟩, (),
      trivial, trivial⟩
    cases h : row.revokedAt with
    | none => rfl
    | some t => exact decide_eq_true (hrevoked t h)

/-- The kind of content a materialised envelope has is the one its event asks for. -/
theorem materializeContent_spec [SerdeJson] {views : Views} {eventType eventSubtype : UInt8}
    {raw payload : List UInt8} {policy : GossipPolicy} {content : SyncContent}
    (h : materializeContent views eventType eventSubtype raw payload policy = .ok content) :
    (∃ eventId snapshot, (0x90 ≤ eventType ∧ eventType ≤ 0x92) ∧
      jsonI64 payload "event_id" = .ok eventId ∧
      loadMemorySnapshot views eventId = .ok snapshot ∧ content = .memory snapshot) ∨
    (∃ id snapshot, eventType = 0x98 ∧ jsonI64 payload "id" = .ok id ∧
      loadGroundTruthSnapshot views id = .ok snapshot ∧ content = .groundTruth snapshot) ∨
    (¬ (0x90 ≤ eventType ∧ eventType ≤ 0x92) ∧ eventType ≠ 0x98 ∧
      ((classifyEventExt eventType eventSubtype = .rawIngressGated ∧
          policy.replicateRawIngress = true ∧ content = .rawPrivate eventType raw) ∨
        (classifyEventExt eventType eventSubtype = .replicate ∧
          content = .metadata eventType eventSubtype raw))) := by
  unfold materializeContent at h
  split at h
  · rename_i hmemory
    simp only [bind_eq_ok_iff] at h
    obtain ⟨eventId, hid, snapshot, hload, h⟩ := h
    cases h
    exact .inl ⟨eventId, snapshot, hmemory, hid, hload, rfl⟩
  · rename_i hmemory
    split at h
    · rename_i htruth
      simp only [bind_eq_ok_iff] at h
      obtain ⟨id, hid, snapshot, hload, h⟩ := h
      cases h
      exact .inr (.inl ⟨id, snapshot, htruth, hid, hload, rfl⟩)
    · rename_i htruth
      refine .inr (.inr ⟨hmemory, htruth, ?_⟩)
      cases hclass : classifyEventExt eventType eventSubtype with
      | rawIngressGated =>
        rw [hclass] at h
        simp only [bind_eq_ok_iff, require_eq_ok_iff] at h
        obtain ⟨-, hpolicy, h⟩ := h
        cases h
        exact .inl ⟨rfl, hpolicy, rfl⟩
      | replicate =>
        rw [hclass] at h
        cases h
        exact .inr ⟨rfl, rfl⟩
      | doNotGossip =>
        rw [hclass] at h
        cases h

/-- **Agreement on the shape.**  Of what the sender materialises, the receiver refuses exactly
the rows outside its own limits. -/
theorem validateContentShape_iff [SerdeJson] {views : Views} {eventType eventSubtype : UInt8}
    {policy : GossipPolicy} {frame : GossipFrame} {d : DecodedFrame}
    (hmaterialize : materializeEnvelope views eventType eventSubtype frame.payload
      frame.timestampUnix policy = .ok frame.envelope) (hframe : IsFrame frame.payload d) :
    validateContentShape frame eventType eventSubtype policy = .ok () ↔
    RowWithinLimits views d := by
  obtain ⟨d', content, hframe', rfl, rfl, hcontent, henvelope⟩ :=
    materializeEnvelope_spec hmaterialize
  cases hframe.1.symm.trans hframe'.1
  unfold validateContentShape RowWithinLimits
  rw [henvelope]
  simp only [bind_eq_ok_iff, require_eq_ok_iff, beq_self_eq_true, true_and, exists_const]
  rcases materializeContent_spec hcontent with ⟨eventId, snapshot, hmemory, hid, hload, rfl⟩ |
    ⟨id, snapshot, htruth, hid, hload, rfl⟩ | ⟨hmemory, htruth, hrest⟩
  · obtain ⟨row, tier, hrow, -⟩ := loadMemorySnapshot_spec hload
    have htruth : d.header.eventType ≠ 0x98 := by
      intro e
      rw [e] at hmemory
      exact absurd hmemory (by decide)
    dsimp only
    rw [if_pos hmemory, SyncContent.contentId, validateMemory_iff hload hrow]
    constructor
    · intro hlimits
      refine ⟨?_, fun e => absurd e htruth⟩
      intro _ eventId' row' tier' hid' hrow'
      cases hid.symm.trans hid'
      cases hrow.symm.trans hrow'
      exact hlimits
    · intro hlimits
      exact hlimits.1 hmemory eventId row tier hid hrow
  · obtain ⟨row, hrow, -⟩ := loadGroundTruthSnapshot_spec hload
    have hmemory : ¬ (0x90 ≤ d.header.eventType ∧ d.header.eventType ≤ 0x92) := by
      rw [htruth]
      decide
    dsimp only
    rw [if_pos htruth, SyncContent.contentId, validateGroundTruth_iff hload hrow]
    constructor
    · intro hlimits
      refine ⟨fun e => absurd e hmemory, ?_⟩
      intro _ id' row' hid' hrow'
      cases hid.symm.trans hid'
      cases hrow.symm.trans hrow'
      exact hlimits
    · intro hlimits
      exact hlimits.2 htruth id row hid hrow
  · have hlimits : RowWithinLimits views d := ⟨fun e => absurd e hmemory, fun e => absurd e htruth⟩
    refine ⟨fun _ => hlimits, fun _ => ?_⟩
    rcases hrest with ⟨hclass, hpolicy, rfl⟩ | ⟨hclass, rfl⟩
    · simp [bind_eq_ok_iff, hclass, hpolicy, SyncContent.contentId]
    · simp [bind_eq_ok_iff, hclass, SyncContent.contentId]

end Shape

end Neoth.MeshSync
