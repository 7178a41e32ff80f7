import Neoth.Lib.Outcome
import Neoth.Lib.Sha256
import Neoth.Lib.Table
import Neoth.Lib.Text

/-!
# The context index

`memory/ctx.rs`: documents are split into chunks, and each chunk is stored in two full-text tables;
`vocabulary` counts for every term the chunks that contain it, so that a search can correct a
misspelt one.

* `splitChunks`: code by bytes (`splitChunks_code`), other text at headings and paragraphs;
* `vocabularyTerms`: the distinct terms of a chunk;
* `indexDocument`, `purge`: transactions, any statement of which may fail.

The tests of characters and the hash of the content are parameters.
-/

open Lib Lib.Encoding Lib.Text Lib.Transaction

namespace Neoth.Memory

/-- What the index takes from the Rust library and from `xxhash_rust`. -/
class ContextLibrary where
  isAlphanumeric : Char → Bool
  toLowercase : String → String
  xxh3 : List UInt8 → UInt64

/-- Words that are in lower case as they are. -/
@[reducible] def sampleLibrary : ContextLibrary where
  isAlphanumeric c := c.isAlphanum || 0x80 ≤ c.toNat
  toLowercase s := s
  xxh3 _ := 0

/-! ## Chunks -/

def chunkByteCap : Nat := 4 * 1024

structure Chunk where
  title : Option String
  body : String
  deriving DecidableEq

/-- The loop of `flush_with_caps` over paragraphs: the chunks so far, and the text of the one that
is open. -/
def flushParagraph (title : Option String) (state : List Chunk × List Char) (para : List Char) :
    List Chunk × List Char :=
  let chunk (text : List Char) : Chunk := ⟨title, String.ofList text⟩
  let (out, current) :=
    if chunkByteCap < bytes state.2 + bytes para + 2 ∧ state.2 ≠ [] then
      (state.1 ++ [chunk (trimEnd state.2)], [])
    else state
  if chunkByteCap < bytes para then (out ++ (hardSlice chunkByteCap para).map chunk, current)
  else if current = [] then (out, para)
  else (out, current ++ ['\n', '\n'] ++ para)

def flushWithCaps (out : List Chunk) (title : Option String) (body : List Char) : List Chunk :=
  if bytes body ≤ chunkByteCap then out ++ [⟨title, String.ofList (trimEnd body)⟩]
  else
    let (out, current) := (splitPairs '\n' body).foldl (flushParagraph title) (out, [])
    if isBlank current then out else out ++ [⟨title, String.ofList (trimEnd current)⟩]

/-- The loop of `split_chunks` over lines. -/
structure Splitting where
  out : List Chunk
  currentTitle : Option String
  buffer : List Char

def Splitting.line (s : Splitting) (line : List Char) : Splitting :=
  match trimStart line with
  | '#' :: stripped =>
    let title := String.ofList (trimEnd (trimStart (stripped.dropWhile (· == '#'))))
    -- a heading; blank lines before it stay in the buffer
    if isBlank s.buffer then { s with currentTitle := some title }
    else ⟨flushWithCaps s.out s.currentTitle s.buffer, some title, []⟩
  | _ => { s with buffer := s.buffer ++ line ++ ['\n'] }

def splitChunks (content contentType : String) : List Chunk :=
  if contentType = "code" then
    if isBlank content.toList then []
    else (hardSlice chunkByteCap content.toList).map fun body => ⟨none, String.ofList body⟩
  else
    let s := (lines content.toList).foldl Splitting.line ⟨[], none, []⟩
    let out := if isBlank s.buffer then s.out else flushWithCaps s.out s.currentTitle s.buffer
    if out = [] ∧ ¬ isBlank content.toList then flushWithCaps out none content.toList else out

/-- The chunks of code are the text, in pieces that fit. -/
theorem splitChunks_code {content : String} (h : isBlank content.toList = false) :
    ((splitChunks content "code").map (·.body.toList)).flatten = content.toList ∧
      ∀ chunk ∈ splitChunks content "code", byteLen chunk.body ≤ chunkByteCap := by
  have hchunks : splitChunks content "code" =
      (hardSlice chunkByteCap content.toList).map fun body => ⟨none, String.ofList body⟩ := by
    simp [splitChunks, h]
  rw [hchunks]
  constructor
  · have hbodies :
        ((hardSlice chunkByteCap content.toList).map fun body =>
          (⟨none, String.ofList body⟩ : Chunk)).map
        (·.body.toList) = hardSlice chunkByteCap content.toList := by
      simp [Function.comp_def]
    rw [hbodies]
    exact flatten_hardSlice (by decide) _
  · intro chunk hchunk
    obtain ⟨slice, hslice, rfl⟩ := List.mem_map.mp hchunk
    rw [byteLen_ofList]
    exact mem_hardSlice hslice

/-! ## Terms -/

/-- The terms of 3 to 32 bytes, each where it comes first. -/
def distinctTerms (seen : List String) : List String → List String
  | [] => []
  | term :: terms =>
    if (3 ≤ byteLen term ∧ byteLen term ≤ 32) ∧ term ∉ seen
      then term :: distinctTerms (term :: seen) terms
    else distinctTerms seen terms

def vocabularyTerms [ContextLibrary] (body : String) : List String :=
  distinctTerms [] ((body.toList.splitOnP fun c => !ContextLibrary.isAlphanumeric c).map
    fun word => ContextLibrary.toLowercase (String.ofList word))

theorem mem_distinctTerms {seen terms : List String} {term : String} :
    term ∈ distinctTerms seen terms ↔ term ∈ terms ∧ (3 ≤ byteLen term ∧ byteLen term ≤ 32) ∧
    term ∉ seen := by
  induction terms generalizing seen with
  | nil => simp [distinctTerms]
  | cons first terms ih =>
    unfold distinctTerms
    split
    · rename_i hfirst
      by_cases heq : term = first
      · subst heq
        simp [hfirst]
      · simp [ih, heq]
    · rename_i hfirst
      rw [ih, List.mem_cons]
      constructor
      · rintro ⟨hmem, hterm⟩
        exact ⟨.inr hmem, hterm⟩
      · rintro ⟨rfl | hmem, hterm⟩
        · exact absurd hterm hfirst
        · exact ⟨hmem, hterm⟩

theorem nodup_distinctTerms (seen terms : List String) : (distinctTerms seen terms).Nodup := by
  induction terms generalizing seen with
  | nil => exact List.nodup_nil
  | cons first terms ih =>
    unfold distinctTerms
    split
    · refine List.nodup_cons.mpr ⟨fun hmem => ?_, ih _⟩
      exact (mem_distinctTerms.mp hmem).2.2 (List.mem_cons_self ..)
    · exact ih _

theorem nodup_vocabularyTerms [ContextLibrary] (body : String) : (vocabularyTerms body).Nodup :=
  nodup_distinctTerms _ _

/-! ## Requests -/

inductive CtxError
  /-- A statement fails. -/
  | sqlite
  /-- A number does not fit into its column. -/
  | conversion
  /-- The structure of a document is not valid. -/
  | structured
  /-- A stored JSON text does not decode. -/
  | json
  | refused (message : String)
  deriving DecidableEq

def i64TryFrom (n : Nat) (error : CtxError) : Except CtxError Int :=
  if n < 2 ^ 63 then .ok n else .error error

/-- What the index asks of the structure of a document: whether it is that of a source, and its
JSON. -/
structure DocumentStructure where
  validateAgainst : String → UInt64 → Bool
  toJson : Option String

structure DocumentProvenance where
  schema : String
  parserVersion : String
  sourceBytesSha256 : String
  sourceBytes : UInt64
  extractedTextSha256 : String
  extractedTextBytes : UInt64
  extractedTextEncoding : String
  extractedTextTruncated : Bool
  documentStructure : Option DocumentStructure

def validateLowerSha256 (value : String) : Except CtxError Unit :=
  require (isLowerHex64 value) (.refused "invalid document provenance SHA-256 digest")

namespace DocumentProvenance

def validateMetadata (p : DocumentProvenance) : Except CtxError Unit := do
  require (p.schema == "neoth.document-provenance.v1")
    (.refused "unsupported document provenance schema")
  require (p.extractedTextEncoding == "utf-8")
    (.refused "unsupported document provenance text encoding")
  require (p.parserVersion != "" && byteLen p.parserVersion ≤ 64 &&
      (utf8 p.parserVersion).all fun b => 0x20 ≤ b && b ≤ 0x7e)
    (.refused "invalid document provenance parser version")
  validateLowerSha256 p.sourceBytesSha256
  validateLowerSha256 p.extractedTextSha256
  require (p.sourceBytes ≤ 64 * 1024 * 1024)
    (.refused "document provenance source byte count exceeds limit")
  require (p.extractedTextBytes ≤ 8 * 1024 * 1024)
    (.refused "document provenance extracted text byte count exceeds limit")
  discard <| i64TryFrom p.sourceBytes.toNat .conversion
  discard <| i64TryFrom p.extractedTextBytes.toNat .conversion
  match p.documentStructure with
  | none => pure ()
  | some documentStructure =>
    require (documentStructure.validateAgainst p.sourceBytesSha256 p.sourceBytes) .structured

def validateForContent [Sha256] (p : DocumentProvenance) (content : String) :
    Except CtxError Unit := do
  p.validateMetadata
  require (p.extractedTextBytes.toNat == byteLen content)
    (.refused "document provenance extracted text byte count does not match indexed content")
  require (p.extractedTextSha256 == hexEncode (Sha256.digest (utf8 content)).val)
    (.refused "document provenance extracted text digest does not match indexed content")

end DocumentProvenance

structure IndexRequest where
  label : String
  content : String
  filePath : Option String
  contentType : String
  sourceCategory : Option String
  eventId : Option String
  documentProvenance : Option DocumentProvenance

/-! ## Byte ranges of code -/

inductive CodeRangeCoverage
  | complete
  | omittedLimit
  | omittedEmpty
  deriving DecidableEq

structure CodeSourceRanges where
  parserVersion : String
  textSha256 : String
  textBytes : Nat
  chunkCount : Nat
  coverage : CodeRangeCoverage
  deriving DecidableEq

structure CodeChunkRange where
  ordinal : Nat
  startByte : Nat
  endByte : Nat
  sha256 : String

def maxMappedChunks : Nat := 4096

def validDigest : String → Bool := isLowerHex64

namespace CodeSourceRanges

def validate (r : CodeSourceRanges) : Except CtxError Unit := do
  require (r.parserVersion == "ctx-code-utf8/1") (.refused "unknown code range parser")
  require (validDigest r.textSha256) (.refused "invalid code snapshot digest")
  discard <| i64TryFrom r.textBytes .conversion
  discard <| i64TryFrom r.chunkCount .conversion
  require (r.chunkCount ≤ r.textBytes) (.refused "code chunk count exceeds text bytes")
  match r.coverage with
  | .complete =>
    require (0 < r.chunkCount && r.chunkCount ≤ maxMappedChunks)
      (.refused "invalid complete code range coverage")
  | .omittedLimit =>
    require (maxMappedChunks < r.chunkCount) (.refused "invalid code range overflow")
  | .omittedEmpty => require (r.chunkCount == 0) (.refused "invalid empty code range coverage")

def coverageOf (content : String) (chunkCount : Nat) : Except CtxError CodeRangeCoverage :=
  if chunkCount = 0 then do
    require (isBlank content.toList) (.refused "nonempty code has no chunks")
    pure .omittedEmpty
  else if maxMappedChunks < chunkCount then pure .omittedLimit
  else pure .complete

/-- `CodeSourceRanges::new`. -/
def ofContent [Sha256] (content : String) (chunkCount : Nat) :
    Except CtxError CodeSourceRanges := do
  let coverage ← coverageOf content chunkCount
  let value : CodeSourceRanges :=
    ⟨"ctx-code-utf8/1", hexEncode (Sha256.digest (utf8 content)).val, byteLen content, chunkCount,
      coverage⟩
  value.validate
  pure value

def validateRange [Sha256] (r : CodeSourceRanges) (range : CodeChunkRange) (body : String) :
    Except CtxError Unit := do
  require (range.ordinal < r.chunkCount) (.refused "code range ordinal exceeds source")
  require (range.startByte < range.endByte && range.endByte ≤ r.textBytes)
    (.refused "code range exceeds snapshot")
  require (range.endByte - range.startByte == byteLen body)
    (.refused "code range length does not match hit")
  require (validDigest range.sha256 && range.sha256 == hexEncode (Sha256.digest (utf8 body)).val)
    (.refused "code range digest does not match hit")
  require (range.ordinal != 0 || range.startByte == 0)
    (.refused "first code range does not start at zero")
  require (range.ordinal + 1 != r.chunkCount || range.endByte == r.textBytes)
    (.refused "last code range does not end at snapshot")

def chunkRange [Sha256] (r : CodeSourceRanges) (ordinal start : Nat) (body : String) :
    Except CtxError (Option CodeChunkRange) :=
  if r.coverage ≠ .complete then .ok none
  else do
    require (start + byteLen body < 2 ^ 64) (.refused "code range overflow")
    let range : CodeChunkRange :=
      ⟨ordinal, start, start + byteLen body, hexEncode (Sha256.digest (utf8 body)).val⟩
    r.validateRange range body
    pure (some range)

end CodeSourceRanges

/-! ## Tables -/

structure ContextSource where
  id : Nat
  label : String
  contentHash : String
  filePath : Option String
  contentType : String
  sourceCategory : Option String
  chunkCount : Nat
  indexedTs : Int
  documentProvenance : Option DocumentProvenance
  documentStructureJson : Option String
  logicalId : Option String
  logicalRevision : Option String

inductive FtsTable
  | chunks
  | chunksTrigram
  deriving DecidableEq

structure ChunkRow where
  rowid : Nat
  title : String
  content : String
  sourceId : Nat
  contentType : String
  sourceCategory : Option String
  eventId : Option String
  filePath : Option String
  tsNs : Int

structure VocabularyRow where
  term : String
  frequency : Int

structure CodeSourceRow where
  sourceId : Nat
  ranges : CodeSourceRanges

structure CodeChunkRow where
  ftsTable : FtsTable
  chunkRowid : Nat
  sourceId : Nat
  range : CodeChunkRange

structure LogicalDocument where
  logicalId : String
  currentSourceId : Nat
  currentRevision : String
  currentEventId : String

/-- A row of the ledger of a logical document. -/
structure LogicalEventRow where
  eventId : String
  logicalId : String
  action : String
  requestSha256 : String
  epoch : Int
  sourceIdAtResult : Nat
  revisionAtResult : String
  resultJson : String

structure ContextIndex where
  sources : AutoTable ContextSource.id
  chunks : List ChunkRow
  chunksTrigram : List ChunkRow
  vocabulary : Table VocabularyRow.term
  codeSourceRanges : Table CodeSourceRow.sourceId
  codeChunkRanges : Table fun r : CodeChunkRow => (r.ftsTable, r.chunkRowid)
  logicalDocuments : Table LogicalDocument.logicalId
  logicalDocumentEvents : Table LogicalEventRow.eventId
  /-- The row of `ctx_logical_state`. -/
  epoch : Option Int

namespace ContextIndex

/-- A new database. -/
def empty : ContextIndex := ⟨∅, [], [], ∅, ∅, ∅, ∅, ∅, some 0⟩

/-- A statement leaves the number of rows it has changed. -/
abbrev Statement := ContextIndex → Except CtxError (ContextIndex × Nat)

/-! ## Statements -/

/-- `INSERT INTO sources`, whose labels are unique. -/
def insertSource (make : Nat → ContextSource) (hmake : ∀ n, (make n).id = n) : Statement :=
  fun ix =>
  if ix.sources.rows.any fun s => s.label == (make 0).label then .error .sqlite
  else .ok ({ ix with sources := ix.sources.insert make hmake }, 1)

/-- `DELETE FROM sources`; the byte ranges of a source go with it. -/
def deleteSources (p : ContextSource → Bool) : Statement := fun ix =>
  let gone := (ix.sources.rows.filter p).map (·.id)
  .ok ({ ix with
      sources := ix.sources.delete p
      codeSourceRanges := ix.codeSourceRanges.delete fun r => gone.contains r.sourceId
      codeChunkRanges := ix.codeChunkRanges.delete fun r => gone.contains r.sourceId },
    ix.sources.table.count p)

def setChunkCount (id chunkCount : Nat) : Statement := fun ix =>
  let sources := ix.sources.update (·.id == id) (fun s => { s with chunkCount := chunkCount })
    fun _ => rfl
  .ok ({ ix with sources := sources }, ix.sources.table.count (·.id == id))

def rowsOf (ix : ContextIndex) : FtsTable → List ChunkRow
  | .chunks => ix.chunks
  | .chunksTrigram => ix.chunksTrigram

/-- The rowid of a row that is inserted without one. -/
def nextRowid (rows : List ChunkRow) : Nat := (rows.map (·.rowid)).foldl max 0 + 1

/-- `INSERT INTO chunks`, or `chunks_trigram`. -/
def insertChunk (table : FtsTable) (row : ChunkRow) : Statement := fun ix =>
  match table with
  | .chunks => .ok ({ ix with chunks := ix.chunks ++ [row] }, 1)
  | .chunksTrigram => .ok ({ ix with chunksTrigram := ix.chunksTrigram ++ [row] }, 1)

/-- `DELETE FROM chunks`, or `chunks_trigram`. -/
def deleteChunks (table : FtsTable) (p : ChunkRow → Bool) : Statement := fun ix =>
  match table with
  | .chunks => .ok ({ ix with chunks := ix.chunks.filter (!p ·) }, ix.chunks.countP p)
  | .chunksTrigram =>
    .ok ({ ix with chunksTrigram := ix.chunksTrigram.filter (!p ·) }, ix.chunksTrigram.countP p)

/-- `INSERT INTO vocabulary .. ON CONFLICT(term) DO UPDATE SET frequency = frequency + 1`, for
frequencies that can grow. -/
def bumpTerm (term : String) : Statement := fun ix =>
  match ix.vocabulary.find term with
  | none => .ok ({ ix with vocabulary := ix.vocabulary.put ⟨term, 1⟩ }, 1)
  | some row =>
    if 1 ≤ row.frequency ∧ row.frequency ≤ 9223372036854775806 then
      .ok ({ ix with vocabulary := ix.vocabulary.put ⟨term, row.frequency + 1⟩ }, 1)
    else .ok (ix, 0)

/-- `DELETE FROM vocabulary WHERE .. frequency = 1`. -/
def deleteLast (term : String) : Statement := fun ix =>
  let p (row : VocabularyRow) : Bool := row.term == term && row.frequency == 1
  .ok ({ ix with vocabulary := ix.vocabulary.delete p }, ix.vocabulary.count p)

/-- `UPDATE vocabulary SET frequency = frequency - 1 WHERE .. frequency > 1`. -/
def decrement (term : String) : Statement := fun ix =>
  let p (row : VocabularyRow) : Bool := row.term == term && 1 < row.frequency
  let vocabulary := ix.vocabulary.update p (fun row => { row with frequency := row.frequency - 1 })
    fun _ => rfl
  .ok ({ ix with vocabulary := vocabulary }, ix.vocabulary.count p)

def clearVocabulary : Statement := fun ix =>
  .ok ({ ix with vocabulary := ix.vocabulary.delete fun _ => true },
    ix.vocabulary.count fun _ => true)

def insertCodeSource (row : CodeSourceRow) : Statement := fun ix =>
  match ix.codeSourceRanges.insert row with
  | none => .error .sqlite
  | some table => .ok ({ ix with codeSourceRanges := table }, 1)

/-- `INSERT INTO code_chunk_ranges`: a chunk has one range, and a source one chunk of an ordinal in
each table. -/
def insertCodeChunk (row : CodeChunkRow) : Statement := fun ix =>
  if ix.codeChunkRanges.any fun r =>
      r.sourceId == row.sourceId && r.ftsTable == row.ftsTable &&
      r.range.ordinal == row.range.ordinal then
    .error .sqlite
  else
    match ix.codeChunkRanges.insert row with
    | none => .error .sqlite
    | some table => .ok ({ ix with codeChunkRanges := table }, 1)

/-- `DELETE FROM logical_documents`; the ledger of a document goes with it. -/
def deleteLogicalDocuments (p : LogicalDocument → Bool) : Statement := fun ix =>
  let gone := (ix.logicalDocuments.rows.filter p).map (·.logicalId)
  .ok ({ ix with
      logicalDocuments := ix.logicalDocuments.delete p
      logicalDocumentEvents := ix.logicalDocumentEvents.delete fun e => gone.contains e.logicalId },
    ix.logicalDocuments.count p)

def setEpoch (epoch : Int) : Statement := fun ix =>
  match ix.epoch with
  | none => .ok (ix, 0)
  | some _ => .ok ({ ix with epoch := some epoch }, 1)

/-- The foreign keys that are checked at the commit. -/
def deferredKeysHold (ix : ContextIndex) : Bool :=
  (ix.logicalDocuments.rows.all fun d => ix.sources.rows.any fun s => s.id == d.currentSourceId) &&
    ix.sources.rows.all fun s => s.logicalId.all fun id => ix.logicalDocuments.any fun d =>
      d.logicalId == id

end ContextIndex

/-! ## Transactions -/

/-- What a transaction has made of the index, and the number of statements before one that fails, if
one does. -/
structure Tx where
  index : ContextIndex
  left : Option Nat

namespace Tx

def execute (tx : Tx) (statement : ContextIndex.Statement) : Except CtxError (Tx × Nat) :=
  if tx.left = some 0 then .error .sqlite
  else (statement tx.index).map fun r => (⟨r.1, tx.left.map (· - 1)⟩, r.2)

def query {A : Type} (tx : Tx) (select : ContextIndex → A) : Except CtxError (Tx × A) :=
  if tx.left = some 0 then .error .sqlite else
    .ok (⟨tx.index, tx.left.map (· - 1)⟩, select tx.index)

/-! ## The vocabulary -/

section Vocabulary
variable [ContextLibrary]

def bumpVocabulary (tx : Tx) (body : String) : Except CtxError Tx :=
  (vocabularyTerms body).foldlM (fun tx term => do
    let (tx, changed) ← tx.execute (ContextIndex.bumpTerm term)
    require (changed == 1) (.refused "ctx vocabulary frequency is invalid or exhausted")
    pure tx) tx

/-- The terms of one row; the last contribution of a term is deleted, another one is subtracted. -/
def removeTerms (tx : Tx) (body : String) : Except CtxError Tx :=
  (vocabularyTerms body).foldlM (fun tx term => do
    let (tx, deleted) ← tx.execute (ContextIndex.deleteLast term)
    if deleted == 0 then do
      let (tx, changed) ← tx.execute (ContextIndex.decrement term)
      require (changed == 1) (.refused "ctx vocabulary contribution is missing or invalid")
      pure tx
    else pure tx) tx

def removeSourceVocabulary (tx : Tx) (sourceId : Nat) : Except CtxError Tx := do
  let (tx, bodies) ← tx.query fun ix => (ix.chunks.filter (·.sourceId == sourceId)).map (·.content)
  bodies.foldlM (fun tx body => do
    let (tx, ()) ← tx.query fun _ => ()
    tx.removeTerms body) tx

end Vocabulary

/-- The chunks of a source, in both tables. -/
def deleteSourceChunks (tx : Tx) (sourceId : Nat) : Except CtxError Tx := do
  let (tx, _) ← tx.execute (ContextIndex.deleteChunks .chunks (·.sourceId == sourceId))
  let (tx, _) ← tx.execute (ContextIndex.deleteChunks .chunksTrigram (·.sourceId == sourceId))
  pure tx

def deleteForLabel [ContextLibrary] (tx : Tx) (label : String) : Except CtxError (Tx × Nat) := do
  let (tx, existing) ← tx.query fun ix => (ix.sources.rows.find? (·.label == label)).map (·.id)
  match existing with
  | none => pure (tx, 0)
  | some sid => do
    let tx ← tx.removeSourceVocabulary sid
    let tx ← tx.deleteSourceChunks sid
    tx.execute (ContextIndex.deleteSources (·.id == sid))

/-! ## Logical documents -/

def refuseLegacyReplacement (tx : Tx) (label : String) : Except CtxError Tx := do
  let (tx, bound) ← tx.query fun ix => ix.sources.rows.any fun s => s.label == label &&
      s.logicalId.isSome
  require (!bound) (.refused "logical source requires an explicit guarded revision")
  pure tx

def removeOwnerForSource (tx : Tx) (sourceId : Nat) : Except CtxError Tx := do
  let (tx, _) ← tx.execute (ContextIndex.deleteLogicalDocuments (·.currentSourceId == sourceId))
  pure tx

def epoch (tx : Tx) : Except CtxError (Tx × Int) := do
  let (tx, epoch) ← tx.query (·.epoch)
  let epoch ← context epoch .sqlite
  require (0 ≤ epoch) (.refused "invalid logical authorization epoch")
  pure (tx, epoch)

def advanceAfterPurge (tx : Tx) (removed : Nat) : Except CtxError Tx :=
  if 0 < removed then do
    let (tx, epoch) ← tx.epoch
    require (epoch + 1 < 2 ^ 63) (.refused "logical authorization epoch exhausted")
    let (tx, changed) ← tx.execute (ContextIndex.setEpoch (epoch + 1))
    require (changed == 1) (.refused "logical authorization epoch row missing")
    pure tx
  else pure tx

/-- `BEGIN`, the body, and `COMMIT`. -/
def run {A : Type} (fault : Option Nat) (body : Tx → Except CtxError (Tx × A)) (ix : ContextIndex) :
    Except CtxError (ContextIndex × A) := do
  let (tx, ()) ← (⟨ix, fault⟩ : Tx).query fun _ => ()
  let (tx, a) ← body tx
  let (tx, _) ← tx.execute fun ix => if ix.deferredKeysHold then .ok (ix, 0) else .error .sqlite
  pure (tx.index, a)

end Tx

/-! ## Indexing -/

structure IndexReport where
  label : String
  sourceId : Nat
  chunkCount : Nat
  bytes : Nat
  indexedTs : Int
  codeSourceRanges : Option CodeSourceRanges
  deriving DecidableEq

section Indexing
variable [ContextLibrary]

/-- The row of a chunk in one table, and its byte range. -/
def insertFts (req : IndexRequest) (now : Int) (sourceId : Nat) (chunk : Chunk)
    (range : Option CodeChunkRange) (tx : Tx) (table : FtsTable) : Except CtxError Tx := do
  let rowid := ContextIndex.nextRowid (tx.index.rowsOf table)
  let (tx, _) ← tx.execute (ContextIndex.insertChunk table
    ⟨rowid, chunk.title.getD "", chunk.body, sourceId, req.contentType, req.sourceCategory,
      req.eventId, req.filePath, now⟩)
  match range with
  | none => pure tx
  | some range => do
    let _ ← i64TryFrom range.ordinal .conversion
    let _ ← i64TryFrom range.startByte .conversion
    let _ ← i64TryFrom range.endByte .conversion
    let (tx, _) ← tx.execute (ContextIndex.insertCodeChunk ⟨table, rowid, sourceId, range⟩)
    pure tx

/-- The byte range of a chunk of code, which is the text at its place. -/
def rangeOfChunk [Sha256] (req : IndexRequest) (ranges : Option CodeSourceRanges) (idx start : Nat)
    (body : String) : Except CtxError (Option CodeChunkRange) :=
  match ranges with
  | none => pure none
  | some source => do
    require (((utf8 req.content).drop start).take (byteLen body) == utf8 body)
      (.refused "code chunk does not preserve submitted bytes")
    source.chunkRange idx start body

/-- The loop over the chunks, with the bytes of those before. -/
def indexChunk [Sha256] (req : IndexRequest) (now : Int) (sourceId : Nat)
    (ranges : Option CodeSourceRanges)
    (state : Tx × Nat) (entry : Chunk × Nat) : Except CtxError (Tx × Nat) := do
  let (chunk, idx) := entry
  let start := state.2
  let totalBytes := start + byteLen chunk.body
  require (totalBytes < 2 ^ 64) (.refused "ctx byte count overflow")
  let range ← rangeOfChunk req ranges idx start chunk.body
  let tx ← insertFts req now sourceId chunk range state.1 .chunks
  let tx ← insertFts req now sourceId chunk range tx .chunksTrigram
  let tx ← tx.bumpVocabulary chunk.body
  pure (tx, totalBytes)

/-- `code_range::validate_inserted`. -/
def validateInserted (tx : Tx) (sourceId : Nat) (source : CodeSourceRanges) :
    Except CtxError Tx := do
  let expected := if source.coverage = .complete then source.chunkCount else 0
  [FtsTable.chunks, .chunksTrigram].foldlM (fun tx table => do
    let (tx, count) ← tx.query fun ix => ix.codeChunkRanges.count fun r => r.sourceId == sourceId &&
        r.ftsTable == table
    require (count == expected) (.refused "incomplete code range mapping")
    pure tx) tx

/-- What is stored of the provenance, and the JSON of its structure. -/
def storedProvenance [Sha256] (req : IndexRequest) : Except CtxError (Option String) :=
  match req.documentProvenance with
  | none => .ok none
  | some provenance => do
    provenance.validateForContent req.content
    let _ ← i64TryFrom provenance.sourceBytes.toNat
      (.refused "document source byte count cannot be stored")
    let _ ← i64TryFrom provenance.extractedTextBytes.toNat
        (.refused "document text byte count cannot be stored")
    match provenance.documentStructure with
    | none => pure none
    | some documentStructure => do
      let json ← context documentStructure.toJson .structured
      pure (some json)

def insertCodeSource [Sha256] (req : IndexRequest) (sourceId chunkCount : Nat) (tx : Tx) :
    Except CtxError (Tx × Option CodeSourceRanges) :=
  if req.contentType = "code" then do
    let source ← CodeSourceRanges.ofContent req.content chunkCount
    let _ ← i64TryFrom source.textBytes .conversion
    let _ ← i64TryFrom source.chunkCount .conversion
    let (tx, _) ← tx.execute (ContextIndex.insertCodeSource ⟨sourceId, source⟩)
    pure (tx, some source)
  else pure (tx, none)

def validateCode (req : IndexRequest) (sourceId : Nat) (ranges : Option CodeSourceRanges)
    (chunks : List Chunk) (totalBytes : Nat) (tx : Tx) : Except CtxError Tx :=
  match ranges with
  | none => pure tx
  | some source => do
    require (chunks.isEmpty || totalBytes == byteLen req.content)
      (.refused "code chunks do not cover submitted bytes")
    validateInserted tx sourceId source

def indexDocumentInTransaction [Sha256] (req : IndexRequest) (now : Int) (tx : Tx) :
    Except CtxError (Tx × IndexReport) := do
  let structureJson ← storedProvenance req
  let contentHash := hexEncode (leBytes 8 (ContextLibrary.xxh3 (utf8 req.content)).toNat).reverse
  let (tx, _) ← tx.deleteForLabel req.label
  let (tx, _) ← tx.execute (ContextIndex.insertSource (fun id =>
    ⟨id, req.label, contentHash, req.filePath, req.contentType, req.sourceCategory, 0, now,
      req.documentProvenance, structureJson, none, none⟩) fun _ => rfl)
  let sourceId := tx.index.sources.last
  let chunks := splitChunks req.content req.contentType
  let (tx, ranges) ← insertCodeSource req sourceId chunks.length tx
  let (tx, totalBytes) ← chunks.zipIdx.foldlM (indexChunk req now sourceId ranges) (tx, 0)
  let tx ← validateCode req sourceId ranges chunks totalBytes tx
  let (tx, _) ← tx.execute (ContextIndex.setChunkCount sourceId chunks.length)
  pure (tx, ⟨req.label, sourceId, chunks.length, totalBytes, now, ranges⟩)

def indexDocument [Sha256] (req : IndexRequest) (now : Int) (fault : Option Nat) :
    ContextIndex → Except CtxError (ContextIndex × IndexReport) :=
  Tx.run fault fun tx => do
    let tx ← tx.refuseLegacyReplacement req.label
    indexDocumentInTransaction req now tx

/-! ## Purging -/

inductive PurgeScope
  | source (label : String)
  | category (category : String)
  | all

def purgeSource (label : String) (tx : Tx) : Except CtxError (Tx × Nat) := do
  let (tx, source) ← tx.query fun ix => (ix.sources.rows.find? (·.label == label)).map (·.id)
  let tx ← source.elim (pure tx) tx.removeOwnerForSource
  tx.deleteForLabel label

def purgeCategory (category : String) (tx : Tx) : Except CtxError (Tx × Nat) := do
  let (tx, ids) ← tx.query fun ix =>
      (ix.sources.rows.filter (·.sourceCategory == some category)).map (·.id)
  let tx ← ids.foldlM (fun (tx : Tx) sid => do
    let tx ← tx.removeOwnerForSource sid
    let tx ← tx.removeSourceVocabulary sid
    tx.deleteSourceChunks sid) tx
  let (tx, _) ← tx.execute (ContextIndex.deleteSources (·.sourceCategory == some category))
  pure (tx, ids.length)

def purgeAll (tx : Tx) : Except CtxError (Tx × Nat) := do
  let (tx, count) ← tx.query fun ix => ix.sources.rows.length
  let (tx, _) ← tx.execute (ContextIndex.deleteLogicalDocuments fun _ => true)
  let (tx, _) ← tx.execute (ContextIndex.deleteChunks .chunks fun _ => true)
  let (tx, _) ← tx.execute (ContextIndex.deleteChunks .chunksTrigram fun _ => true)
  let (tx, _) ← tx.execute (ContextIndex.deleteSources fun _ => true)
  let (tx, _) ← tx.execute ContextIndex.clearVocabulary
  pure (tx, count)

def purgeScope (tx : Tx) : PurgeScope → Except CtxError (Tx × Nat)
  | .source label => purgeSource label tx
  | .category category => purgeCategory category tx
  | .all => purgeAll tx

def purge (scope : PurgeScope) (fault : Option Nat) :
    ContextIndex → Except CtxError (ContextIndex × Nat) :=
  Tx.run fault fun tx => do
    let (tx, n) ← purgeScope tx scope
    let tx ← tx.advanceAfterPurge n
    pure (tx, n)

end Indexing

end Neoth.Memory
