import Neoth.Lib.Table
import Neoth.Wal.Frames

/-!
# The indexer

`memory/indexer.rs`: a pass reads a segment from the saved cursor on and hands every frame to
`index_frame`, which fills the views of `memory/store.rs`; the rows and the cursor are committed
together.  `memory/ingress.rs` cleans the texts.

* `sanitize`: what is kept of a text, and whether it is noise;
* `Views.indexFrame`: one frame;
* `replayFrom`, `replayOnceAuditedAtHome`: one pass;
* `replayFrom_spec`: a pass reads the log up to where no frame begins, and indexes what it reads.

A regular expression, JSON and the projection of origin receipts into tables of their own are
parameters.
-/

open Lib Lib.Encoding Lib.FrameLog Neoth.MeshSync Neoth.Wal

namespace Neoth.Memory

/-! ## Ingress -/

/-- `wrapper_tag_regex().replace_all(text, "")`. -/
class WrapperTags where
  strip : List Char → List Char

structure Sanitized where
  text : String
  noise : Bool
  noiseRatio : ℚ

def noiseThreshold : ℚ := 40 / 100

/-- `str::replace`, which still passes over `skip` characters of a match. -/
def replaceFrom (pattern replacement : List Char) : Nat → List Char → List Char
  | _, [] => []
  | skip + 1, _ :: rest => replaceFrom pattern replacement skip rest
  | 0, c :: rest =>
    if pattern.isPrefixOf (c :: rest) then
      replacement ++ replaceFrom pattern replacement (pattern.length - 1) rest
    else c :: replaceFrom pattern replacement 0 rest

def angleEntities : List (String × Char) :=
  [("&lt;", '<'), ("&LT;", '<'), ("&gt;", '>'), ("&GT;", '>'), ("&#60;", '<'), ("&#62;", '>'),
    ("&#x3c;", '<'), ("&#x3C;", '<'), ("&#x3e;", '>'), ("&#x3E;", '>')]

def decodeAngleEntities (s : List Char) : List Char :=
  if '&' ∈ s then angleEntities.foldl (fun s entity => replaceFrom entity.1.toList [entity.2] 0 s) s
  else s

def isInvisible (c : Char) : Bool :=
  if c = '\n' ∨ c = '\t' ∨ c = '\r' then false
  else (0x200b ≤ c.toNat && c.toNat ≤ 0x200f) || c.toNat == 0xfeff ||
  (0x2060 ≤ c.toNat && c.toNat ≤ 0x2064) ||
    (0x202a ≤ c.toNat && c.toNat ≤ 0x202e) || (0x2066 ≤ c.toNat && c.toNat ≤ 0x2069) || isControl c

def scrubInvisibles (s : List Char) : List Char := s.filter fun c => !isInvisible c

/-- `sanitize`.  The share is a quotient of lengths below 2 ^ 25, on which the comparison of doubles
is exact. -/
def sanitize [WrapperTags] (input : String) : Sanitized :=
  if input.toList = [] then ⟨"", false, 0⟩
  else
    let scrubbed := scrubInvisibles (decodeAngleEntities input.toList)
    let untagged := WrapperTags.strip scrubbed
    let tagRemoved := byteLen (String.ofList scrubbed) - byteLen (String.ofList untagged)
    let text := trim (String.ofList untagged)
    let noiseRatio : ℚ := (tagRemoved : ℚ) / byteLen input
    ⟨text, text.toList = [] ∨ noiseThreshold < noiseRatio, noiseRatio⟩

/-! ## Payloads -/

inductive JsonValue
  | null
  | bool (b : Bool)
  | number (asU64 : Option UInt64)
  | string (s : String)
  | array (items : List JsonValue)
  | object (fields : List (String × JsonValue))

namespace JsonValue

def get (v : JsonValue) (key : String) : Option JsonValue :=
  match v with
  | object fields => (fields.find? fun field => field.1 = key).map (·.2)
  | _ => none

def asStr : JsonValue → Option String
  | string s => some s
  | _ => none

def asU64 : JsonValue → Option UInt64
  | number n => n
  | _ => none

end JsonValue

/-- `serde_json::from_slice`. -/
class SerdeJson where
  fromSlice : List UInt8 → Option JsonValue

/-! ## Views -/

/-- `as i64`. -/
def asI64 (n : UInt64) : Int := if n.toNat < 2 ^ 63 then n.toNat else n.toNat - 2 ^ 64

theorem asI64_injective : Function.Injective asI64 := by
  intro m n h
  have hm := m.toNat_lt
  have hn := n.toNat_lt
  refine UInt64.toNat_inj.mp ?_
  unfold asI64 at h
  split_ifs at h <;> omega

/-- The value of a `f32` between zero and one. -/
def f32Value (bits : UInt32) : ℚ :=
  let exponent : Nat := bits.toNat / 2 ^ 23 % 2 ^ 8
  let fraction : Nat := bits.toNat % 2 ^ 23
  if exponent = 0 then fraction / 2 ^ 149 else (fraction + 2 ^ 23) * 2 ^ exponent / 2 ^ 150

/-- `{:016x}`. -/
def hex16 (n : UInt64) : String :=
  String.ofList ((List.range 16).map fun i => hexDigit (n.toNat / 16 ^ (15 - i) % 16))

structure Episode where
  eventId : Int
  eventType : UInt8
  tsNs : Int
  text : String
  textHash : String
  channel : Option String
  senderId : Option String
  operatorId : Option String
  importance : ℚ
  lastAccessTs : Int
  pinned : Bool
  accessCount : Nat
  trust : Int
  walSessionId : List UInt8
  deriving DecidableEq

structure ProviderRow where
  eventId : Int
  eventType : UInt8
  tsNs : Int
  provider : String
  model : Option String
  textHash : String
  bytes : Option Int
  latencyNs : Option Int
  inputTokens : Option Int
  outputTokens : Option Int
  walSessionId : List UInt8

/-- What `index_frame` writes.  `O` holds the tables of origin receipts. -/
structure Views (O : Type) where
  episodes : Table Episode.eventId
  providers : Table ProviderRow.eventId
  origins : O

/-- `project_w208_origin_receipt`: it reads the episode it refers to and writes its own tables. -/
class OriginReceipts (O : Type) where
  project : Views O → IndexedFrame → O

def eventTypeExtended : UInt8 := 0x00
def eventTypeRawText : UInt8 := 0x01
def eventTypeProviderRequest : UInt8 := 0x20
def eventTypeProviderResponse : UInt8 := 0x21
def eventTypeChannelIngress : UInt8 := 0x32
def eventTypeChannelEgress : UInt8 := 0x33
def rawTextOrigin : UInt8 := 0x2e

/-- `std::str::from_utf8(payload).unwrap_or("")`. -/
def utf8Text (payload : List UInt8) : String := (String.fromUTF8? ⟨payload.toArray⟩).getD ""

section Rows
variable [WrapperTags] [SerdeJson]

/-- The row of a `RAW_TEXT` frame. -/
def rawEpisode (f : IndexedFrame) : Option Episode :=
  let cleaned := sanitize (utf8Text f.payload)
  let tsNs := asI64 (.ofNat f.header.physicalNs)
  if cleaned.noise then none
  else some ⟨asI64 f.eventId, f.header.eventType, tsNs, cleaned.text, hex16 f.payloadHash, none,
    none, none, f32Value f.importance, tsNs, false, 0, 2, f.sessionId⟩

omit [WrapperTags] in
/-- The row of a channel frame, whose payload carries no text of its own. -/
def channelEpisode (f : IndexedFrame) : Option Episode :=
  let ingress := f.header.eventType = eventTypeChannelIngress
  let tsNs := asI64 (.ofNat f.header.physicalNs)
  (SerdeJson.fromSlice f.payload).map fun v =>
    let bytes :=
      ((v.get (if ingress then "text_bytes" else "reply_bytes")).bind JsonValue.asU64).getD 0
    let direction := if ingress then "INGRESS" else "EGRESS"
    let text := s!"[{direction}] {bytes.toNat} bytes (hash {hex16 f.payloadHash})"
    ⟨asI64 f.eventId, f.header.eventType, tsNs, text, hex16 f.payloadHash,
      (v.get "channel").bind JsonValue.asStr,
      (v.get "sender_id_hash" <|> v.get "sender_id").bind JsonValue.asStr,
      (v.get "operator_id").bind JsonValue.asStr, f32Value f.importance, tsNs, false, 0, 1,
      f.sessionId⟩

omit [WrapperTags] in
/-- A `u64` is a parameter of a statement only if it is an `i64`. -/
def toSql (n : UInt64) : Except String Int :=
  if n.toNat < 2 ^ 63 then .ok n.toNat else .error "out of range integral type conversion attempted"

omit [WrapperTags] in
def providerRow (f : IndexedFrame) (v : JsonValue) : Except String ProviderRow := do
  let number key := ((v.get key).bind JsonValue.asU64).mapM toSql
  let bytes ← number (if f.header.eventType = eventTypeProviderRequest then "prompt_bytes"
      else "response_bytes")
  let latency ← number "latency_ns"
  let inputTokens ← number "input_tokens"
  let outputTokens ← number "output_tokens"
  pure ⟨asI64 f.eventId, f.header.eventType, asI64 (.ofNat f.header.physicalNs),
    ((v.get "provider").bind JsonValue.asStr).getD "", (v.get "model").bind JsonValue.asStr,
    hex16 f.payloadHash, bytes, latency, inputTokens, outputTokens, f.sessionId⟩

/-- The row of `idx_episode` that a frame asks for. -/
def episodeOf (f : IndexedFrame) : Option Episode :=
  if f.header.eventType = eventTypeRawText then rawEpisode f
  else if f.header.eventType = eventTypeChannelIngress ∨ f.header.eventType = eventTypeChannelEgress
    then
    channelEpisode f
  else none

/-- The row of `idx_provider` that a frame asks for. -/
def providerOf (f : IndexedFrame) : Except String (Option ProviderRow) :=
  if f.header.eventType = eventTypeProviderRequest ∨ f.header.eventType = eventTypeProviderResponse
    then
    (SerdeJson.fromSlice f.payload).mapM (providerRow f)
  else .ok none

variable {O : Type} [OriginReceipts O]

/-- `INSERT OR IGNORE` of the row, if there is one. -/
def insertRow {R K : Type} [DecidableEq K] {key : R → K} (t : Table key) (row : Option R) :
    Table key :=
  (row.map t.insertOrIgnore).getD t

/-- `index_frame`: every event type writes at most one view. -/
def Views.indexFrame (views : Views O) (f : IndexedFrame) : Except String (Views O) := do
  let provider ← providerOf f
  pure ⟨insertRow views.episodes (episodeOf f), insertRow views.providers provider,
    if f.header.eventType = eventTypeExtended ∧ f.header.eventSubtype = rawTextOrigin then
      OriginReceipts.project views f
    else views.origins⟩

/-- `index_frame` of one frame after the other. -/
def Views.indexAll (views : Views O) (fs : List IndexedFrame) : Except String (Views O) :=
  fs.foldlM Views.indexFrame views

end Rows

/-! ## Passes -/

section Loop
variable {V : Type} (index : V → IndexedFrame → Except String V)

/-- The loop of `replay_once_audited_at_home`, which hands every frame to `index`; a corrupt frame
moves the cursor on by one byte. -/
def replayFrom (logical : List UInt8) : Nat → V → Nat → Nat → Except String (V × Nat × Nat)
  | 0, views, offset, indexed => .ok (views, offset, indexed)
  | fuel + 1, views, offset, indexed =>
    if offset < logical.length then
      match readFrame (logical.drop offset) with
      | .error (.bufferTooShort _ _) => .ok (views, offset, indexed)
      | .error _ => .ok (views, offset + 1, indexed)
      | .ok f =>
        let totalLen := f.header.totalLen
        if totalLen = 0 ∨ logical.length < offset + totalLen then .ok (views, offset, indexed)
        else do
          let views ← index views f
          replayFrom logical fuel views (offset + totalLen) (indexed + 1)
    else .ok (views, offset, indexed)

/-- The cursor of a pass that could read no frame at `offset`. -/
def resumeAt (logical : List UInt8) (offset : Nat) : Nat :=
  match readFrame (logical.drop offset) with
  | .error (.bufferTooShort _ _) => offset
  | .error _ => offset + 1
  | .ok _ => offset

theorem readFrame_nil : readFrame [] = .error (.bufferTooShort 0 104) := rfl

/-- A pass reads up to where no frame begins, and indexes what it reads. -/
theorem replayFrom_spec (logical : List UInt8) {fuel offset : Nat}
    (hfuel : logical.length < fuel + offset) (views : V) (indexed : Nat) :
    ∃ fs b, Reads readFraming logical offset fs b ∧ (∀ f, readFrame (logical.drop b) ≠ .ok f) ∧
      replayFrom index logical fuel views offset indexed =
        (fs.foldlM index views).map fun views' =>
          (views', resumeAt logical b, indexed + fs.length) := by
  induction fuel generalizing views offset indexed with
  | zero =>
    have hdrop : logical.drop offset = [] := List.drop_eq_nil_of_le (by omega)
    refine ⟨[], offset, .nil _, by simp [hdrop, readFrame_nil], ?_⟩
    simp only [resumeAt, hdrop, readFrame_nil]
    rfl
  | succ fuel ih =>
    unfold replayFrom
    by_cases hlt : offset < logical.length
    · rw [if_pos hlt]
      cases hread : readFrame (logical.drop offset) with
      | error e =>
        refine ⟨[], offset, .nil _, by simp [hread], ?_⟩
        unfold resumeAt
        cases e <;> simp only [hread] <;> rfl
      | ok f =>
        have hend : offset + f.header.totalLen ≤ logical.length := readFraming.end_le hread
        have hpos : 0 < f.header.totalLen := readFraming.size_pos hread
        dsimp only
        rw [if_neg (by omega)]
        cases hindex : index views f with
        | error e =>
          obtain ⟨fs, b, hreads, hstop, -⟩ :=
            @ih (offset + f.header.totalLen) (by omega) views (indexed + 1)
          refine ⟨f :: fs, b, .cons hread hreads, hstop, ?_⟩
          simp only [List.foldlM_cons, hindex]
          rfl
        | ok views₁ =>
          obtain ⟨fs, b, hreads, hstop, hrest⟩ :=
            @ih (offset + f.header.totalLen) (by omega) views₁ (indexed + 1)
          refine ⟨f :: fs, b, .cons hread hreads, hstop, ?_⟩
          have hall : (f :: fs).foldlM index views = fs.foldlM index views₁ := by
            simp only [List.foldlM_cons, hindex]
            rfl
          rw [hall]
          show replayFrom index _ _ views₁ _ _ = _
          rw [hrest, List.length_cons, Nat.add_right_comm, Nat.add_assoc]
    · rw [if_neg hlt]
      have hdrop : logical.drop offset = [] := List.drop_eq_nil_of_le (by omega)
      refine ⟨[], offset, .nil _, by simp [hdrop, readFrame_nil], ?_⟩
      simp only [resumeAt, hdrop, readFrame_nil]
      rfl

end Loop

structure WalCursor where
  segmentPath : String
  nextOffset : Nat
  updatedTs : Int

/-- `views.db`. -/
structure IndexDb (O : Type) where
  views : Views O
  cursors : Table WalCursor.segmentPath

namespace IndexDb

variable {O : Type} [WrapperTags] [SerdeJson] [OriginReceipts O]

def loadCursor (db : IndexDb O) (segmentKey : String) : Nat :=
  ((db.cursors.find segmentKey).map (·.nextOffset)).getD 0

def saveCursor (db : IndexDb O) (segmentKey : String) (offset : Nat) (nowUnix : Int) : IndexDb O :=
  { db with cursors := db.cursors.put ⟨segmentKey, offset, nowUnix⟩ }

/-- The transaction of a pass that has loaded the cursor `startOffset` and has read the segment,
whose logical bytes begin with a header of `headerLen` bytes. -/
def replayRead (db : IndexDb O) (segmentKey : String) (startOffset headerLen : Nat)
    (logical : List UInt8) (nowUnix : Int) : Except String (IndexDb O × Nat) :=
  let offset := max startOffset headerLen
  if logical.length ≤ offset then .ok (db, 0)
  else do
    let (views, offset, indexed) ← replayFrom Views.indexFrame logical (logical.length + 1) db.views
        offset 0
    pure (({ db with views }).saveCursor segmentKey offset nowUnix, indexed)

/-- `replay_once_audited_at_home`. -/
def replayOnceAuditedAtHome (db : IndexDb O) (segmentKey : String) (headerLen : Nat)
    (logical : List UInt8) (nowUnix : Int) : Except String (IndexDb O × Nat) :=
  db.replayRead segmentKey (db.loadCursor segmentKey) headerLen logical nowUnix

end IndexDb

end Neoth.Memory
