import Neoth.Lib.Encoding
import Neoth.Lib.Machine
import Neoth.Lib.Table
import Neoth.Lib.Transaction

/-!
# Ground truth

The table `idx_groundtruth` of `memory/groundtruth.rs`: facts with a trust state, which assertions
corroborate.  A stored JSON text is what it parses to, `none` where it does not parse; confidence is
a rational.

* `Source`, `FactState`: where a fact comes from, and whether it is trusted;
* `FactDb.insert`, `FactDb.insertWithEvidence`: assertions;
* `FactDb.detectContradictionsFor`: the scan that follows one, `memory/contradiction.rs`;
* `FactDb.step`: the events.
-/

open Lib Lib.Encoding Lib.Transaction

namespace Neoth.Memory

/-! ## Sources -/

inductive Source
  | onboarding
  | operatorRuntime
  | nmapScan
  | arpScan
  | importHermes
  | importOpenclaw
  | importOpenhuman
  | importVeronica
  | importSession
  | importObsidian
  | bulkText
  | releaseSelfKnowledge
  | releaseBuildIdentity
  | selfKnowledgeOverlay
  | omi
  | synthesis
  | arxivScan
  deriving DecidableEq

inductive FactState
  | raw
  | candidate
  | verified
  | superseded
  | contradicted
  | deprecated
  deriving DecidableEq

namespace Source

def asStr : Source → String
  | .onboarding => "onboarding"
  | .operatorRuntime => "operator-runtime"
  | .nmapScan => "nmap-scan"
  | .arpScan => "arp-scan"
  | .importHermes => "import:hermes"
  | .importOpenclaw => "import:openclaw"
  | .importOpenhuman => "import:openhuman"
  | .importVeronica => "import:veronica"
  | .importSession => "import:session"
  | .importObsidian => "import:obsidian"
  | .bulkText => "bulk-text"
  | .releaseSelfKnowledge => "release-self-knowledge"
  | .releaseBuildIdentity => "release-build-identity"
  | .selfKnowledgeOverlay => "self-knowledge-overlay"
  | .omi => "omi"
  | .synthesis => "synthesis-cron"
  | .arxivScan => "arxiv-skill-scan"

theorem asStr_injective : Function.Injective asStr := by
  intro s t
  cases s <;> cases t <;> simp [asStr]

def isOperatorAttested : Source → Bool
  | .onboarding | .operatorRuntime | .nmapScan | .arpScan | .selfKnowledgeOverlay => true
  | _ => false

def initialFactState (source : Source) : FactState :=
  match source with
  | .bulkText => .raw
  | .releaseSelfKnowledge => .raw
  | .releaseBuildIdentity => .verified
  | s => if s.isOperatorAttested then .verified else .candidate

end Source

/-- The states that an assertion may promote. -/
def FactState.promotable : FactState → Bool
  | .raw | .candidate => true
  | _ => false

def corroborationThreshold : Nat := 2

def promotionConfidenceThreshold : ℚ := 85 / 100

def maxEvidenceBacklinks : Nat := 50

def maturityFor (confirmedCount : Nat) : String :=
  if confirmedCount ≤ 1 then "emerging" else if confirmedCount ≤ 4 then "working" else "stable"

def bumpConfidence (current : ℚ) : ℚ := (current + 1) / 2

/-! ## Facts -/

/-- The map from sources to their number of assertions. -/
abbrev SourceWeights := Table fun entry : String × Nat => entry.1

/-- `*weights.entry(source).or_insert(0) += 1`, on `u32`. -/
def SourceWeights.bump (weights : SourceWeights) (source : String) : SourceWeights :=
  weights.put (source, (((weights.find source).map (·.2)).getD 0 + 1) % 2 ^ 32)

def SourceWeights.len (weights : SourceWeights) : Nat := weights.rows.length

structure GroundTruth where
  id : Nat
  statement : String
  source : String
  scope : String
  assertedAt : Int
  revokedAt : Option Int
  factState : FactState
  sourceWeight : Option SourceWeights
  confidence : ℚ
  evidence : Option (List Int)
  maturity : String
  confirmedCount : Nat

namespace GroundTruth

/-- A malformed map counts as one source. -/
def sourceCount (fact : GroundTruth) : Nat :=
  (fact.sourceWeight.map fun weights => max weights.len 1).getD 1

/-- An active fact with this statement and scope. -/
def matches_ (fact : GroundTruth) (statement scope : String) : Bool :=
  fact.statement == statement && fact.scope == scope && fact.revokedAt.isNone

/-- The state after another assertion, by the gates. -/
def promoted (fact : GroundTruth) (weights : SourceWeights) (source : Source) : FactState :=
  let gateSourceCount := corroborationThreshold ≤ weights.len
  let gateConfidence := promotionConfidenceThreshold ≤ bumpConfidence fact.confidence
  if fact.factState.promotable && (source.isOperatorAttested || (gateSourceCount && gateConfidence))
    then .verified
  else if fact.factState = .raw ∧ source.isOperatorAttested = false then .candidate
  else fact.factState

/-- The fact after another assertion, with the map it has stored. -/
def corroborated (fact : GroundTruth) (weights : SourceWeights) (source : Source) : GroundTruth :=
  let weights := weights.bump source.asStr
  let confirmed := min (fact.confirmedCount + 1) (2 ^ 32 - 1)
  { fact with
    sourceWeight := some weights
    factState := fact.promoted weights source
    confidence := bumpConfidence fact.confidence
    confirmedCount := confirmed
    maturity := maturityFor confirmed }

/-- The row of a first assertion. -/
def asserted (id : Nat) (statement : String) (source : Source) (scope : String) (now : Int) :
    GroundTruth :=
  { id := id, statement := statement, source := source.asStr, scope := scope, assertedAt := now,
    revokedAt := none
    factState := source.initialFactState,
    sourceWeight := some ⟨[(source.asStr, 1)], List.nodup_singleton _⟩
    confidence := 1 / 2, evidence := some [], maturity := "emerging", confirmedCount := 0 }

end GroundTruth

/-! ## Contradictions -/

structure PairSignal where
  /-- A polarity flip, which is resolved at once. -/
  negation : Bool

/-- `pair_confidence`: do two statements disagree? -/
class PairConfidence where
  pairConfidence : String → String → Option PairSignal

def maxPeers : Nat := 500

/-- Fewer sources lose; of equally many, the older fact. -/
def loserId (a b : GroundTruth) : Nat :=
  if a.sourceCount < b.sourceCount then a.id
  else if b.sourceCount < a.sourceCount then b.id
  else if a.id ≤ b.id then a.id
  else b.id

structure FactDb where
  /-- `AUTOINCREMENT`. -/
  nextId : Nat
  facts : Table GroundTruth.id
  /-- The event ids of the three memory tiers. -/
  episodes : List Int

namespace FactDb

def fresh : FactDb := ⟨1, ∅, []⟩

def setFactState (db : FactDb) (id : Nat) (state : FactState) : FactDb :=
  { db with facts := db.facts.update (·.id == id) ({ · with factState := state }) fun _ => rfl }

/-- A losing fact is flagged, if it is still active and verified. -/
def recordPair (db : FactDb) (a b : GroundTruth) (signal : PairSignal) : FactDb :=
  if signal.negation then
    match db.facts.find (loserId a b) with
    | some loser =>
      if loser.revokedAt.isNone && loser.factState = .verified
        then db.setFactState (loserId a b) .contradicted else db
    | none => db
  else db

/-- The newest active verified facts of a scope: `ORDER BY asserted_at DESC`. -/
def activeVerifiedInScope (db : FactDb) (scope : String) : List GroundTruth :=
  (((db.facts.rows.filter fun fact => fact.scope == scope && fact.revokedAt.isNone).insertionSort
    fun a b => b.assertedAt ≤ a.assertedAt).filter fun fact =>
      fact.factState = .verified).take maxPeers

def comparePeer [PairConfidence] (fact : GroundTruth) (db : FactDb) (peer : GroundTruth) : FactDb :=
  if peer.id = fact.id then db
  else match PairConfidence.pairConfidence fact.statement peer.statement with
    | some signal => db.recordPair fact peer signal
    | none => db

def detectContradictionsFor [PairConfidence] (db : FactDb) (id : Nat) : FactDb :=
  match db.facts.find id with
  | some fact =>
    if fact.revokedAt.isNone && fact.factState = .verified
    then (db.activeVerifiedInScope fact.scope).foldl (comparePeer fact) db
    else db
  | none => db

/-! ## Assertions -/

/-- The fact that an assertion corroborates. -/
def active (db : FactDb) (statement scope : String) : Option GroundTruth :=
  db.facts.rows.find? (·.matches_ statement scope)

/-- The first half of `insert`: the row is written. -/
def assertFact (db : FactDb) (statement : String) (source : Source) (scope : String) (now : Int) :
    Except String (FactDb × Nat) :=
  match db.active statement scope with
  | some fact => do
    let weights ← context fact.sourceWeight "parse stored ground-truth source_weight provenance"
    let new := fact.corroborated weights source
    .ok ({ db with
      facts := db.facts.update (·.id == fact.id) ({ · with
        sourceWeight := new.sourceWeight, factState := new.factState, confidence := new.confidence
        confirmedCount := new.confirmedCount, maturity := new.maturity }) fun _ => rfl }, fact.id)
  | none => do
    let facts ← context (db.facts.insert (.asserted db.nextId statement source scope now))
        "insert ground-truth"
    .ok ({ db with nextId := db.nextId + 1, facts := facts }, db.nextId)

def insert [PairConfidence] (db : FactDb) (statement : String) (source : Source) (scope : String)
    (now : Int) : Except String (FactDb × Nat) := do
  let statement := trim statement
  require (statement != "") "ground-truth statement must be non-empty"
  let (db, id) ← db.assertFact statement source scope now
  .ok (db.detectContradictionsFor id, id)

/-- The episodes are appended one by one, each at most once. -/
def appendEvidence (db : FactDb) : List Int → List Int → Except String (List Int)
  | ids, [] => .ok ids
  | ids, episodeId :: episodeIds => do
    require (db.episodes.contains episodeId)
      s!"ground-truth evidence episode {episodeId} is absent from hot, warm, and cold tiers"
    db.appendEvidence (if ids.contains episodeId then ids else ids ++ [episodeId]) episodeIds

def recordEvidenceBatch (db : FactDb) (factId : Nat) (episodeIds : List Int) :
    Except String FactDb := do
  require (!episodeIds.isEmpty) "ground-truth evidence must contain at least one episode id"
  let fact ← context (db.facts.find factId) s!"ground-truth fact {factId} not found"
  let ids ← context fact.evidence s!"ground-truth fact {factId} has malformed evidence JSON"
  let ids ← db.appendEvidence ids episodeIds
  let ids := ids.drop (ids.length - maxEvidenceBacklinks)
  .ok
    { db with
      facts := db.facts.update (·.id == factId) ({ · with evidence := some ids }) fun _ => rfl }

/-- An assertion with its episodes, in one savepoint. -/
def insertWithEvidence [PairConfidence] (db : FactDb) (statement : String) (source : Source)
    (scope : String) (now : Int) (episodeIds : List Int) : Except String (FactDb × Nat) := do
  require (!episodeIds.isEmpty) "derived ground-truth requires at least one evidence episode"
  let (db, id) ← db.insert statement source scope now
  let db ← db.recordEvidenceBatch id episodeIds
  .ok (db, id)

def revoke (db : FactDb) (id : Nat) (now : Int) : FactDb :=
  { db with facts := db.facts.update (·.id == id) ({ · with revokedAt := some now }) fun _ => rfl }

end FactDb

/-! ## Events -/

inductive FactEvent
  | insert (statement : String) (source : Source) (scope : String) (now : Int)
  | insertWithEvidence (statement : String) (source : Source) (scope : String) (now : Int)
    (episodeIds : List Int)
  /-- The operator moves a fact. -/
  | setFactState (id : Nat) (state : FactState)
  | revoke (id : Nat) (now : Int)
  /-- The memory tiers have changed. -/
  | tiers (episodes : List Int)

inductive FactAnswer
  | quiet
  | asserted (id : Nat)
  | failed (error : String)

namespace FactDb

/-- A failed call is rolled back. -/
def commit (db : FactDb) : Except String (FactDb × Nat) → FactDb × FactAnswer
  | .ok (db', id) => (db', .asserted id)
  | .error e => (db, .failed e)

def step [PairConfidence] (db : FactDb) : FactEvent → FactDb × FactAnswer
  | .insert statement source scope now => db.commit (db.insert statement source scope now)
  | .insertWithEvidence statement source scope now episodeIds =>
    db.commit (db.insertWithEvidence statement source scope now episodeIds)
  | .setFactState id state => (db.setFactState id state, .quiet)
  | .revoke id now => (db.revoke id now, .quiet)
  | .tiers episodes => ({ db with episodes := episodes }, .quiet)

/-- The facts after a sequence of events on an empty store. -/
def after [PairConfidence] (events : List FactEvent) : FactDb :=
  (Lib.Machine.run step fresh events).1

end FactDb

end Neoth.Memory
