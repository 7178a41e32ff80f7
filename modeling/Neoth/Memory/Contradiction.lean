import Neoth.Lib.Knockout
import Neoth.Memory.GroundTruth

/-!
# The contradiction ledger

The table `idx_contradictions` over the ground truth, `memory/contradiction.rs`: pairs of facts that
disagree, which an assertion or a scan records and a batch resolves.

* `LedgerDb.recordPair`: a pair is recorded, and its loser flagged;
* `LedgerDb.insert`, `LedgerDb.scanContradictions`: the two triggers;
* `LedgerDb.autoResolveBatch`: the pending pairs are closed;
* `LedgerDb.pairSteps`: what an event does by itself, pair by pair.

What the comparisons of two statements say is a parameter.
-/

open Lib Lib.Encoding Lib.Transaction

namespace Neoth.Memory

/-! ## The ledger -/

inductive Decision
  | pending
  | superseded
  | merged
  | humanReview
  deriving DecidableEq

structure ContradictionRow where
  ledgerId : Nat
  factAId : Nat
  factBId : Nat
  /-- `CHECK (fact_a_id < fact_b_id)`. -/
  ordered : factAId < factBId
  detectedAt : Int
  resolvedAt : Option Int
  decision : Decision

/-- `UNIQUE (fact_a_id, fact_b_id)`. -/
abbrev ContradictionRow.pair (row : ContradictionRow) : Nat × Nat := (row.factAId, row.factBId)

structure LedgerDb where
  base : FactDb
  /-- `AUTOINCREMENT`. -/
  nextLedgerId : Nat
  ledger : Table ContradictionRow.pair

/-! ## Detection -/

def winnerId (a b : GroundTruth) : Nat := if loserId a b = a.id then b.id else a.id

def maxScanned : Nat := 100_000

/-- `ORDER BY asserted_at DESC LIMIT limit`. -/
def FactDb.surfaceForRecall (db : FactDb) (limit : Nat) (includeUnverified : Bool) :
    List GroundTruth :=
  ((db.facts.rows.filter fun fact =>
    fact.revokedAt.isNone && (includeUnverified || fact.factState = .verified)).insertionSort
      fun a b => b.assertedAt ≤ a.assertedAt).take limit

namespace LedgerDb

def fresh : LedgerDb := ⟨.fresh, 1, ∅⟩

/-- `INSERT OR IGNORE` of the pair, which says whether it is new; of a polarity flip the loser is
flagged. -/
def recordPair (db : LedgerDb) (a b : GroundTruth) (signal : PairSignal) (now : Int) :
    LedgerDb × Bool :=
  let pair := if a.id < b.id then (a.id, b.id) else (b.id, a.id)
  let base := db.base.recordPair a b signal
  if ordered : pair.1 < pair.2 then
    match db.ledger.insert ⟨db.nextLedgerId, pair.1, pair.2, ordered, now, none, .pending⟩ with
    | some ledger => (⟨base, db.nextLedgerId + 1, ledger⟩, true)
    | none => ({ db with base := base }, false)
  else ({ db with base := base }, false)

variable [PairConfidence]

def comparePeer (fact : GroundTruth) (now : Int) (db : LedgerDb) (peer : GroundTruth) : LedgerDb :=
  if peer.id = fact.id then db
  else match PairConfidence.pairConfidence fact.statement peer.statement with
    | some signal => (db.recordPair fact peer signal now).1
    | none => db

/-- The fact that an assertion compares, and its peers. -/
def comparedBy (db : LedgerDb) (id : Nat) : Option (GroundTruth × List GroundTruth) :=
  match db.base.facts.find id with
  | some fact =>
    if fact.revokedAt.isNone && fact.factState = .verified
    then some (fact, db.base.activeVerifiedInScope fact.scope)
    else none
  | none => none

def detectContradictionsFor (db : LedgerDb) (id : Nat) (now : Int) : LedgerDb :=
  match db.comparedBy id with
  | some (fact, peers) => peers.foldl (comparePeer fact now) db
  | none => db

omit [PairConfidence] in
/-- The first half of `insert`, which is what its caller asks for. -/
def asserted (db : LedgerDb) (statement : String) (source : Source) (scope : String) (now : Int) :
    Except String (LedgerDb × Nat) := do
  let statement := trim statement
  require (statement != "") "ground-truth statement must be non-empty"
  let (base, id) ← db.base.assertFact statement source scope now
  .ok ({ db with base := base }, id)

/-- `insert`, after which the facts are what they would be without a ledger (`insert_refines`). -/
def insert (db : LedgerDb) (statement : String) (source : Source) (scope : String) (now : Int) :
    Except String (LedgerDb × Nat) := do
  let (db, id) ← db.asserted statement source scope now
  .ok (db.detectContradictionsFor id now, id)

omit [PairConfidence] in
/-- The facts that a scan compares. -/
def verified (db : LedgerDb) : List GroundTruth :=
  (db.base.surfaceForRecall maxScanned true).filter fun fact => fact.factState = .verified

def comparePair (now : Int) (db : LedgerDb) (pair : GroundTruth × GroundTruth) : LedgerDb × Bool :=
  if pair.1.scope ≠ pair.2.scope then (db, false)
  else match PairConfidence.pairConfidence pair.1.statement pair.2.statement with
    | some signal => db.recordPair pair.1 pair.2 signal now
    | none => (db, false)

/-- The store, and the number of new rows. -/
def scanContradictions (db : LedgerDb) (now : Int) : LedgerDb × Nat :=
  (allPairs db.verified).foldl (fun (db, newRows) pair =>
    let (db, isNew) := db.comparePair now pair
    (db, if isNew then newRows + 1 else newRows)) (db, 0)

end LedgerDb

/-! ## Resolution -/

/-- The comparisons of the batch, by Jaccard. -/
class StatementSimilarity where
  /-- `full_jaccard` reaches `SEMANTIC_EQUIV_JACCARD`. -/
  semanticEquiv : String → String → Bool
  /-- `subject_similarity` reaches `SUBJECT_SIM_THRESHOLD`. -/
  entitySame : String → String → Bool

structure AutoResolveSummary where
  superseded : Nat
  merged : Nat
  humanQueue : Nat

def AutoResolveSummary.count (summary : AutoResolveSummary) : Decision → AutoResolveSummary
  | .superseded => { summary with superseded := summary.superseded + 1 }
  | .merged => { summary with merged := summary.merged + 1 }
  | .humanReview => { summary with humanQueue := summary.humanQueue + 1 }
  | .pending => summary

/-- Superseded, if it is still active and verified. -/
def FactDb.suppressFact (db : FactDb) (id : Nat) : FactDb :=
  match db.facts.find id with
  | some fact =>
    if fact.revokedAt.isNone && fact.factState = .verified then db.setFactState id .superseded
    else db
  | none => db

namespace LedgerDb

def suppressFact (db : LedgerDb) (id : Nat) : LedgerDb :=
  { db with base := db.base.suppressFact id }

def closeLedgerRow (db : LedgerDb) (ledgerId : Nat) (decision : Decision) (now : Int) : LedgerDb :=
  { db with
    ledger := db.ledger.update (fun row => row.ledgerId == ledgerId && row.decision == .pending)
      ({ · with decision := decision, resolvedAt := some now }) fun _ => rfl }

/-- `list_contradictions` without the resolved ones: `ORDER BY detected_at DESC`. -/
def pendingRows (db : LedgerDb) : List ContradictionRow :=
  (db.ledger.rows.filter fun row => row.decision = .pending).insertionSort fun r s =>
    s.detectedAt ≤ r.detectedAt

variable [StatementSimilarity]

/-- A pending row is closed; of two facts that say the same, or that differ in age, the older one is
suppressed. -/
def resolveRow (now : Int) (db : LedgerDb) (row : ContradictionRow) : LedgerDb × Decision :=
  match db.base.facts.find row.factAId, db.base.facts.find row.factBId with
  | some a, some b =>
    if a.revokedAt.isSome || b.revokedAt.isSome
      then (db.closeLedgerRow row.ledgerId .superseded now, .superseded)
    else if StatementSimilarity.semanticEquiv a.statement b.statement then
      let older := if a.assertedAt ≤ b.assertedAt then a.id else b.id
      ((db.suppressFact older).closeLedgerRow row.ledgerId .merged now, .merged)
    else if StatementSimilarity.entitySame a.statement b.statement ∧ a.assertedAt ≠ b.assertedAt
      then
      let older := if a.assertedAt < b.assertedAt then a.id else b.id
      ((db.suppressFact older).closeLedgerRow row.ledgerId .superseded now, .superseded)
    else (db.closeLedgerRow row.ledgerId .humanReview now, .humanReview)
  | _, _ => (db.closeLedgerRow row.ledgerId .superseded now, .superseded)

def autoResolveBatch (db : LedgerDb) (now : Int) : LedgerDb × AutoResolveSummary :=
  db.pendingRows.foldl (fun (db, summary) row =>
    let (db, decision) := db.resolveRow now row
    (db, summary.count decision)) (db, ⟨0, 0, 0⟩)

end LedgerDb

/-! ## Events -/

inductive LedgerEvent
  | insert (statement : String) (source : Source) (scope : String) (now : Int)
  | scan (now : Int)
  | resolve (now : Int)

inductive LedgerAnswer
  | asserted (id : Nat)
  | failed (error : String)
  | scanned (newRows : Nat)
  | resolved (summary : AutoResolveSummary)

/-- What becomes of the store because of one pair of facts. -/
structure PairStep where
  before : LedgerDb
  factA : Nat
  factB : Nat
  after : LedgerDb

namespace LedgerDb

variable [PairConfidence] [StatementSimilarity]

def step (db : LedgerDb) : LedgerEvent → LedgerDb × LedgerAnswer
  | .insert statement source scope now =>
    match db.insert statement source scope now with
    | .ok (db, id) => (db, .asserted id)
    | .error e => (db, .failed e)
  | .scan now =>
    let (db, newRows) := db.scanContradictions now
    (db, .scanned newRows)
  | .resolve now =>
    let (db, summary) := db.autoResolveBatch now
    (db, .resolved summary)

/-- The automatic steps of an event, one for each pair that it judges. -/
def pairSteps (db : LedgerDb) : LedgerEvent → List PairStep
  | .insert statement source scope now =>
    match db.asserted statement source scope now with
    | .ok (db, id) =>
      match db.comparedBy id with
      | some (fact, peers) =>
        (trail (comparePeer fact now) db peers).map fun t => ⟨t.1, fact.id, t.2.1.id, t.2.2⟩
      | none => []
    | .error _ => []
  | .scan now =>
    (trail (fun db pair => (db.comparePair now pair).1) db (allPairs db.verified)).map fun t =>
      ⟨t.1, t.2.1.1.id, t.2.1.2.id, t.2.2⟩
  | .resolve now =>
    (trail (fun db row => (db.resolveRow now row).1) db db.pendingRows).map fun t =>
      ⟨t.1, t.2.1.factAId, t.2.1.factBId, t.2.2⟩

/-- The store after a sequence of events. -/
def after (db : LedgerDb) (events : List LedgerEvent) : LedgerDb :=
  (Lib.Machine.run step db events).1

/-- The automatic steps of a sequence of events. -/
def automaticSteps (db : LedgerDb) : List LedgerEvent → List PairStep
  | [] => []
  | event :: events => db.pairSteps event ++ automaticSteps (db.step event).1 events

end LedgerDb

end Neoth.Memory
