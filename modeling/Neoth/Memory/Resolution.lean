import Neoth.Memory.Contradiction
import Neoth.Memory.Trust

/-!
# What the contradiction ledger hides

An automatic step takes a fact out because of another one.  Detection takes out the fact with fewer
sources, the batch the older one, and neither asks whether the other fact is still there.

* `recordPair_base`, `suppressFact_eq_flag`: either way a trusted fact is flagged, and nothing else
  changes;
* `oneStays_iff`: the other fact stays if and only if nobody is taken out by a fact that is out
  already;
* `scan_idem`: a scan leaves nothing for a second one;
* **`resolution_iff`**: the whole over runs.
-/

open Lib Lib.Encoding Lib.Transaction

namespace Neoth.Memory

/-! ## Flags -/

namespace FactDb

/-- The fact is active and verified. -/
def trusts (db : FactDb) (id : Nat) : Prop :=
  ∃ fact ∈ db.facts, fact.id = id ∧ fact.factState = .verified ∧ fact.revokedAt = none

theorem id_withState (state : FactState) (fact : GroundTruth) :
    ({ fact with factState := state } : GroundTruth).id = fact.id :=
  rfl

/-- The fact loses its state, if it is trusted. -/
def flag (db : FactDb) (id : Nat) (state : FactState) : FactDb :=
  { db with
    facts := db.facts.update (fun fact => fact.id == id &&
      (fact.revokedAt.isNone && fact.factState = .verified))
      ({ · with factState := state }) (id_withState state) }

variable {db : FactDb} {id : Nat} {state : FactState}

theorem flag_eq_self (h : ¬ db.trusts id) : db.flag id state = db := by
  have hfacts : (db.flag id state).facts = db.facts := by
    unfold flag
    rw [Table.update_of_fixed]
    refine fun fact hfact hp => absurd ⟨fact, hfact, ?_⟩ h
    simpa [and_comm] using hp
  exact congrArg (fun facts => { db with facts := facts }) hfacts

variable {fact : GroundTruth}

theorem setFactState_eq_flag (hfact : db.facts.find id = some fact)
    (htrusted : (fact.revokedAt.isNone && fact.factState = .verified) = true) :
    db.setFactState id state = db.flag id state := by
  obtain ⟨hmem, hid⟩ := Table.find_eq_some_iff.mp hfact
  have hrows : (db.setFactState id state).facts = (db.flag id state).facts := by
    refine Table.rows_inj (List.map_congr_left fun other hother => ?_)
    by_cases hsame : other.id = id
    · obtain rfl := @Table.eq_of_key_eq _ _ GroundTruth.id _ _ _ hother hmem (hsame.trans hid.symm)
      simp [hid, htrusted]
    · simp [hsame]
  exact congrArg (fun facts => { db with facts := facts }) hrows

theorem not_trusts_of_find (hfact : db.facts.find id = some fact)
    (h : ¬ (fact.revokedAt.isNone && fact.factState = .verified) = true) : ¬ db.trusts id := by
  rintro ⟨other, hother, hid, hstate, hactive⟩
  obtain ⟨hmem, hid'⟩ := Table.find_eq_some_iff.mp hfact
  obtain rfl := @Table.eq_of_key_eq _ _ GroundTruth.id _ _ _ hother hmem (hid.trans hid'.symm)
  simp [hstate, hactive] at h

theorem not_trusts_of_find_none (hfact : db.facts.find id = none) : ¬ db.trusts id := by
  rintro ⟨fact, hmem, hid, -⟩
  exact Table.find_eq_none_iff.mp hfact fact hmem hid

theorem suppressFact_eq_flag : db.suppressFact id = db.flag id .superseded := by
  unfold suppressFact
  cases hfact : db.facts.find id with
  | none => exact (flag_eq_self (not_trusts_of_find_none hfact)).symm
  | some fact =>
    dsimp only
    split_ifs with htrusted
    · exact setFactState_eq_flag hfact htrusted
    · exact (flag_eq_self (not_trusts_of_find hfact htrusted)).symm

theorem recordPair_eq_flag (db : FactDb) (a b : GroundTruth) (signal : PairSignal) :
    db.recordPair a b signal = if signal.negation then db.flag (loserId a b) .contradicted
      else db := by
  unfold recordPair
  split_ifs with hnegation
  · cases hfact : db.facts.find (loserId a b) with
    | none => exact (flag_eq_self (not_trusts_of_find_none hfact)).symm
    | some fact =>
      dsimp only
      split_ifs with htrusted
      · exact setFactState_eq_flag hfact htrusted
      · exact (flag_eq_self (not_trusts_of_find hfact htrusted)).symm
  · rfl

theorem mem_flag {fact' : GroundTruth} : fact' ∈ (db.flag id state).facts ↔ ∃ fact ∈ db.facts,
    fact' = if fact.id == id && (fact.revokedAt.isNone && fact.factState = .verified)
      then { fact with factState := state } else fact := by
  unfold flag
  rw [Table.mem_update]

/-- A flag takes out the fact that it is for, and no other. -/
theorem trusts_flag (hstate : state ≠ .verified) (x : Nat) :
    (db.flag id state).trusts x ↔ db.trusts x ∧ x ≠ id := by
  constructor
  · rintro ⟨fact', hfact', rfl, hverified, hactive⟩
    obtain ⟨fact, hfact, rfl⟩ := mem_flag.mp hfact'
    split_ifs at hverified hactive ⊢ with hflagged
    · exact absurd hverified hstate
    · refine ⟨⟨fact, hfact, rfl, hverified, hactive⟩, fun hid => hflagged ?_⟩
      simp [hid, hverified, hactive]
  · rintro ⟨⟨fact, hfact, rfl, hverified, hactive⟩, hne⟩
    refine ⟨fact, mem_flag.mpr ⟨fact, hfact, ?_⟩, rfl, hverified, hactive⟩
    rw [if_neg (by simp [hne])]

/-- What is not verified stays as it is. -/
theorem mem_flag_of_not_verified (hfact : fact ∈ db.facts) (h : fact.factState ≠ .verified) :
    fact ∈ (db.flag id state).facts :=
  mem_flag.mpr ⟨fact, hfact, by rw [if_neg (by simp [h])]⟩

theorem find_flag (k : Nat) : (db.flag id state).facts.find k = (db.facts.find k).map fun fact =>
    if fact.id == id && (fact.revokedAt.isNone && fact.factState = .verified)
    then { fact with factState := state } else fact := by
  unfold flag
  rw [Table.find_update]

end FactDb

/-! ## Pairs -/

section
variable [PairConfidence]

/-- Who loses to whom, if the statements of two facts are opposites. -/
def duelOf (a b : GroundTruth) : Option (Nat × Nat) :=
  match PairConfidence.pairConfidence a.statement b.statement with
  | some signal => if signal.negation then some (loserId a b, winnerId a b) else none
  | none => none

def peerDuel (fact peer : GroundTruth) : Option (Nat × Nat) :=
  if peer.id = fact.id then none else duelOf fact peer

def pairDuel (pair : GroundTruth × GroundTruth) : Option (Nat × Nat) :=
  if pair.1.scope ≠ pair.2.scope then none else duelOf pair.1 pair.2

theorem duelOf_eq_some {a b : GroundTruth} {x y : Nat} (h : duelOf a b = some (x, y)) :
    (x, y) = (a.id, b.id) ∨ (x, y) = (b.id, a.id) := by
  have hloser : loserId a b = a.id ∨ loserId a b = b.id := by
    unfold loserId
    split_ifs <;> simp
  unfold duelOf at h
  split at h
  · split_ifs at h
    rw [Option.some.injEq] at h
    rw [← h]
    unfold winnerId
    rcases hloser with hloser | hloser
    · exact .inl (by rw [if_pos hloser, hloser])
    · by_cases hsame : loserId a b = a.id
      · exact .inl (by rw [if_pos hsame, hsame])
      · exact .inr (by rw [if_neg hsame, hloser])
  · cases h

end

section
variable [StatementSimilarity]

/-- Which of two facts the batch suppresses, and because of which. -/
def verdictOf : Option GroundTruth → Option GroundTruth → Option (Nat × Nat)
  | some a, some b =>
    if a.revokedAt.isSome || b.revokedAt.isSome then none
    else if StatementSimilarity.semanticEquiv a.statement b.statement then
      some (if a.assertedAt ≤ b.assertedAt then (a.id, b.id) else (b.id, a.id))
    else if StatementSimilarity.entitySame a.statement b.statement ∧ a.assertedAt ≠ b.assertedAt
      then
      some (if a.assertedAt < b.assertedAt then (a.id, b.id) else (b.id, a.id))
    else none
  | _, _ => none

def verdict (db : LedgerDb) (row : ContradictionRow) : Option (Nat × Nat) :=
  verdictOf (db.base.facts.find row.factAId) (db.base.facts.find row.factBId)

theorem verdict_eq_some {db : LedgerDb} {row : ContradictionRow} {x y : Nat}
    (h : verdict db row = some (x, y)) :
    (x, y) = (row.factAId, row.factBId) ∨ (x, y) = (row.factBId, row.factAId) := by
  unfold verdict at h
  cases ha : db.base.facts.find row.factAId with
  | none => simp [verdictOf, ha] at h
  | some a =>
    cases hb : db.base.facts.find row.factBId with
    | none => simp [verdictOf, ha, hb] at h
    | some b =>
      rw [ha, hb] at h
      rw [← (Table.find_eq_some_iff.mp ha).2, ← (Table.find_eq_some_iff.mp hb).2]
      unfold verdictOf at h
      dsimp only at h
      split_ifs at h with hrevoked hequiv hage hsame hage
      · exact .inl (by simpa using h.symm)
      · exact .inr (by simpa using h.symm)
      · exact .inl (by simpa using h.symm)
      · exact .inr (by simpa using h.symm)

/-- No verdict asks for the states of its facts. -/
theorem verdict_flag {db db' : LedgerDb} {id : Nat} {state : FactState}
    (h : db'.base = db.base.flag id state)
    (row : ContradictionRow) : verdict db' row = verdict db row := by
  unfold verdict
  rw [h, FactDb.find_flag, FactDb.find_flag]
  cases db.base.facts.find row.factAId with
  | none => rfl
  | some a =>
    cases db.base.facts.find row.factBId with
    | none => rfl
    | some b =>
      simp only [Option.map_some]
      split_ifs <;> rfl

end

namespace LedgerDb

/-- The fact that loses, flagged. -/
def knockedOut (base : FactDb) (state : FactState) : Option (Nat × Nat) → FactDb
  | some duel => base.flag duel.1 state
  | none => base

theorem recordPair_base (db : LedgerDb) (a b : GroundTruth) (signal : PairSignal) (now : Int) :
    (db.recordPair a b signal now).1.base = db.base.recordPair a b signal := by
  unfold recordPair
  generalize (if a.id < b.id then (a.id, b.id) else (b.id, a.id)) = pair
  dsimp only
  split
  · split <;> rfl
  · rfl

/-- The loser of a polarity flip is flagged. -/
theorem recordPair_knockedOut (db : LedgerDb) (a b : GroundTruth) (signal : PairSignal)
    (now : Int) : (db.recordPair a b signal now).1.base = knockedOut db.base .contradicted
      (if signal.negation then some (loserId a b, winnerId a b) else none) := by
  rw [recordPair_base, FactDb.recordPair_eq_flag]
  split_ifs <;> rfl

section
variable [PairConfidence]

theorem comparePeer_base (fact : GroundTruth) (now : Int) (db : LedgerDb) (peer : GroundTruth) :
    (comparePeer fact now db peer).base =
      knockedOut db.base .contradicted (peerDuel fact peer) := by
  unfold comparePeer peerDuel duelOf
  split_ifs
  · rfl
  · cases PairConfidence.pairConfidence fact.statement peer.statement with
    | none => rfl
    | some signal => exact recordPair_knockedOut ..

theorem comparePair_base (now : Int) (db : LedgerDb) (pair : GroundTruth × GroundTruth) :
    (db.comparePair now pair).1.base = knockedOut db.base .contradicted (pairDuel pair) := by
  unfold comparePair pairDuel duelOf
  split_ifs
  · rfl
  · cases PairConfidence.pairConfidence pair.1.statement pair.2.statement with
    | none => rfl
    | some signal => exact recordPair_knockedOut ..

end

theorem resolveRow_base [StatementSimilarity] (now : Int) (db : LedgerDb) (row : ContradictionRow) :
    (db.resolveRow now row).1.base = knockedOut db.base .superseded (verdict db row) := by
  unfold resolveRow verdict
  cases db.base.facts.find row.factAId with
  | none => rfl
  | some a =>
    cases db.base.facts.find row.factBId with
    | none => rfl
    | some b =>
      unfold verdictOf
      dsimp only
      split_ifs
      · rfl
      · exact FactDb.suppressFact_eq_flag
      · exact FactDb.suppressFact_eq_flag
      · exact FactDb.suppressFact_eq_flag
      · exact FactDb.suppressFact_eq_flag
      · rfl

end LedgerDb

variable {duel : Option (Nat × Nat)}

theorem trusts_knockedOut {base : FactDb} {state : FactState} (hstate : state ≠ .verified)
    (x : Nat) :
    (LedgerDb.knockedOut base state duel).trusts x ↔ base.trusts x ∧ ∀ d ∈ duel, x ≠ d.1 := by
  cases duel with
  | none => simp [LedgerDb.knockedOut]
  | some d => simp [LedgerDb.knockedOut, FactDb.trusts_flag hstate]

variable {fact : GroundTruth}

theorem mem_knockedOut {base : FactDb} {state : FactState} (hfact : fact ∈ base.facts)
    (h : fact.factState ≠ .verified) : fact ∈ (LedgerDb.knockedOut base state duel).facts := by
  cases duel with
  | none => exact hfact
  | some d => exact FactDb.mem_flag_of_not_verified hfact h

/-! ## The other fact -/

namespace PairStep

/-- A verified fact is not verified any more. -/
def TakesOut (s : PairStep) (x : Nat) : Prop :=
  (∃ fact ∈ s.before.base.facts, fact.id = x ∧ fact.factState = .verified) ∧
    ∃ fact ∈ s.after.base.facts, fact.id = x ∧ fact.factState ≠ .verified

/-- What the step takes out is one of the pair, and the other one is active and verified. -/
def OneStays (s : PairStep) : Prop :=
  ∀ x, s.TakesOut x → (x = s.factA ∧ s.after.base.trusts s.factB) ∨
  (x = s.factB ∧ s.after.base.trusts s.factA)

variable {s : PairStep}

theorem takesOut_iff {state : FactState} (hstate : state ≠ .verified)
    (hbase : s.after.base = LedgerDb.knockedOut s.before.base state duel) (x : Nat) :
    s.TakesOut x ↔ s.before.base.trusts x ∧ ∃ d ∈ duel, x = d.1 := by
  unfold TakesOut
  rw [hbase]
  constructor
  · rintro ⟨⟨fact, hfact, rfl, hverified⟩, fact', hfact', hid, hnot⟩
    cases duel with
    | none =>
      obtain rfl := @Table.eq_of_key_eq _ _ GroundTruth.id _ _ _ hfact hfact' hid.symm
      exact absurd hverified hnot
    | some d =>
      obtain ⟨old, hold, rfl⟩ := FactDb.mem_flag.mp hfact'
      split_ifs at hid hnot with hflagged
      · simp only [Bool.and_eq_true, beq_iff_eq, decide_eq_true_eq,
          Option.isNone_iff_eq_none] at hflagged
        exact ⟨⟨old, hold, hid, hflagged.2.2, hflagged.2.1⟩, d, rfl, hid.symm.trans hflagged.1⟩
      · obtain rfl := @Table.eq_of_key_eq _ _ GroundTruth.id _ _ _ hfact hold hid.symm
        exact absurd hverified hnot
  · rintro ⟨⟨fact, hfact, rfl, hverified, hactive⟩, d, hd, hid⟩
    obtain rfl : duel = some d := hd
    refine ⟨⟨fact, hfact, rfl, hverified⟩, { fact with factState := state },
      FactDb.mem_flag.mpr ⟨fact, hfact, ?_⟩, rfl, hstate⟩
    rw [if_pos (by simp [hid, hverified, hactive])]

/-- The winner stays. -/
theorem oneStays_iff {state : FactState} (hstate : state ≠ .verified)
    (hbase : s.after.base = LedgerDb.knockedOut s.before.base state duel)
    (hpair : ∀ x y, duel = some (x, y) →
      (x, y) = (s.factA, s.factB) ∨ (x, y) = (s.factB, s.factA)) :
    s.OneStays ↔ ∀ x y, duel = some (x, y) → s.before.base.trusts x → s.after.base.trusts y := by
  constructor
  · intro h x y hd hx
    have hout : s.TakesOut x := (takesOut_iff hstate hbase x).mpr ⟨hx, (x, y), hd, rfl⟩
    have hnot : ¬ s.after.base.trusts x := by
      rw [hbase, trusts_knockedOut hstate]
      exact fun hstays => hstays.2 (x, y) hd rfl
    rcases hpair x y hd with heq | heq
    · obtain ⟨rfl, rfl⟩ := by simpa using heq
      rcases h _ hout with ⟨-, hstays⟩ | ⟨-, hstays⟩
      · exact hstays
      · exact absurd hstays hnot
    · obtain ⟨rfl, rfl⟩ := by simpa using heq
      rcases h _ hout with ⟨-, hstays⟩ | ⟨-, hstays⟩
      · exact absurd hstays hnot
      · exact hstays
  · intro h x hout
    obtain ⟨hx, ⟨z, y⟩, hd, hxz⟩ := (takesOut_iff hstate hbase x).mp hout
    obtain rfl : x = z := hxz
    have hy := h x y hd hx
    rcases hpair x y hd with heq | heq
    · obtain ⟨rfl, rfl⟩ := by simpa using heq
      exact .inl ⟨rfl, hy⟩
    · obtain ⟨rfl, rfl⟩ := by simpa using heq
      exact .inr ⟨rfl, hy⟩

end PairStep

section
variable [PairConfidence]

def peerKnockout (fact : GroundTruth) (now : Int) : Knockout LedgerDb GroundTruth Nat where
  step := LedgerDb.comparePeer fact now
  alive db := db.base.trusts
  duel _ := peerDuel fact
  alive_step db peer x := by
    rw [LedgerDb.comparePeer_base]
    exact trusts_knockedOut (by decide) x
  duel_step _ _ _ := rfl

def pairKnockout (now : Int) : Knockout LedgerDb (GroundTruth × GroundTruth) Nat where
  step db pair := (db.comparePair now pair).1
  alive db := db.base.trusts
  duel _ := pairDuel
  alive_step db pair x := by
    rw [LedgerDb.comparePair_base]
    exact trusts_knockedOut (by decide) x
  duel_step _ _ _ := rfl

end

def rowKnockout [StatementSimilarity] (now : Int) : Knockout LedgerDb ContradictionRow Nat where
  step db row := (db.resolveRow now row).1
  alive db := db.base.trusts
  duel := verdict
  alive_step db row x := by
    rw [LedgerDb.resolveRow_base]
    exact trusts_knockedOut (by decide) x
  duel_step db row other := by
    have hbase := LedgerDb.resolveRow_base now db other
    cases hverdict : verdict db other with
    | none =>
      unfold verdict
      rw [hbase, hverdict]
      rfl
    | some d => exact verdict_flag (by rw [hbase, hverdict]; rfl) row

/-! ## Events -/

section
variable [PairConfidence] [StatementSimilarity]

namespace LedgerDb

/-- The store as an event leaves it to its automatic steps. -/
def begun (db : LedgerDb) : LedgerEvent → LedgerDb
  | .insert statement source scope now =>
    match db.asserted statement source scope now with
    | .ok (db, _) => db
    | .error _ => db
  | _ => db

/-- The pairs that an event judges, each with the fact in front that it would take out. -/
def duels (db : LedgerDb) : LedgerEvent → List (Nat × Nat)
  | .insert statement source scope now =>
    match db.asserted statement source scope now with
    | .ok (db, id) =>
      match db.comparedBy id with
      | some (fact, peers) => peers.filterMap (peerDuel fact)
      | none => []
    | .error _ => []
  | .scan _ => (allPairs db.verified).filterMap pairDuel
  | .resolve _ => db.pendingRows.filterMap (verdict db)

/-- Whoever an event takes out loses to a fact that is trusted and has not lost itself before. -/
def SparesWinners (db : LedgerDb) (event : LedgerEvent) : Prop :=
  Spares (db.begun event).base.trusts (db.duels event)

end LedgerDb

/-- A step flags the loser of its pair, if there is one. -/
structure Judges (s : PairStep) (state : FactState) (duel : Option (Nat × Nat)) : Prop where
  unverifies : state ≠ .verified
  base : s.after.base = LedgerDb.knockedOut s.before.base state duel
  pair : ∀ x y, duel = some (x, y) → (x, y) = (s.factA, s.factB) ∨ (x, y) = (s.factB, s.factA)

omit [PairConfidence] [StatementSimilarity] in
theorem forall_oneStays_iff {I : Type} (k : Knockout LedgerDb I Nat)
    (halive : k.alive = fun db => db.base.trusts) {state : FactState} (pair : I → Nat × Nat)
    (hjudges : ∀ db i, Judges ⟨db, (pair i).1, (pair i).2, k.step db i⟩ state (k.duel db i))
    (db : LedgerDb) (items : List I) :
    (∀ s ∈ (trail k.step db items).map fun t => ⟨t.1, (pair t.2.1).1, (pair t.2.1).2, t.2.2⟩,
      PairStep.OneStays s) ↔
      Spares db.base.trusts (items.filterMap (k.duel db)) := by
  have hkeeps := @Knockout.keeps_iff _ _ _ k db items
  rw [halive] at hkeeps
  rw [← hkeeps, Knockout.Keeps, halive, List.forall_mem_map]
  refine ⟨fun h s₁ i s₂ hmem => ?_, fun h t hmem => ?_⟩
  · obtain ⟨-, -, -, -, rfl⟩ := mem_trail_iff.mp hmem
    have hj := hjudges s₁ i
    exact (PairStep.oneStays_iff hj.unverifies hj.base hj.pair).mp (h _ hmem)
  · obtain ⟨s₁, i, s₂⟩ := t
    obtain ⟨-, -, -, -, rfl⟩ := mem_trail_iff.mp hmem
    have hj := hjudges s₁ i
    exact (PairStep.oneStays_iff hj.unverifies hj.base hj.pair).mpr (h s₁ i _ hmem)

omit [StatementSimilarity] in
theorem judges_peer (fact : GroundTruth) (now : Int) (db : LedgerDb) (peer : GroundTruth) :
    Judges ⟨db, fact.id, peer.id, LedgerDb.comparePeer fact now db peer⟩ .contradicted
      (peerDuel fact peer) where
  unverifies := by decide
  base := LedgerDb.comparePeer_base fact now db peer
  pair x y h := by
    unfold peerDuel at h
    split_ifs at h
    exact duelOf_eq_some h

omit [StatementSimilarity] in
theorem judges_pair (now : Int) (db : LedgerDb) (pair : GroundTruth × GroundTruth) :
    Judges ⟨db, pair.1.id, pair.2.id, (db.comparePair now pair).1⟩ .contradicted
      (pairDuel pair) where
  unverifies := by decide
  base := LedgerDb.comparePair_base now db pair
  pair x y h := by
    unfold pairDuel at h
    split_ifs at h
    exact duelOf_eq_some h

omit [PairConfidence] in
theorem judges_row (now : Int) (db : LedgerDb) (row : ContradictionRow) :
    Judges ⟨db, row.factAId, row.factBId, (db.resolveRow now row).1⟩ .superseded
      (verdict db row) where
  unverifies := by decide
  base := LedgerDb.resolveRow_base now db row
  pair _ _ := verdict_eq_some

/-- **The automatic steps of an event leave the other fact of each pair if and only if the event
spares the winners.** -/
theorem pairSteps_oneStays_iff (db : LedgerDb) (event : LedgerEvent) :
    (∀ s ∈ db.pairSteps event, s.OneStays) ↔ db.SparesWinners event := by
  cases event with
  | insert statement source scope now =>
    unfold LedgerDb.pairSteps LedgerDb.SparesWinners LedgerDb.begun LedgerDb.duels
    dsimp only
    cases db.asserted statement source scope now with
    | error e => simp [spares_nil]
    | ok r =>
      obtain ⟨db', id⟩ := r
      dsimp only
      cases db'.comparedBy id with
      | none => simp [spares_nil]
      | some compared =>
        obtain ⟨fact, peers⟩ := compared
        exact forall_oneStays_iff (peerKnockout fact now) rfl (fun peer => (fact.id, peer.id))
          (judges_peer fact now) db' peers
  | scan now =>
    exact forall_oneStays_iff (pairKnockout now) rfl (fun pair => (pair.1.id, pair.2.id))
      (judges_pair now) db (allPairs db.verified)
  | resolve now =>
    exact forall_oneStays_iff (rowKnockout now) rfl (fun row => (row.factAId, row.factBId))
      (judges_row now) db db.pendingRows

variable {s : PairStep} {event : LedgerEvent}

theorem pairSteps_judge {db : LedgerDb} (h : s ∈ db.pairSteps event) :
    ∃ state duel, Judges s state duel := by
  cases event with
  | insert statement source scope now =>
    unfold LedgerDb.pairSteps at h
    dsimp only at h
    cases hasserted : db.asserted statement source scope now with
    | error e => simp [hasserted] at h
    | ok r =>
      obtain ⟨db', id⟩ := r
      rw [hasserted] at h
      dsimp only at h
      cases hcompared : db'.comparedBy id with
      | none => simp [hcompared] at h
      | some compared =>
        obtain ⟨fact, peers⟩ := compared
        rw [hcompared] at h
        obtain ⟨⟨s₁, peer, s₂⟩, hmem, rfl⟩ := List.mem_map.mp h
        obtain ⟨-, -, -, -, rfl⟩ := mem_trail_iff.mp hmem
        exact ⟨_, _, judges_peer fact now s₁ peer⟩
  | scan now =>
    obtain ⟨⟨s₁, pair, s₂⟩, hmem, rfl⟩ := List.mem_map.mp h
    obtain ⟨-, -, -, -, rfl⟩ := mem_trail_iff.mp hmem
    exact ⟨_, _, judges_pair now s₁ pair⟩
  | resolve now =>
    obtain ⟨⟨s₁, row, s₂⟩, hmem, rfl⟩ := List.mem_map.mp h
    obtain ⟨-, -, -, -, rfl⟩ := mem_trail_iff.mp hmem
    exact ⟨_, _, judges_row now s₁ row⟩

/-- What is not verified is not touched. -/
theorem pairSteps_keep {db : LedgerDb} (h : s ∈ db.pairSteps event)
    (hfact : fact ∈ s.before.base.facts)
    (hstate : fact.factState ≠ .verified) : fact ∈ s.after.base.facts := by
  obtain ⟨state, duel, hjudges⟩ := pairSteps_judge h
  rw [hjudges.base]
  exact mem_knockedOut hfact hstate

end

/-! ## A second scan -/

namespace FactDb

/-- The facts of `db`, of which some are not verified any more. -/
def Dims (db db' : FactDb) : Prop :=
  ∃ g : GroundTruth → GroundTruth, db'.facts.rows = db.facts.rows.map g ∧
    ∀ fact, (g fact).assertedAt = fact.assertedAt ∧ (g fact).revokedAt = fact.revokedAt ∧
      ((g fact).factState = .verified → g fact = fact)

theorem Dims.refl (db : FactDb) : Dims db db :=
  ⟨id, by simp, fun _ => ⟨rfl, rfl, fun _ => rfl⟩⟩

theorem Dims.trans {db₁ db₂ db₃ : FactDb} (h : Dims db₁ db₂) (h' : Dims db₂ db₃) :
    Dims db₁ db₃ := by
  obtain ⟨g, hrows, hg⟩ := h
  obtain ⟨g', hrows', hg'⟩ := h'
  refine ⟨g' ∘ g, by rw [hrows', hrows, List.map_map], fun fact => ⟨?_, ?_, fun hverified => ?_⟩⟩
  · exact (hg' (g fact)).1.trans (hg fact).1
  · exact (hg' (g fact)).2.1.trans (hg fact).2.1
  · have hsame : g' (g fact) = g fact := (hg' (g fact)).2.2 hverified
    have hverified' : (g fact).factState = .verified := by
      rw [← hsame]
      exact hverified
    exact hsame.trans ((hg fact).2.2 hverified')

theorem dims_flag (db : FactDb) (id : Nat) {state : FactState} (hstate : state ≠ .verified) :
    Dims db (db.flag id state) := by
  refine ⟨_, rfl, fun fact => ?_⟩
  split_ifs
  · exact ⟨rfl, rfl, fun hverified => absurd hverified hstate⟩
  · exact ⟨rfl, rfl, fun _ => rfl⟩

/-- What a recall still shows as verified, it has shown before. -/
theorem Dims.surfaced {db db' : FactDb} (h : Dims db db') (limit : Nat) :
    ((db'.surfaceForRecall limit true).filter fun fact => fact.factState = .verified).Sublist
      ((db.surfaceForRecall limit true).filter fun fact => fact.factState = .verified) := by
  obtain ⟨g, hrows, hg⟩ := h
  have hactive : (db'.facts.rows.filter fun fact => fact.revokedAt.isNone &&
      (true || fact.factState = .verified)) =
      (db.facts.rows.filter fun fact => fact.revokedAt.isNone &&
        (true || fact.factState = .verified)).map g := by
    rw [hrows, List.filter_map]
    congr 1
    refine List.filter_congr fun fact _ => ?_
    simp [(hg fact).2.1]
  have hwindow : db'.surfaceForRecall limit true = (db.surfaceForRecall limit true).map g := by
    unfold surfaceForRecall
    have hsort : ∀ l : List GroundTruth,
        (l.insertionSort fun a b => b.assertedAt ≤ a.assertedAt).map g =
        (l.map g).insertionSort fun a b => b.assertedAt ≤ a.assertedAt := fun l =>
      List.map_insertionSort _ _ g l fun a _ b _ => by rw [(hg a).1, (hg b).1]
    rw [hactive, List.map_take, hsort]
  rw [hwindow, List.filter_map]
  have hsame : ((db.surfaceForRecall limit true).filter
      ((fun fact => decide (fact.factState = .verified)) ∘ g)).map g =
        (db.surfaceForRecall limit true).filter
          ((fun fact => decide (fact.factState = .verified)) ∘ g) := by
    refine List.map_congr_left (g := id) (fun fact hfact => ?_) |>.trans (List.map_id _)
    exact (hg fact).2.2 (by simpa using (List.mem_filter.mp hfact).2)
  rw [hsame]
  refine List.monotone_filter_right _ fun fact hverified => ?_
  have hverified' : (g fact).factState = .verified := by simpa using hverified
  rw [(hg fact).2.2 hverified'] at hverified'
  simpa using hverified'

end FactDb

namespace LedgerDb

/-- The pair has a row. -/
def Recorded (db : LedgerDb) (a b : GroundTruth) : Prop :=
  ∃ row ∈ db.ledger, row.pair = if a.id < b.id then (a.id, b.id) else (b.id, a.id)

variable {a b : GroundTruth}

theorem Recorded.recordPair {db : LedgerDb} (h : db.Recorded a b) (c d : GroundTruth)
    (signal : PairSignal) (now : Int) : (db.recordPair c d signal now).1.Recorded a b := by
  obtain ⟨row, hrow, hpair⟩ := h
  refine ⟨row, ?_, hpair⟩
  unfold LedgerDb.recordPair
  generalize (if c.id < d.id then (c.id, d.id) else (d.id, c.id)) = pair
  dsimp only
  split
  · split
    · rename_i ledger hinsert
      exact (Table.mem_insert hinsert).mpr (.inl hrow)
    · exact hrow
  · exact hrow

theorem recorded_recordPair (db : LedgerDb) (hne : a.id ≠ b.id) (signal : PairSignal) (now : Int) :
    (db.recordPair a b signal now).1.Recorded a b := by
  unfold LedgerDb.recordPair Recorded
  have hordered : (if a.id < b.id then (a.id, b.id) else (b.id, a.id)).1 <
      (if a.id < b.id then (a.id, b.id) else (b.id, a.id)).2 := by
    split_ifs with hlt
    · exact hlt
    · exact lt_of_le_of_ne (not_lt.mp hlt) hne.symm
  generalize (if a.id < b.id then (a.id, b.id) else (b.id, a.id)) = pair at hordered ⊢
  dsimp only
  rw [dif_pos hordered]
  cases hinsert : db.ledger.insert ⟨db.nextLedgerId, pair.1, pair.2, hordered, now, none,
    .pending⟩ with
  | some ledger => exact ⟨_, (Table.mem_insert hinsert).mpr (.inr rfl), rfl⟩
  | none =>
    by_contra hnone
    obtain ⟨ledger, hsome⟩ := @Table.exists_insert _ _ _ _ db.ledger
      ⟨db.nextLedgerId, pair.1, pair.2, hordered, now, none, .pending⟩ fun row hrow hkey =>
        hnone ⟨row, hrow, hkey⟩
    rw [hinsert] at hsome
    cases hsome

variable {signal : PairSignal}

/-- A pair that has a row, and whose loser is out, changes nothing. -/
theorem recordPair_eq_self {db : LedgerDb} (hrecorded : db.Recorded a b)
    (hout : signal.negation = true → ¬ db.base.trusts (loserId a b)) (now : Int) :
    db.recordPair a b signal now = (db, false) := by
  have hbase : db.base.recordPair a b signal = db.base := by
    rw [FactDb.recordPair_eq_flag]
    split_ifs with hnegation
    · exact FactDb.flag_eq_self (hout hnegation)
    · rfl
  obtain ⟨row, hrow, hpair⟩ := hrecorded
  unfold LedgerDb.recordPair
  generalize (if a.id < b.id then (a.id, b.id) else (b.id, a.id)) = pair at hpair ⊢
  dsimp only
  rw [hbase]
  split
  · rename_i hordered
    have hinsert : db.ledger.insert ⟨db.nextLedgerId, pair.1, pair.2, hordered, now, none,
        .pending⟩ = none :=
      Table.insert_eq_none hrow hpair
    rw [hinsert]
  · rfl

variable [PairConfidence]

theorem scanContradictions_fst (db : LedgerDb) (now : Int) :
    (db.scanContradictions now).1 = (allPairs db.verified).foldl (pairKnockout now).step db := by
  unfold scanContradictions
  exact (List.foldl_hom Prod.fst fun _ _ => rfl).symm

/-- A scan that finds nothing new. -/
theorem scanContradictions_eq_self {db : LedgerDb} {now : Int}
    (h : ∀ pair ∈ allPairs db.verified, db.comparePair now pair = (db, false)) :
    db.scanContradictions now = (db, 0) := by
  refine foldl_eq_self fun pair hpair => ?_
  dsimp only
  rw [h pair hpair]
  rfl

omit [PairConfidence] in
theorem nodup_verified (db : LedgerDb) : (db.verified.map GroundTruth.id).Nodup := by
  unfold verified FactDb.surfaceForRecall
  have hsorted : ((db.base.facts.rows.filter fun fact =>
      fact.revokedAt.isNone && (true || fact.factState = .verified)).insertionSort
        fun a b => b.assertedAt ≤ a.assertedAt).map GroundTruth.id |>.Nodup := by
    rw [((List.perm_insertionSort _ _).map _).nodup_iff]
    exact (List.filter_sublist.map _).nodup db.base.facts.nodup
  exact ((List.filter_sublist.trans (List.take_sublist _ _)).map _).nodup hsorted

theorem Recorded.foldl {db : LedgerDb} (h : db.Recorded a b) (now : Int)
    (pairs : List (GroundTruth × GroundTruth)) :
      (pairs.foldl (pairKnockout now).step db).Recorded a b := by
  induction pairs generalizing db with
  | nil => exact h
  | cons pair pairs ih =>
    refine ih ?_
    unfold pairKnockout comparePair
    dsimp only
    split_ifs
    · exact h
    · split
      · exact h.recordPair _ _ _ _
      · exact h

theorem dims_scan (db : LedgerDb) (now : Int) :
    FactDb.Dims db.base (db.scanContradictions now).1.base := by
  rw [scanContradictions_fst]
  generalize allPairs db.verified = pairs
  induction pairs generalizing db with
  | nil => exact .refl _
  | cons pair pairs ih =>
    refine FactDb.Dims.trans ?_ (ih _)
    unfold pairKnockout
    dsimp only
    rw [comparePair_base]
    cases pairDuel pair with
    | none => exact .refl _
    | some d => exact FactDb.dims_flag _ _ (by decide)

/-- A scan has recorded each pair that it has compared, and no loser of one is trusted any more. -/
theorem compared_by_scan {db : LedgerDb} {now : Int} (hpair : (a, b) ∈ allPairs db.verified)
    (hscope : a.scope = b.scope)
    (hsignal : PairConfidence.pairConfidence a.statement b.statement = some signal) :
    (db.scanContradictions now).1.Recorded a b ∧
      (signal.negation = true → ¬ (db.scanContradictions now).1.base.trusts (loserId a b)) := by
  rw [scanContradictions_fst]
  constructor
  · have hne : a.id ≠ b.id := by
      have hnodup := db.nodup_verified
      rw [List.Nodup, List.pairwise_map] at hnodup
      exact pairwise_iff_allPairs.mp hnodup (a, b) hpair
    obtain ⟨before, after, hsplit⟩ := List.append_of_mem hpair
    rw [hsplit, List.foldl_append, List.foldl_cons]
    refine Recorded.foldl ?_ now after
    unfold pairKnockout comparePair
    dsimp only
    rw [if_neg (not_not.mpr hscope), hsignal]
    exact recorded_recordPair _ hne _ _
  · intro hnegation htrusts
    have halive :=
      ((pairKnockout now).alive_foldl db (allPairs db.verified) (loserId a b)).mp htrusts
    have hduel : pairDuel (a, b) = some (loserId a b, winnerId a b) := by
      unfold pairDuel duelOf
      rw [if_neg (not_not.mpr hscope), hsignal]
      exact if_pos hnegation
    exact halive.2 (a, b) hpair _ hduel rfl

/-- **A scan leaves nothing for a second one.** -/
theorem scan_idem (db : LedgerDb) (now now' : Int) :
    (db.scanContradictions now).1.scanContradictions now' = ((db.scanContradictions now).1, 0) := by
  refine scanContradictions_eq_self fun pair hpair => ?_
  obtain ⟨a, b⟩ := pair
  have hbefore : (a, b) ∈ allPairs db.verified :=
    (allPairs_sublist ((db.dims_scan now).surfaced maxScanned)).subset hpair
  unfold comparePair
  dsimp only
  by_cases hscope : a.scope = b.scope
  · rw [if_neg (not_not.mpr hscope)]
    cases hsignal : PairConfidence.pairConfidence a.statement b.statement with
    | none => rfl
    | some signal =>
      obtain ⟨hrecorded, hout⟩ := compared_by_scan hbefore hscope hsignal
      exact recordPair_eq_self hrecorded hout now'
  · exact if_pos hscope

/-! ## The facts alone -/

theorem comparePeer_refines (fact : GroundTruth) (now : Int) (db : LedgerDb) (peer : GroundTruth) :
    (comparePeer fact now db peer).base = FactDb.comparePeer fact db.base peer := by
  unfold comparePeer FactDb.comparePeer
  split_ifs
  · rfl
  · cases PairConfidence.pairConfidence fact.statement peer.statement with
    | none => rfl
    | some signal => exact recordPair_base ..

theorem detectContradictionsFor_refines (db : LedgerDb) (id : Nat) (now : Int) :
    (db.detectContradictionsFor id now).base = db.base.detectContradictionsFor id := by
  have hpeers : ∀ (fact : GroundTruth) (peers : List GroundTruth) (db : LedgerDb),
      (peers.foldl (comparePeer fact now) db).base =
        peers.foldl (FactDb.comparePeer fact) db.base := by
    intro fact peers
    induction peers with
    | nil => exact fun _ => rfl
    | cons peer peers ih =>
      intro db
      rw [List.foldl_cons, List.foldl_cons, ih, comparePeer_refines]
  unfold detectContradictionsFor FactDb.detectContradictionsFor comparedBy
  cases db.base.facts.find id with
  | none => rfl
  | some fact =>
    dsimp only
    split_ifs
    · exact hpeers ..
    · rfl

/-- To the facts, an assertion is what it is without the ledger. -/
theorem insert_refines (db : LedgerDb) (statement : String) (source : Source) (scope : String)
    (now : Int) : (db.insert statement source scope now).map (fun r => (r.1.base, r.2)) =
      db.base.insert statement source scope now := by
  unfold insert asserted FactDb.insert
  cases hstatement : require (trim statement != "") "ground-truth statement must be non-empty" with
  | error e => simp [hstatement, bind, Except.bind, Except.map]
  | ok u =>
    cases hassert : db.base.assertFact (trim statement) source scope now with
    | error e => simp [hstatement, hassert, bind, Except.bind, Except.map]
    | ok r =>
      simp [hstatement, hassert, bind, Except.bind, Except.map, detectContradictionsFor_refines]

end LedgerDb

/-! ## Runs -/

section
variable [PairConfidence] [StatementSimilarity]

theorem forall_automaticSteps_iff {P : PairStep → Prop} {db : LedgerDb}
    {events : List LedgerEvent} :
    (∀ s ∈ db.automaticSteps events, P s) ↔ ∀ before event later,
      events = before ++ event :: later →
      ∀ s ∈ (db.after before).pairSteps event, P s := by
  induction events generalizing db with
  | nil => simp [LedgerDb.automaticSteps]
  | cons event events ih =>
    rw [LedgerDb.automaticSteps, List.forall_mem_append, ih]
    constructor
    · rintro ⟨hhead, htail⟩ before event' later hevents
      cases before with
      | nil =>
        rw [List.nil_append, List.cons.injEq] at hevents
        obtain ⟨rfl, rfl⟩ := hevents
        exact hhead
      | cons first before =>
        rw [List.cons_append, List.cons.injEq] at hevents
        obtain ⟨rfl, hevents⟩ := hevents
        exact htail before event' later hevents
    · intro h
      exact ⟨h [] event events rfl, fun before event' later hevents =>
        h (event :: before) event' later (by rw [hevents]; rfl)⟩

/-- **In a run, the other fact of each pair stays if and only if every event of the run spares the
winners.  No automatic step touches a fact in a terminal state, no pair of facts has two rows, and a
scan leaves nothing for a second one.** -/
theorem resolution_iff (db : LedgerDb) (events : List LedgerEvent) :
    ((∀ s ∈ db.automaticSteps events, s.OneStays) ↔ ∀ before event later,
      events = before ++ event :: later →
      (db.after before).SparesWinners event) ∧
    (∀ s ∈ db.automaticSteps events, ∀ fact ∈ s.before.base.facts,
      fact.factState.isTerminal = true →
      fact ∈ s.after.base.facts) ∧
    (∀ row ∈ (db.after events).ledger, ∀ row' ∈ (db.after events).ledger,
      (row.factAId = row'.factAId ∧ row.factBId = row'.factBId) ∨
        (row.factAId = row'.factBId ∧ row.factBId = row'.factAId) → row = row') ∧
    ∀ now now', ((db.after events).scanContradictions now).1.scanContradictions now' =
      (((db.after events).scanContradictions now).1, 0) := by
  refine ⟨?_, ?_, ?_, fun now now' => LedgerDb.scan_idem _ now now'⟩
  · rw [forall_automaticSteps_iff]
    simp only [pairSteps_oneStays_iff]
  · rw [forall_automaticSteps_iff]
    intro before event later _ s hs fact hfact hterminal
    refine pairSteps_keep hs hfact fun hverified => ?_
    rw [hverified] at hterminal
    cases hterminal
  · rintro row hrow row' hrow' (⟨ha, hb⟩ | ⟨ha, hb⟩)
    · exact Table.eq_of_key_eq hrow hrow' (Prod.ext ha hb)
    · have hlt := row.ordered
      have hlt' := row'.ordered
      omega

end

/-! ## Up, and not up -/

section

def sampleUp : String := "the vpn is up"

def sampleNotUp : String := "the vpn is not up"

/-- The two statements are opposites about one subject. -/
@[reducible] def sampleOpposites : PairConfidence where
  pairConfidence a b := if (a, b) = (sampleUp, sampleNotUp) ∨ (a, b) = (sampleNotUp, sampleUp)
    then some ⟨true⟩ else none

@[reducible] def sampleSimilarity : StatementSimilarity where
  semanticEquiv a b := a == b
  entitySame a b := (a == sampleUp || a == sampleNotUp) && (b == sampleUp || b == sampleNotUp)

attribute [local instance] sampleOpposites sampleSimilarity

/-- Two sources for the one, later one source for the other; then the batch. -/
def sampleFlips : List LedgerEvent :=
  [.insert sampleUp .operatorRuntime "net" 1, .insert sampleUp .onboarding "net" 2,
    .insert sampleNotUp .operatorRuntime "net" 3, .resolve 4]

/-- Detection hides the newer fact, which has fewer sources, and the batch the older one. -/
theorem both_sides_hidden :
    (LedgerDb.fresh.after sampleFlips).base.facts.rows.map (fun fact => (fact.id, fact.factState)) =
      [(1, .superseded), (2, .contradicted)] ∧
    ¬ ∀ s ∈ LedgerDb.fresh.automaticSteps sampleFlips, s.OneStays := by
  refine ⟨by decide +kernel, fun h => ?_⟩
  have hspares := (forall_automaticSteps_iff.mp h) (sampleFlips.take 3) (.resolve 4) [] rfl
  rw [pairSteps_oneStays_iff] at hspares
  have hduels : (LedgerDb.fresh.after (sampleFlips.take 3)).duels (.resolve 4) = [(1, 2)] := by
    decide +kernel
  have holder : (LedgerDb.fresh.after (sampleFlips.take 3)).base.trusts 1 := by
    unfold FactDb.trusts
    simp only [← Table.mem_rows]
    decide +kernel
  have hnewer : ¬ (LedgerDb.fresh.after (sampleFlips.take 3)).base.trusts 2 := by
    unfold FactDb.trusts
    simp only [← Table.mem_rows]
    decide +kernel
  unfold LedgerDb.SparesWinners at hspares
  rw [hduels, spares_cons] at hspares
  exact hnewer (hspares.1 holder).1

end

end Neoth.Memory
