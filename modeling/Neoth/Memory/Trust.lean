import Neoth.Memory.GroundTruth

/-!
# Trust in ground truth

What an assertion does to the facts, and which assertions make a fact verified.

* `Moved`: what the scan and the backlinks do to a fact;
* `Origin`: where a fact comes from after an assertion;
* `Known`: what the fields of a fact say of the assertions so far;
* `ground_truth_trust`: verified only after three sources, unless the operator or the release has
  spoken;
* `verified_by_two_sources`: one source that repeats itself, and a second one.
-/

open Lib Lib.Encoding Lib.Transaction

namespace Neoth.Memory

/-! ## What a scan does -/

/-- A fact after a scan or with new backlinks: a verified one may have been flagged. -/
structure Moved (fact fact' : GroundTruth) : Prop where
  id : fact'.id = fact.id
  statement : fact'.statement = fact.statement
  scope : fact'.scope = fact.scope
  revokedAt : fact'.revokedAt = fact.revokedAt
  sourceWeight : fact'.sourceWeight = fact.sourceWeight
  confidence : fact'.confidence = fact.confidence
  confirmedCount : fact'.confirmedCount = fact.confirmedCount
  state : fact'.factState = fact.factState ∨
    (fact.factState = .verified ∧ fact'.factState = .contradicted)

theorem Moved.refl (fact : GroundTruth) : Moved fact fact :=
  ⟨rfl, rfl, rfl, rfl, rfl, rfl, rfl, .inl rfl⟩

theorem Moved.trans {fact fact' fact'' : GroundTruth} (h : Moved fact fact')
    (h' : Moved fact' fact'') : Moved fact fact'' := by
  refine ⟨h'.id.trans h.id, h'.statement.trans h.statement, h'.scope.trans h.scope,
    h'.revokedAt.trans h.revokedAt, h'.sourceWeight.trans h.sourceWeight,
    h'.confidence.trans h.confidence, h'.confirmedCount.trans h.confirmedCount, ?_⟩
  rcases h'.state with hsame' | ⟨hverified', hflagged'⟩
  · rw [hsame']
    exact h.state
  · rcases h.state with hsame | ⟨-, hflagged⟩
    · exact .inr ⟨hsame ▸ hverified', hflagged'⟩
    · rw [hflagged] at hverified'
      cases hverified'

theorem Moved.matches_ {fact fact' : GroundTruth} (h : Moved fact fact')
    (statement scope : String) :
    fact'.matches_ statement scope = fact.matches_ statement scope := by
  simp only [GroundTruth.matches_, h.statement, h.scope, h.revokedAt]

variable {fact fact' : GroundTruth}

/-- A move does not verify a fact. -/
theorem Moved.of_verified (h : Moved fact fact') (hverified : fact'.factState = .verified) :
    fact.factState = .verified := by
  rcases h.state with hsame | ⟨-, hflagged⟩
  · exact hsame ▸ hverified
  · rw [hverified] at hflagged
    cases hflagged

theorem Moved.of_promotable (h : Moved fact fact')
    (hpromotable : fact'.factState.promotable = true) : fact'.factState = fact.factState := by
  rcases h.state with hsame | ⟨-, hflagged⟩
  · exact hsame
  · rw [hflagged] at hpromotable
    cases hpromotable

def FactsFrom (db db' : FactDb) : Prop :=
  ∀ fact' ∈ db'.facts, ∃ fact ∈ db.facts, Moved fact fact'

theorem FactsFrom.refl (db : FactDb) : FactsFrom db db :=
  fun fact hfact => ⟨fact, hfact, .refl fact⟩

theorem FactsFrom.trans {db₁ db₂ db₃ : FactDb} (h : FactsFrom db₁ db₂) (h' : FactsFrom db₂ db₃) :
    FactsFrom db₁ db₃ := by
  intro fact'' hfact''
  obtain ⟨fact', hfact', hmoved'⟩ := h' fact'' hfact''
  obtain ⟨fact, hfact, hmoved⟩ := h fact' hfact'
  exact ⟨fact, hfact, hmoved.trans hmoved'⟩

theorem recordPair_from (db : FactDb) (a b : GroundTruth) (signal : PairSignal) :
    FactsFrom db (db.recordPair a b signal) := by
  unfold FactDb.recordPair
  split
  · split
    · rename_i loser hfind
      split
      · rename_i hflag
        simp only [Bool.and_eq_true, decide_eq_true_eq] at hflag
        obtain ⟨hloser, hid⟩ := Table.find_eq_some_iff.mp hfind
        intro fact' hfact'
        simp only [FactDb.setFactState, Table.mem_update] at hfact'
        obtain ⟨fact, hfact, rfl⟩ := hfact'
        refine ⟨fact, hfact, ?_⟩
        split
        · rename_i hselected
          cases Table.eq_of_key_eq hfact hloser ((beq_iff_eq.mp hselected).trans hid.symm)
          exact ⟨rfl, rfl, rfl, rfl, rfl, rfl, rfl, .inr ⟨hflag.2, rfl⟩⟩
        · exact .refl fact
      · exact .refl db
    · exact .refl db
  · exact .refl db

theorem comparePeer_from [PairConfidence] (fact : GroundTruth) (db : FactDb) (peer : GroundTruth) :
    FactsFrom db (FactDb.comparePeer fact db peer) := by
  unfold FactDb.comparePeer
  split
  · exact .refl db
  · split
    · exact recordPair_from db fact peer _
    · exact .refl db

theorem detectContradictionsFor_from [PairConfidence] (db : FactDb) (id : Nat) :
    FactsFrom db (db.detectContradictionsFor id) := by
  have hpeers : ∀ (fact : GroundTruth) (peers : List GroundTruth) (db : FactDb),
      FactsFrom db (peers.foldl (FactDb.comparePeer fact) db) := by
    intro fact peers
    induction peers with
    | nil => exact FactsFrom.refl
    | cons peer peers ih => exact fun db => (comparePeer_from fact db peer).trans (ih _)
  unfold FactDb.detectContradictionsFor
  split
  · split
    · exact hpeers _ _ db
    · exact .refl db
  · exact .refl db

variable {db db' : FactDb}

theorem recordEvidenceBatch_from {factId : Nat} {episodeIds : List Int}
    (h : db.recordEvidenceBatch factId episodeIds = .ok db') : FactsFrom db db' := by
  simp only [FactDb.recordEvidenceBatch, bind_eq_ok_iff] at h
  obtain ⟨_, -, fact, -, ids, -, ids', -, h⟩ := h
  cases h
  intro fact' hfact'
  simp only [Table.mem_update] at hfact'
  obtain ⟨fact, hfact, rfl⟩ := hfact'
  refine ⟨fact, hfact, ?_⟩
  split
  · exact ⟨rfl, rfl, rfl, rfl, rfl, rfl, rfl, .inl rfl⟩
  · exact .refl fact

/-! ## Where facts come from -/

/-- A fact after an assertion: one from before, the one that is corroborated, or a new one. -/
inductive Origin (db : FactDb) (statement : String) (source : Source) (scope : String)
    (fact' : GroundTruth) : Prop
  | kept {fact : GroundTruth} (hfact : fact ∈ db.facts) (hmoved : Moved fact fact')
  | corroborated {fact : GroundTruth} {weights : SourceWeights} (hfact : fact ∈ db.facts)
      (hmatches : fact.matches_ statement scope = true)
      (hweights : fact.sourceWeight = some weights)
      (hmoved : Moved (fact.corroborated weights source) fact')
  | asserted {now : Int} (hfresh : ∀ fact ∈ db.facts, fact.matches_ statement scope = false)
      (hid : ∀ fact ∈ db.facts, fact.id ≠ db.nextId)
      (hmoved : Moved (.asserted db.nextId statement source scope now) fact')

theorem Origin.moved {db : FactDb} {statement : String} {source : Source} {scope : String}
    {fact' fact'' : GroundTruth}
    (h : Origin db statement source scope fact') (hmoved : Moved fact' fact'') :
    Origin db statement source scope fact'' := by
  cases h with
  | kept hfact hbefore => exact .kept hfact (hbefore.trans hmoved)
  | corroborated hfact hmatches hweights hbefore =>
    exact .corroborated hfact hmatches hweights (hbefore.trans hmoved)
  | asserted hfresh hid hbefore => exact .asserted hfresh hid (hbefore.trans hmoved)

variable {scope statement : String} {source : Source} {now : Int} {id : Nat}

theorem assertFact_spec (h : db.assertFact statement source scope now = .ok (db', id)) :
    ∀ fact' ∈ db'.facts, Origin db statement source scope fact' := by
  intro fact' hfact'
  unfold FactDb.assertFact at h
  split at h
  · rename_i fact hactive
    simp only [bind_eq_ok_iff, context_eq_ok_iff] at h
    obtain ⟨weights, hweights, h⟩ := h
    cases h
    simp only [Table.mem_update] at hfact'
    obtain ⟨other, hother, rfl⟩ := hfact'
    have hfact : fact ∈ db.facts := List.mem_of_find?_eq_some hactive
    split
    · rename_i hselected
      cases Table.eq_of_key_eq hother hfact (beq_iff_eq.mp hselected)
      have hmatches : fact.matches_ statement scope = true :=
        List.find?_some (p := fun fact : GroundTruth => fact.matches_ statement scope) hactive
      exact .corroborated hfact hmatches hweights (.refl _)
    · exact .kept hother (.refl other)
  · rename_i hnone
    simp only [bind_eq_ok_iff, context_eq_ok_iff] at h
    obtain ⟨facts, hinsert, h⟩ := h
    cases h
    rcases (Table.mem_insert hinsert).mp hfact' with hold | rfl
    · exact .kept hold (.refl fact')
    · refine @Origin.asserted _ _ _ _ _ now (fun fact hfact => ?_) (Table.insert_eq_some hinsert).1
        (.refl _)
      exact Bool.eq_false_iff.mpr (List.find?_eq_none.mp hnone fact hfact)

theorem insert_spec [PairConfidence] (h : db.insert statement source scope now = .ok (db', id)) :
    ∀ fact' ∈ db'.facts, Origin db (trim statement) source scope fact' := by
  simp only [FactDb.insert, bind_eq_ok_iff] at h
  obtain ⟨_, -, ⟨mid, id'⟩, hassert, h⟩ := h
  cases h
  intro fact' hfact'
  obtain ⟨fact, hfact, hmoved⟩ := detectContradictionsFor_from mid id' fact' hfact'
  exact (assertFact_spec hassert fact hfact).moved hmoved

theorem insertWithEvidence_spec [PairConfidence] {episodeIds : List Int}
    (h : db.insertWithEvidence statement source scope now episodeIds = .ok (db', id)) :
    ∀ fact' ∈ db'.facts, Origin db (trim statement) source scope fact' := by
  simp only [FactDb.insertWithEvidence, bind_eq_ok_iff] at h
  obtain ⟨_, -, ⟨mid, id'⟩, hinsert, db'', hevidence, h⟩ := h
  cases h
  intro fact' hfact'
  obtain ⟨fact, hfact, hmoved⟩ := recordEvidenceBatch_from hevidence fact' hfact'
  exact (insert_spec hinsert fact hfact).moved hmoved

/-- What an event asserts: the trimmed statement, its source and scope. -/
def FactEvent.asserts : FactEvent → Option (String × Source × String)
  | .insert statement source scope _ => some (trim statement, source, scope)
  | .insertWithEvidence statement source scope _ _ => some (trim statement, source, scope)
  | _ => none

/-- Everything an event can do. -/
inductive FactStep (db : FactDb) : FactEvent → FactAnswer → FactDb → Prop
  | asserted {event : FactEvent} {statement : String} {source : Source} {scope : String} {id : Nat}
      {db' : FactDb} (hasserts : event.asserts = some (statement, source, scope))
      (horigin : ∀ fact' ∈ db'.facts, Origin db statement source scope fact') :
        FactStep db event (.asserted id) db'
  | failed {event : FactEvent} {e : String} : FactStep db event (.failed e) db
  | moved (id : Nat) (state : FactState) :
    FactStep db (.setFactState id state) .quiet (db.setFactState id state)
  | revoked (id : Nat) (now : Int) : FactStep db (.revoke id now) .quiet (db.revoke id now)
  | tiers (episodes : List Int) :
    FactStep db (.tiers episodes) .quiet { db with episodes := episodes }

theorem FactDb.step_spec [PairConfidence] (db : FactDb) (event : FactEvent) :
    FactStep db event (db.step event).2 (db.step event).1 := by
  cases event with
  | insert statement source scope now =>
    simp only [FactDb.step]
    cases h : db.insert statement source scope now with
    | ok r => exact .asserted rfl (insert_spec h)
    | error e => exact .failed
  | insertWithEvidence statement source scope now episodeIds =>
    simp only [FactDb.step]
    cases h : db.insertWithEvidence statement source scope now episodeIds with
    | ok r => exact .asserted rfl (insertWithEvidence_spec h)
    | error e => exact .failed
  | setFactState id state => exact .moved id state
  | revoke id now => exact .revoked id now
  | tiers episodes => exact .tiers episodes

/-! ## Sources -/

/-- The operator, or the release on its own identity. -/
def Source.isTrusted (source : Source) : Bool :=
  source.isOperatorAttested || source == .releaseBuildIdentity

def SourceWeights.has (weights : SourceWeights) (source : Source) : Bool :=
  weights.rows.any (·.1 == source.asStr)

variable {weights : SourceWeights}

theorem SourceWeights.has_iff : weights.has source = true ↔ ∃ entry ∈ weights,
    entry.1 = source.asStr := by
  simp [SourceWeights.has, Table.mem_rows]

theorem SourceWeights.mem_bump {source : String} {entry : String × Nat}
    (h : entry ∈ weights.bump source) : entry.1 = source ∨ entry ∈ weights := by
  rcases Table.mem_put.mp h with rfl | ⟨hold, -⟩
  · exact .inl rfl
  · exact .inr hold

theorem SourceWeights.key_mem_bump {weights : SourceWeights} {source : String}
    {entry : String × Nat}
    (h : entry ∈ weights) : ∃ entry' ∈ weights.bump source, entry'.1 = entry.1 := by
  by_cases hkey : entry.1 = source
  · exact ⟨_, Table.mem_put.mpr (.inl rfl), hkey.symm⟩
  · exact ⟨entry, Table.mem_put.mpr (.inr ⟨h, hkey⟩), rfl⟩

theorem SourceWeights.len_le_one {source : String} (h : ∀ entry ∈ weights, entry.1 = source) :
    weights.len ≤ 1 := by
  have hcount : weights.count (fun entry => entry.1 == source) = weights.len :=
    List.countP_eq_length.mpr fun entry hentry => beq_iff_eq.mpr (h entry hentry)
  rw [← hcount]
  exact Table.count_le_one fun _ hkey => beq_iff_eq.mp hkey

theorem SourceWeights.len_le_bump (weights : SourceWeights) (source : String) :
    weights.len ≤ (weights.bump source).len := by
  have hsub : weights.rows.map Prod.fst ⊆ (weights.bump source).rows.map Prod.fst := by
    intro key hkey
    obtain ⟨entry, hentry, rfl⟩ := List.mem_map.mp hkey
    obtain ⟨entry', hentry', hsame⟩ := @key_mem_bump _ source _ hentry
    exact List.mem_map.mpr ⟨entry', hentry', hsame⟩
  have hle := (weights.nodup.subperm hsub).length_le
  rwa [List.length_map, List.length_map] at hle

/-- An unattested source that is alone does not verify a fact. -/
theorem promoted_alone (hunattested : source.isOperatorAttested = false)
    (h : ∀ entry ∈ weights, entry.1 = source.asStr) (hraw : fact.factState ≠ .raw) :
    fact.promoted (weights.bump source.asStr) source = fact.factState := by
  have hone : (weights.bump source.asStr).len ≤ 1 :=
    SourceWeights.len_le_one fun entry hentry => (SourceWeights.mem_bump hentry).elim id (h entry)
  have hgate : decide (corroborationThreshold ≤ (weights.bump source.asStr).len) = false := by
    rw [decide_eq_false_iff_not, corroborationThreshold]
    omega
  simp only [GroundTruth.promoted, hunattested, hgate, Bool.false_and, Bool.or_false,
    Bool.and_false, Bool.false_eq_true, if_false, hraw, false_and]

theorem promoted_of_not_promotable (h : fact.factState.promotable = false) :
    fact.promoted weights source = fact.factState := by
  have hraw : fact.factState ≠ .raw := fun hraw => by
    rw [hraw] at h
    cases h
  simp only [GroundTruth.promoted, h, Bool.false_and, Bool.false_eq_true, if_false, hraw, false_and]

/-- How a fact gets verified. -/
theorem verified_of_promoted (h : fact.promoted weights source = .verified) :
    fact.factState = .verified ∨
      (fact.factState.promotable = true ∧ (source.isOperatorAttested = true ∨
        (2 ≤ weights.len ∧ promotionConfidenceThreshold ≤ bumpConfidence fact.confidence))) := by
  by_cases hpromotable : fact.factState.promotable = true
  · simp only [GroundTruth.promoted] at h
    split at h
    · rename_i hgates
      simp only [Bool.and_eq_true, Bool.or_eq_true, decide_eq_true_eq] at hgates
      exact .inr ⟨hpromotable, hgates.2⟩
    · split at h
      · cases h
      · exact .inl h
  · rw [promoted_of_not_promotable (Bool.eq_false_iff.mpr hpromotable)] at h
    exact .inl h

/-! ## Active facts -/

/-- No two active facts have the same statement and scope. -/
def OneActive (db : FactDb) : Prop :=
  ∀ statement scope, ∀ fact ∈ db.facts, ∀ other ∈ db.facts, fact.matches_ statement scope = true →
    other.matches_ statement scope = true → fact = other

theorem OneActive.of_origin (h : OneActive db)
    (horigin : ∀ fact' ∈ db'.facts, Origin db statement source scope fact') : OneActive db' := by
  intro statement' scope' fact hfact other hother hmatches hmatches'
  refine Table.eq_of_key_eq hfact hother ?_
  have hbase : ∀ fact' : GroundTruth, Origin db statement source scope fact' →
      fact'.matches_ statement' scope' = true →
      (∃ base ∈ db.facts, fact'.id = base.id ∧ base.matches_ statement' scope' = true) ∨
        (fact'.id = db.nextId ∧ ∀ base ∈ db.facts, base.matches_ statement' scope' = false) := by
    intro fact' horigin hmatches
    cases horigin with
    | kept hfact hmoved => exact .inl ⟨_, hfact, hmoved.id, hmoved.matches_ .. ▸ hmatches⟩
    | corroborated hfact _ _ hmoved =>
      exact .inl ⟨_, hfact, hmoved.id, hmoved.matches_ .. ▸ hmatches⟩
    | asserted hfresh _ hmoved =>
      rw [hmoved.matches_] at hmatches
      simp only [GroundTruth.matches_, GroundTruth.asserted, Bool.and_eq_true,
        beq_iff_eq] at hmatches
      obtain ⟨⟨rfl, rfl⟩, -⟩ := hmatches
      exact .inr ⟨hmoved.id, hfresh⟩
  rcases hbase fact (horigin fact hfact) hmatches with ⟨base, hbase₁, hid, hold⟩ | ⟨hid, hnone⟩ <;>
    rcases hbase other (horigin other hother) hmatches' with ⟨base', hbase₂, hid',
      hold'⟩ | ⟨hid', hnone'⟩
  · rw [hid, hid', h statement' scope' base hbase₁ base' hbase₂ hold hold']
  · rw [hnone' base hbase₁] at hold
    cases hold
  · rw [hnone base' hbase₂] at hold'
    cases hold'
  · rw [hid, hid']

/-! ## The condition -/

/-- What an unattested source must not do to the fact that it corroborates: assert it again while it
is raw; or, while no trusted source has asserted it and it is unverified, be at least the third
assertion when there are only two sources. -/
def GroundTruth.distinguishes (fact : GroundTruth) (weights : SourceWeights) (source : Source) :
    Bool :=
  source.isOperatorAttested ||
    ((fact.factState != .raw || !weights.has source) &&
      (source.isTrusted || !fact.factState.promotable ||
        weights.rows.any (fun entry => entry.1 == Source.releaseBuildIdentity.asStr) ||
        fact.confirmedCount == 0 || (weights.bump source.asStr).len != 2))

/-- The event meets the condition. -/
def FactDb.distinguishes (db : FactDb) (event : FactEvent) : Bool :=
  match event.asserts with
  | some (statement, source, scope) =>
    db.facts.rows.all fun fact => !fact.matches_ statement scope ||
      fact.sourceWeight.all fun weights => fact.distinguishes weights source
  | none => true

variable {event : FactEvent}

theorem distinguishes_corroborated (h : db.distinguishes event = true)
    (hasserts : event.asserts = some (statement, source, scope)) (hfact : fact ∈ db.facts)
    (hmatches : fact.matches_ statement scope = true)
    (hweights : fact.sourceWeight = some weights) : fact.distinguishes weights source = true := by
  simp only [FactDb.distinguishes, hasserts, List.all_eq_true, Bool.or_eq_true,
    Bool.not_eq_true'] at h
  have hall := (h fact hfact).resolve_left (by rw [hmatches]; simp)
  rwa [hweights, Option.all_some] at hall

/-! ## What the operator and the sources have done -/

section History
variable [PairConfidence]

/-- In the course of the events the source has asserted the fact. -/
def Asserted (events : List FactEvent) (statement scope : String) (source : Source) : Prop :=
  ∃ before event later id, events = before ++ event :: later ∧
  event.asserts = some (statement, source, scope) ∧
    ((FactDb.after before).step event).2 = .asserted id

variable {events : List FactEvent}

theorem Asserted.append (h : Asserted events statement scope source) (more : List FactEvent) :
    Asserted (events ++ more) statement scope source := by
  obtain ⟨before, event, later, id, rfl, hasserts, hanswer⟩ := h
  exact ⟨before, event, later ++ more, id, by simp, hasserts, hanswer⟩

/-- The operator has moved the fact to the state. -/
def OperatorSet (events : List FactEvent) (id : Nat) (state : FactState) : Prop :=
  .setFactState id state ∈ events

/-- The sources from which a fact may be verified. -/
def Vouched (events : List FactEvent) (fact : GroundTruth) : Prop :=
  OperatorSet events fact.id .verified ∨
    (∃ source, source.isTrusted = true ∧ Asserted events fact.statement fact.scope source) ∨
    ∃ sources : List Source, sources.Nodup ∧ 3 ≤ sources.length ∧
      ∀ source ∈ sources, Asserted events fact.statement fact.scope source

/-- What the fields of a fact say of the events so far. -/
structure Known (events : List FactEvent) (fact : GroundTruth) : Prop where
  weights : ∃ weights, fact.sourceWeight = some weights ∧ ∀ entry ∈ weights, ∃ source : Source,
    source.asStr = entry.1 ∧ Asserted events fact.statement fact.scope source
  first : fact.confirmedCount = 0 → fact.confidence = 1 / 2
  attested : ∀ weights source, fact.sourceWeight = some weights → source.isOperatorAttested = true →
    weights.has source = true → fact.factState.promotable = true → ∃ state,
      OperatorSet events fact.id state
  verified : fact.factState = .verified → OperatorSet events fact.id .verified ∨
    (∃ source, source.isTrusted = true ∧ Asserted events fact.statement fact.scope source) ∨
    ∀ weights, fact.sourceWeight = some weights → 3 ≤ weights.len

theorem Known.append {events : List FactEvent} {fact : GroundTruth} (h : Known events fact)
    (more : List FactEvent) : Known (events ++ more) fact := by
  refine ⟨?_, h.first, ?_, ?_⟩
  · obtain ⟨weights, hweights, hentries⟩ := h.weights
    refine ⟨weights, hweights, fun entry hentry => ?_⟩
    obtain ⟨source, hsource, hasserted⟩ := hentries entry hentry
    exact ⟨source, hsource, hasserted.append more⟩
  · intro weights source hweights hattested hhas hpromotable
    obtain ⟨state, hset⟩ := h.attested weights source hweights hattested hhas hpromotable
    exact ⟨state, List.mem_append_left _ hset⟩
  · intro hverified
    rcases h.verified hverified with hset | ⟨source, htrusted, hasserted⟩ | hlen
    · exact .inl (List.mem_append_left _ hset)
    · exact .inr (.inl ⟨source, htrusted, hasserted.append more⟩)
    · exact .inr (.inr hlen)

theorem Known.moved {events : List FactEvent} {fact fact' : GroundTruth} (h : Known events fact)
    (hmoved : Moved fact fact') : Known events fact' := by
  refine ⟨?_, ?_, ?_, ?_⟩
  · rw [hmoved.sourceWeight, hmoved.statement, hmoved.scope]
    exact h.weights
  · rw [hmoved.confirmedCount, hmoved.confidence]
    exact h.first
  · intro weights source hweights hattested hhas hpromotable
    rw [hmoved.id]
    rw [hmoved.of_promotable hpromotable] at hpromotable
    exact h.attested weights source (hmoved.sourceWeight ▸ hweights) hattested hhas hpromotable
  · intro hverified
    rw [hmoved.id, hmoved.statement, hmoved.scope, hmoved.sourceWeight]
    exact h.verified (hmoved.of_verified hverified)

theorem known_asserted (h : Asserted events statement scope source) :
    Known events (.asserted id statement source scope now) := by
  refine ⟨⟨_, rfl, fun entry hentry => ?_⟩, fun _ => rfl, ?_, ?_⟩
  · cases List.mem_singleton.mp hentry
    exact ⟨source, rfl, h⟩
  · intro weights source' hweights hattested hhas hpromotable
    cases Option.some.inj hweights
    obtain ⟨entry, hentry, hkey⟩ := SourceWeights.has_iff.mp hhas
    cases List.mem_singleton.mp hentry
    cases Source.asStr_injective hkey
    cases source <;> simp [Source.isOperatorAttested] at hattested <;> cases hpromotable
  · intro hverified
    refine .inr (.inl ⟨source, ?_, h⟩)
    cases source <;> first | rfl | cases hverified

theorem known_corroborated (h : Known events fact) (hweights : fact.sourceWeight = some weights)
    (hasserted : Asserted events fact.statement fact.scope source)
    (hcondition : fact.distinguishes weights source = true) :
      Known events (fact.corroborated weights source) := by
  obtain ⟨weights', hweights', hentries⟩ := h.weights
  cases hweights.symm.trans hweights'
  refine ⟨⟨_, rfl, fun entry hentry => ?_⟩, ?_, ?_, ?_⟩
  · rcases SourceWeights.mem_bump hentry with hself | hold
    · exact ⟨source, hself.symm, hasserted⟩
    · exact hentries entry hold
  · intro hzero
    have hpos : 0 < min (fact.confirmedCount + 1) (2 ^ 32 - 1) :=
      lt_min (Nat.succ_pos _) (by decide)
    exact absurd hzero hpos.ne'
  · intro new attester hnew hattested hhas hpromotable
    cases Option.some.inj hnew
    change (fact.promoted (weights.bump source.asStr) source).promotable = true at hpromotable
    obtain ⟨entry, hentry, hkey⟩ := SourceWeights.has_iff.mp hhas
    have hold : fact.factState.promotable = true := by
      by_contra hnot
      rw [promoted_of_not_promotable (Bool.eq_false_iff.mpr hnot)] at hpromotable
      exact hnot hpromotable
    rcases SourceWeights.mem_bump hentry with hself | hmem
    · cases Source.asStr_injective (hkey.symm.trans hself)
      simp only [GroundTruth.promoted, hold, hattested, Bool.true_or, Bool.and_self,
        if_true] at hpromotable
      cases hpromotable
    · exact h.attested weights attester hweights hattested
        (SourceWeights.has_iff.mpr ⟨entry, hmem, hkey⟩) hold
  · intro hverified
    rcases verified_of_promoted hverified with hbefore | ⟨hpromotable, hgates⟩
    · rcases h.verified hbefore with hset | htrusted | hlen
      · exact .inl hset
      · exact .inr (.inl htrusted)
      · refine .inr (.inr fun new hnew => ?_)
        cases Option.some.inj hnew
        exact (hlen weights hweights).trans (SourceWeights.len_le_bump ..)
    by_cases htrusted : source.isTrusted = true
    · exact .inr (.inl ⟨source, htrusted, hasserted⟩)
    have hunattested : source.isOperatorAttested = false := by
      simp only [Source.isTrusted, Bool.or_eq_true, not_or, Bool.not_eq_true] at htrusted
      exact htrusted.1
    obtain ⟨hlen, hconfidence⟩ := hgates.resolve_left (by rw [hunattested]; simp)
    simp only [GroundTruth.distinguishes, hunattested, Bool.false_or, hpromotable, Bool.not_true,
      Bool.or_false, Bool.and_eq_true, Bool.or_eq_true, htrusted, List.any_eq_true, beq_iff_eq,
      bne_iff_ne] at hcondition
    rcases hcondition.2 with (⟨entry, hentry, hkey⟩ | hfirst) | hother
    · obtain ⟨identity, hidentity, hbefore⟩ := hentries entry hentry
      cases Source.asStr_injective (hidentity.trans hkey)
      exact .inr (.inl ⟨_, rfl, hbefore⟩)
    · rw [h.first hfirst] at hconfidence
      norm_num [promotionConfidenceThreshold, bumpConfidence] at hconfidence
    · refine .inr (.inr fun new hnew => ?_)
      cases Option.some.inj hnew
      omega

/-! ## Runs -/

omit [PairConfidence] in
theorem OneActive.update {db : FactDb} (h : OneActive db) {p : GroundTruth → Bool}
    {f : GroundTruth → GroundTruth} {hf : ∀ fact, (f fact).id = fact.id}
    (hmatches : ∀ fact statement scope, (f fact).matches_ statement scope = true →
      fact.matches_ statement scope = true) :
    OneActive { db with facts := db.facts.update p f hf } := by
  intro statement scope fact' hfact' other' hother' hactive hactive'
  refine Table.eq_of_key_eq hfact' hother' ?_
  simp only [Table.mem_update] at hfact' hother'
  obtain ⟨fact, hfact, rfl⟩ := hfact'
  obtain ⟨other, hother, rfl⟩ := hother'
  have hbase : ∀ fact : GroundTruth,
      (if p fact = true then f fact else fact).matches_ statement scope = true →
      fact.matches_ statement scope = true := by
    intro fact hactive
    split at hactive
    · exact hmatches fact statement scope hactive
    · exact hactive
  rw [h statement scope fact hfact other hother (hbase fact hactive) (hbase other hactive')]

/-- The events of the run meet the condition. -/
def Distinguishes (events : List FactEvent) : Prop :=
  ∀ before event later, events = before ++ event :: later →
  (FactDb.after before).distinguishes event = true

theorem known_step (h : ∀ fact ∈ (FactDb.after events).facts, Known events fact)
    (hcondition : (FactDb.after events).distinguishes event = true) :
    ∀ fact' ∈ ((FactDb.after events).step event).1.facts, Known (events ++ [event]) fact' := by
  intro fact' hfact'
  have hstep := FactDb.step_spec (FactDb.after events) event
  generalize ((FactDb.after events).step event).1 = db' at hfact' hstep
  generalize hanswer : ((FactDb.after events).step event).2 = a at hstep
  cases hstep with
  | @asserted _ statement source scope id _ hasserts horigin =>
    have hasserted : Asserted (events ++ [event]) statement scope source :=
      ⟨events, event, [], id, rfl, hasserts, hanswer⟩
    cases horigin fact' hfact' with
    | kept hfact hmoved => exact ((h _ hfact).append [event]).moved hmoved
    | corroborated hfact hmatches hweights hmoved =>
      have hdistinct := distinguishes_corroborated hcondition hasserts hfact hmatches hweights
      simp only [GroundTruth.matches_, Bool.and_eq_true, beq_iff_eq] at hmatches
      obtain ⟨⟨rfl, rfl⟩, -⟩ := hmatches
      exact (known_corroborated ((h _ hfact).append [event]) hweights hasserted hdistinct).moved
        hmoved
    | asserted _ _ hmoved => exact (known_asserted hasserted).moved hmoved
  | failed => exact (h fact' hfact').append [event]
  | moved id state =>
    simp only [FactDb.setFactState, Table.mem_update] at hfact'
    obtain ⟨fact, hfact, rfl⟩ := hfact'
    have hbefore := (h fact hfact).append [.setFactState id state]
    split
    · rename_i hselected
      have hset : OperatorSet (events ++ [.setFactState id state]) fact.id state := by
        rw [beq_iff_eq.mp hselected]
        exact List.mem_append_right _ (List.mem_singleton.mpr rfl)
      refine ⟨hbefore.weights, hbefore.first, fun _ _ _ _ _ _ => ⟨state, hset⟩, fun hverified => ?_⟩
      cases hverified
      exact .inl hset
    · exact hbefore
  | revoked id now =>
    simp only [FactDb.revoke, Table.mem_update] at hfact'
    obtain ⟨fact, hfact, rfl⟩ := hfact'
    have hbefore := (h fact hfact).append [.revoke id now]
    split
    · exact ⟨hbefore.weights, hbefore.first, hbefore.attested, hbefore.verified⟩
    · exact hbefore
  | tiers episodes => exact (h fact' hfact').append [_]

theorem known_after (events : List FactEvent) (hcondition : Distinguishes events) :
    ∀ fact ∈ (FactDb.after events).facts, Known events fact :=
  Lib.Machine.run_history_of_meets (P := fun events (db : FactDb) => ∀ fact ∈ db.facts,
    Known events fact)
    (M := fun db event => db.distinguishes event = true) FactDb.fresh (by simp [FactDb.fresh])
    (fun _ _ h hmeets => known_step h hmeets) events hcondition

theorem OneActive.step {db : FactDb} (h : OneActive db) (event : FactEvent) :
    OneActive (db.step event).1 := by
  have hstep := FactDb.step_spec db event
  generalize (db.step event).1 = db', (db.step event).2 = a at hstep
  cases hstep with
  | asserted _ horigin => exact h.of_origin horigin
  | failed => exact h
  | moved id state => exact h.update fun _ _ _ hactive => hactive
  | revoked id now =>
    refine h.update fun fact statement scope hactive => ?_
    simp [GroundTruth.matches_] at hactive
  | tiers episodes => exact h

theorem oneActive_after (events : List FactEvent) : OneActive (FactDb.after events) := by
  have hfresh : OneActive FactDb.fresh := by
    intro statement scope fact hfact
    cases hfact
  unfold FactDb.after
  refine Lib.Machine.run_invariant (P := OneActive) ?_ _ hfresh events
  exact fun _ event h => h.step event

/-! ## Trust -/

def FactState.isTerminal : FactState → Bool
  | .superseded | .contradicted | .deprecated => true
  | _ => false

/-- How far a fact is trusted. -/
def FactState.trust : FactState → Nat
  | .raw => 1
  | .candidate => 2
  | .verified => 3
  | _ => 0

omit [PairConfidence] in
theorem Moved.trust_le (h : Moved fact fact') : fact'.factState.trust ≤ fact.factState.trust := by
  rcases h.state with hsame | ⟨-, hflagged⟩
  · rw [hsame]
  · rw [hflagged]
    exact Nat.zero_le _

/-- An assertion by the only source of a fact does not raise its trust. -/
theorem alone_not_raised (hknown : ∀ fact ∈ (FactDb.after events).facts, Known events fact)
    (hcondition : (FactDb.after events).distinguishes event = true)
    (hasserts : event.asserts = some (statement, source, scope))
    (hfact : fact ∈ (FactDb.after events).facts)
    (hweights : fact.sourceWeight = some weights) (hhas : weights.has source = true)
    (halone : ∀ entry ∈ weights, entry.1 = source.asStr)
    (hfact' : fact' ∈ ((FactDb.after events).step event).1.facts) (hid : fact'.id = fact.id) :
    fact'.factState.trust ≤ fact.factState.trust ∨ ∃ state, OperatorSet events fact.id state := by
  have hstep := FactDb.step_spec (FactDb.after events) event
  generalize ((FactDb.after events).step event).1 = db',
    ((FactDb.after events).step event).2 = a at hfact' hstep
  cases hstep with
  | @asserted _ statement' source' scope' id _ hasserts' horigin =>
    cases hasserts.symm.trans hasserts'
    cases horigin fact' hfact' with
    | kept hold hmoved =>
      cases Table.eq_of_key_eq hold hfact (hmoved.id.symm.trans hid)
      exact .inl hmoved.trust_le
    | asserted _ hfresh hmoved => exact absurd (hid.symm.trans hmoved.id) (hfresh fact hfact)
    | corroborated hold hmatches hold' hmoved =>
      cases Table.eq_of_key_eq hold hfact (hmoved.id.symm.trans hid)
      cases hweights.symm.trans hold'
      by_cases hpromotable : fact.factState.promotable = true
      · by_cases hattested : source.isOperatorAttested = true
        · exact .inr ((hknown fact hfact).attested weights source hweights hattested hhas
            hpromotable)
        have hunattested : source.isOperatorAttested = false := Bool.eq_false_iff.mpr hattested
        have hdistinct := distinguishes_corroborated hcondition hasserts hfact hmatches hweights
        have hraw : fact.factState ≠ .raw := by
          simp only [GroundTruth.distinguishes, hunattested, hhas, Bool.false_or, Bool.not_true,
            Bool.or_false, Bool.and_eq_true, bne_iff_ne] at hdistinct
          exact hdistinct.1
        have hle := hmoved.trust_le
        rw [show (fact.corroborated weights source).factState = fact.factState from
          promoted_alone hunattested halone hraw] at hle
        exact .inl hle
      · have hle := hmoved.trust_le
        rw [show (fact.corroborated weights source).factState = fact.factState from
          promoted_of_not_promotable (Bool.eq_false_iff.mpr hpromotable)] at hle
        exact .inl hle
  | failed =>
    cases Table.eq_of_key_eq hfact' hfact hid
    exact .inl le_rfl
  | moved id state => cases hasserts
  | revoked id now => cases hasserts
  | tiers episodes => cases hasserts

/-- An assertion leaves a fact in a terminal state where it is. -/
theorem terminal_kept (db : FactDb) (hasserts : event.asserts.isSome = true)
    (hfact : fact ∈ db.facts)
    (hterminal : fact.factState.isTerminal = true) (hfact' : fact' ∈ (db.step event).1.facts)
    (hid : fact'.id = fact.id) : fact'.factState = fact.factState := by
  have hmoved : ∀ {base : GroundTruth}, Moved base fact' → base.factState = fact.factState →
      fact'.factState = fact.factState := by
    intro base hmoved hsame
    rcases hmoved.state with h | ⟨hverified, -⟩
    · exact h.trans hsame
    · rw [← hsame, hverified] at hterminal
      cases hterminal
  have hstep := FactDb.step_spec db event
  generalize (db.step event).1 = db', (db.step event).2 = a at hfact' hstep
  cases hstep with
  | asserted _ horigin =>
    cases horigin fact' hfact' with
    | kept hold h =>
      cases Table.eq_of_key_eq hold hfact (h.id.symm.trans hid)
      exact hmoved h rfl
    | corroborated hold _ _ h =>
      cases Table.eq_of_key_eq hold hfact (h.id.symm.trans hid)
      refine hmoved h (promoted_of_not_promotable ?_)
      cases hstate : fact.factState <;> rw [hstate] at hterminal <;> first | rfl | cases hterminal
    | asserted _ hfresh h => exact absurd (hid.symm.trans h.id) (hfresh fact hfact)
  | failed =>
    cases Table.eq_of_key_eq hfact' hfact hid
    rfl
  | moved id state => cases hasserts
  | revoked id now => cases hasserts
  | tiers episodes => cases hasserts

theorem failed_unchanged {e : String} (h : (db.step event).2 = .failed e) :
    (db.step event).1 = db := by
  have hstep := FactDb.step_spec db event
  rw [h] at hstep
  generalize (db.step event).1 = db' at hstep ⊢
  cases hstep with
  | failed => rfl

omit [PairConfidence] in
theorem exists_sources {keys : List String} (hnodup : keys.Nodup) {p : Source → Prop}
    (h : ∀ key ∈ keys, ∃ source : Source, source.asStr = key ∧ p source) :
    ∃ sources : List Source, sources.Nodup ∧ sources.length = keys.length ∧ ∀ source ∈ sources,
      p source := by
  have hmap : ∃ sources : List Source, sources.map Source.asStr = keys ∧ ∀ source ∈ sources,
      p source := by
    clear hnodup
    induction keys with
    | nil => exact ⟨[], rfl, (by simp)⟩
    | cons key keys ih =>
      obtain ⟨source, hkey, hp⟩ := h key (List.mem_cons_self ..)
      obtain ⟨sources, hsources, hall⟩ := ih fun other hother =>
        h other (List.mem_cons_of_mem _ hother)
      exact ⟨source :: sources, by rw [List.map_cons, hkey, hsources],
        List.forall_mem_cons.mpr ⟨hp, hall⟩⟩
  obtain ⟨sources, rfl, hall⟩ := hmap
  exact ⟨sources, hnodup.of_map _, (List.length_map ..).symm, hall⟩

theorem Known.vouched (h : Known events fact) (hverified : fact.factState = .verified) :
    Vouched events fact := by
  rcases h.verified hverified with hset | htrusted | hlen
  · exact .inl hset
  · exact .inr (.inl htrusted)
  · obtain ⟨weights, hweights, hentries⟩ := h.weights
    obtain ⟨sources, hnodup, hlength, hall⟩ := exists_sources weights.nodup (p := fun source =>
      Asserted events fact.statement fact.scope source) fun key hkey => by
        obtain ⟨entry, hentry, rfl⟩ := List.mem_map.mp hkey
        exact hentries entry hentry
    refine .inr (.inr ⟨sources, hnodup, ?_, hall⟩)
    rw [hlength, List.length_map]
    exact hlen weights hweights

end History

/-- **Trust in ground truth.** In every run in which no unattested source asserts a raw fact again,
or comes third to an unverified fact of two sources: a fact is verified only after three sources
have asserted it, or a trusted one, or the operator has verified it; the only source of a fact does
not raise its trust; no assertion moves a fact out of a terminal state; there is at most one active
fact for a statement and scope; and a failed assertion changes nothing. -/
theorem ground_truth_trust [PairConfidence] (events : List FactEvent)
    (hcondition : Distinguishes events) :
    (∀ fact ∈ (FactDb.after events).facts, fact.factState = .verified → Vouched events fact) ∧
    (∀ before event later, events = before ++ event :: later → ∀ statement source scope,
      event.asserts = some (statement, source, scope) → ∀ fact ∈ (FactDb.after before).facts,
        ∀ weights,
      fact.sourceWeight = some weights → weights.has source = true →
      (∀ entry ∈ weights, entry.1 = source.asStr) →
      ∀ fact' ∈ ((FactDb.after before).step event).1.facts, fact'.id = fact.id →
        fact'.factState.trust ≤ fact.factState.trust ∨ ∃ state, OperatorSet before fact.id state) ∧
    (∀ (db : FactDb) (event : FactEvent), event.asserts.isSome = true → ∀ fact ∈ db.facts,
      fact.factState.isTerminal = true → ∀ fact' ∈ (db.step event).1.facts, fact'.id = fact.id →
        fact'.factState = fact.factState) ∧
    (∀ statement scope, ∀ fact ∈ (FactDb.after events).facts, ∀ other ∈ (FactDb.after events).facts,
      fact.matches_ statement scope = true → other.matches_ statement scope = true → fact = other) ∧
    ∀ (db : FactDb) (event : FactEvent) (e : String), (db.step event).2 = .failed e →
    (db.step event).1 = db := by
  refine ⟨fun fact hfact hverified => (known_after events hcondition fact hfact).vouched hverified,
    ?_, ?_, oneActive_after events, fun db event e => failed_unchanged⟩
  · rintro before event later rfl statement source scope hasserts fact hfact weights hweights hhas
      halone fact' hfact' hid
    have hbefore : Distinguishes before := by
      rintro pre earlier post rfl
      exact hcondition pre earlier (post ++ event :: later) (by simp)
    exact alone_not_raised (known_after before hbefore) (hcondition before event later rfl) hasserts
      hfact hweights hhas halone hfact' hid
  · intro db event hasserts fact hfact hterminal fact' hfact' hid
    exact terminal_kept db hasserts hfact hterminal hfact' hid

/-! ## Two sources, and three -/

/-- No statement contradicts another. -/
@[reducible] def noContradictions : PairConfidence := ⟨fun _ _ => none⟩

/-- One importer repeats itself, and then another one agrees. -/
def sampleRepeated : List FactEvent :=
  [.insert "the nas is up" .importHermes "global" 1,
    .insert "the nas is up" .importHermes "global" 2, .insert "the nas is up" .omi "global" 3]

/-- Three sources, one after the other. -/
def sampleCorroborated : List FactEvent :=
  [.insert "the nas is up" .importHermes "global" 1, .insert " the nas is up" .omi "global" 2,
    .insert "the nas is up" .importObsidian "global" 3]

theorem sampleRepeated_asserted
    (h : @Asserted noContradictions sampleRepeated statement scope source) :
    source = .importHermes ∨ source = .omi := by
  obtain ⟨before, event, later, id, hevents, hasserts, -⟩ := h
  have hmem : event ∈ sampleRepeated := by
    rw [hevents]
    simp
  simp only [sampleRepeated, List.mem_cons, List.not_mem_nil, or_false] at hmem
  rcases hmem with rfl | rfl | rfl <;> cases hasserts <;> simp

theorem verified_by_two_sources :
    ¬ ∀ events : List FactEvent, ∀ fact ∈ (@FactDb.after noContradictions events).facts,
      fact.factState = .verified → @Vouched noContradictions events fact := by
  intro h
  have hverified : ∃ fact ∈ (@FactDb.after noContradictions sampleRepeated).facts,
      fact.factState = .verified := by
    simp only [Table.mem_rows.symm]
    decide +kernel
  obtain ⟨fact, hfact, hstate⟩ := hverified
  rcases h sampleRepeated fact hfact hstate with hset | ⟨source, htrusted, hasserted⟩ | ⟨sources,
    hnodup, hlen, hall⟩
  · simp [OperatorSet, sampleRepeated] at hset
  · rcases sampleRepeated_asserted hasserted with rfl | rfl <;> cases htrusted
  · have hsub : sources ⊆ [.importHermes, .omi] := fun source hsource => by
      simpa using sampleRepeated_asserted (hall source hsource)
    have hle := (hnodup.subperm hsub).length_le
    simp only [List.length_cons, List.length_nil] at hle
    omega

theorem ground_truth_trust_sample :
    ∃ fact ∈ (@FactDb.after noContradictions sampleCorroborated).facts,
      fact.factState = .verified ∧ @Vouched noContradictions sampleCorroborated fact := by
  have hcondition : @Distinguishes noContradictions sampleCorroborated := by
    intro before event later hevents
    rcases before with _ | ⟨_, _ | ⟨_, _ | ⟨_, before⟩⟩⟩
    · cases hevents
      decide +kernel
    · cases hevents
      decide +kernel
    · cases hevents
      decide +kernel
    · simp [sampleCorroborated] at hevents
  have hverified : ∃ fact ∈ (@FactDb.after noContradictions sampleCorroborated).facts,
      fact.factState = .verified := by
    simp only [Table.mem_rows.symm]
    decide +kernel
  obtain ⟨fact, hfact, hstate⟩ := hverified
  exact ⟨fact, hfact, hstate,
    (@ground_truth_trust noContradictions sampleCorroborated hcondition).1 fact hfact hstate⟩

end Neoth.Memory
