import Neoth.Lib.Machine
import Neoth.Memory.ContextIndex

/-!
# The vocabulary counts the chunks

* `Tallies v n`: the vocabulary `v` lists every term that `n` counts, with that count;
* `Counts`: it tallies the number of stored chunks that contain a term;
* `Unharmed`: the error is not that of a contribution that is missing;
* **`vocabulary_counts`**: all of it in every run, and an operation that fails changes nothing.
-/

open Lib Lib.Machine Lib.Outcome Lib.Transaction

namespace Neoth.Memory

/-! ## Counting -/

/-- The row of a term that `n` chunks contain. -/
def entry (term : String) (n : Nat) : Option VocabularyRow := if n = 0 then none else some ⟨term, n⟩

/-- The frequencies of the vocabulary are those of `n`. -/
def Tallies (v : Table VocabularyRow.term) (n : String → Nat) : Prop :=
  ∀ term, v.find term = entry term (n term)

/-- The error of a vocabulary that has lost a contribution. -/
def missingContribution : CtxError := .refused "ctx vocabulary contribution is missing or invalid"

def Unharmed (e : CtxError) : Prop := e ≠ missingContribution

instance unharmedDecidable : DecidablePred Unharmed := fun e =>
  inferInstanceAs (Decidable (e ≠ missingContribution))

theorem unharmed_sqlite : Unharmed .sqlite := by decide

/-! ## One term -/

theorem Tallies.put {v : Table VocabularyRow.term} {n : String → Nat} (h : Tallies v n)
    (term : String) :
    Tallies (v.put ⟨term, (n term : Int) + 1⟩) (fun t => n t + [term].count t) := by
  intro t
  simp only [Table.find_put, List.count_singleton, beq_iff_eq]
  split
  · rename_i heq
    subst heq
    simp [entry]
  · rw [h t, Nat.add_zero]

variable {ix : ContextIndex}

theorem Tallies.bumpTerm {n : String → Nat} (h : Tallies ix.vocabulary n) (term : String) :
    Ensures (ContextIndex.bumpTerm term ix)
      (fun r => r.2 = 1 → Tallies r.1.vocabulary (fun t => n t + [term].count t) ∧
        r.1.chunks = ix.chunks)
      Unharmed := by
  have hput := h.put term
  unfold ContextIndex.bumpTerm
  rw [h term]
  unfold entry
  split
  · rename_i hzero
    split at hzero
    · rename_i hn
      rw [hn] at hput
      exact fun _ => ⟨hput, rfl⟩
    · cases hzero
  · rename_i row hrow
    split at hrow
    · cases hrow
    · cases hrow
      split
      · exact fun _ => ⟨hput, rfl⟩
      · exact fun hchanged => absurd hchanged zero_ne_one

/-- The first statement takes a last contribution away; if it finds none the second one
subtracts. -/
theorem Tallies.deleteLast {n : String → Nat} (h : Tallies ix.vocabulary n) {term : String} :
    Ensures (ContextIndex.deleteLast term ix)
      (fun r => r.1.chunks = ix.chunks ∧
        if r.2 = 0 then n term ≠ 1 ∧ Tallies r.1.vocabulary n
        else Tallies r.1.vocabulary (fun t => n t - [term].count t))
      Unharmed := by
  have hkey : ∀ r : VocabularyRow, (r.term == term && r.frequency == 1) = true → r.term = term := by
    intro r hr
    simp only [Bool.and_eq_true, beq_iff_eq] at hr
    exact hr.1
  refine ⟨rfl, ?_⟩
  simp only [Table.count_of_key hkey, h term]
  by_cases hone : n term = 1
  · have hdeleted : (entry term (n term)).any (fun r => r.term == term && r.frequency == 1) =
        true := by
      simp [hone, entry]
    rw [hdeleted]
    simp only [↓reduceIte, one_ne_zero]
    intro t
    simp only [Table.find_delete, h t, List.count_singleton, beq_iff_eq]
    by_cases heq : t = term
    · subst heq
      simp [hone, entry]
    · rw [if_neg (Ne.symm heq), Nat.sub_zero]
      unfold entry
      split <;> simp [heq]
  · have hkept : (entry term (n term)).any (fun r => r.term == term && r.frequency == 1) =
        false := by
      unfold entry
      split
      · rfl
      · simp only [Option.any_some, Bool.and_eq_false_iff]
        right
        simpa using hone
    have hcount : ix.vocabulary.count (fun r => r.term == term && r.frequency == 1) = 0 := by
      rw [Table.count_of_key hkey, h term, hkept]
      rfl
    rw [hkept, Table.delete_eq_self hcount]
    exact ⟨hone, h⟩

theorem Tallies.decrement {n : String → Nat} (h : Tallies ix.vocabulary n) {term : String}
    (hmore : 1 < n term) :
    Ensures (ContextIndex.decrement term ix)
      (fun r => r.1.chunks = ix.chunks ∧ r.2 = 1 ∧
        Tallies r.1.vocabulary (fun t => n t - [term].count t))
      Unharmed := by
  have hkey : ∀ r : VocabularyRow, (r.term == term && decide (1 < r.frequency)) = true →
      r.term = term := by
    intro r hr
    simp only [Bool.and_eq_true, beq_iff_eq] at hr
    exact hr.1
  have hentry : entry term (n term) = some ⟨term, n term⟩ := if_neg (by omega)
  refine ⟨rfl, ?_, ?_⟩
  · rw [Table.count_of_key hkey, h term, hentry]
    simp [hmore]
  · intro t
    simp only [Table.find_update, h t, List.count_singleton, beq_iff_eq]
    by_cases heq : t = term
    · subst heq
      rw [hentry]
      simp only [Option.map_some, BEq.rfl, Bool.true_and, decide_eq_true_eq, Nat.one_lt_cast, hmore,
        ↓reduceIte]
      unfold entry
      rw [if_neg (by omega), Nat.cast_sub (by omega)]
      rfl
    · rw [if_neg (Ne.symm heq), Nat.sub_zero]
      unfold entry
      split <;> simp [heq]

/-! ## Statements of a transaction -/

variable {t : Tx} {s : ContextIndex.Statement}

/-- A statement is executed in the transaction, or fails with an error of its own. -/
theorem ensures_execute {P : ContextIndex × Nat → Prop} (h : Ensures (s t.index) P Unharmed) :
    Ensures (t.execute s) (fun r => P (r.1.index, r.2)) Unharmed := by
  unfold Tx.execute
  split
  · exact unharmed_sqlite
  · exact Ensures.map h

variable {A : Type} {tx : Tx}

theorem ensures_query {select : ContextIndex → A} :
    Ensures (tx.query select) (fun r => r.1.index = tx.index ∧ r.2 = select tx.index) Unharmed := by
  unfold Tx.query
  split
  · exact unharmed_sqlite
  · exact ⟨rfl, rfl⟩

/-- A check whose error is another one. -/
theorem ensures_check {condition : Bool} {e : CtxError} (he : Unharmed e) :
    Ensures (require condition e) (fun _ => True) Unharmed :=
  ensures_require (fun _ => trivial) fun _ => he

theorem ensures_i64TryFrom {n : Nat} {e : CtxError} (he : Unharmed e) :
    Ensures (i64TryFrom n e) (fun _ => True) Unharmed := by
  unfold i64TryFrom
  split
  · trivial
  · exact he

/-- A statement that touches neither the vocabulary nor the chunks. -/
def Quiet (statement : ContextIndex.Statement) : Prop :=
  ∀ ix, Ensures (statement ix) (fun r => r.1.vocabulary = ix.vocabulary ∧ r.1.chunks = ix.chunks)
    Unharmed

theorem quiet_insertSource (make : Nat → ContextSource) (hmake : ∀ n, (make n).id = n) :
    Quiet (ContextIndex.insertSource make hmake) := by
  intro ix
  unfold ContextIndex.insertSource
  split
  · exact unharmed_sqlite
  · exact ⟨rfl, rfl⟩

theorem quiet_insertCodeSource (row : CodeSourceRow) :
    Quiet (ContextIndex.insertCodeSource row) := by
  intro ix
  unfold ContextIndex.insertCodeSource
  split
  · exact unharmed_sqlite
  · exact ⟨rfl, rfl⟩

theorem quiet_insertCodeChunk (row : CodeChunkRow) : Quiet (ContextIndex.insertCodeChunk row) := by
  intro ix
  unfold ContextIndex.insertCodeChunk
  split
  · exact unharmed_sqlite
  split
  · exact unharmed_sqlite
  · exact ⟨rfl, rfl⟩

theorem quiet_setEpoch (epoch : Int) : Quiet (ContextIndex.setEpoch epoch) := by
  intro ix
  unfold ContextIndex.setEpoch
  split <;> exact ⟨rfl, rfl⟩

theorem quiet_commit : Quiet fun ix => if ix.deferredKeysHold then .ok (ix, 0)
    else .error .sqlite := by
  intro ix
  dsimp only
  split
  · exact ⟨rfl, rfl⟩
  · exact unharmed_sqlite

/-- The vocabulary of the transaction tallies `n`, and the chunks are these. -/
def Tx.Holds (tx : Tx) (chunks : List ChunkRow) (n : String → Nat) : Prop :=
  tx.index.chunks = chunks ∧ Tallies tx.index.vocabulary n

variable {chunks : List ChunkRow}

theorem Tx.Holds.congr {n m : String → Nat} (h : tx.Holds chunks n)
    (heq : ∀ term, n term = m term) : tx.Holds chunks m := by
  obtain rfl : n = m := funext heq
  exact h

theorem count_cons_eq (term : String) (terms : List String) (t : String) :
    (term :: terms).count t = [term].count t + terms.count t := by
  rw [← List.singleton_append, List.count_append]

/-! ## The terms of a body -/

section Bodies
variable [ContextLibrary]

/-- The number of bodies that contain the term. -/
def occurrences (bodies : List String) (term : String) : Nat :=
  bodies.countP fun body => term ∈ vocabularyTerms body

theorem occurrences_cons (body : String) (bodies : List String) (term : String) :
    occurrences (body :: bodies) term = occurrences bodies term + (vocabularyTerms body).count
      term := by
  have hcount : (vocabularyTerms body).count term = if term ∈ vocabularyTerms body then 1
      else 0 := by
    split
    · rename_i h
      exact List.count_eq_one_of_mem (nodup_vocabularyTerms body) h
    · rename_i h
      exact List.count_eq_zero.mpr h
  rw [occurrences, List.countP_cons, hcount]
  simp only [decide_eq_true_eq]
  rfl

theorem Tx.Holds.bumpVocabulary {n : String → Nat} (h : tx.Holds chunks n) (body : String) :
    Ensures (tx.bumpVocabulary body) (·.Holds chunks fun t => n t + (vocabularyTerms body).count t)
      Unharmed := by
  unfold Tx.bumpVocabulary
  generalize vocabularyTerms body = terms
  induction terms generalizing tx n with
  | nil => exact h.congr fun t => by simp
  | cons term terms ih =>
    rw [List.foldlM_cons]
    refine Ensures.bind (P := (·.Holds chunks fun t => n t + [term].count t)) ?_ fun tx' h' => ?_
    · refine Ensures.bind (ensures_execute (h.2.bumpTerm term)) ?_
      rintro ⟨tx', changed⟩ hr
      refine Ensures.bind (P := fun _ => changed = 1)
        (ensures_require (fun hc => by simpa using hc) ?_) ?_
      · exact fun _ => by decide
      · rintro - hchanged
        exact ⟨(hr hchanged).2.trans h.1, (hr hchanged).1⟩
    · refine (ih h').mono (fun tx'' h'' => h''.congr fun t => ?_) fun _ he => he
      rw [count_cons_eq term terms, Nat.add_assoc]

theorem Tx.Holds.removeTerms {n : String → Nat} (h : tx.Holds chunks n) (body : String)
    (hn : ∀ t, (vocabularyTerms body).count t ≤ n t) :
    Ensures (tx.removeTerms body) (·.Holds chunks fun t => n t - (vocabularyTerms body).count t)
      Unharmed := by
  unfold Tx.removeTerms
  generalize vocabularyTerms body = terms at hn
  induction terms generalizing tx n with
  | nil => exact h.congr fun t => by simp
  | cons term terms ih =>
    have hpos : 0 < n term := by
      have hterm := hn term
      rw [List.count_cons_self] at hterm
      omega
    rw [List.foldlM_cons]
    refine Ensures.bind (P := (·.Holds chunks fun t => n t - [term].count t)) ?_ fun tx' h' => ?_
    · refine Ensures.bind (ensures_execute h.2.deleteLast) ?_
      rintro ⟨tx', deleted⟩ ⟨hchunks, hdeleted⟩
      dsimp only at hchunks hdeleted ⊢
      split
      · rename_i hzero
        rw [if_pos (by simpa using hzero)] at hdeleted
        have hmore : 1 < n term := by omega
        refine Ensures.bind (ensures_execute (hdeleted.2.decrement hmore)) ?_
        rintro ⟨tx'', changed⟩ ⟨hchunks', hone, htallies⟩
        dsimp only at hchunks' hone htallies ⊢
        subst hone
        exact ⟨(hchunks'.trans hchunks).trans h.1, htallies⟩
      · rename_i hsome
        rw [if_neg (by simpa using hsome)] at hdeleted
        exact ⟨hchunks.trans h.1, hdeleted⟩
    · refine (ih h' fun t => ?_).mono (fun tx'' h'' => h''.congr fun t => ?_) fun _ he => he
      · have ht := hn t
        rw [count_cons_eq] at ht
        omega
      · rw [count_cons_eq term terms, Nat.sub_sub]

/-! ## The chunks of a source -/

theorem Tx.Holds.removeBodies {m : String → Nat} {bodies : List String}
    (h : tx.Holds chunks fun t => occurrences bodies t + m t) :
    Ensures (bodies.foldlM (fun (tx : Tx) body => do
      let (tx, ()) ← tx.query fun _ => ()
      tx.removeTerms body) tx) (·.Holds chunks m) Unharmed := by
  induction bodies generalizing tx with
  | nil => exact h.congr fun t => by simp [occurrences]
  | cons body bodies ih =>
    rw [List.foldlM_cons]
    refine Ensures.bind (P := (·.Holds chunks fun t => occurrences bodies t + m t)) ?_ fun tx' h' =>
      ih h'
    refine Ensures.bind ensures_query ?_
    rintro ⟨tx', u⟩ ⟨hindex, -⟩
    have h' : tx'.Holds chunks fun t => occurrences (body :: bodies) t + m t := by
      unfold Tx.Holds at h ⊢
      rwa [hindex]
    refine (h'.removeTerms body fun t => ?_).mono (fun tx'' h'' => h''.congr fun t => ?_)
      fun _ he => he
    · rw [occurrences_cons]
      omega
    · rw [occurrences_cons]
      omega

/-- The bodies of the chunks that satisfy `p`. -/
def bodiesOf (chunks : List ChunkRow) (p : ChunkRow → Bool) : List String :=
  (chunks.filter p).map (·.content)

theorem occurrences_split (chunks : List ChunkRow) (p : ChunkRow → Bool) (term : String) :
    occurrences (chunks.map (·.content)) term =
      occurrences (bodiesOf chunks p) term + occurrences (bodiesOf chunks fun c => !p c) term := by
  simp only [occurrences, bodiesOf, List.countP_map]
  exact List.countP_eq_countP_filter_add chunks _ p

/-- The vocabulary counts the stored chunks. -/
def ContextIndex.Counts (ix : ContextIndex) : Prop :=
  Tallies ix.vocabulary (occurrences (ix.chunks.map (·.content)))

theorem ContextIndex.Counts.congr {ix ix' : ContextIndex} (h : ix.Counts)
    (hv : ix'.vocabulary = ix.vocabulary) (hc : ix'.chunks = ix.chunks) : ix'.Counts := by
  unfold Counts
  rwa [hv, hc]

/-- Taking the terms of a source away leaves the count of the other chunks. -/
theorem removeSourceVocabulary_spec (h : tx.index.Counts) (sourceId : Nat) :
    Ensures (tx.removeSourceVocabulary sourceId)
      (·.Holds tx.index.chunks
        (occurrences (bodiesOf tx.index.chunks fun c => !(c.sourceId == sourceId)))) Unharmed := by
  unfold Tx.removeSourceVocabulary
  refine Ensures.bind ensures_query ?_
  rintro ⟨tx', bodies⟩ ⟨hindex, rfl⟩
  refine Tx.Holds.removeBodies ⟨congrArg _ hindex, ?_⟩
  dsimp only at hindex
  rw [hindex]
  intro term
  rw [h term, occurrences_split _ fun c => c.sourceId == sourceId]
  rfl

theorem ensures_quiet (hquiet : Quiet s) (h : t.index.Counts) :
    Ensures (t.execute s) (fun r => r.1.index.Counts) Unharmed :=
  ensures_execute (P := fun r => r.1.Counts) ((hquiet t.index).mono (fun _ hr => h.congr hr.1 hr.2)
    fun _ he => he)

theorem ensures_quiet_query {select : ContextIndex → A} (h : t.index.Counts) :
    Ensures (t.query select) (fun r => r.1.index.Counts) Unharmed :=
  ensures_query.mono (fun r hr => by rw [hr.1]; exact h) fun _ he => he

/-! ## The operations -/

theorem deleteSourceChunks_spec {sourceId : Nat}
    (h : tx.Holds chunks (occurrences (bodiesOf chunks fun c => !(c.sourceId == sourceId)))) :
    Ensures (tx.deleteSourceChunks sourceId) (·.index.Counts) Unharmed := by
  obtain ⟨rfl, htallies⟩ := h
  have hdelete : Ensures (ContextIndex.deleteChunks .chunks (·.sourceId == sourceId) tx.index)
      (fun r => r.1.Counts) Unharmed := htallies
  unfold Tx.deleteSourceChunks
  refine (ensures_execute hdelete).bind fun r hr => ?_
  exact (ensures_quiet (s := ContextIndex.deleteChunks .chunksTrigram _) (fun _ => ⟨rfl, rfl⟩)
    hr).bind fun r hr => hr

theorem deleteForLabel_spec (h : tx.index.Counts) (label : String) :
    Ensures (tx.deleteForLabel label) (fun r => r.1.index.Counts) Unharmed := by
  unfold Tx.deleteForLabel
  refine (ensures_quiet_query h).bind ?_
  rintro ⟨tx', existing⟩ h'
  cases existing with
  | none => exact h'
  | some sid =>
    refine (removeSourceVocabulary_spec h' sid).bind fun tx hv => ?_
    exact (deleteSourceChunks_spec hv).bind fun tx h => ensures_quiet (fun _ => ⟨rfl, rfl⟩) h

theorem removeOwnerForSource_spec (h : tx.index.Counts) (sourceId : Nat) :
    Ensures (tx.removeOwnerForSource sourceId) (·.index.Counts) Unharmed := by
  unfold Tx.removeOwnerForSource
  exact (ensures_quiet (s := ContextIndex.deleteLogicalDocuments _) (fun _ => ⟨rfl, rfl⟩) h).bind
    fun r hr => hr

theorem run_spec {fault : Option Nat} {body : Tx → Except CtxError (Tx × A)} (h : ix.Counts)
    (hbody : ∀ tx : Tx, tx.index.Counts → Ensures (body tx) (fun r => r.1.index.Counts) Unharmed) :
    Ensures (Tx.run fault body ix) (fun r => r.1.Counts) Unharmed := by
  unfold Tx.run
  refine (ensures_quiet_query (t := ⟨ix, fault⟩) h).bind fun r hr => ?_
  refine (hbody _ hr).bind fun r hr => ?_
  exact (ensures_quiet quiet_commit hr).bind fun r hr => hr

/-! ## Purging -/

theorem epoch_spec (h : tx.index.Counts) : Ensures tx.epoch (·.1.index.Counts) Unharmed := by
  unfold Tx.epoch
  refine (ensures_quiet_query h).bind fun r hr => ?_
  refine Ensures.bind (P := fun _ => True) ?_ fun epoch _ => ?_
  · cases r.2 with
    | none => exact unharmed_sqlite
    | some epoch => trivial
  · exact (ensures_check (by decide)).bind fun _ _ => hr

theorem advanceAfterPurge_spec (h : tx.index.Counts) (removed : Nat) :
    Ensures (tx.advanceAfterPurge removed) (·.index.Counts) Unharmed := by
  unfold Tx.advanceAfterPurge
  split
  · refine (epoch_spec h).bind fun r hr => ?_
    refine (ensures_check (by decide)).bind fun _ _ => ?_
    refine (ensures_quiet (quiet_setEpoch _) hr).bind fun r hr => ?_
    exact (ensures_check (by decide)).bind fun _ _ => hr
  · exact h

theorem purgeAll_spec (tx : Tx) : Ensures (purgeAll tx) (fun r => r.1.index.Counts) Unharmed := by
  unfold purgeAll
  have hgone : ∀ {t : Tx} {s : ContextIndex.Statement}, Quiet s → t.index.chunks = [] →
      Ensures (t.execute s) (fun r => r.1.index.chunks = []) Unharmed := fun hquiet h =>
    ensures_execute (P := fun r => r.1.chunks = [])
      ((hquiet _).mono (fun _ hr => hr.2.trans h) fun _ he => he)
  refine ensures_query.bind fun r _ => ?_
  refine (ensures_execute (s := ContextIndex.deleteLogicalDocuments _) (P :=
    fun _ => True) trivial).bind fun r _ => ?_
  refine (ensures_execute (P := fun r => r.1.chunks = []) ?_).bind fun r hr => ?_
  · show List.filter _ _ = []
    simp
  refine (hgone (s := ContextIndex.deleteChunks .chunksTrigram _) (fun _ => ⟨rfl, rfl⟩) hr).bind
    fun r hr => ?_
  refine (hgone (s := ContextIndex.deleteSources _) (fun _ => ⟨rfl, rfl⟩) hr).bind fun r hr => ?_
  refine (ensures_execute (P := fun r => r.1.Counts) ?_).bind fun r hr => hr
  show Tallies _ _
  intro term
  dsimp only
  rw [hr, Table.find_delete]
  simp [entry, occurrences]

theorem purgeScope_spec (h : tx.index.Counts) (scope : PurgeScope) :
    Ensures (purgeScope tx scope) (fun r => r.1.index.Counts) Unharmed := by
  cases scope with
  | source label =>
    refine (ensures_quiet_query h).bind ?_
    rintro ⟨tx', source⟩ h'
    refine Ensures.bind (P := (·.index.Counts)) ?_ fun tx h => deleteForLabel_spec h label
    cases source with
    | none => exact h'
    | some sid => exact removeOwnerForSource_spec h' sid
  | category category =>
    refine (ensures_quiet_query h).bind ?_
    rintro ⟨tx', ids⟩ h'
    refine Ensures.bind (P := (·.index.Counts)) ?_ fun tx h =>
      (ensures_quiet (s := ContextIndex.deleteSources _) (fun _ => ⟨rfl, rfl⟩) h).bind fun r hr =>
        hr
    refine Ensures.foldlM (I := fun _ (tx : Tx) => tx.index.Counts) (fun sid ids tx h => ?_) h'
    refine (removeOwnerForSource_spec h sid).bind fun tx h => ?_
    exact (removeSourceVocabulary_spec h sid).bind fun tx hv => deleteSourceChunks_spec hv
  | all => exact purgeAll_spec tx

theorem purge_spec (h : ix.Counts) (scope : PurgeScope) (fault : Option Nat) :
    Ensures (purge scope fault ix) (fun r => r.1.Counts) Unharmed :=
  run_spec h fun _ h => (purgeScope_spec h scope).bind fun r hr =>
    (advanceAfterPurge_spec hr r.2).bind fun _ h => h

/-! ## Indexing -/

omit [ContextLibrary] in
theorem ensures_quiet_holds {n : String → Nat} (hquiet : Quiet s) (h : t.Holds chunks n) :
    Ensures (t.execute s) (fun r => r.1.Holds chunks n) Unharmed := by
  refine ensures_execute (P := fun r => r.1.chunks = chunks ∧ Tallies r.1.vocabulary n)
    ((hquiet t.index).mono (fun r hr => ⟨hr.2.trans h.1, ?_⟩) fun _ he => he)
  rw [hr.1]
  exact h.2

omit [ContextLibrary] in
/-- The row of a chunk comes last in its table. -/
theorem insertFts_spec {n : String → Nat} (h : tx.Holds chunks n) (req : IndexRequest) (now : Int)
    (sourceId : Nat) (chunk : Chunk) (range : Option CodeChunkRange) (table : FtsTable) :
    Ensures (insertFts req now sourceId chunk range tx table)
      (fun tx' => ∃ rows, tx'.Holds (chunks ++ rows) n ∧
        rows.map (·.content) = if table = .chunks then [chunk.body] else []) Unharmed := by
  unfold insertFts
  refine Ensures.bind (P := fun r : Tx × Nat => ∃ rows, r.1.Holds (chunks ++ rows) n ∧
    rows.map (·.content) = if table = .chunks then [chunk.body] else []) ?_ ?_
  · cases table with
    | chunks =>
      refine ensures_execute (P := fun r => ∃ rows,
        (r.1.chunks = chunks ++ rows ∧ Tallies r.1.vocabulary n) ∧
        rows.map (·.content) = [chunk.body]) ?_
      exact ⟨[_], ⟨congrArg (· ++ _) h.1, h.2⟩, rfl⟩
    | chunksTrigram =>
      refine (ensures_quiet_holds (s := ContextIndex.insertChunk .chunksTrigram _)
        (fun _ => ⟨rfl, rfl⟩) h).mono (fun r hr => ⟨[], ?_, rfl⟩) fun _ he => he
      rwa [List.append_nil]
  · rintro ⟨tx', _⟩ ⟨rows, h', hrows⟩
    cases range with
    | none => exact ⟨rows, h', hrows⟩
    | some range =>
      iterate 3 refine (ensures_i64TryFrom (by decide)).bind fun _ _ => ?_
      exact (ensures_quiet_holds (quiet_insertCodeChunk _) h').bind fun r hr => ⟨rows, hr, hrows⟩

section Documents
variable [Sha256]

omit [ContextLibrary] in
theorem chunkRange_spec (source : CodeSourceRanges) (ordinal start : Nat) (body : String) :
    Ensures (source.chunkRange ordinal start body) (fun _ => True) Unharmed := by
  unfold CodeSourceRanges.chunkRange
  split
  · trivial
  refine (ensures_check (by decide)).bind fun _ _ => ?_
  refine Ensures.bind (P := fun _ => True) ?_ fun _ _ => trivial
  unfold CodeSourceRanges.validateRange
  iterate 5 refine (ensures_check (by decide)).bind fun _ _ => ?_
  exact ensures_check (by decide)

omit [ContextLibrary] in
theorem rangeOfChunk_spec (req : IndexRequest) (ranges : Option CodeSourceRanges) (idx start : Nat)
    (body : String) :
    Ensures (rangeOfChunk req ranges idx start body) (fun _ => True) Unharmed := by
  unfold rangeOfChunk
  split
  · trivial
  · exact (ensures_check (by decide)).bind fun _ _ => chunkRange_spec ..

theorem indexChunk_spec {state : Tx × Nat} (h : state.1.index.Counts) (req : IndexRequest)
    (now : Int) (sourceId : Nat) (ranges : Option CodeSourceRanges) (entry : Chunk × Nat) :
    Ensures (indexChunk req now sourceId ranges state entry) (fun r => r.1.index.Counts)
      Unharmed := by
  have hstart : state.1.Holds state.1.index.chunks
      (occurrences (state.1.index.chunks.map (·.content))) := ⟨rfl, h⟩
  unfold indexChunk
  refine (ensures_check (by decide)).bind fun _ _ => ?_
  refine (rangeOfChunk_spec ..).bind fun range _ => ?_
  refine (insertFts_spec hstart req now sourceId entry.1 range .chunks).bind ?_
  rintro tx ⟨rows, h, hrows⟩
  refine (insertFts_spec h req now sourceId entry.1 range .chunksTrigram).bind ?_
  rintro tx ⟨none, h, hnone⟩
  obtain rfl : none = [] := List.map_eq_nil_iff.mp hnone
  refine (h.bumpVocabulary entry.1.body).bind ?_
  rintro tx ⟨hchunks, htallies⟩
  -- the terms of the chunk have been added once
  show Tallies _ _
  rw [hchunks, List.append_nil, List.map_append, hrows]
  intro term
  rw [htallies term, if_pos rfl]
  congr 1
  beta_reduce
  rw [← occurrences_cons]
  exact (List.perm_append_singleton _ _).symm.countP_eq _

omit [ContextLibrary] in
theorem storedProvenance_spec (req : IndexRequest) :
    Ensures (storedProvenance req) (fun _ => True) Unharmed := by
  unfold storedProvenance
  cases req.documentProvenance with
  | none => trivial
  | some provenance =>
    refine Ensures.bind (P := fun _ => True) ?_ fun _ _ => ?_
    · unfold DocumentProvenance.validateForContent
      refine Ensures.bind (P := fun _ => True) ?_ fun _ _ => ?_
      · unfold DocumentProvenance.validateMetadata
        iterate 7 refine (ensures_check (by decide)).bind fun _ _ => ?_
        refine Ensures.bind (P := fun _ => True) (Ensures.map (ensures_i64TryFrom (by decide)))
          fun _ _ => ?_
        refine Ensures.bind (P := fun _ => True) (Ensures.map (ensures_i64TryFrom (by decide)))
          fun _ _ => ?_
        split
        · trivial
        · exact ensures_check (by decide)
      · exact (ensures_check (by decide)).bind fun _ _ => ensures_check (by decide)
    · refine (ensures_i64TryFrom (by decide)).bind fun _ _ => ?_
      refine (ensures_i64TryFrom (by decide)).bind fun _ _ => ?_
      cases provenance.documentStructure with
      | none => trivial
      | some documentStructure =>
        refine Ensures.bind (P := fun _ => True) ?_ fun _ _ => trivial
        cases documentStructure.toJson with
        | none => exact (by decide : Unharmed .structured)
        | some json => trivial

omit [ContextLibrary] in
theorem ofContent_spec (content : String) (chunkCount : Nat) :
    Ensures (CodeSourceRanges.ofContent content chunkCount) (fun _ => True) Unharmed := by
  unfold CodeSourceRanges.ofContent
  refine Ensures.bind (P := fun _ => True) ?_ fun coverage _ => ?_
  · unfold CodeSourceRanges.coverageOf
    split
    · exact (ensures_check (by decide)).bind fun _ _ => trivial
    · split <;> trivial
  · refine Ensures.bind (P := fun _ => True) ?_ fun _ _ => trivial
    unfold CodeSourceRanges.validate
    refine (ensures_check (by decide)).bind fun _ _ => ?_
    refine (ensures_check (by decide)).bind fun _ _ => ?_
    refine Ensures.bind (P := fun _ => True) (Ensures.map (ensures_i64TryFrom (by decide)))
      fun _ _ => ?_
    refine Ensures.bind (P := fun _ => True) (Ensures.map (ensures_i64TryFrom (by decide)))
      fun _ _ => ?_
    refine (ensures_check (by decide)).bind fun _ _ => ?_
    split <;> exact ensures_check (by decide)

theorem insertCodeSource_spec (h : tx.index.Counts) (req : IndexRequest)
    (sourceId chunkCount : Nat) :
    Ensures (insertCodeSource req sourceId chunkCount tx) (fun r => r.1.index.Counts) Unharmed := by
  unfold insertCodeSource
  split
  · refine (ofContent_spec ..).bind fun source _ => ?_
    refine (ensures_i64TryFrom (by decide)).bind fun _ _ => ?_
    refine (ensures_i64TryFrom (by decide)).bind fun _ _ => ?_
    exact (ensures_quiet (quiet_insertCodeSource _) h).bind fun r hr => hr
  · exact h

omit [Sha256] in
theorem validateCode_spec (h : tx.index.Counts) (req : IndexRequest) (sourceId : Nat)
    (ranges : Option CodeSourceRanges) (chunks : List Chunk) (totalBytes : Nat) :
    Ensures (validateCode req sourceId ranges chunks totalBytes tx) (·.index.Counts) Unharmed := by
  unfold validateCode
  split
  · exact h
  · refine (ensures_check (by decide)).bind fun _ _ => ?_
    refine Ensures.foldlM (I := fun _ (tx : Tx) => tx.index.Counts) (fun table tables tx h => ?_) h
    refine (ensures_quiet_query h).bind fun r hr => ?_
    exact (ensures_check (by decide)).bind fun _ _ => hr

theorem indexDocument_spec (h : ix.Counts) (req : IndexRequest) (now : Int) (fault : Option Nat) :
    Ensures (indexDocument req now fault ix) (fun r => r.1.Counts) Unharmed := by
  refine run_spec h fun tx h => ?_
  refine Ensures.bind (P := (·.index.Counts)) ?_ fun tx h => ?_
  · refine (ensures_quiet_query h).bind fun r hr => ?_
    exact (ensures_check (by decide)).bind fun _ _ => hr
  unfold indexDocumentInTransaction
  refine (storedProvenance_spec req).bind fun structureJson _ => ?_
  refine (deleteForLabel_spec h req.label).bind fun r hr => ?_
  refine (ensures_quiet (quiet_insertSource _ _) hr).bind fun r hr => ?_
  refine (insertCodeSource_spec hr ..).bind ?_
  rintro ⟨tx, ranges⟩ hr
  refine Ensures.bind (P := fun r : Tx × Nat => r.1.index.Counts) ?_ fun r hr => ?_
  · exact Ensures.foldlM (I := fun _ (r : Tx × Nat) => r.1.index.Counts)
      (fun entry entries state h => indexChunk_spec h ..) hr
  refine (validateCode_spec hr ..).bind fun tx h => ?_
  exact (ensures_quiet (s := ContextIndex.setChunkCount _ _) (fun _ => ⟨rfl, rfl⟩) h).bind
    fun r hr => hr

end Documents

end Bodies

/-! ## Runs -/

section Runs
variable [Sha256] [ContextLibrary]

inductive ContextCall
  | indexDocument (req : IndexRequest) (now : Int) (fault : Option Nat)
  | purge (scope : PurgeScope) (fault : Option Nat)

inductive ContextReply
  | indexed (report : IndexReport)
  | purged (removed : Nat)

namespace ContextIndex

def perform (ix : ContextIndex) : ContextCall → Except CtxError (ContextIndex × ContextReply)
  | .indexDocument req now fault => (Memory.indexDocument req now fault ix).map fun r =>
    (r.1, .indexed r.2)
  | .purge scope fault => (Memory.purge scope fault ix).map fun r => (r.1, .purged r.2)

def step (ix : ContextIndex) (call : ContextCall) : ContextIndex × Except CtxError ContextReply :=
  transact (·.perform call) ix

def after (calls : List ContextCall) : ContextIndex := (run step empty calls).1

def answers (calls : List ContextCall) : List (Except CtxError ContextReply) :=
  (run step empty calls).2

theorem perform_spec (h : ix.Counts) (call : ContextCall) :
    Ensures (ix.perform call) (fun r => r.1.Counts) Unharmed := by
  cases call with
  | indexDocument req now fault => exact Ensures.map (indexDocument_spec h req now fault)
  | purge scope fault => exact Ensures.map (purge_spec h scope fault)

omit [Sha256] in
theorem counts_empty : empty.Counts := fun _ => rfl

theorem counts_after (calls : List ContextCall) : (after calls).Counts :=
  run_invariant (P := Counts) (fun _ call h => Ensures.transact h (perform_spec h call)) empty
    counts_empty calls

/-- **The vocabulary counts the chunks that contain a term.**  No contribution is ever missing from
it, and an operation that fails leaves the index as it was. -/
theorem vocabulary_counts (calls : List ContextCall) :
    (∀ term, (after calls).vocabulary.find term =
      entry term ((after calls).chunks.countP fun chunk => term ∈ vocabularyTerms chunk.content)) ∧
    (∀ e, .error e ∈ answers calls → e ≠ missingContribution) ∧
    ∀ before call later e, calls = before ++ call :: later →
    ((after before).step call).2 = .error e →
      ((after before).step call).1 = after before := by
  refine ⟨fun term => ?_, fun e he => ?_, fun before call later e _ he =>
    eq_self_of_transact_error he⟩
  · rw [counts_after calls term, occurrences, List.countP_map]
    rfl
  · obtain ⟨before, call, later, -, hanswer⟩ := exists_step_of_mem_run he
    have hunharmed : Unharmed e := (perform_spec (counts_after before) call).transact_error hanswer
    exact hunharmed

end ContextIndex

end Runs

end Neoth.Memory
