import Neoth.Lib.EditDistance
import Neoth.Memory.ContextIndex

/-!
# Correcting a word

`nearest_vocab` and `levenshtein` of `memory/ctx.rs`.

* `levenshtein_eq`: the two rows compute the distance;
* `found_foldl`, `nearestVocab_cases`: the loop keeps the nearest, most frequent of the rows that
  the query selects;
* **`nearestVocab_iff`**: it is the nearest of all rows if and only if the query selects one that
  is, or none is near.

The query compares the length of a term in characters with the length of the word in bytes.
-/

open Lib Lib.EditDistance Lib.Encoding Lib.Text

namespace Neoth.Memory

/-! ## The code -/

/-- The loop over the rows; `i` is the index of the first of the characters that are left. -/
def levenshteinRows (b : List Char) (prev : List Nat) (i : Nat) : List Char → List Nat
  | [] => prev
  | ca :: rest => levenshteinRows b ((i + 1) :: rowFrom ca (i + 1) prev b) (i + 1) rest

def levenshtein (a b : String) : Nat :=
  let (a, b) := if a.toList.length < b.toList.length then (b.toList, a.toList)
    else (a.toList, b.toList)
  if b = [] then a.length
  else (levenshteinRows b (List.range (b.length + 1)) 0 a).getLast?.getD 0

/-- `length(..)` of SQLite: the characters before the first NUL. -/
def sqliteLength (term : String) : Nat := (term.toList.takeWhile (· ≠ '\x00')).length

/-- The `WHERE` of the query, for a word of so many bytes. -/
def selected (lowerLen maxDist : Nat) (row : VocabularyRow) : Bool :=
  lowerLen - maxDist ≤ sqliteLength row.term ∧ sqliteLength row.term ≤ lowerLen + maxDist

/-- The best row so far: its term, distance and frequency. -/
abbrev Best := Option (String × Nat × Int)

def scanRow (lower : String) (maxDist : Nat) (best : Best) (row : VocabularyRow) : Best :=
  let dist := levenshtein lower row.term
  if maxDist < dist then best
  else
    let better := match best with
      | none => true
      | some (_, bd, bf) => dist < bd || (dist == bd && bf < row.frequency)
    if better then some (row.term, dist, row.frequency) else best

/-- `nearest_vocab`, over the rows of the vocabulary in the order in which the query returns
them. -/
def nearestVocab [ContextLibrary] (vocabulary : List VocabularyRow) (word : String)
    (maxDist : Nat) : Option String :=
  let lower := ContextLibrary.toLowercase word
  ((vocabulary.filter (selected (byteLen lower) maxDist)).foldl (scanRow lower maxDist) none).map
    (·.1)

/-! ## The distance -/

theorem levenshteinRows_dists (b ra rest : List Char) :
    levenshteinRows b (dists ra [] b) ra.length rest = dists (rest.reverse ++ ra) [] b := by
  induction rest generalizing ra with
  | nil => rfl
  | cons ca rest ih =>
    have hrow := rowFrom_dists ca ra [] b
    rw [distance_nil_right, List.length_cons] at hrow
    rw [levenshteinRows, hrow]
    have hnext := ih (ca :: ra)
    rw [List.length_cons] at hnext
    rw [hnext, List.reverse_cons, List.append_assoc, List.singleton_append]

theorem levenshteinRows_eq (a b : List Char) :
    (levenshteinRows b (List.range (b.length + 1)) 0 a).getLast?.getD 0 = distance a b := by
  have hfirst : dists [] [] b = List.range (b.length + 1) := by
    rw [dists_nil, List.range_eq_range', List.length_nil]
  have hrows := levenshteinRows_dists b [] a
  rw [List.length_nil, hfirst, List.append_nil] at hrows
  rw [hrows, getLast_dists, List.append_nil, Option.getD_some, distance_reverse]

/-- **The code computes the distance.** -/
theorem levenshtein_eq (a b : String) : levenshtein a b = distance a.toList b.toList := by
  unfold levenshtein
  split_ifs with hswap
  · dsimp only
    split_ifs with hempty
    · rw [hempty, distance_nil_left]
    · rw [levenshteinRows_eq, distance_comm]
  · dsimp only
    split_ifs with hempty
    · rw [hempty, distance_nil_right]
    · rw [levenshteinRows_eq]

/-! ## The loop -/

/-- Of these rows it is within the distance, and none is nearer, or as near and more frequent. -/
structure Nearest (lower : String) (maxDist : Nat) (rows : List VocabularyRow)
    (row : VocabularyRow) : Prop where
  mem : row ∈ rows
  near : levenshtein lower row.term ≤ maxDist
  least : ∀ other ∈ rows, levenshtein lower row.term ≤ levenshtein lower other.term
  frequent : ∀ other ∈ rows, levenshtein lower other.term = levenshtein lower row.term →
    other.frequency ≤ row.frequency

/-- What the loop has found in these rows. -/
def Scanned (lower : String) (maxDist : Nat) (rows : List VocabularyRow) (best : Best) : Prop :=
  (best = none ∧ ∀ row ∈ rows, maxDist < levenshtein lower row.term) ∨
    ∃ row, Nearest lower maxDist rows row ∧
    best = some (row.term, levenshtein lower row.term, row.frequency)

variable {lower : String} {maxDist : Nat} {rows : List VocabularyRow} {best : Best}
  {row other : VocabularyRow}

theorem Nearest.snoc (h : Nearest lower maxDist rows row)
    (hother : levenshtein lower row.term < levenshtein lower other.term ∨
      levenshtein lower row.term = levenshtein lower other.term ∧ other.frequency ≤ row.frequency) :
    Nearest lower maxDist (rows ++ [other]) row where
  mem := List.mem_append_left _ h.mem
  near := h.near
  least := List.forall_mem_append.mpr ⟨h.least, by simpa using by omega⟩
  frequent := List.forall_mem_append.mpr ⟨h.frequent, by simpa using by omega⟩

theorem Nearest.replace (h : Nearest lower maxDist rows row)
    (hother : levenshtein lower other.term < levenshtein lower row.term ∨
      levenshtein lower other.term = levenshtein lower row.term ∧ row.frequency < other.frequency) :
    Nearest lower maxDist (rows ++ [other]) other where
  mem := List.mem_append_right _ (List.mem_singleton_self _)
  near := by
    have hnear := h.near
    omega
  least := by
    refine List.forall_mem_append.mpr ⟨fun r hr => ?_, by simp⟩
    have hleast := h.least r hr
    omega
  frequent := by
    refine List.forall_mem_append.mpr ⟨fun r hr hsame => ?_, by simp⟩
    have hleast := h.least r hr
    have hfrequent := h.frequent r hr
    omega

theorem Nearest.first (hfar : ∀ row ∈ rows, maxDist < levenshtein lower row.term)
    (hnear : levenshtein lower other.term ≤ maxDist) :
      Nearest lower maxDist (rows ++ [other]) other where
  mem := List.mem_append_right _ (List.mem_singleton_self _)
  near := hnear
  least := List.forall_mem_append.mpr ⟨fun r hr => (hnear.trans_lt (hfar r hr)).le, by simp⟩
  frequent := by
    refine List.forall_mem_append.mpr ⟨fun r hr hsame => ?_, by simp⟩
    have hlt := hfar r hr
    omega

/-- **What one row does.** -/
theorem Scanned.scanRow (h : Scanned lower maxDist rows best) (other : VocabularyRow) :
    Scanned lower maxDist (rows ++ [other]) (scanRow lower maxDist best other) := by
  unfold Memory.scanRow
  dsimp only
  split
  · rename_i hfar
    rcases h with ⟨rfl, hnone⟩ | ⟨row, hnearest, rfl⟩
    · exact .inl ⟨rfl, List.forall_mem_append.mpr ⟨hnone, by simpa using hfar⟩⟩
    · have hnear := hnearest.near
      exact .inr ⟨row, hnearest.snoc (.inl (by omega)), rfl⟩
  · rename_i hnear
    rw [not_lt] at hnear
    rcases h with ⟨rfl, hnone⟩ | ⟨row, hnearest, rfl⟩
    · exact .inr ⟨other, .first hnone hnear, rfl⟩
    · dsimp only
      split
      · rename_i hbetter
        refine .inr ⟨other, hnearest.replace ?_, rfl⟩
        simpa using hbetter
      · rename_i hworse
        refine .inr ⟨row, hnearest.snoc ?_, rfl⟩
        simp only [Bool.or_eq_true, Bool.and_eq_true, decide_eq_true_eq, beq_iff_eq] at hworse
        omega

theorem found_foldl (h : Scanned lower maxDist rows best) (more : List VocabularyRow) :
    Scanned lower maxDist (rows ++ more) (more.foldl (scanRow lower maxDist) best) := by
  induction more generalizing rows best with
  | nil => simpa using h
  | cons other more ih =>
    have hnext := ih (h.scanRow other)
    rwa [List.append_assoc, List.singleton_append] at hnext

/-! ## What is corrected -/

/-- The answer is the nearest term of the vocabulary, if there is one within the distance. -/
structure Corrects (vocabulary : List VocabularyRow) (lower : String) (maxDist : Nat)
    (answer : Option String) : Prop where
  isSome : answer.isSome ↔ ∃ row ∈ vocabulary, levenshtein lower row.term ≤ maxDist
  nearest : ∀ term, answer = some term → ∃ row,
    Nearest lower maxDist vocabulary row ∧ row.term = term

section
variable [ContextLibrary]

theorem nearestVocab_cases (vocabulary : List VocabularyRow) (word : String) (maxDist : Nat) :
    let lower := ContextLibrary.toLowercase word
    let rows := vocabulary.filter (selected (byteLen lower) maxDist)
    (nearestVocab vocabulary word maxDist = none ∧ ∀ row ∈ rows,
      maxDist < levenshtein lower row.term) ∨
      ∃ row, Nearest lower maxDist rows row ∧
      nearestVocab vocabulary word maxDist = some row.term := by
  intro lower rows
  have hstart : Scanned lower maxDist [] none := .inl ⟨rfl, by simp⟩
  have hfound := found_foldl hstart rows
  rw [List.nil_append] at hfound
  have hanswer : nearestVocab vocabulary word maxDist =
      (rows.foldl (scanRow lower maxDist) none).map (·.1) := rfl
  rw [hanswer]
  rcases hfound with ⟨hbest, hfar⟩ | ⟨row, hnearest, hbest⟩
  · exact .inl ⟨by rw [hbest, Option.map_none], hfar⟩
  · exact .inr ⟨row, hnearest, by rw [hbest, Option.map_some]⟩

theorem corrects_iff (vocabulary : List VocabularyRow) (word : String) (maxDist : Nat) :
    Corrects vocabulary (ContextLibrary.toLowercase word) maxDist
      (nearestVocab vocabulary word maxDist) ↔
      ((∃ row ∈ vocabulary, levenshtein (ContextLibrary.toLowercase word) row.term ≤ maxDist) →
        ∃ row, Nearest (ContextLibrary.toLowercase word) maxDist vocabulary row ∧
          selected (byteLen (ContextLibrary.toLowercase word)) maxDist row = true) := by
  have hcases := nearestVocab_cases vocabulary word maxDist
  dsimp only at hcases
  generalize ContextLibrary.toLowercase word = lower at hcases ⊢
  constructor
  · intro h hnear
    rcases hcases with ⟨hnone, -⟩ | ⟨row, hnearest, hsome⟩
    · have hsome := h.isSome.mpr hnear
      rw [hnone] at hsome
      cases hsome
    · obtain ⟨row', hnearest', hterm⟩ := h.nearest row.term hsome
      refine ⟨row', hnearest', ?_⟩
      have hselected := (List.mem_filter.mp hnearest.mem).2
      unfold selected at hselected ⊢
      rwa [hterm]
  · intro h
    rcases hcases with ⟨hnone, hfar⟩ | ⟨row, hnearest, hsome⟩
    · have hnot : ¬ ∃ row ∈ vocabulary, levenshtein lower row.term ≤ maxDist := by
        intro hnear
        obtain ⟨row, hnearest, hselected⟩ := h hnear
        exact absurd hnearest.near
          (not_le.mpr (hfar row (List.mem_filter.mpr ⟨hnearest.mem, hselected⟩)))
      rw [hnone]
      exact ⟨by simpa using hnot, by simp⟩
    · rw [hsome]
      have hmem := (List.mem_filter.mp hnearest.mem).1
      refine ⟨iff_of_true rfl ⟨row, hmem, hnearest.near⟩, ?_⟩
      rintro _ ⟨⟩
      obtain ⟨best, hbest, hselected⟩ := h ⟨row, hmem, hnearest.near⟩
      -- the row that the loop keeps is as near and as frequent as the nearest one of all
      have hin : best ∈ vocabulary.filter (selected (byteLen lower) maxDist) :=
        List.mem_filter.mpr ⟨hbest.mem, hselected⟩
      have hdist := le_antisymm (hnearest.least best hin) (hbest.least row hmem)
      have hfrequency := hnearest.frequent best hin hdist.symm
      refine ⟨row, ⟨hmem, hnearest.near, fun other hother => ?_, fun other hother hsame => ?_⟩, rfl⟩
      · rw [hdist]
        exact hbest.least other hother
      · exact (hbest.frequent other hother (hsame.trans hdist)).trans hfrequency

/-- **The distance and the correction.**  `levenshtein` is the least number of edits. The answer is
the nearest and most frequent term if and only if none is within the distance, or the query selects
a row that is such a term. -/
theorem nearestVocab_iff :
    (∀ a b : String, IsLeast {n | Edits n a.toList b.toList} (levenshtein a b)) ∧
      ∀ (vocabulary : List VocabularyRow) (word : String) (maxDist : Nat),
        Corrects vocabulary (ContextLibrary.toLowercase word) maxDist
          (nearestVocab vocabulary word maxDist) ↔
          ((∃ row ∈ vocabulary, levenshtein (ContextLibrary.toLowercase word) row.term ≤ maxDist) →
            ∃ row, Nearest (ContextLibrary.toLowercase word) maxDist vocabulary row ∧
              selected (byteLen (ContextLibrary.toLowercase word)) maxDist row = true) := by
  refine ⟨fun a b => ?_, corrects_iff⟩
  rw [levenshtein_eq]
  exact isLeast_distance a.toList b.toList

end

/-! ## A word that is not found -/

/-- Ten letters, twenty bytes: the query asks for terms of at least seventeen characters. -/
theorem cyrillic_is_not_selected :
    levenshtein "библиотека" "библиотека" = 0 ∧
      @nearestVocab sampleLibrary [⟨"библиотека", 1⟩] "библиотека" 3 = none ∧
      ¬ Corrects [⟨"библиотека", 1⟩] "библиотека" 3
        (@nearestVocab sampleLibrary [⟨"библиотека", 1⟩] "библиотека" 3) := by
  have hzero : levenshtein "библиотека" "библиотека" = 0 := by rw [levenshtein_eq, distance_self]
  have hnone : @nearestVocab sampleLibrary [⟨"библиотека", 1⟩] "библиотека" 3 = none := by decide
  refine ⟨hzero, hnone, fun h => ?_⟩
  have hsome := h.isSome.mpr ⟨⟨"библиотека", 1⟩, by simp, hzero.le.trans (by decide)⟩
  rw [hnone] at hsome
  cases hsome

end Neoth.Memory
