import Mathlib

/-!
# Lists with a mask

A mask says which entries of a list are kept.

* `Marked`: the mask keeps an index; `marked_set`, `marked_zipWith_or`, `marked_map_range`;
* `collapse`: the kept entries, and a mark with its length for every run of the others
  (`collapse_spec`).
-/

namespace Lib.Masks

/-- The mask keeps the index. -/
def Marked (mask : List Bool) (i : Nat) : Prop := mask[i]? = some true

instance (mask : List Bool) (i : Nat) : Decidable (Marked mask i) :=
  inferInstanceAs (Decidable (_ = _))

theorem Marked.lt {mask : List Bool} {i : Nat} (h : Marked mask i) : i < mask.length := by
  by_contra hi
  unfold Marked at h
  rw [List.getElem?_eq_none (not_lt.mp hi)] at h
  cases h

@[simp] theorem marked_nil (i : Nat) : ¬Marked [] i := by
  simp [Marked]

@[simp] theorem marked_cons_zero (b : Bool) (mask : List Bool) : Marked (b :: mask) 0 ↔
    b = true := by
  simp [Marked]

@[simp] theorem marked_cons_succ (b : Bool) (mask : List Bool) (i : Nat) :
    Marked (b :: mask) (i + 1) ↔ Marked mask i := by
  simp [Marked]

theorem marked_set {mask : List Bool} {i j : Nat} : Marked (mask.set j true) i ↔
    Marked mask i ∨ i = j ∧ i < mask.length := by
  unfold Marked
  rw [List.getElem?_set]
  by_cases hij : j = i
  · subst hij
    by_cases hj : j < mask.length
    · simp [hj]
    · simp [hj]
  · simp [hij, Ne.symm hij]

theorem marked_map_range {p : Nat → Bool} {n i : Nat} : Marked ((List.range n).map p) i ↔
    i < n ∧ p i = true := by
  unfold Marked
  by_cases hi : i < n
  · simp [hi]
  · simp [hi]

theorem marked_zipWith_or {mask mask' : List Bool} {i : Nat} (hlen : mask.length = mask'.length) :
    Marked (List.zipWith (· || ·) mask mask') i ↔ Marked mask i ∨ Marked mask' i := by
  induction mask generalizing mask' i with
  | nil =>
    obtain rfl := List.length_eq_zero_iff.mp hlen.symm
    simp
  | cons b mask ih =>
    obtain ⟨b', mask', rfl⟩ := List.exists_cons_of_length_eq_add_one hlen.symm
    cases i with
    | zero => simp
    | succ i => simpa using ih (by simpa using hlen)

/-! ## Runs of what is dropped -/

variable {A : Type}

/-- The kept entries in order; a run of others, of which `dropped` came before, becomes one mark. -/
def collapseFrom (mark : Nat → A) (dropped : Nat) : List (A × Bool) → List A
  | [] => if dropped = 0 then [] else [mark dropped]
  | (a, true) :: rest =>
    if dropped = 0 then a :: collapseFrom mark 0 rest
    else mark dropped :: a :: collapseFrom mark 0 rest
  | (_, false) :: rest => collapseFrom mark (dropped + 1) rest

def collapse (mark : Nat → A) (xs : List (A × Bool)) : List A := collapseFrom mark 0 xs

/-- The output holds the kept entries in order, and for each maximal run of others one mark with its
length. -/
inductive Collapsed (mark : Nat → A) : List (A × Bool) → List A → Prop
  | nil : Collapsed mark [] []
  | keep (a : A) {xs : List (A × Bool)} {out : List A} (h : Collapsed mark xs out) :
      Collapsed mark ((a, true) :: xs) (a :: out)
  | drop {run : List A} (hrun : run ≠ []) {xs : List (A × Bool)} {out : List A}
    (hend : ∀ x ∈ xs.head?, x.2 = true)
      (h : Collapsed mark xs out) :
        Collapsed mark (run.map (·, false) ++ xs) (mark run.length :: out)

theorem collapseFrom_spec (mark : Nat → A) (run : List A) (xs : List (A × Bool)) :
    Collapsed mark (run.map (·, false) ++ xs) (collapseFrom mark run.length xs) := by
  induction xs generalizing run with
  | nil =>
    rcases eq_or_ne run [] with rfl | hrun
    · exact .nil
    · rw [collapseFrom, if_neg (by simpa using hrun)]
      exact .drop hrun (by simp) .nil
  | cons x xs ih =>
    obtain ⟨a, kept⟩ := x
    cases kept with
    | true =>
      have hrest : Collapsed mark ((a, true) :: xs) (a :: collapseFrom mark 0 xs) := .keep a (ih [])
      rcases eq_or_ne run [] with rfl | hrun
      · exact hrest
      · rw [collapseFrom, if_neg (by simpa using hrun)]
        exact .drop hrun (by simp) hrest
    | false =>
      have h := ih (run ++ [a])
      rw [List.map_append, List.append_assoc, List.length_append] at h
      exact h

/-- **Collapsing is what it says.** -/
theorem collapse_spec (mark : Nat → A) (xs : List (A × Bool)) :
    Collapsed mark xs (collapse mark xs) :=
  collapseFrom_spec mark [] xs

end Lib.Masks
