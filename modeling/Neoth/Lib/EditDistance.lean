import Mathlib

/-!
# Edit distance

The least number of insertions, deletions and substitutions that turn one list into another, and the
computation of it over two rows.

* `Edit`, `Edits`: a single edit, and a number of them;
* `distance`: the recursion on the first elements; `distance_le_of_edit`: an edit changes it by at
  most one;
* **`isLeast_distance`**: it is the least number of edits; `distance_comm`, `distance_reverse` from
  it;
* `dists`, `rowFrom_dists`: a row of the table, by the prefixes of the second list.
-/

namespace Lib.EditDistance

variable {A : Type} [DecidableEq A]

/-! ## Edits -/

/-- One insertion, deletion or substitution. -/
inductive Edit : List A → List A → Prop
  | insert (x : A) (as : List A) : Edit as (x :: as)
  | delete (x : A) (as : List A) : Edit (x :: as) as
  | substitute (x y : A) (as : List A) : Edit (x :: as) (y :: as)
  | keep (x : A) {as bs : List A} (h : Edit as bs) : Edit (x :: as) (x :: bs)

inductive Edits : Nat → List A → List A → Prop
  | none (as : List A) : Edits 0 as as
  | one {n : Nat} {as bs cs : List A} (h : Edit as bs) (hrest : Edits n bs cs) : Edits (n + 1) as cs

variable {as bs cs ra rb : List A} {m n : Nat}

omit [DecidableEq A] in
theorem Edit.symm (h : Edit as bs) : Edit bs as := by
  induction h with
  | insert x as => exact .delete x as
  | delete x as => exact .insert x as
  | substitute x y as => exact .substitute y x as
  | keep x _ ih => exact .keep x ih

omit [DecidableEq A] in
theorem Edit.append (h : Edit as bs) (cs : List A) : Edit (as ++ cs) (bs ++ cs) := by
  induction h with
  | insert x as => exact .insert x _
  | delete x as => exact .delete x _
  | substitute x y as => exact .substitute x y _
  | keep x _ ih => exact .keep x ih

omit [DecidableEq A] in
theorem Edit.prepend (cs : List A) (h : Edit as bs) : Edit (cs ++ as) (cs ++ bs) := by
  induction cs with
  | nil => exact h
  | cons c cs ih => exact .keep c ih

omit [DecidableEq A] in
theorem Edit.reverse (h : Edit as bs) : Edit as.reverse bs.reverse := by
  induction h with
  | insert x as =>
    rw [List.reverse_cons]
    simpa using (Edit.insert x []).prepend as.reverse
  | delete x as =>
    rw [List.reverse_cons]
    simpa using (Edit.delete x []).prepend as.reverse
  | substitute x y as =>
    rw [List.reverse_cons, List.reverse_cons]
    exact (Edit.substitute x y []).prepend as.reverse
  | keep x _ ih =>
    rw [List.reverse_cons, List.reverse_cons]
    exact ih.append [x]

omit [DecidableEq A] in
theorem Edits.snoc (h : Edits n as bs) (hlast : Edit bs cs) : Edits (n + 1) as cs := by
  induction h with
  | none as => exact .one hlast (.none _)
  | one hfirst _ ih => exact .one hfirst (ih hlast)

omit [DecidableEq A] in
theorem Edits.symm (h : Edits n as bs) : Edits n bs as := by
  induction h with
  | none as => exact .none as
  | one hfirst _ ih => exact ih.snoc hfirst.symm

omit [DecidableEq A] in
theorem Edits.map {f : List A → List A} (hf : ∀ {as bs}, Edit as bs → Edit (f as) (f bs))
    (h : Edits n as bs) : Edits n (f as) (f bs) := by
  induction h with
  | none as => exact .none _
  | one hfirst _ ih => exact .one (hf hfirst) ih

/-! ## The recursion -/

/-- The distance of two lists, by their first elements. -/
def distance : List A → List A → Nat
  | [], bs => bs.length
  | a :: as, [] => (a :: as).length
  | a :: as, b :: bs =>
    min (min (distance as (b :: bs) + 1) (distance (a :: as) bs + 1)) (distance as bs + if a = b
      then 0 else 1)

@[simp] theorem distance_nil_left (bs : List A) : distance [] bs = bs.length := by
  rw [distance]

@[simp] theorem distance_nil_right (as : List A) : distance as [] = as.length := by
  cases as <;> rw [distance]

theorem distance_cons_cons (a b : A) (as bs : List A) : distance (a :: as) (b :: bs) =
    min (min (distance as (b :: bs) + 1) (distance (a :: as) bs + 1)) (distance as bs + if a = b
      then 0 else 1) := by
  rw [distance]

theorem distance_self (as : List A) : distance as as = 0 := by
  induction as with
  | nil => simp
  | cons a as ih =>
    rw [distance_cons_cons, ih, if_pos rfl]
    exact Nat.min_zero _

theorem distance_cons_le (a : A) (as bs : List A) : distance (a :: as) bs ≤ distance as bs + 1 := by
  cases bs with
  | nil => simp
  | cons b bs =>
    rw [distance_cons_cons]
    omega

theorem distance_le_cons (a : A) (as bs : List A) : distance as bs ≤ distance (a :: as) bs + 1 := by
  induction bs with
  | nil =>
    simp
    omega
  | cons b bs ih =>
    have hinsert : distance as (b :: bs) ≤ distance as bs + 1 := by
      cases as with
      | nil => simp
      | cons c as =>
        rw [distance_cons_cons]
        omega
    rw [distance_cons_cons]
    split <;> omega

theorem distance_substitute_le (x y : A) (as bs : List A) :
    distance (x :: as) bs ≤ distance (y :: as) bs + 1 := by
  induction bs with
  | nil => simp
  | cons b bs ih =>
    rw [distance_cons_cons, distance_cons_cons]
    split_ifs <;> omega

/-- **An edit changes the distance by at most one.** -/
theorem distance_le_of_edit (h : Edit as bs) (cs : List A) :
    distance as cs ≤ distance bs cs + 1 := by
  induction h generalizing cs with
  | insert x as => exact distance_le_cons x as cs
  | delete x as => exact distance_cons_le x as cs
  | substitute x y as => exact distance_substitute_le x y as cs
  | keep x _ ih =>
    induction cs with
    | nil => simpa using ih []
    | cons c cs ihc =>
      have hboth := ih cs
      have hfirst := ih (c :: cs)
      rw [distance_cons_cons, distance_cons_cons]
      omega

theorem distance_le_of_edits (h : Edits n as bs) : distance as bs ≤ n := by
  induction h with
  | none as => rw [distance_self]
  | one hfirst _ ih => exact (distance_le_of_edit hfirst _).trans (Nat.add_le_add_right ih 1)

/-- That many edits do. -/
theorem edits_distance (as bs : List A) : Edits (distance as bs) as bs := by
  induction as, bs using distance.induct with
  | case1 bs =>
    rw [distance_nil_left]
    induction bs with
    | nil => exact .none []
    | cons b bs ih => exact ih.snoc (.insert b bs)
  | case2 a as =>
    rw [distance_nil_right]
    induction (a :: as) with
    | nil => exact .none []
    | cons c cs ih => exact .one (.delete c cs) ih
  | case3 a as b bs ihdelete ihinsert ihboth =>
    rw [distance_cons_cons]
    have hboth : Edits (distance as bs + if a = b then 0 else 1) (a :: as) (b :: bs) := by
      split_ifs with heq
      · subst heq
        exact ihboth.map (Edit.keep a)
      · exact .one (.substitute a b as) (ihboth.map (Edit.keep b))
    rcases min_choice (min (distance as (b :: bs) + 1) (distance (a :: as) bs + 1))
      (distance as bs + if a = b then 0 else 1) with h | h <;> rw [h]
    · rcases min_choice (distance as (b :: bs) + 1) (distance (a :: as) bs + 1) with h | h <;>
        rw [h]
      · exact .one (.delete a as) ihdelete
      · exact ihinsert.snoc (.insert b bs)
    · exact hboth

/-- **The distance is the least number of edits.** -/
theorem isLeast_distance (as bs : List A) : IsLeast {n | Edits n as bs} (distance as bs) :=
  ⟨edits_distance as bs, fun _ h => distance_le_of_edits h⟩

theorem distance_comm (as bs : List A) : distance as bs = distance bs as :=
  le_antisymm (distance_le_of_edits (edits_distance bs as).symm)
    (distance_le_of_edits (edits_distance as bs).symm)

theorem distance_reverse_le (as bs : List A) : distance as.reverse bs.reverse ≤ distance as bs :=
  distance_le_of_edits ((edits_distance as bs).map Edit.reverse)

theorem distance_reverse (as bs : List A) : distance as.reverse bs.reverse = distance as bs := by
  refine le_antisymm (distance_reverse_le as bs) ?_
  have h := distance_reverse_le as.reverse bs.reverse
  rwa [List.reverse_reverse, List.reverse_reverse] at h

/-! ## Rows -/

/-- The distances of `ra` from `rb`, and from it behind one more element of the list after the
other. -/
def dists (ra rb : List A) : List A → List Nat
  | [] => [distance ra rb]
  | b :: bs => distance ra rb :: dists ra (b :: rb) bs

/-- What follows in the next row, of which `left` is the entry before. -/
def rowFrom (a : A) : Nat → List Nat → List A → List Nat
  | left, diagonal :: above :: row, b :: bs =>
    let next := min (min (above + 1) (left + 1)) (diagonal + if a = b then 0 else 1)
    next :: rowFrom a next (above :: row) bs
  | _, _, _ => []

theorem dists_eq_cons (ra rb bs : List A) : ∃ rest, dists ra rb bs = distance ra rb :: rest := by
  cases bs with
  | nil => exact ⟨[], rfl⟩
  | cons b bs => exact ⟨_, rfl⟩

/-- **A row from the one above it.** -/
theorem rowFrom_dists (a : A) (ra rb bs : List A) :
    distance (a :: ra) rb :: rowFrom a (distance (a :: ra) rb) (dists ra rb bs) bs =
      dists (a :: ra) rb bs := by
  induction bs generalizing rb with
  | nil => rfl
  | cons b bs ih =>
    obtain ⟨row, hrow⟩ := dists_eq_cons ra (b :: rb) bs
    rw [dists, dists, hrow, rowFrom, ← hrow, ← distance_cons_cons, ih]

/-- The first row. -/
theorem dists_nil (rb bs : List A) : dists [] rb bs = List.range' rb.length (bs.length + 1) := by
  induction bs generalizing rb with
  | nil => simp [dists]
  | cons b bs ih => simp [dists, ih, List.range'_succ]

theorem getLast_dists (ra rb bs : List A) :
    (dists ra rb bs).getLast? = some (distance ra (bs.reverse ++ rb)) := by
  induction bs generalizing rb with
  | nil => rfl
  | cons b bs ih =>
    obtain ⟨row, hrow⟩ := dists_eq_cons ra (b :: rb) bs
    rw [dists, hrow, List.getLast?_cons_cons, ← hrow, ih]
    simp

end Lib.EditDistance
