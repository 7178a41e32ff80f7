import Mathlib

/-!
# Lists with entries replaced or taken out

* `exists_split_of_getElem?`: the entry between what stands before and behind it;
* `countP_set`, `countP_eraseIdx`: what a replaced or removed entry changes of a count;
* `perm_cons_filter`: an entry taken out by its key, of which there is one;
* `keepIdx`: the entries whose places are kept (`keepIdx_eraseIdx`, `filter_keepIdx`), and what the
  others add up to (`sum_keepIdx`).
-/

namespace Lib.Lists

variable {α : Type}

theorem exists_split_of_getElem? {l : List α} {i : Nat} {a : α} (h : l[i]? = some a) :
    ∃ pre post, l = pre ++ a :: post ∧ ∀ b, l.set i b = pre ++ b :: post := by
  obtain ⟨hlt, rfl⟩ := List.getElem?_eq_some_iff.mp h
  refine ⟨l.take i, l.drop (i + 1), by simp, fun b => ?_⟩
  rw [List.set_eq_take_append_cons_drop, if_pos hlt]

theorem countP_set {l : List α} {i : Nat} {a : α} (h : l[i]? = some a) (b : α) (p : α → Bool) :
    (l.set i b).countP p + (if p a then 1 else 0) = l.countP p + if p b then 1 else 0 := by
  obtain ⟨pre, post, hl, hset⟩ := exists_split_of_getElem? h
  rw [hset, hl, List.countP_append, List.countP_append, List.countP_cons, List.countP_cons]
  omega

/-- What keeps the count keeps everything that is counted. -/
theorem of_countP_le {p q : α → Bool} {l : List α} (h : l.countP p ≤ l.countP fun a => p a && q a) :
    ∀ a ∈ l, p a = true → q a = true := by
  induction l with
  | nil => simp
  | cons b l ih =>
    have hrest : (l.countP fun a => p a && q a) ≤ l.countP p :=
      List.countP_mono_left fun a _ ha => (Bool.and_eq_true_iff.mp ha).1
    rw [List.countP_cons, List.countP_cons] at h
    refine List.forall_mem_cons.mpr ⟨fun hp => ?_, ih ?_⟩
    · by_contra hq
      simp [hp, hq] at h
      omega
    · split_ifs at h with hp hboth hboth
      · omega
      · omega
      · exact absurd (Bool.and_eq_true_iff.mp hboth).1 hp
      · omega

theorem countP_eraseIdx {l : List α} {i : Nat} {a : α} (h : l[i]? = some a) (p : α → Bool) :
    (l.eraseIdx i).countP p + (if p a then 1 else 0) = l.countP p := by
  induction l generalizing i with
  | nil => simp at h
  | cons b l ih =>
    cases i with
    | zero =>
      obtain rfl : b = a := by simpa using h
      rw [List.eraseIdx_cons_zero, List.countP_cons]
    | succ i =>
      have htail := ih (by simpa using h)
      rw [List.eraseIdx_cons_succ, List.countP_cons, List.countP_cons]
      omega

/-- Of what there is one, the place is one. -/
theorem eq_of_countP_le_one {p : α → Bool} {l : List α} (h : l.countP p ≤ 1) :
    ∀ {i j : Nat} {a b : α}, l[i]? = some a → l[j]? = some b → p a = true → p b = true → i = j := by
  induction l with
  | nil =>
    intro i j a b ha
    simp at ha
  | cons c l ih =>
    have hnone : p c = true → ∀ {k : Nat} {d : α}, l[k]? = some d → p d ≠ true := by
      intro hc k d hd hp
      rw [List.countP_cons, if_pos hc] at h
      have hpos := List.countP_pos_iff.mpr ⟨d, List.mem_of_getElem? hd, hp⟩
      omega
    have hle : l.countP p ≤ 1 := (List.sublist_cons_self c l).countP_le.trans h
    intro i j a b ha hb hpa hpb
    match i, j with
    | 0, 0 => rfl
    | 0, j + 1 =>
      obtain rfl : c = a := by simpa using ha
      exact absurd hpb (hnone hpa (by simpa using hb))
    | i + 1, 0 =>
      obtain rfl : c = b := by simpa using hb
      exact absurd hpa (hnone hpb (by simpa using ha))
    | i + 1, j + 1 =>
      exact congrArg (· + 1) (ih hle (by simpa using ha) (by simpa using hb) hpa hpb)

theorem perm_cons_filter {β : Type} [DecidableEq β] {f : α → β} {l : List α}
    (hnodup : (l.map f).Nodup) {a : α} (h : a ∈ l) : l.Perm (a :: l.filter fun b => f b ≠ f a) := by
  induction l with
  | nil => simp at h
  | cons b l ih =>
    obtain ⟨hb, hnodup⟩ := List.nodup_cons.mp hnodup
    rcases List.mem_cons.mp h with rfl | h
    · have hall : l.filter (fun b => f b ≠ f a) = l := by
        refine List.filter_eq_self.mpr fun c hc => ?_
        have hne : f c ≠ f a := fun heq => hb (heq ▸ List.mem_map_of_mem hc)
        simpa using hne
      rw [List.filter_cons_of_neg (by simp), hall]
    · have hne : f b ≠ f a := fun heq => hb (heq ▸ List.mem_map_of_mem h)
      rw [List.filter_cons_of_pos (by simpa using hne)]
      exact ((ih hnodup h).cons b).trans (List.Perm.swap ..)

/-! ## Entries kept by their places -/

/-- The entries whose places are kept. -/
def keepIdx (keep : Nat → Bool) : List α → List α
  | [] => []
  | a :: l => if keep 0 then a :: keepIdx (fun i => keep (i + 1)) l
    else keepIdx (fun i => keep (i + 1)) l

theorem keepIdx_all (l : List α) : ∀ keep : Nat → Bool, (∀ i, keep i = true) →
    keepIdx keep l = l := by
  induction l with
  | nil => exact fun _ _ => rfl
  | cons a l ih =>
    intro keep h
    rw [keepIdx, if_pos (h 0), ih _ fun i => h (i + 1)]

/-- An entry is taken out behind those that are left to be. -/
theorem keepIdx_eraseIdx (l : List α) : ∀ (keep : Nat → Bool) (i : Nat),
    (∀ j, i ≤ j → keep j = true) →
    keepIdx keep (l.eraseIdx i) = keepIdx (fun j => j ≠ i && keep j) l := by
  induction l with
  | nil => exact fun _ _ _ => rfl
  | cons a l ih =>
    intro keep i h
    cases i with
    | zero =>
      rw [List.eraseIdx_cons_zero, keepIdx_all l _ fun j => h j (Nat.zero_le _), keepIdx,
        if_neg (by simp)]
      exact (keepIdx_all l _ fun j => by simpa using h (j + 1) (Nat.zero_le _)).symm
    | succ i =>
      have htail := ih (fun j => keep (j + 1)) i fun j hj => h (j + 1) (Nat.succ_le_succ hj)
      rw [List.eraseIdx_cons_succ, keepIdx, keepIdx, htail]
      simp

theorem keepIdx_sublist (l : List α) : ∀ (keep : Nat → Bool), (keepIdx keep l).Sublist l := by
  induction l with
  | nil => exact fun _ => List.Sublist.refl _
  | cons a l ih =>
    intro keep
    unfold keepIdx
    split
    · exact (ih _).cons_cons a
    · exact (ih _).cons a

/-- What does not satisfy a predicate may go. -/
theorem filter_keepIdx {p : α → Bool} {l : List α} : ∀ keep : Nat → Bool,
    (∀ i a, l[i]? = some a → keep i = false → p a = false) →
    (keepIdx keep l).filter p = l.filter p := by
  induction l with
  | nil => exact fun _ _ => rfl
  | cons a l ih =>
    intro keep h
    have htail := ih (fun i => keep (i + 1)) fun i b hb => h (i + 1) b (by simpa using hb)
    unfold keepIdx
    split
    · rw [List.filter_cons, List.filter_cons, htail]
    · rename_i hdrop
      rw [List.filter_cons_of_neg (by simpa using h 0 a rfl (by simpa using hdrop)), htail]

/-- What satisfies a predicate goes as a whole. -/
theorem filter_keepIdx_nil {p : α → Bool} {l : List α} : ∀ keep : Nat → Bool,
    (∀ i a, l[i]? = some a → p a = true → keep i = false) → (keepIdx keep l).filter p = [] := by
  induction l with
  | nil => exact fun _ _ => rfl
  | cons a l ih =>
    intro keep h
    have htail := ih (fun i => keep (i + 1)) fun i b hb => h (i + 1) b (by simpa using hb)
    unfold keepIdx
    split
    · rename_i hkeep
      have hp : p a ≠ true := fun hp => by simp [h 0 a rfl hp] at hkeep
      rw [List.filter_cons_of_neg hp, htail]
    · exact htail

theorem mem_keepIdx {l : List α} {a : α} : ∀ keep : Nat → Bool,
    a ∈ keepIdx keep l ↔ ∃ i, l[i]? = some a ∧ keep i = true := by
  induction l with
  | nil => simp [keepIdx]
  | cons b l ih =>
    intro keep
    have hsplit : (∃ i, (b :: l)[i]? = some a ∧ keep i = true) ↔
        (b = a ∧ keep 0 = true) ∨ ∃ i, l[i]? = some a ∧ keep (i + 1) = true := by
      constructor
      · rintro ⟨i, ha, hkeep⟩
        cases i with
        | zero => exact .inl ⟨by simpa using ha, hkeep⟩
        | succ i => exact .inr ⟨i, by simpa using ha, hkeep⟩
      · rintro (⟨rfl, hkeep⟩ | ⟨i, ha, hkeep⟩)
        · exact ⟨0, rfl, hkeep⟩
        · exact ⟨i + 1, by simpa using ha, hkeep⟩
    rw [hsplit, ← ih, keepIdx]
    split <;> rename_i hkeep
    · rw [List.mem_cons, and_iff_left hkeep, eq_comm]
    · exact (or_iff_right fun h => hkeep h.2).symm

theorem sum_keepIdx_ne (f : α → ℕ) {a : α} {l : List α} : ∀ (keep : Nat → Bool) {i : Nat},
    l[i]? = some a →
    keep i = true → ((keepIdx (fun j => keep j && j != i) l).map f).sum + f a =
      ((keepIdx keep l).map f).sum := by
  induction l with
  | nil =>
    intro keep i ha
    cases ha
  | cons b l ih =>
    intro keep i ha hkeep
    cases i with
    | zero =>
      obtain rfl : b = a := by simpa using ha
      have htail : (fun j => keep (j + 1) && j + 1 != 0) = fun j => keep (j + 1) := by simp
      simp only [keepIdx, hkeep, bne_self_eq_false, Bool.and_false, Bool.false_eq_true, if_false,
        if_true, htail, List.map_cons, List.sum_cons]
      omega
    | succ i =>
      have htail : (fun j => keep (j + 1) && j + 1 != i + 1) = fun j => keep (j + 1) && j != i := by
        funext j
        simp
      have hrest := ih (fun j => keep (j + 1)) (by simpa using ha) hkeep
      have hhead : (keep 0 && 0 != i + 1) = keep 0 := by simp
      simp only [keepIdx, hhead, htail]
      split
      · simp only [List.map_cons, List.sum_cons]
        omega
      · exact hrest

/-- What is kept and what is not add up to all. -/
theorem sum_keepIdx (f : α → ℕ) {l : List α} {places : List Nat} (hnodup : places.Nodup)
    (hplaces : ∀ i ∈ places, i < l.length) :
    ((keepIdx (fun j => decide (j ∉ places)) l).map f).sum +
      ((places.filterMap (l[·]?)).map f).sum = (l.map f).sum := by
  induction places with
  | nil => simp [keepIdx_all]
  | cons i places ih =>
    obtain ⟨hfresh, hnodup⟩ := List.nodup_cons.mp hnodup
    obtain ⟨hi, hplaces⟩ := List.forall_mem_cons.mp hplaces
    have ha : l[i]? = some l[i] := List.getElem?_eq_getElem hi
    have hone := sum_keepIdx_ne f (fun j => decide (j ∉ places)) ha (by simpa using hfresh)
    have hkeep : (fun j => decide (j ∉ places) && j != i) = fun j => decide (j ∉ i :: places) := by
      funext j
      by_cases hj : j = i <;> simp [hj]
    have hrest := ih hnodup hplaces
    have hcons : (i :: places).filterMap (l[·]?) = l[i] :: places.filterMap (l[·]?) :=
      List.filterMap_cons_some ha
    rw [hkeep] at hone
    rw [hcons, List.map_cons, List.sum_cons]
    omega

end Lib.Lists
