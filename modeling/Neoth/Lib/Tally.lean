import Mathlib

/-!
# Frequencies, and the values that cover most of a list

* `tally`: how often each value occurs (`tallied_tally`);
* `byCount`, `coverFrom`: the values by falling count, up to a target;
* `moreFrequent`, `equallyFrequent`: how much of the list is more frequent than a value, and how
  much as frequent.

A value is out of the cover if the more frequent ones reach the target (`not_mem_cover`), and in it
if they do not reach it even with the equally frequent ones (`mem_cover`).  In between it depends on
where the table has the value (`mem_cover_first`, `not_mem_cover_last`).
-/

namespace Lib.Tally

variable {K : Type}

/-! ## Counting -/

section
variable [DecidableEq K]

/-- One more of a value. -/
def bump (k : K) : List (K × Nat) → List (K × Nat)
  | [] => [(k, 1)]
  | (k', n) :: l => if k' = k then (k', n + 1) :: l else (k', n) :: bump k l

def tally (ks : List K) : List (K × Nat) := ks.foldl (fun l k => bump k l) []

theorem keys_bump (k x : K) (l : List (K × Nat)) : x ∈ (bump k l).map Prod.fst ↔
    x = k ∨ x ∈ l.map Prod.fst := by
  induction l with
  | nil => simp [bump]
  | cons e l ih =>
    obtain ⟨k', n⟩ := e
    rw [bump]
    split_ifs with hk
    · subst hk
      simp
    · rw [List.map_cons, List.mem_cons, ih, List.map_cons, List.mem_cons]
      exact or_left_comm

theorem nodup_bump {l : List (K × Nat)} (h : (l.map Prod.fst).Nodup) (k : K) :
    ((bump k l).map Prod.fst).Nodup := by
  induction l with
  | nil => simp [bump]
  | cons e l ih =>
    obtain ⟨k', n⟩ := e
    obtain ⟨hnew, hrest⟩ := List.nodup_cons.mp h
    rw [bump]
    split_ifs with hk
    · exact h
    · rw [List.map_cons, List.nodup_cons, keys_bump]
      exact ⟨fun hor => hor.elim hk hnew, ih hrest⟩

/-- The new count is one more where the value was counted before. -/
theorem mem_bump {l : List (K × Nat)} (h : (l.map Prod.fst).Nodup) {k x : K} {n : Nat} :
    (x, n) ∈ bump k l ↔ if x = k then (∃ m, (x, m) ∈ l ∧ n = m + 1) ∨ x ∉ l.map Prod.fst ∧ n = 1
      else (x, n) ∈ l := by
  induction l with
  | nil =>
    by_cases hx : x = k
    · simp [bump, hx]
    · simp [bump, hx]
  | cons e l ih =>
    obtain ⟨k', m⟩ := e
    obtain ⟨hnew, hrest⟩ := List.nodup_cons.mp h
    have hout : ∀ m, (k', m) ∉ l := fun m hm => hnew (List.mem_map.mpr ⟨(k', m), hm, rfl⟩)
    rw [bump]
    split_ifs with hk hx hx
    · subst hk
      subst hx
      simp [hout]
    · subst hk
      simp [hx]
    · subst hx
      rw [List.mem_cons, ih hrest, if_pos rfl]
      simp [Ne.symm hk]
    · rw [List.mem_cons, ih hrest, if_neg hx, List.mem_cons]

end

section
variable [BEq K]

/-- The table has each value of the list once, with its count. -/
structure Tallied (ks : List K) (l : List (K × Nat)) : Prop where
  nodup : (l.map Prod.fst).Nodup
  mem : ∀ k n, (k, n) ∈ l ↔ k ∈ ks ∧ n = ks.count k

theorem Tallied.perm {ks : List K} {l l' : List (K × Nat)} (h : Tallied ks l) (hl : l'.Perm l) :
    Tallied ks l' where
  nodup := (hl.map Prod.fst).nodup_iff.mpr h.nodup
  mem k n := hl.mem_iff.trans (h.mem k n)

theorem Tallied.self {ks : List K} {l : List (K × Nat)} (h : Tallied ks l) {k : K} (hk : k ∈ ks) :
    (k, ks.count k) ∈ l := (h.mem k _).mpr ⟨hk, rfl⟩

variable [DecidableEq K]

theorem Tallied.perm_dedup {ks : List K} {l : List (K × Nat)} (h : Tallied ks l) :
    l.Perm (ks.dedup.map fun k => (k, ks.count k)) := by
  have hinj : Function.Injective fun k => (k, ks.count k) := fun a b hab => (Prod.mk.inj hab).1
  apply (List.perm_ext_iff_of_nodup h.nodup.of_map (ks.nodup_dedup.map hinj)).mpr
  intro ⟨k, n⟩
  rw [h.mem, List.mem_map]
  constructor
  · rintro ⟨hk, rfl⟩
    exact ⟨k, List.mem_dedup.mpr hk, rfl⟩
  · rintro ⟨k', hk', heq⟩
    obtain ⟨rfl, rfl⟩ := Prod.mk.inj heq
    exact ⟨List.mem_dedup.mp hk', rfl⟩

theorem Tallied.length {ks : List K} {l : List (K × Nat)} (h : Tallied ks l) :
    l.length = ks.dedup.length := by
  rw [h.perm_dedup.length_eq, List.length_map]

variable [LawfulBEq K]

theorem Tallied.snoc {ks : List K} {l : List (K × Nat)} (h : Tallied ks l) (k : K) :
    Tallied (ks ++ [k]) (bump k l) where
  nodup := nodup_bump h.nodup k
  mem := by
    intro x n
    rw [mem_bump h.nodup, List.mem_append, List.mem_singleton, List.count_append,
      List.count_singleton]
    split_ifs with hx hk hk
    · subst hx
      have hkey : x ∈ l.map Prod.fst ↔ x ∈ ks := by
        simp [h.mem]
      simp only [h.mem, hkey, or_true, true_and]
      by_cases hmem : x ∈ ks
      · simp [hmem]
      · simp [hmem, List.count_eq_zero_of_not_mem hmem]
    · exact absurd (by simp [hx]) hk
    · exact absurd (by simpa using hk) (Ne.symm hx)
    · simp [h.mem, hx]

/-- **The table counts the list.** -/
theorem tallied_tally (ks : List K) : Tallied ks (tally ks) := by
  induction ks using List.reverseRecOn with
  | nil => exact ⟨by simp [tally], by simp [tally]⟩
  | append_singleton ks k ih =>
    have hsnoc : tally (ks ++ [k]) = bump k (tally ks) := by simp [tally]
    rw [hsnoc]
    exact ih.snoc k

omit [DecidableEq K] in
theorem Tallied.lookup {ks : List K} {l : List (K × Nat)} (h : Tallied ks l) (k : K) :
    (l.lookup k).getD 0 = ks.count k := by
  cases hl : l.lookup k with
  | none =>
    rw [List.lookup_eq_none_iff] at hl
    have hk : k ∉ ks := fun hk => by simpa using hl _ (h.self hk)
    rw [List.count_eq_zero_of_not_mem hk]
    rfl
  | some n =>
    obtain ⟨l₁, l₂, rfl, -⟩ := List.lookup_eq_some_iff.mp hl
    exact ((h.mem k n).mp (by simp)).2

omit [LawfulBEq K] [DecidableEq K] in
theorem Tallied.filter_key {ks : List K} {l : List (K × Nat)} (h : Tallied ks l) {k : K}
    (hk : k ∈ ks)
    {p : K × Nat → Bool} (hp : ∀ e, p e = true ↔ e.1 = k) : l.filter p = [(k, ks.count k)] := by
  obtain ⟨l₁, l₂, rfl⟩ := List.append_of_mem (h.self hk)
  have hnodup := h.nodup
  rw [List.map_append, List.map_cons, List.nodup_append, List.nodup_cons] at hnodup
  have hbefore : l₁.filter p = [] := List.filter_eq_nil_iff.mpr fun e he hkey =>
    hnodup.2.2 e.1 (List.mem_map_of_mem he) k List.mem_cons_self ((hp e).mp hkey)
  have hbehind : l₂.filter p = [] := List.filter_eq_nil_iff.mpr fun e he hkey =>
    hnodup.2.1.1 (List.mem_map.mpr ⟨e, he, (hp e).mp hkey⟩)
  rw [List.filter_append, hbefore, List.filter_cons_of_pos ((hp _).mpr rfl), hbehind,
    List.nil_append]

/-- The entries with such a count, in sum, are the values with such a count. -/
theorem Tallied.sum_filter {ks : List K} {l : List (K × Nat)} (h : Tallied ks l) (p : Nat → Bool) :
    ((l.filter fun e => p e.2).map Prod.snd).sum = ks.countP fun x => p (ks.count x) := by
  obtain rfl := lawful_beq_subsingleton ‹BEq K› instBEqOfDecidableEq
  have hperm := ((h.perm_dedup.filter fun e => p e.2).map Prod.snd).sum_eq
  rw [List.filter_map, List.map_map] at hperm
  exact hperm.trans (List.sum_map_count_dedup_filter_eq_countP _ ks)

end

/-! ## Covering -/

/-- The stable sort by falling count. -/
def byCount (l : List (K × Nat)) : List (K × Nat) := l.insertionSort fun a b => b.2 ≤ a.2

/-- The values up to the one with which the target is reached. -/
def coverFrom (target covered : Nat) : List (K × Nat) → List K
  | [] => []
  | (k, n) :: l => k :: if target ≤ covered + n then [] else coverFrom target (covered + n) l

theorem countP_le {f : K → Nat} (c : Nat) (xs : List K) :
    (xs.countP fun x => c ≤ f x) = (xs.countP fun x => c < f x) + xs.countP fun x => f x = c := by
  induction xs with
  | nil => rfl
  | cons x xs ih =>
    simp only [List.countP_cons, ih, decide_eq_true_eq]
    split_ifs <;> omega

/-- Whether a value is covered is decided by what comes before it. -/
theorem mem_coverFrom_split {target covered : Nat} (hopen : covered < target)
    {l₁ l₂ : List (K × Nat)} {k : K} {n : Nat} (hk : k ∉ l₁.map Prod.fst) :
    k ∈ coverFrom target covered (l₁ ++ (k, n) :: l₂) ↔
    covered + (l₁.map Prod.snd).sum < target := by
  induction l₁ generalizing covered with
  | nil => simp [coverFrom, hopen]
  | cons e l₁ ih =>
    obtain ⟨k', m⟩ := e
    obtain ⟨hne, hrest⟩ : k ≠ k' ∧ k ∉ l₁.map Prod.fst := by
      simpa only [List.map_cons, List.mem_cons, not_or] using hk
    rw [List.cons_append, coverFrom, List.mem_cons, List.map_cons, List.sum_cons]
    split_ifs with hfull
    · constructor
      · rintro (rfl | h)
        · exact absurd rfl hne
        · cases h
      · intro h
        omega
    · rw [ih (by omega) hrest, ← Nat.add_assoc]
      exact or_iff_right hne

theorem pairwise_byCount (l : List (K × Nat)) : (byCount l).Pairwise fun a b => b.2 ≤ a.2 := by
  have : Std.Total fun a b : K × Nat => b.2 ≤ a.2 := ⟨fun a b => le_total b.2 a.2⟩
  have : IsTrans (K × Nat) fun a b => b.2 ≤ a.2 := ⟨fun a b c hab hbc => hbc.trans hab⟩
  exact List.pairwise_insertionSort _ l

theorem pair_byCount {a b : K × Nat} {l : List (K × Nat)} (hab : b.2 ≤ a.2) (h : [a, b].Sublist l) :
    [a, b].Sublist (byCount l) := by
  have : Std.Total fun a b : K × Nat => b.2 ≤ a.2 := ⟨fun a b => le_total b.2 a.2⟩
  have : IsTrans (K × Nat) fun a b => b.2 ≤ a.2 := ⟨fun a b c hab hbc => hbc.trans hab⟩
  exact List.pair_sublist_insertionSort hab h

theorem not_pair {l₁ l₂ : List (K × Nat)} {x y : K × Nat} (h : (l₁ ++ x :: l₂).Nodup)
    (hy : y ∈ l₁) : ¬[x, y].Sublist (l₁ ++ x :: l₂) := by
  obtain ⟨-, -, hdisjoint⟩ := List.nodup_append.mp h
  intro hpair
  obtain ⟨p, q, hsplit, hp, hq⟩ := List.sublist_append_iff.mp hpair
  cases p with
  | nil =>
    obtain rfl : [x, y] = q := hsplit
    exact hdisjoint y hy y (hq.subset (by simp)) rfl
  | cons a p =>
    obtain ⟨rfl, -⟩ := List.cons.inj hsplit
    exact hdisjoint x (hp.subset List.mem_cons_self) x List.mem_cons_self rfl

section
variable [BEq K]

def moreFrequent (ks : List K) (k : K) : Nat := ks.countP fun x => ks.count k < ks.count x

def equallyFrequent (ks : List K) (k : K) : Nat := ks.countP fun x => ks.count x = ks.count k

theorem Tallied.byCount {ks : List K} {l : List (K × Nat)} (h : Tallied ks l) :
    Tallied ks (byCount l) :=
  h.perm (List.perm_insertionSort _ l)

variable {ks : List K} {l : List (K × Nat)} (h : Tallied ks l) {k : K} (hk : k ∈ ks) {target : Nat}
include h

include hk

/-- The sorted table around a value: before it is nothing less frequent, behind it nothing more
frequent. -/
theorem Tallied.split : ∃ l₁ l₂, Tally.byCount l = l₁ ++ (k, ks.count k) :: l₂ ∧
    k ∉ l₁.map Prod.fst ∧
    (∀ e ∈ l₁, ks.count k ≤ e.2) ∧ ∀ e ∈ l₂, e.2 ≤ ks.count k := by
  obtain ⟨l₁, l₂, hsplit⟩ := List.append_of_mem (h.byCount.self hk)
  have hnodup := h.byCount.nodup
  have hsorted := pairwise_byCount l
  rw [hsplit] at hnodup hsorted
  refine ⟨l₁, l₂, hsplit, ?_, ?_, ?_⟩
  · rw [List.map_append, List.map_cons, List.nodup_append] at hnodup
    exact fun hmem => hnodup.2.2 k hmem k List.mem_cons_self rfl
  · exact fun e he => (List.pairwise_append.mp hsorted).2.2 e he _ List.mem_cons_self
  · exact fun e he => (List.pairwise_cons.mp (List.pairwise_append.mp hsorted).2.1).1 e he

variable [LawfulBEq K] [DecidableEq K]

omit hk in
/-- What lies before a value weighs at least what is more frequent, and at most that and the equally
frequent rest. -/
theorem Tallied.before {l₁ l₂ : List (K × Nat)}
    (hsplit : Tally.byCount l = l₁ ++ (k, ks.count k) :: l₂)
    (hbefore : ∀ e ∈ l₁, ks.count k ≤ e.2) (hbehind : ∀ e ∈ l₂, e.2 ≤ ks.count k) :
    (moreFrequent ks k ≤ (l₁.map Prod.snd).sum ∧ ((∀ e ∈ l₁, ks.count k < e.2) →
      (l₁.map Prod.snd).sum = moreFrequent ks k)) ∧
    ((l₁.map Prod.snd).sum + ks.count k ≤ moreFrequent ks k + equallyFrequent ks k ∧
      ((∀ e ∈ l₂, e.2 < ks.count k) →
      (l₁.map Prod.snd).sum + ks.count k = moreFrequent ks k + equallyFrequent ks k)) := by
  have hmore := h.byCount.sum_filter fun n => ks.count k < n
  have hall := h.byCount.sum_filter fun n => ks.count k ≤ n
  have hbehind' : (l₂.filter fun e => ks.count k < e.2) = [] :=
    List.filter_eq_nil_iff.mpr fun e he => by simpa using hbehind e he
  have hbefore' : (l₁.filter fun e => ks.count k ≤ e.2) = l₁ :=
    List.filter_eq_self.mpr fun e he => by
    simpa using hbefore e he
  rw [hsplit, List.filter_append, List.filter_cons_of_neg (by simp), hbehind',
    List.append_nil] at hmore
  rw [hsplit, List.filter_append, List.filter_cons_of_pos (by simp), hbefore', List.map_append,
    List.sum_append, List.map_cons, List.sum_cons, countP_le] at hall
  change _ = moreFrequent ks k at hmore
  change _ = moreFrequent ks k + equallyFrequent ks k at hall
  refine ⟨⟨?_, fun hlt => ?_⟩, ⟨?_, fun hlt => ?_⟩⟩
  · rw [← hmore]
    exact ((List.filter_sublist).map Prod.snd).sum_le_sum fun n _ => Nat.zero_le n
  · rwa [List.filter_eq_self.mpr fun e he => by simpa using hlt e he] at hmore
  · omega
  · have hnone : (l₂.filter fun e => ks.count k ≤ e.2) = [] :=
      List.filter_eq_nil_iff.mpr fun e he => by simpa using hlt e he
    rw [hnone] at hall
    simpa using hall

variable (htarget : 0 < target)
include htarget

/-- The more frequent values reach the target. -/
theorem not_mem_cover (hmore : target ≤ moreFrequent ks k) :
    k ∉ coverFrom target 0 (byCount l) := by
  obtain ⟨l₁, l₂, hsplit, hnew, hbefore, hbehind⟩ := h.split hk
  have hweight := (h.before hsplit hbefore hbehind).1.1
  rw [hsplit, mem_coverFrom_split htarget hnew]
  omega

/-- The more frequent and the equally frequent values do not reach the target without it. -/
theorem mem_cover (hall : moreFrequent ks k + equallyFrequent ks k < target + ks.count k) :
    k ∈ coverFrom target 0 (byCount l) := by
  obtain ⟨l₁, l₂, hsplit, hnew, hbefore, hbehind⟩ := h.split hk
  have hweight := (h.before hsplit hbefore hbehind).2.1
  rw [hsplit, mem_coverFrom_split htarget hnew]
  omega

/-- A value that the table has first is before the equally frequent ones. -/
theorem mem_cover_first {rest : List (K × Nat)} (hl : l = (k, ks.count k) :: rest)
    (hmore : moreFrequent ks k < target) : k ∈ coverFrom target 0 (byCount l) := by
  obtain ⟨l₁, l₂, hsplit, hnew, hbefore, hbehind⟩ := h.split hk
  have hnodup := h.byCount.nodup.of_map
  rw [hsplit] at hnodup
  have hstrict : ∀ e ∈ l₁, ks.count k < e.2 := by
    intro e he
    by_contra hle
    have hmem : e ∈ l :=
      (List.mem_insertionSort _).mp (show e ∈ Tally.byCount l by simp [hsplit, he])
    rw [hl] at hmem
    rcases List.mem_cons.mp hmem with rfl | hmem
    · exact hnew (List.mem_map_of_mem (f := Prod.fst) he)
    · have hpair : [(k, ks.count k), e].Sublist l :=
        hl ▸ (List.singleton_sublist.mpr hmem).cons_cons _
      exact not_pair hnodup he (hsplit ▸ pair_byCount (not_lt.mp hle) hpair)
  have hweight := (h.before hsplit hbefore hbehind).1.2 hstrict
  rw [hsplit, mem_coverFrom_split htarget hnew]
  omega

/-- A value that the table has last is behind the equally frequent ones. -/
theorem not_mem_cover_last {rest : List (K × Nat)} (hl : l = rest ++ [(k, ks.count k)])
    (hall : target + ks.count k ≤ moreFrequent ks k + equallyFrequent ks k) :
    k ∉ coverFrom target 0 (byCount l) := by
  obtain ⟨l₁, l₂, hsplit, hnew, hbefore, hbehind⟩ := h.split hk
  have hnodup := h.byCount.nodup.of_map
  rw [hsplit] at hnodup
  have hstrict : ∀ e ∈ l₂, e.2 < ks.count k := by
    intro e he
    by_contra hle
    have hmem : e ∈ l :=
      (List.mem_insertionSort _).mp (show e ∈ Tally.byCount l by simp [hsplit, he])
    rw [hl] at hmem
    rcases List.mem_append.mp hmem with hmem | hmem
    · have hpair : [e, (k, ks.count k)].Sublist l :=
        hl ▸ (List.singleton_sublist.mpr hmem).append (List.Sublist.refl _)
      obtain ⟨l₃, l₄, rfl⟩ := List.append_of_mem he
      have hturn : l₁ ++ (k, ks.count k) :: (l₃ ++ e :: l₄) = (l₁ ++ (k, ks.count k) :: l₃) ++ e ::
          l₄ := by simp
      rw [hturn] at hsplit hnodup
      exact not_pair hnodup (by simp) (hsplit ▸ pair_byCount (not_lt.mp hle) hpair)
    · obtain rfl := List.mem_singleton.mp hmem
      exact (List.nodup_cons.mp (List.nodup_append.mp hnodup).2.1).1 he
  have hweight := (h.before hsplit hbefore hbehind).2.2 hstrict
  rw [hsplit, mem_coverFrom_split htarget hnew]
  omega

end

end Lib.Tally
