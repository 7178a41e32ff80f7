import Neoth.Lib.Encoding

/-!
# Ordered maps: sums of values, and intervals of keys

Rust's `BTreeMap`, and a table with an ordered primary key, is `Std.ExtTreeMap`:
iteration in key order, extensional equality.  What is added here is the sum
`total f m` of a measure of the values, and the set `keySet m` of integer keys:

* `total_insert_of_getElem?_none`: a new key adds its value's measure;
* `total_insert_of_measure_eq`: a value replaced by one of the same measure
  leaves the sum as it is;
* `foldlM_checkedAdd_eq_some_iff`: the sum of 64-bit values, when it fits;
* `sum_map_le_total`: distinct keys of the map never sum to more than the whole;
* `ordConnected_keySet_insert`: a key next to an interval of keys extends it, and
  cutting one off at either end leaves one (`ordConnected_keySet_filter_lt`);
* `lastKey_eq`: the last of the keys `1` to `n` is `n`.
-/

open Std Lib.Encoding

namespace Lib.TreeMap

variable {K V : Type} [Ord K] [TransOrd K] [LawfulEqOrd K]

theorem getElem?_insert_of_ne {m : ExtTreeMap K V} {k a : K} (v : V) (h : k ≠ a) :
    (m.insert k v)[a]? = m[a]? := by
  rw [ExtTreeMap.getElem?_insert, if_neg]
  intro e
  exact h (LawfulEqOrd.eq_of_compare e)

omit [LawfulEqOrd K] in
theorem mem_of_getElem? {m : ExtTreeMap K V} {k : K} {v : V} (h : m[k]? = some v) : k ∈ m :=
  ExtTreeMap.mem_iff_isSome_getElem?.mpr (by rw [h]; rfl)

omit [LawfulEqOrd K] in
theorem exists_getElem?_of_mem {m : ExtTreeMap K V} {k : K} (h : k ∈ m) : ∃ v, m[k]? = some v :=
  Option.isSome_iff_exists.mp (ExtTreeMap.mem_iff_isSome_getElem?.mp h)

/-- The sum of `f` over the values of `m`. -/
def total (f : V → Nat) (m : ExtTreeMap K V) : Nat := (m.toList.map fun p => f p.2).sum

omit [LawfulEqOrd K] in
@[simp] theorem total_empty (f : V → Nat) : total f (∅ : ExtTreeMap K V) = 0 := by
  have hnil : (∅ : ExtTreeMap K V).toList = [] := by
    rw [← List.length_eq_zero_iff, ExtTreeMap.length_toList]
    exact ExtTreeMap.size_empty
  rw [total, hnil]
  rfl

theorem nodup_toList (m : ExtTreeMap K V) : m.toList.Nodup := by
  apply (ExtTreeMap.distinct_keys_toList (t := m)).imp
  intro p q h e
  exact h (by rw [e]; exact ReflCmp.compare_self)

theorem toList_insert_perm {m : ExtTreeMap K V} {k : K} (v : V) (h : m[k]? = none) :
    (m.insert k v).toList.Perm ((k, v) :: m.toList) := by
  have hk : (k, v) ∉ m.toList := by
    rw [ExtTreeMap.mem_toList_iff_getElem?_eq_some, h]
    simp
  refine (List.perm_ext_iff_of_nodup (nodup_toList _)
    (List.nodup_cons.mpr ⟨hk, nodup_toList m⟩)).mpr ?_
  rintro ⟨a, w⟩
  rw [List.mem_cons, ExtTreeMap.mem_toList_iff_getElem?_eq_some,
    ExtTreeMap.mem_toList_iff_getElem?_eq_some]
  by_cases e : k = a
  · subst e
    rw [ExtTreeMap.getElem?_insert_self, h]
    simp [eq_comm]
  · rw [getElem?_insert_of_ne v e]
    simp [Ne.symm e]

theorem total_insert_of_getElem?_none (f : V → Nat) {m : ExtTreeMap K V} {k : K} (v : V)
    (h : m[k]? = none) : total f (m.insert k v) = total f m + f v := by
  unfold total
  rw [((toList_insert_perm v h).map _).sum_eq]
  simp [Nat.add_comm]

theorem insert_erase_of_getElem?_some {m : ExtTreeMap K V} {k : K} {v : V} (h : m[k]? = some v) :
    (m.erase k).insert k v = m := by
  apply ExtTreeMap.ext_getElem?
  intro a
  by_cases e : k = a
  · subst e
    rw [ExtTreeMap.getElem?_insert_self, h]
  · rw [getElem?_insert_of_ne v e, ExtTreeMap.getElem?_erase, if_neg]
    exact fun c => e (LawfulEqOrd.eq_of_compare c)

theorem getElem?_erase_self (m : ExtTreeMap K V) (k : K) : (m.erase k)[k]? = none := by
  rw [ExtTreeMap.getElem?_erase, if_pos ReflCmp.compare_self]

theorem total_of_getElem?_some (f : V → Nat) {m : ExtTreeMap K V} {k : K} {v : V}
    (h : m[k]? = some v) : total f m = total f (m.erase k) + f v := by
  conv_lhs => rw [← insert_erase_of_getElem?_some h]
  exact total_insert_of_getElem?_none f v (getElem?_erase_self m k)

theorem insert_erase (m : ExtTreeMap K V) (k : K) (v : V) :
    (m.erase k).insert k v = m.insert k v := by
  apply ExtTreeMap.ext_getElem?
  intro a
  rw [ExtTreeMap.getElem?_insert, ExtTreeMap.getElem?_insert, ExtTreeMap.getElem?_erase]
  split <;> rfl

theorem total_insert_of_measure_eq (f : V → Nat) {m : ExtTreeMap K V} {k : K} {v : V} (w : V)
    (h : m[k]? = some v) (hf : f w = f v) : total f (m.insert k w) = total f m := by
  rw [total_of_getElem?_some f h, ← insert_erase,
    total_insert_of_getElem?_none f w (getElem?_erase_self m k), hf]

/-- A list of distinct keys of `m`, each with a measure no larger than its
value's, sums to at most the whole. -/
theorem sum_map_le_total (f : V → Nat) (g : K → Nat) (keys : List K) (m : ExtTreeMap K V)
    (hnodup : keys.Nodup) (hmem : ∀ k ∈ keys, ∃ v, m[k]? = some v ∧ g k ≤ f v) :
    (keys.map g).sum ≤ total f m := by
  induction keys generalizing m with
  | nil => simp
  | cons k keys ih =>
    obtain ⟨v, hv, hg⟩ := hmem k (List.mem_cons_self ..)
    obtain ⟨hk, hnodup⟩ := List.nodup_cons.mp hnodup
    have hrest : (keys.map g).sum ≤ total f (m.erase k) := by
      apply ih (m.erase k) hnodup
      intro a ha
      obtain ⟨w, hw, hgw⟩ := hmem a (List.mem_cons_of_mem _ ha)
      refine ⟨w, ?_, hgw⟩
      rw [ExtTreeMap.getElem?_erase, if_neg, hw]
      intro c
      exact hk (LawfulEqOrd.eq_of_compare c ▸ ha)
    rw [List.map_cons, List.sum_cons, total_of_getElem?_some f hv]
    omega

omit [LawfulEqOrd K] in
/-- The values added up with `checkedAdd`: the sum, if it fits. -/
theorem foldlM_checkedAdd_eq_some_iff (f : V → UInt64) (m : ExtTreeMap K V) (start t : UInt64) :
    m.toList.foldlM (fun sum entry => checkedAdd sum (f entry.2)) start = some t ↔
      t.toNat = start.toNat + total (fun v => (f v).toNat) m := by
  unfold total
  generalize m.toList = entries
  induction entries generalizing start with
  | nil => simp [UInt64.toNat_inj, eq_comm]
  | cons entry rest ih =>
    simp only [List.foldlM_cons, List.map_cons, List.sum_cons]
    cases hadd : checkedAdd start (f entry.2) with
    | none =>
      simp only [Option.bind_eq_bind, Option.bind_none, reduceCtorEq, false_iff]
      intro htotal
      have hlt := t.toNat_lt
      have hfit :
          checkedAdd start (f entry.2) = some (UInt64.ofNat (start.toNat + (f entry.2).toNat)) := by
        rw [checkedAdd_eq_some_iff]
        exact UInt64.toNat_ofNat_of_lt' (show _ < 2 ^ 64 by omega)
      rw [hadd] at hfit
      cases hfit
    | some next =>
      have hnext := (checkedAdd_eq_some_iff _ _ _).mp hadd
      simp only [Option.bind_eq_bind, Option.bind_some, ih, hnext, Nat.add_assoc]

/-! ## Intervals of keys -/

section Keys
variable {V : Type}

def keySet (m : ExtTreeMap Nat V) : Set Nat := { k | k ∈ m }

@[simp] theorem mem_keySet {m : ExtTreeMap Nat V} {k : Nat} : k ∈ keySet m ↔ k ∈ m := Iff.rfl

@[simp] theorem keySet_empty : keySet (∅ : ExtTreeMap Nat V) = ∅ := by
  ext k
  simp

@[simp] theorem keySet_insert (m : ExtTreeMap Nat V) (k : Nat) (v : V) :
    keySet (m.insert k v) = insert k (keySet m) := by
  ext a
  rw [mem_keySet, ExtTreeMap.mem_insert, Set.mem_insert_iff, Std.compare_eq_iff_eq, eq_comm,
    mem_keySet]

@[simp] theorem keySet_filter (m : ExtTreeMap Nat V) (p : Nat → Bool) :
    keySet (m.filter fun k _ => p k) = keySet m ∩ { k | p k = true } := by
  ext k
  simp [ExtTreeMap.mem_filter]

theorem ordConnected_keySet_filter_lt {m : ExtTreeMap Nat V} (hm : (keySet m).OrdConnected)
    (n : Nat) : (keySet (m.filter fun k _ => k < n)).OrdConnected := by
  rw [keySet_filter, show { k | decide (k < n) = true } = Set.Iio n by ext k; simp]
  exact hm.inter Set.ordConnected_Iio

theorem ordConnected_keySet_filter_gt {m : ExtTreeMap Nat V} (hm : (keySet m).OrdConnected)
    (n : Nat) : (keySet (m.filter fun k _ => n < k)).OrdConnected := by
  rw [keySet_filter, show { k | decide (n < k) = true } = Set.Ioi n by ext k; simp]
  exact hm.inter Set.ordConnected_Ioi

theorem ordConnected_insert {s : Set Nat} (hs : s.OrdConnected) {n low high : Nat} (hlow : low ∈ s)
    (hle : low ≤ n + 1) (hhigh : high ∈ s) (hge : n ≤ high + 1) : (insert n s).OrdConnected := by
  refine ⟨?_⟩
  rintro a (rfl | ha) b (rfl | hb) c ⟨hac, hcb⟩
  · exact .inl (Nat.le_antisymm hcb hac)
  · rcases Nat.eq_or_lt_of_le hac with rfl | hlt
    · exact .inl rfl
    · exact .inr (hs.out hlow hb ⟨by omega, hcb⟩)
  · rcases Nat.eq_or_lt_of_le hcb with rfl | hlt
    · exact .inl rfl
    · exact .inr (hs.out ha hhigh ⟨hac, by omega⟩)
  · exact .inr (hs.out ha hb ⟨hac, hcb⟩)

/-- A key at most one below the lowest and one above some key extends the interval. -/
theorem ordConnected_keySet_insert {m : ExtTreeMap Nat V} (hm : (keySet m).OrdConnected) {n : Nat}
    (v : V) (hlow : ∀ low, m.minKey? = some low → low ≤ n + 1)
    (hhigh : ∀ k ∈ m, ∃ high ∈ m, n ≤ high + 1) : (keySet (m.insert n v)).OrdConnected := by
  rw [keySet_insert]
  cases hmin : m.minKey? with
  | none =>
    have hempty : m = ∅ := ExtTreeMap.minKey?_eq_none_iff.mp hmin
    rw [hempty, keySet_empty, insert_empty_eq]
    exact Set.ordConnected_singleton
  | some low =>
    have hmem : low ∈ m := ExtTreeMap.minKey?_mem hmin
    obtain ⟨high, hhigh, hge⟩ := hhigh low hmem
    exact ordConnected_insert hm hmem (hlow low hmin) hhigh hge

/-- `COALESCE(MAX(key), 0)`. -/
def lastKey (m : ExtTreeMap Nat V) : Nat := m.keys.getLast?.getD 0

theorem lastKey_eq {m : ExtTreeMap Nat V} {n : Nat} (h : keySet m = Set.Icc 1 n) :
    lastKey m = n := by
  unfold lastKey
  rw [← ExtTreeMap.maxKey?_eq_getLast?_keys]
  cases hmax : m.maxKey? with
  | none =>
    have hempty : m = ∅ := ExtTreeMap.maxKey?_eq_none_iff.mp hmax
    rw [hempty, keySet_empty, eq_comm, Set.Icc_eq_empty_iff] at h
    show 0 = n
    omega
  | some top =>
    have htop : top ∈ keySet m := ExtTreeMap.maxKey?_mem hmax
    rw [h, Set.mem_Icc] at htop
    have hn : n ∈ keySet m := by
      rw [h, Set.mem_Icc]
      omega
    have hle := (ExtTreeMap.maxKey?_eq_some_iff_mem_and_forall.mp hmax).2 n hn
    exact Nat.le_antisymm htop.2 (Nat.isLE_compare.mp hle)

end Keys

end Lib.TreeMap
