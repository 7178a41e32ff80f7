import Mathlib

/-!
# Tables with a primary key

A table of a relational store: a list of rows in insertion order, no two of which
have the same key.  The statements of SQL are `find` (`SELECT` by key), `insert`
(which fails on a key that is taken), `put` (`INSERT .. ON CONFLICT DO UPDATE`),
`insertOrIgnore`, `update` and `delete` (with a `WHERE`).  What a proof needs of each is which rows
the table holds afterwards:

* `mem_insert`, `mem_put`, `mem_update`, `mem_delete`;
* `find_eq_some_iff`, `eq_of_key_eq`: a key determines its row; `find_put`, `find_update`,
  `find_delete`: which one, after a write;
* `update_update`, `insertOrIgnore_idem`: writes that may be repeated; `foldl_insertOrIgnore_spec`:
  a loop of them;
* `count_le_one`, `count_of_key`, `update_eq_self`, `delete_eq_self`: what the number of changed
  rows says;
* `AutoTable`: a table that gives its rows their keys.
-/

namespace Lib

/-- Rows of type `R`, unique by `key`. -/
structure Table {R K : Type} (key : R → K) where
  rows : List R
  nodup : (rows.map key).Nodup

namespace Table

variable {R K : Type} {key : R → K}

instance : Membership R (Table key) := ⟨fun t r => r ∈ t.rows⟩

theorem mem_rows {t : Table key} {r : R} : r ∈ t.rows ↔ r ∈ t := Iff.rfl

theorem rows_inj {t u : Table key} (h : t.rows = u.rows) : t = u := by
  cases t
  cases u
  cases h
  rfl

instance : EmptyCollection (Table key) := ⟨⟨[], List.nodup_nil⟩⟩

instance [DecidableEq R] : DecidableEq (Table key) := fun s t =>
  decidable_of_iff (s.rows = t.rows) ⟨rows_inj, fun h => h ▸ rfl⟩

instance (t : Table key) (p : R → Prop) [DecidablePred p] : Decidable (∀ r ∈ t, p r) :=
  inferInstanceAs (Decidable (∀ r ∈ t.rows, p r))

@[simp] theorem not_mem_empty (r : R) : r ∉ (∅ : Table key) := List.not_mem_nil

theorem eq_of_key_eq {t : Table key} {r s : R} (hr : r ∈ t) (hs : s ∈ t) (h : key r = key s) :
    r = s :=
  List.inj_on_of_nodup_map t.nodup hr hs h

/-- Does any row satisfy `p` (`SELECT EXISTS(SELECT 1 .. WHERE p)`)? -/
def any (t : Table key) (p : R → Bool) : Bool := t.rows.any p

@[simp] theorem any_eq_true {t : Table key} {p : R → Bool} :
    t.any p = true ↔ ∃ r ∈ t, p r = true := List.any_eq_true

theorem any_eq_false {t : Table key} {p : R → Bool} :
    t.any p = false ↔ ∀ r ∈ t, p r = false := by
  simp [any, mem_rows]

/-- How many rows satisfy `p` (the number of rows a statement has changed). -/
def count (t : Table key) (p : R → Bool) : Nat := t.rows.countP p

theorem count_eq_zero_iff {t : Table key} {p : R → Bool} : t.count p = 0 ↔ ∀ r ∈ t,
    p r = false := by
  simp [count, List.countP_eq_zero, mem_rows]

/-! ## Rows in place -/

/-- Rewriting rows without touching their keys. -/
def mapRows (t : Table key) (g : R → R) (hg : ∀ r, key (g r) = key r) : Table key :=
  ⟨t.rows.map g, by
    have hkeys : (t.rows.map g).map key = t.rows.map key := by
      rw [List.map_map]
      exact List.map_congr_left fun r _ => hg r
    rw [hkeys]
    exact t.nodup⟩

theorem mem_mapRows {t : Table key} {g : R → R} {hg : ∀ r, key (g r) = key r} {s : R} :
    s ∈ t.mapRows g hg ↔ ∃ r ∈ t, g r = s := by
  rw [← mem_rows, mapRows, List.mem_map]
  rfl

/-- `UPDATE .. WHERE p`, which leaves the key as it is. -/
def update (t : Table key) (p : R → Bool) (f : R → R) (hf : ∀ r, key (f r) = key r) : Table key :=
  t.mapRows (fun r => if p r then f r else r) fun r => by
    split
    · exact hf r
    · rfl

theorem mem_update {t : Table key} {p : R → Bool} {f : R → R} {hf : ∀ r, key (f r) = key r}
    {s : R} : s ∈ t.update p f hf ↔ ∃ r ∈ t, s = if p r then f r else r := by
  rw [update, mem_mapRows]
  simp only [eq_comm]

/-- An update that is already in effect changes nothing. -/
theorem update_update {t : Table key} {p : R → Bool} {f : R → R} {hf : ∀ r, key (f r) = key r}
    (hidem : ∀ r, p r = true → f (f r) = f r) :
      (t.update p f hf).update p f hf = t.update p f hf := by
  refine rows_inj ?_
  simp only [update, mapRows, List.map_map]
  refine List.map_congr_left fun r _ => ?_
  by_cases hp : p r = true
  · simp [hp, hidem r hp]
  · simp [hp]

/-- An update of rows that are as it makes them changes nothing. -/
theorem update_of_fixed {t : Table key} {p : R → Bool} {f : R → R} {hf : ∀ r, key (f r) = key r}
    (h : ∀ r ∈ t, p r = true → f r = r) : t.update p f hf = t := by
  refine rows_inj ?_
  have hsame : ∀ r ∈ t.rows, (if p r then f r else r) = id r := by
    intro r hr
    split
    · rename_i hp
      exact h r hr hp
    · rfl
  simp only [update, mapRows, List.map_congr_left hsame, List.map_id]

theorem update_eq_self {t : Table key} {p : R → Bool} {f : R → R} {hf : ∀ r, key (f r) = key r}
    (h : t.count p = 0) : t.update p f hf = t :=
  update_of_fixed fun r hr hp => absurd hp (by rw [count_eq_zero_iff.mp h r hr]; simp)

/-- `DELETE .. WHERE p`. -/
def delete (t : Table key) (p : R → Bool) : Table key :=
  ⟨t.rows.filter (fun r => !p r), (List.Sublist.map key List.filter_sublist).nodup t.nodup⟩

theorem mem_delete {t : Table key} {p : R → Bool} {s : R} : s ∈ t.delete p ↔
    s ∈ t ∧ p s = false := by
  rw [← mem_rows, delete, List.mem_filter]
  simp [mem_rows]

theorem length_delete_add_count (t : Table key) (p : R → Bool) :
    (t.delete p).rows.length + t.count p = t.rows.length := by
  have hsplit := List.length_eq_countP_add_countP p (l := t.rows)
  simp only [delete, count, ← List.countP_eq_length_filter, Bool.not_eq_true] at hsplit ⊢
  simp only [Bool.decide_eq_false] at hsplit
  omega

/-- Deleting the rows that satisfy `p` by their keys deletes exactly these. -/
theorem filter_key_notMem [DecidableEq K] (t : Table key) (p : R → Bool) :
    (t.rows.filter fun r => decide (key r ∉ (t.rows.filter p).map key)) = t.rows.filter fun r =>
      !p r := by
  refine List.filter_congr fun r hr => ?_
  rw [Bool.eq_iff_iff, decide_eq_true_eq, Bool.not_eq_true', ← Bool.not_eq_true]
  refine not_congr ⟨?_, fun hp => List.mem_map_of_mem (List.mem_filter.mpr ⟨hr, hp⟩)⟩
  intro hmem
  obtain ⟨s, hs, hkey⟩ := List.mem_map.mp hmem
  obtain ⟨hs, hp⟩ := List.mem_filter.mp hs
  rw [← eq_of_key_eq hs hr hkey]
  exact hp

theorem delete_eq_self {t : Table key} {p : R → Bool} (h : t.count p = 0) : t.delete p = t := by
  refine rows_inj (List.filter_eq_self.mpr fun r hr => ?_)
  rw [count_eq_zero_iff.mp h r hr]
  rfl

section Keyed
variable [DecidableEq K]

/-- At most one row has a key. -/
theorem count_le_one {t : Table key} {p : R → Bool} {k : K} (hp : ∀ r, p r = true → key r = k) :
    t.count p ≤ 1 := by
  have hkeys : t.rows.countP p ≤ (t.rows.map key).countP (· == k) := by
    rw [List.countP_map]
    exact List.countP_mono_left fun r _ hr => by simp [hp r hr]
  exact hkeys.trans (List.nodup_iff_count_le_one.mp t.nodup k)

/-! ## Reading -/

def find (t : Table key) (k : K) : Option R := t.rows.find? fun r => key r = k

theorem find_eq_some_iff {t : Table key} {k : K} {r : R} :
    t.find k = some r ↔ r ∈ t ∧ key r = k := by
  constructor
  · intro h
    exact ⟨List.mem_of_find?_eq_some h, by simpa using List.find?_some h⟩
  · rintro ⟨hmem, rfl⟩
    cases hfind : t.find (key r) with
    | none =>
      have hnone := List.find?_eq_none.mp hfind r hmem
      simp at hnone
    | some s =>
      have hs : s ∈ t := List.mem_of_find?_eq_some hfind
      have hkey : key s = key r := by simpa using List.find?_some hfind
      rw [eq_of_key_eq hs hmem hkey]

theorem find_eq_none_iff {t : Table key} {k : K} : t.find k = none ↔ ∀ r ∈ t, key r ≠ k := by
  unfold find
  rw [List.find?_eq_none]
  simp [mem_rows]

/-! ## New rows -/

/-- `INSERT`: `none` is the violated `PRIMARY KEY`. -/
def insert (t : Table key) (r : R) : Option (Table key) :=
  if h : key r ∈ t.rows.map key then none
  else some ⟨t.rows ++ [r], by
    rw [List.map_append, List.nodup_append]
    refine ⟨t.nodup, by simp, ?_⟩
    rintro a ha b hb rfl
    rw [List.map_singleton, List.mem_singleton] at hb
    exact h (hb ▸ ha)⟩

theorem insert_eq_some {t t' : Table key} {r : R} (h : t.insert r = some t') :
    (∀ s ∈ t, key s ≠ key r) ∧ t'.rows = t.rows ++ [r] := by
  unfold insert at h
  split at h
  · cases h
  · rename_i hfresh
    cases h
    refine ⟨?_, rfl⟩
    intro s hs hkey
    exact hfresh (hkey ▸ List.mem_map_of_mem hs)

theorem exists_insert {t : Table key} {r : R} (h : ∀ s ∈ t, key s ≠ key r) :
    ∃ t', t.insert r = some t' := by
  have hfresh : key r ∉ t.rows.map key := by
    intro hmem
    obtain ⟨s, hs, hkey⟩ := List.mem_map.mp hmem
    exact h s hs hkey
  exact ⟨_, dif_neg hfresh⟩

theorem mem_insert {t t' : Table key} {r s : R} (h : t.insert r = some t') :
    s ∈ t' ↔ s ∈ t ∨ s = r := by
  rw [← mem_rows, (insert_eq_some h).2]
  simp [mem_rows]

theorem insert_eq_none {t : Table key} {r s : R} (hs : s ∈ t) (hkey : key s = key r) :
    t.insert r = none :=
  dif_pos (hkey ▸ List.mem_map_of_mem hs)

/-- `INSERT OR IGNORE`. -/
def insertOrIgnore (t : Table key) (r : R) : Table key := (t.insert r).getD t

theorem insertOrIgnore_cases (t : Table key) (r : R) :
    t.insert r = some (t.insertOrIgnore r) ∨ (t.insertOrIgnore r = t ∧ ∃ s ∈ t, key s = key r) := by
  unfold insertOrIgnore
  cases h : t.insert r with
  | some t' => exact .inl rfl
  | none =>
    refine .inr ⟨rfl, ?_⟩
    by_contra hfresh
    push Not at hfresh
    obtain ⟨t', hsome⟩ := exists_insert hfresh
    rw [h] at hsome
    cases hsome

/-- Inserting one row after the other: the new rows come last, and every key is there. -/
theorem foldl_insertOrIgnore_spec {A : Type} (f : A → R) (as : List A) (t : Table key) :
    ∃ fresh, (as.foldl (fun t a => t.insertOrIgnore (f a)) t).rows = t.rows ++ fresh ∧
      (∀ r ∈ fresh, r ∈ as.map f ∧ key r ∉ t.rows.map key) ∧
      ∀ a ∈ as, ∃ r ∈ t.rows ++ fresh, key r = key (f a) := by
  induction as generalizing t with
  | nil => exact ⟨[], by simp, by simp, by simp⟩
  | cons a as ih =>
    obtain ⟨fresh, hrows, hfresh, hall⟩ := ih (t.insertOrIgnore (f a))
    rcases insertOrIgnore_cases t (f a) with hinsert | ⟨hsame, s, hs, hkey⟩
    · obtain ⟨hnew, happend⟩ := insert_eq_some hinsert
      rw [happend] at hrows hfresh hall
      refine ⟨f a :: fresh, by rw [List.foldl_cons, hrows, List.append_assoc]; rfl, ?_, ?_⟩
      · rintro r hr
        rcases List.mem_cons.mp hr with rfl | hr
        · refine ⟨List.mem_cons_self .., fun hmem => ?_⟩
          obtain ⟨s, hs, hkey⟩ := List.mem_map.mp hmem
          exact hnew s hs hkey
        · obtain ⟨hmem, hkeys⟩ := hfresh r hr
          refine ⟨List.mem_cons_of_mem _ hmem, fun hmem => hkeys ?_⟩
          rw [List.map_append]
          exact List.mem_append_left _ hmem
      · rintro b hb
        rcases List.mem_cons.mp hb with rfl | hb
        · exact ⟨f b, by simp, rfl⟩
        · obtain ⟨r, hr, hkey⟩ := hall b hb
          exact ⟨r, by simpa using hr, hkey⟩
    · rw [hsame] at hrows hfresh hall
      refine ⟨fresh, by rw [List.foldl_cons, hsame, hrows], ?_, ?_⟩
      · intro r hr
        exact ⟨List.mem_cons_of_mem _ (hfresh r hr).1, (hfresh r hr).2⟩
      · intro b hb
        rcases List.mem_cons.mp hb with rfl | hb
        · exact ⟨s, List.mem_append_left _ hs, hkey⟩
        · exact hall b hb

theorem insertOrIgnore_idem (t : Table key) (r : R) :
    (t.insertOrIgnore r).insertOrIgnore r = t.insertOrIgnore r := by
  unfold insertOrIgnore
  cases h : t.insert r with
  | none => simp [h]
  | some t' => simp [insert_eq_none ((mem_insert h).mpr (.inr rfl)) rfl]

/-- `INSERT .. ON CONFLICT(key) DO UPDATE`, where every column is set. -/
def put (t : Table key) (r : R) : Table key :=
  match t.insert r with
  | some t' => t'
  | none => t.mapRows (fun s => if key s = key r then r else s) fun s => by
      split
      · rename_i h
        exact h.symm
      · rfl

theorem length_put_of_mem {t : Table key} {r s : R} (hs : s ∈ t) (h : key s = key r) :
    (t.put r).rows.length = t.rows.length := by
  simp [put, insert_eq_none hs h, mapRows]

/-- A row with a new key comes last. -/
theorem rows_put_of_fresh {t : Table key} {r : R} (h : ∀ s ∈ t, key s ≠ key r) :
    (t.put r).rows = t.rows ++ [r] := by
  obtain ⟨t', ht'⟩ := exists_insert h
  unfold put
  rw [ht']
  exact (insert_eq_some ht').2

theorem mem_put {t : Table key} {r s : R} : s ∈ t.put r ↔ s = r ∨ (s ∈ t ∧ key s ≠ key r) := by
  unfold put
  split
  · rename_i t' h
    rw [mem_insert h, or_comm]
    refine or_congr_right ⟨fun hs => ⟨hs, (insert_eq_some h).1 s hs⟩, fun hs => hs.1⟩
  · rename_i h
    have htaken : key r ∈ t.rows.map key := by
      by_contra hfresh
      rw [insert, dif_neg hfresh] at h
      cases h
    obtain ⟨old, hold, holdKey⟩ := List.mem_map.mp htaken
    rw [mem_mapRows]
    constructor
    · rintro ⟨x, hx, rfl⟩
      split
      · exact .inl rfl
      · rename_i hne
        exact .inr ⟨hx, hne⟩
    · rintro (rfl | ⟨hs, hne⟩)
      · exact ⟨old, hold, if_pos holdKey⟩
      · exact ⟨s, hs, if_neg hne⟩

theorem find_put (t : Table key) (r : R) (k : K) : (t.put r).find k = if key r = k then some r
    else t.find k := by
  split
  · rename_i h
    exact find_eq_some_iff.mpr ⟨mem_put.mpr (.inl rfl), h⟩
  · rename_i h
    refine Option.ext fun s => ?_
    rw [find_eq_some_iff, find_eq_some_iff, mem_put]
    constructor
    · rintro ⟨rfl | ⟨hs, -⟩, hkey⟩
      · exact absurd hkey h
      · exact ⟨hs, hkey⟩
    · rintro ⟨hs, hkey⟩
      exact ⟨.inr ⟨hs, fun heq => h (heq.symm.trans hkey)⟩, hkey⟩

theorem find_update (t : Table key) (p : R → Bool) (f : R → R) (hf : ∀ r, key (f r) = key r)
    (k : K) : (t.update p f hf).find k = (t.find k).map fun r => if p r then f r else r := by
  have hkey : ∀ r, key (if p r then f r else r) = key r := by
    intro r
    split
    · exact hf r
    · rfl
  refine Option.ext fun s => ?_
  rw [find_eq_some_iff, mem_update, Option.map_eq_some_iff]
  constructor
  · rintro ⟨⟨r, hr, rfl⟩, rfl⟩
    exact ⟨r, find_eq_some_iff.mpr ⟨hr, (hkey r).symm⟩, rfl⟩
  · rintro ⟨r, hr, rfl⟩
    obtain ⟨hmem, rfl⟩ := find_eq_some_iff.mp hr
    exact ⟨⟨r, hmem, rfl⟩, hkey r⟩

theorem find_delete (t : Table key) (p : R → Bool) (k : K) :
    (t.delete p).find k = (t.find k).filter fun r => !p r := by
  refine Option.ext fun s => ?_
  rw [find_eq_some_iff, mem_delete, Option.filter_eq_some_iff, find_eq_some_iff]
  simp only [Bool.not_eq_true']
  tauto

/-- The number of rows of a key that satisfy `p`. -/
theorem count_of_key {t : Table key} {p : R → Bool} {k : K} (hp : ∀ r, p r = true → key r = k) :
    t.count p = if (t.find k).any p then 1 else 0 := by
  have hle := count_le_one hp (t := t)
  cases hfind : t.find k with
  | none =>
    refine count_eq_zero_iff.mpr fun r hr => ?_
    rw [← Bool.not_eq_true]
    exact fun h => find_eq_none_iff.mp hfind r hr (hp r h)
  | some r =>
    obtain ⟨hr, hkey⟩ := find_eq_some_iff.mp hfind
    have hzero : t.count p = 0 ↔ p r = false := by
      rw [count_eq_zero_iff]
      refine ⟨fun h => h r hr, fun h s hs => ?_⟩
      rw [← Bool.not_eq_true]
      intro hps
      rw [eq_of_key_eq hs hr ((hp s hps).trans hkey.symm), h] at hps
      cases hps
    simp only [Option.any_some]
    split
    · rename_i h
      rw [h] at hzero
      simp only [reduceCtorEq, iff_false] at hzero
      omega
    · rename_i h
      exact hzero.mpr (Bool.not_eq_true _ ▸ h)

end Keyed

end Table

/-! ## Automatic keys -/

/-- A table whose key is `AUTOINCREMENT`: `last` is the greatest key ever given. -/
structure AutoTable {R : Type} (key : R → Nat) where
  table : Table key
  last : Nat
  le_last : ∀ r ∈ table, key r ≤ last

namespace AutoTable

variable {R : Type} {key : R → Nat}

instance : EmptyCollection (AutoTable key) := ⟨⟨∅, 0, fun _ h => absurd h (Table.not_mem_empty _)⟩⟩

instance : Membership R (AutoTable key) := ⟨fun t r => r ∈ t.table⟩

def rows (t : AutoTable key) : List R := t.table.rows

theorem mem_rows {t : AutoTable key} {r : R} : r ∈ t.rows ↔ r ∈ t := Iff.rfl

/-- `INSERT` without the key. -/
def insert (t : AutoTable key) (make : Nat → R) (hmake : ∀ n, key (make n) = n) : AutoTable key :=
  ⟨⟨t.table.rows ++ [make (t.last + 1)], by
    rw [List.map_append, List.nodup_append]
    refine ⟨t.table.nodup, by simp, ?_⟩
    intro a ha b hb
    obtain ⟨r, hr, rfl⟩ := List.mem_map.mp ha
    rw [List.map_singleton, List.mem_singleton, hmake] at hb
    have hle := t.le_last r hr
    omega⟩, t.last + 1, by
    intro r hr
    rcases List.mem_append.mp hr with hr | hr
    · exact (t.le_last r hr).trans (Nat.le_succ _)
    · rw [List.mem_singleton.mp hr, hmake]⟩

/-- `UPDATE`, which leaves the key as it is. -/
def update (t : AutoTable key) (p : R → Bool) (f : R → R) (hf : ∀ r, key (f r) = key r) :
    AutoTable key :=
  ⟨t.table.update p f hf, t.last, by
    intro s hs
    obtain ⟨r, hr, rfl⟩ := Table.mem_update.mp hs
    have hle := t.le_last r hr
    split
    · rw [hf]
      exact hle
    · exact hle⟩

def delete (t : AutoTable key) (p : R → Bool) : AutoTable key :=
  ⟨t.table.delete p, t.last, fun r hr => t.le_last r (Table.mem_delete.mp hr).1⟩

end AutoTable

end Lib
