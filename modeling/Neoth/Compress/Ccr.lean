import Neoth.Lib.Machine
import Neoth.Lib.Table

/-!
# The CCR store

`InMemoryCcrStore` of `context/compress/ccr.rs`: a bounded map whose entries expire, and the queue
of its insertions. The queue keeps the hash of an entry that `get` dropped as expired.  A hash that
is stored again is then in the queue twice, and an eviction takes its first place for the second.

* `Sound`: what every run keeps; `evict_full`: what an eviction takes;
* `Unrepeated`: the entry that an eviction takes is in the queue once;
* `retains_of_unrepeated`: the runs that are a first-in first-out store.
-/

open Lib Lib.Machine

namespace Neoth.Compress.Ccr

structure Entry where
  payload : List Char
  inserted : Nat

abbrev EntryMap := Table (Prod.fst : String × Entry → String)

structure Inner where
  map : EntryMap
  order : List String

structure InMemoryCcrStore where
  inner : Inner
  ttl : Nat
  capacity : Nat

namespace InMemoryCcrStore

def withCapacityAndTtl (capacity ttl : Nat) : InMemoryCcrStore := ⟨⟨∅, []⟩, ttl, max capacity 1⟩

def len (s : InMemoryCcrStore) : Nat := s.inner.map.rows.length

def stored (s : InMemoryCcrStore) : List String := s.inner.map.rows.map Prod.fst

end InMemoryCcrStore

open InMemoryCcrStore

/-- `while g.map.len() >= self.capacity`: a hash that is no longer in the map is popped for
nothing. -/
def evict (capacity : Nat) (map : EntryMap) : List String → Inner
  | [] => ⟨map, []⟩
  | oldest :: order =>
    if capacity ≤ map.rows.length then evict capacity (map.delete fun r => r.1 = oldest) order
    else ⟨map, oldest :: order⟩

def put (s : InMemoryCcrStore) (hash : String) (payload : List Char) (now : Nat) :
    InMemoryCcrStore :=
  if hash ∈ s.stored then
    { s with inner := { s.inner with map := s.inner.map.put (hash, ⟨payload, now⟩) } }
  else
    let g := evict s.capacity s.inner.map s.inner.order
    { s with inner := ⟨g.map.put (hash, ⟨payload, now⟩), g.order ++ [hash]⟩ }

def get (s : InMemoryCcrStore) (hash : String) (now : Nat) :
    InMemoryCcrStore × Option (List Char) :=
  match s.inner.map.find hash with
  | some (_, e) =>
    if now - e.inserted ≤ s.ttl then (s, some e.payload)
    else ({ s with inner := { s.inner with map := s.inner.map.delete fun r => r.1 = hash } }, none)
  | none => (s, none)

/-- A call, and the instant at which it reads the clock. -/
inductive Call
  | put (hash : String) (payload : List Char) (now : Nat)
  | get (hash : String) (now : Nat)

def step (s : InMemoryCcrStore) : Call → InMemoryCcrStore × Option (List Char)
  | .put hash payload now => (put s hash payload now, none)
  | .get hash now => get s hash now

/-! ## What the store is for -/

/-- The hash that a call inserts afresh. -/
def inserts (s : InMemoryCcrStore) : Call → List String
  | .put hash _ _ => if hash ∈ s.stored then [] else [hash]
  | .get _ _ => []

/-- The fresh insertions of a run, in their order. -/
def insertions (s : InMemoryCcrStore) : List Call → List String
  | [] => []
  | c :: cs => inserts s c ++ insertions (step s c).1 cs

/-- The last insertion of one hash is before the last one of the other. -/
def Older (insertions : List String) (hash other : String) : Prop :=
  ∃ front back, insertions = front ++ hash :: back ∧ hash ∉ back ∧ other ∈ back

/-- The entry after puts of its hash. -/
def latest (hash : String) : Entry → List Call → Entry
  | e, [] => e
  | e, .put other payload now :: cs => latest hash (if other = hash then ⟨payload, now⟩ else e) cs
  | e, .get _ _ :: cs => latest hash e cs

/-- No get of the hash comes after the time to live of the put before it. -/
def timely (ttl : Nat) (hash : String) : Entry → List Call → Bool
  | _, [] => true
  | e, .put other payload now :: cs =>
    timely ttl hash (if other = hash then ⟨payload, now⟩ else e) cs
  | e, .get other now :: cs => (other != hash || decide (now - e.inserted ≤ ttl)) &&
    timely ttl hash e cs

/-- The calls keep the store what it is documented to be. -/
structure Retains (s : InMemoryCcrStore) (calls : List Call) : Prop where
  bounded : ∀ before after, calls = before ++ after → (run step s before).1.len ≤ s.capacity
  oldest : ∀ before hash payload now after, calls = before ++ .put hash payload now :: after →
    ∀ evicted ∈ (run step s before).1.stored,
      evicted ∉ (run step s (before ++ [.put hash payload now])).1.stored →
      ∀ other ∈ (run step s before).1.stored, other ≠ evicted →
      Older (insertions s before) evicted other
  retrieved : ∀ before hash payload now since asked,
    calls = before ++ .put hash payload now :: since →
    hash ∉ (run step s before).1.stored →
    ((insertions (run step s (before ++ [.put hash payload now])).1 since).toFinset.erase
      hash).card < s.capacity →
    timely s.ttl hash ⟨payload, now⟩ (since ++ [.get hash asked]) →
      (get (run step s calls).1 hash asked).2 = some (latest hash ⟨payload, now⟩ since).payload

/-- What an eviction takes is in the queue once. -/
def Unrepeated (s : InMemoryCcrStore) : Call → Prop
  | .put hash _ _ => hash ∉ s.stored → s.capacity ≤ s.len →
      ∀ oldest ∈ s.inner.order.find? (· ∈ s.stored), s.inner.order.count oldest = 1
  | .get _ _ => True

/-! ## The map -/

variable {s : InMemoryCcrStore} {hash : String}

theorem mem_stored : hash ∈ s.stored ↔ ∃ e, (hash, e) ∈ s.inner.map := by
  simp [stored, Table.mem_rows]

variable {r : String × Entry}

theorem mem_stored_of_mem (h : r ∈ s.inner.map) : r.1 ∈ s.stored :=
  mem_stored.mpr ⟨r.2, h⟩

variable {map : EntryMap}

theorem length_delete_of_mem (h : r ∈ map) :
    (map.delete fun x => x.1 = r.1).rows.length + 1 = map.rows.length := by
  have hfind : map.find r.1 = some r := Table.find_eq_some_iff.mpr ⟨h, rfl⟩
  have hcount := Table.count_of_key (t := map) (p := fun x => decide (x.1 = r.1)) (k :=
    r.1) (by simp)
  rw [hfind, Option.any_some, decide_eq_true rfl, if_pos rfl] at hcount
  rw [← Table.length_delete_add_count map fun x => x.1 = r.1, hcount]

theorem evict_of_room {capacity : Nat} (h : map.rows.length < capacity) (order : List String) :
    evict capacity map order = ⟨map, order⟩ := by
  cases order with
  | nil => rfl
  | cons oldest order => rw [evict, if_neg (by omega)]

/-- A full store loses one entry: the first of the queue that is still stored. -/
theorem evict_full {capacity : Nat} {order : List String} (hpos : 0 < capacity)
    (hfull : map.rows.length = capacity) (hqueued : ∀ r ∈ map, r.1 ∈ order) :
    ∃ dead r rest, order = dead ++ r.1 :: rest ∧ (∀ x ∈ map, x.1 ∉ dead) ∧ r ∈ map ∧
      evict capacity map order = ⟨map.delete fun x => x.1 = r.1, rest⟩ := by
  induction order with
  | nil =>
    obtain ⟨r, hr⟩ := List.exists_mem_of_length_pos (by omega : 0 < map.rows.length)
    exact absurd (hqueued r hr) List.not_mem_nil
  | cons first order ih =>
    rw [evict, if_pos hfull.ge]
    by_cases hstored : ∃ r ∈ map, r.1 = first
    · obtain ⟨r, hr, rfl⟩ := hstored
      refine ⟨[], r, order, rfl, by simp, hr, evict_of_room ?_ order⟩
      have hlen := length_delete_of_mem hr
      omega
    · have hother : ∀ r ∈ map, r.1 ≠ first := fun r hr heq => hstored ⟨r, hr, heq⟩
      have hsame : (map.delete fun x => x.1 = first) = map :=
        Table.delete_eq_self (Table.count_eq_zero_iff.mpr fun r hr => by simpa using hother r hr)
      obtain ⟨dead, r, rest, rfl, hdead, hr, heq⟩ :=
        ih fun r hr => (List.mem_cons.mp (hqueued r hr)).resolve_left (hother r hr)
      refine ⟨first :: dead, r, rest, rfl, fun x hx => ?_, hr, by rw [hsame, heq]⟩
      simpa using ⟨hother x hx, hdead x hx⟩

/-- What every run keeps. -/
structure Sound (s : InMemoryCcrStore) : Prop where
  pos : 0 < s.capacity
  bounded : s.len ≤ s.capacity
  queued : ∀ r ∈ s.inner.map, r.1 ∈ s.inner.order

theorem Sound.empty (capacity ttl : Nat) : Sound (withCapacityAndTtl capacity ttl) where
  pos := by simp [withCapacityAndTtl]
  bounded := Nat.zero_le _
  queued := fun r hr => absurd hr (Table.not_mem_empty r)

/-- A put of a new hash: what it drops off the queue, and what stays. -/
theorem Sound.put_cases (h : Sound s) (hnew : hash ∉ s.stored) (payload : List Char) (now : Nat) :
    ∃ g : Inner,
      put s hash payload now =
        { s with inner := ⟨g.map.put (hash, ⟨payload, now⟩), g.order ++ [hash]⟩ } ∧
      g.map.rows.length < s.capacity ∧
      (g = s.inner ∨ s.len = s.capacity ∧ ∃ dead r, s.inner.order = dead ++ r.1 :: g.order ∧
        (∀ x ∈ s.inner.map, x.1 ∉ dead) ∧ r ∈ s.inner.map ∧ g.map = s.inner.map.delete fun x =>
          x.1 = r.1) := by
  refine ⟨evict s.capacity s.inner.map s.inner.order, by rw [put, if_neg hnew], ?_⟩
  rcases h.bounded.lt_or_eq with hroom | hfull
  · rw [evict_of_room hroom]
    exact ⟨hroom, .inl rfl⟩
  · obtain ⟨dead, r, rest, horder, hdead, hr, heq⟩ := evict_full h.pos hfull h.queued
    rw [heq]
    have hlen := length_delete_of_mem hr
    refine ⟨?_, .inr ⟨hfull, dead, r, horder, hdead, hr, rfl⟩⟩
    change (s.inner.map.delete _).rows.length < s.capacity
    unfold len at hfull
    omega

theorem put_of_stored (h : hash ∈ s.stored) (payload : List Char) (now : Nat) :
    put s hash payload now =
      { s with inner := { s.inner with map := s.inner.map.put (hash, ⟨payload, now⟩) } } :=
  if_pos h

/-- A get takes nothing out of the store but its own hash, and that only when it has expired. -/
theorem get_cases (s : InMemoryCcrStore) (hash : String) (now : Nat) :
    (∃ e, (hash, e) ∈ s.inner.map ∧ now - e.inserted ≤ s.ttl ∧
      get s hash now = (s, some e.payload)) ∨
    (∃ e, (hash, e) ∈ s.inner.map ∧ ¬ now - e.inserted ≤ s.ttl ∧
      get s hash now =
        ({ s with inner := { s.inner with map := s.inner.map.delete fun r => r.1 = hash } },
          none)) ∨
    (hash ∉ s.stored ∧ get s hash now = (s, none)) := by
  unfold get
  split
  · rename_i key e hfind
    obtain ⟨hmem, rfl⟩ := Table.find_eq_some_iff.mp hfind
    split
    · rename_i h
      exact .inl ⟨e, hmem, h, rfl⟩
    · rename_i h
      exact .inr (.inl ⟨e, hmem, h, rfl⟩)
  · rename_i hfind
    refine .inr (.inr ⟨fun hmem => ?_, rfl⟩)
    obtain ⟨e, he⟩ := mem_stored.mp hmem
    exact Table.find_eq_none_iff.mp hfind (hash, e) he rfl

theorem Sound.put (h : Sound s) (hash : String) (payload : List Char) (now : Nat) :
    Sound (put s hash payload now) := by
  by_cases hstored : hash ∈ s.stored
  · obtain ⟨e, he⟩ := mem_stored.mp hstored
    rw [put_of_stored hstored]
    refine ⟨h.pos, ?_, fun r hr => ?_⟩
    · have hlen := Table.length_put_of_mem (r := (hash, ⟨payload, now⟩)) he rfl
      exact hlen.trans_le h.bounded
    · rcases Table.mem_put.mp hr with rfl | ⟨hr, -⟩
      · exact h.queued (hash, e) he
      · exact h.queued r hr
  · obtain ⟨g, hput, hroom, hcases⟩ := h.put_cases hstored payload now
    rw [hput]
    have hold : ∀ r ∈ g.map, r ∈ s.inner.map ∧ r.1 ∈ g.order := by
      rcases hcases with rfl | ⟨-, dead, r, horder, hdead, -, hmap⟩
      · exact fun r hr => ⟨hr, h.queued r hr⟩
      · intro x hx
        rw [hmap, Table.mem_delete, decide_eq_false_iff_not] at hx
        have hx' := h.queued x hx.1
        rw [horder, List.mem_append, List.mem_cons] at hx'
        exact ⟨hx.1, (hx'.resolve_left (hdead x hx.1)).resolve_left hx.2⟩
    refine ⟨h.pos, ?_, fun r hr => ?_⟩
    · have hfresh : ∀ r ∈ g.map, r.1 ≠ hash := by
        rintro r hr rfl
        exact hstored (mem_stored_of_mem (hold r hr).1)
      have hrows := Table.rows_put_of_fresh (t := g.map) (r := (hash, ⟨payload, now⟩)) hfresh
      simp only [len, hrows, List.length_append, List.length_singleton]
      omega
    · rcases Table.mem_put.mp hr with rfl | ⟨hr, -⟩
      · simp
      · exact List.mem_append_left _ (hold r hr).2

theorem Sound.step (h : Sound s) (c : Call) : Sound (step s c).1 := by
  cases c with
  | put hash payload now => exact h.put hash payload now
  | get hash now =>
    change Sound (get s hash now).1
    obtain ⟨e, -, -, hget⟩ | ⟨e, -, -, hget⟩ | ⟨-, hget⟩ := get_cases s hash now
    · rw [hget]
      exact h
    · rw [hget]
      exact ⟨h.pos, (List.length_filter_le _ _).trans h.bounded,
        fun r hr => h.queued r (Table.mem_delete.mp hr).1⟩
    · rw [hget]
      exact h

/-! ## The queue and the history -/

theorem insertions_append (s : InMemoryCcrStore) (cs ds : List Call) :
    insertions s (cs ++ ds) = insertions s cs ++ insertions (run step s cs).1 ds := by
  induction cs generalizing s with
  | nil => rfl
  | cons c cs ih => simp [insertions, ih]

variable {history : List String}

/-- The queue is the end of the history. -/
theorem order_suffix (h : Sound s) (hqueue : s.inner.order <:+ history) (c : Call) :
    (step s c).1.inner.order <:+ history ++ inserts s c := by
  cases c with
  | put hash payload now =>
    change (put s hash payload now).inner.order <:+ _
    by_cases hstored : hash ∈ s.stored
    · rw [put_of_stored hstored, inserts, if_pos hstored, List.append_nil]
      exact hqueue
    · obtain ⟨g, hput, -, hcases⟩ := h.put_cases hstored payload now
      rw [hput, inserts, if_neg hstored]
      have hg : g.order <:+ s.inner.order := by
        rcases hcases with rfl | ⟨-, dead, r, horder, -⟩
        · exact List.suffix_rfl
        · exact ⟨dead ++ [r.1], by simp [horder]⟩
      obtain ⟨front, hfront⟩ := hg.trans hqueue
      exact ⟨front, by rw [← hfront, List.append_assoc]⟩
  | get hash now =>
    have horder : (get s hash now).1.inner.order = s.inner.order := by
      obtain ⟨e, -, -, hget⟩ | ⟨e, -, -, hget⟩ | ⟨-, hget⟩ := get_cases s hash now <;> rw [hget]
    change (get s hash now).1.inner.order <:+ _
    rw [horder, inserts, List.append_nil]
    exact hqueue

/-- A store reached by a run, and the fresh insertions so far. -/
structure Reached (history : List String) (s : InMemoryCcrStore) : Prop where
  sound : Sound s
  queue : s.inner.order <:+ history

theorem Reached.run (h : Reached history s) (cs : List Call) :
    Reached (history ++ insertions s cs) (run step s cs).1 := by
  induction cs generalizing history s with
  | nil => simpa [insertions] using h
  | cons c cs ih =>
    rw [insertions, ← List.append_assoc]
    exact ih ⟨h.sound.step c, order_suffix h.sound h.queue c⟩

theorem Reached.empty (capacity ttl : Nat) : Reached [] (withCapacityAndTtl capacity ttl) :=
  ⟨.empty capacity ttl, List.suffix_rfl⟩

/-! ## Evictions -/

variable {payload : List Char} {now : Nat}

/-- An entry of another hash than the evicted one stays. -/
theorem evicted_cases (h : Sound s) {hash evicted : String} (hstored : evicted ∈ s.stored)
    (hgone : evicted ∉ (put s hash payload now).stored) :
    hash ∉ s.stored ∧ s.len = s.capacity ∧ ∃ dead rest, s.inner.order = dead ++ evicted :: rest ∧
      ∀ x ∈ s.stored, x ∉ dead := by
  obtain ⟨e, he⟩ := mem_stored.mp hstored
  have hput : ∀ {map : EntryMap} {order : List String}, (evicted, e) ∈ map →
      put s hash payload now = { s with inner := ⟨map.put (hash, ⟨payload, now⟩), order⟩ } →
      False := by
    intro map order hmem hput
    rw [hput] at hgone
    by_cases hhash : evicted = hash
    · subst hhash
      exact hgone (mem_stored.mpr ⟨_, Table.mem_put.mpr (.inl rfl)⟩)
    · exact hgone (mem_stored.mpr ⟨e, Table.mem_put.mpr (.inr ⟨hmem, hhash⟩)⟩)
  by_cases hnew : hash ∈ s.stored
  · exact absurd (put_of_stored hnew payload now) fun heq => hput he heq
  · obtain ⟨g, heq, -, rfl | ⟨hfull, dead, r, horder, hdead, -, hmap⟩⟩ :=
      h.put_cases hnew payload now
    · exact (hput he heq).elim
    · have hr : r.1 = evicted := by
        by_contra hne
        refine hput ?_ heq
        rw [hmap, Table.mem_delete]
        exact ⟨he, by simpa using fun heq => hne heq.symm⟩
      refine ⟨hnew, hfull, dead, g.order, hr ▸ horder, fun x hx => ?_⟩
      obtain ⟨y, hy⟩ := mem_stored.mp hx
      exact hdead _ hy

theorem oldest_of_unrepeated (h : Reached history s) {hash evicted other : String}
    (hunrepeated : Unrepeated s (.put hash payload now)) (hstored : evicted ∈ s.stored)
    (hgone : evicted ∉ (put s hash payload now).stored) (hother : other ∈ s.stored)
    (hne : other ≠ evicted) : Older history evicted other := by
  obtain ⟨hnew, hfull, dead, rest, horder, hdead⟩ := evicted_cases h.sound hstored hgone
  have hfind : s.inner.order.find? (· ∈ s.stored) = some evicted := by
    rw [horder, List.find?_append, List.find?_eq_none.mpr fun x hx => by
      simpa using fun hmem => hdead x hmem hx]
    simp [hstored]
  have hcount := hunrepeated hnew hfull.ge evicted hfind
  obtain ⟨front, hfront⟩ := h.queue
  rw [horder] at hcount hfront
  rw [List.count_append, List.count_cons_self] at hcount
  refine ⟨front ++ dead, rest, by rw [← hfront, List.append_assoc], ?_, ?_⟩
  · exact List.count_eq_zero.mp (by omega)
  · obtain ⟨e, he⟩ := mem_stored.mp hother
    have hqueued := h.sound.queued _ he
    rw [horder, List.mem_append, List.mem_cons] at hqueued
    exact (hqueued.resolve_left (hdead other hother)).resolve_left hne

/-! ## Retrieval -/

theorem latest_append (hash : String) (e : Entry) (cs ds : List Call) :
    latest hash e (cs ++ ds) = latest hash (latest hash e cs) ds := by
  induction cs generalizing e with
  | nil => rfl
  | cons c cs ih => cases c <;> exact ih _

theorem timely_append (ttl : Nat) (hash : String) (e : Entry) (cs ds : List Call) :
    timely ttl hash e (cs ++ ds) = (timely ttl hash e cs &&
      timely ttl hash (latest hash e cs) ds) := by
  induction cs generalizing e with
  | nil => rfl
  | cons c cs ih =>
    cases c with
    | put other payload now => exact ih _
    | get other now => simp only [List.cons_append, timely, latest, ih, Bool.and_assoc]

theorem mem_of_older {front back : List String} {hash other : String}
    (h : Older (front ++ hash :: back) hash other) (hback : hash ∉ back) : other ∈ back := by
  obtain ⟨front', back', heq, hback', hother⟩ := h
  rcases List.append_eq_append_iff.mp heq with ⟨mid, -, hmid⟩ | ⟨mid, -, hmid⟩
  · cases mid with
    | nil => rwa [(List.cons.inj hmid).2]
    | cons x mid =>
      rw [(List.cons.inj hmid).2] at hback
      simp at hback
  · cases mid with
    | nil => rwa [← (List.cons.inj hmid).2]
    | cons x mid =>
      rw [(List.cons.inj hmid).2] at hback'
      simp at hback'

/-- An eviction of a hash comes after as many insertions of others as the store holds entries. -/
theorem capacity_le_of_evicted {front back : List String} {hash other : String}
    (h : Reached (front ++ hash :: back) s) (hunrepeated : Unrepeated s (.put other payload now))
    (hback : hash ∉ back) (hstored : hash ∈ s.stored)
    (hgone : hash ∉ (put s other payload now).stored) :
    s.capacity ≤ ((back ++ [other]).toFinset.erase hash).card := by
  obtain ⟨hnew, hfull, -⟩ := evicted_cases h.sound hstored hgone
  have hcard : (insert other (s.stored.toFinset.erase hash)).card = s.capacity := by
    have hlen : s.stored.toFinset.card = s.capacity := by
      rw [stored, List.toFinset_card_of_nodup s.inner.map.nodup, ← hfull, len, List.length_map]
    rw [Finset.card_insert_of_notMem (by simp [hnew]),
      Finset.card_erase_of_mem (List.mem_toFinset.mpr hstored), hlen,
      Nat.sub_add_cancel h.sound.pos]
  rw [← hcard]
  refine Finset.card_le_card fun x hx => ?_
  rw [Finset.mem_insert, Finset.mem_erase, List.mem_toFinset] at hx
  rw [Finset.mem_erase, List.mem_toFinset, List.mem_append, List.mem_singleton]
  rcases hx with rfl | ⟨hne, hx⟩
  · exact ⟨fun heq => hnew (heq ▸ hstored), .inr rfl⟩
  · exact ⟨hne, .inl (mem_of_older (oldest_of_unrepeated h hunrepeated hstored hgone hx hne) hback)⟩

@[simp] theorem capacity_step (s : InMemoryCcrStore) (c : Call) :
    (step s c).1.capacity = s.capacity := by
  cases c with
  | put hash payload now =>
    change (put s hash payload now).capacity = _
    unfold put
    split <;> rfl
  | get hash now =>
    obtain ⟨e, -, -, hget⟩ | ⟨e, -, -, hget⟩ | ⟨-, hget⟩ := get_cases s hash now <;> rw [step, hget]

@[simp] theorem ttl_step (s : InMemoryCcrStore) (c : Call) : (step s c).1.ttl = s.ttl := by
  cases c with
  | put hash payload now =>
    change (put s hash payload now).ttl = _
    unfold put
    split <;> rfl
  | get hash now =>
    obtain ⟨e, -, -, hget⟩ | ⟨e, -, -, hget⟩ | ⟨-, hget⟩ := get_cases s hash now <;> rw [step, hget]

theorem run_constants (s : InMemoryCcrStore) (cs : List Call) :
    (run step s cs).1.capacity = s.capacity ∧ (run step s cs).1.ttl = s.ttl :=
  run_invariant (P := fun t => t.capacity = s.capacity ∧ t.ttl = s.ttl)
    (fun t c h => by rw [capacity_step, ttl_step]; exact h) s ⟨rfl, rfl⟩ cs

theorem mem_stored_iff_find : hash ∈ s.stored ↔ s.inner.map.find hash ≠ none := by
  rw [mem_stored, Ne, Table.find_eq_none_iff]
  push Not
  constructor
  · rintro ⟨e, he⟩
    exact ⟨(hash, e), he, rfl⟩
  · rintro ⟨⟨key, e⟩, he, rfl⟩
    exact ⟨e, he⟩

theorem find_put_self (s : InMemoryCcrStore) (hash : String) (payload : List Char) (now : Nat) :
    (put s hash payload now).inner.map.find hash = some (hash, ⟨payload, now⟩) := by
  unfold put
  split <;> simp [Table.find_put]

theorem find_put_of_ne (h : Sound s) {hash other : String} (hne : other ≠ hash)
    (payload : List Char) (now : Nat) :
    (put s other payload now).inner.map.find hash = s.inner.map.find hash ∨
      (put s other payload now).inner.map.find hash = none := by
  by_cases hstored : other ∈ s.stored
  · rw [put_of_stored hstored, Table.find_put, if_neg hne]
    exact .inl rfl
  · obtain ⟨g, hput, -, hcases⟩ := h.put_cases hstored payload now
    rw [hput, Table.find_put, if_neg hne]
    rcases hcases with rfl | ⟨-, dead, r, -, -, -, hmap⟩
    · exact .inl rfl
    · rw [hmap, Table.find_delete]
      cases hfind : s.inner.map.find hash with
      | none => exact .inl rfl
      | some x =>
        rw [Option.filter_some]
        split
        · exact .inl rfl
        · exact .inr rfl

variable {e : Entry}

/-- A call that does not take the hash out of the store keeps its entry up to date. -/
theorem find_step_of_stored (h : Sound s) (hfind : s.inner.map.find hash = some (hash, e))
    (c : Call) (hkept : hash ∈ (step s c).1.stored) :
    (step s c).1.inner.map.find hash = some (hash, latest hash e [c]) := by
  cases c with
  | put other payload now =>
    change hash ∈ (put s other payload now).stored at hkept
    change (put s other payload now).inner.map.find hash =
      some (hash, if other = hash then ⟨payload, now⟩ else e)
    split
    · rename_i heq
      rw [heq, find_put_self]
    · rename_i hne
      rw [(find_put_of_ne h hne payload now).resolve_right (mem_stored_iff_find.mp hkept), hfind]
  | get other now =>
    change hash ∈ (get s other now).1.stored at hkept
    change (get s other now).1.inner.map.find hash = some (hash, e)
    obtain ⟨e', -, -, hget⟩ | ⟨e', -, -, hget⟩ | ⟨-, hget⟩ := get_cases s other now
    · rw [hget, hfind]
    · rw [hget, mem_stored_iff_find, Table.find_delete, hfind, Option.filter_some] at hkept
      rw [hget, Table.find_delete, hfind, Option.filter_some]
      split at hkept
      · rename_i hkeep
        rw [if_pos hkeep]
      · exact absurd rfl hkept
    · rw [hget, hfind]

/-- A timely get does not take its hash out of the store. -/
theorem get_of_timely (hfind : s.inner.map.find hash = some (hash, e))
    (h : now - e.inserted ≤ s.ttl) : get s hash now = (s, some e.payload) := by
  rw [get, hfind]
  exact if_pos h

theorem mem_stored_get_of_ne {hash other : String} (h : hash ∈ s.stored) (hne : other ≠ hash)
    (now : Nat) : hash ∈ (get s other now).1.stored := by
  obtain ⟨e', -, -, hget⟩ | ⟨e', -, -, hget⟩ | ⟨-, hget⟩ := get_cases s other now
  · rwa [hget]
  · obtain ⟨e, he⟩ := mem_stored.mp h
    rw [hget]
    exact mem_stored.mpr ⟨e, Table.mem_delete.mpr ⟨he, by simpa using hne.symm⟩⟩
  · rwa [hget]

/-- The entry of a hash, while fewer others come in than the store holds. -/
theorem find_of_unrepeated {front : List String} (h : Reached (front ++ [hash]) s)
    (hfind : s.inner.map.find hash = some (hash, e)) (since : List Call)
    (meets : ∀ before c after, since = before ++ c :: after → Unrepeated (run step s before).1 c)
    (hroom : ((insertions s since).toFinset.erase hash).card < s.capacity)
    (htimely : timely s.ttl hash e since) :
    (run step s since).1.inner.map.find hash = some (hash, latest hash e since) ∧
    hash ∉ insertions s since := by
  induction since using List.reverseRecOn with
  | nil => exact ⟨hfind, List.not_mem_nil⟩
  | append_singleton since c ih =>
    rw [insertions_append] at hroom
    rw [timely_append, Bool.and_eq_true] at htimely
    have hless : ((insertions s since).toFinset.erase hash).card < s.capacity :=
      (Finset.card_le_card (Finset.erase_subset_erase hash (by simp))).trans_lt hroom
    obtain ⟨hentry, hback⟩ :=
      ih (fun before d after heq => meets before d (after ++ [c]) (by simp [heq])) hless htimely.1
    have hreached := h.run since
    rw [List.append_assoc, List.singleton_append] at hreached
    have hstored : hash ∈ (run step s since).1.stored :=
      mem_stored_iff_find.mpr (by rw [hentry]; simp)
    have hkept : hash ∈ (step (run step s since).1 c).1.stored := by
      cases c with
      | put other payload now =>
        by_contra hgone
        have hmeets := meets since (.put other payload now) [] rfl
        have hcard := capacity_le_of_evicted hreached hmeets hback hstored hgone
        have hnew := (evicted_cases hreached.sound hstored hgone).1
        rw [(run_constants s since).1] at hcard
        simp only [insertions, inserts, if_neg hnew, List.append_nil] at hroom
        omega
      | get other now =>
        by_cases hother : other = hash
        · subst hother
          have hnow := htimely.2
          simp only [timely, bne_self_eq_false, Bool.false_or, Bool.and_true,
            decide_eq_true_eq] at hnow
          rw [← (run_constants s since).2] at hnow
          rw [step, get_of_timely hentry hnow]
          exact hstored
        · exact mem_stored_get_of_ne hstored hother now
    rw [run_append, insertions_append, latest_append]
    refine ⟨find_step_of_stored hreached.sound hentry c hkept, ?_⟩
    rw [List.mem_append, not_or]
    refine ⟨hback, ?_⟩
    cases c with
    | put other payload now =>
      simp only [insertions, inserts, List.append_nil]
      split
      · exact List.not_mem_nil
      · rename_i hnew
        rw [List.mem_singleton]
        rintro rfl
        exact hnew hstored
    | get other now => exact List.not_mem_nil

/-! ## The store -/

/-- In every run the store stays within its capacity.  It is a first-in first-out store in the runs
whose evictions take no repeated hash. -/
theorem retains_of_unrepeated (capacity ttl : Nat) (calls : List Call) :
    (run step (withCapacityAndTtl capacity ttl) calls).1.len ≤ max capacity 1 ∧
    ((∀ before c after, calls = before ++ c :: after →
        Unrepeated (run step (withCapacityAndTtl capacity ttl) before).1 c) →
      Retains (withCapacityAndTtl capacity ttl) calls) := by
  have hreached := (Reached.empty capacity ttl).run
  have hbounded : ∀ cs, (run step (withCapacityAndTtl capacity ttl) cs).1.len ≤ max capacity 1 := by
    intro cs
    have h := (hreached cs).sound.bounded
    rwa [(run_constants _ cs).1] at h
  refine ⟨hbounded calls, fun meets => ⟨fun before _ _ => hbounded before, ?_, ?_⟩⟩
  · intro before hash payload now after heq evicted hstored hgone other hother hne
    rw [run_append] at hgone
    have h := hreached before
    rw [List.nil_append] at h
    exact oldest_of_unrepeated h (meets before _ after heq) hstored hgone hother hne
  · intro before hash payload now since asked heq hnew hroom htimely
    have h := hreached (before ++ [.put hash payload now])
    have hafter : ∀ cs,
        (run step (withCapacityAndTtl capacity ttl) (before ++ .put hash payload now :: cs)).1 =
        (run step (run step (withCapacityAndTtl capacity ttl) (before ++ [.put hash payload now])).1
          cs).1 := by
      intro cs
      rw [← List.singleton_append, ← List.append_assoc, run_append]
    have hfirst : insertions (run step (withCapacityAndTtl capacity ttl) before).1
        [.put hash payload now] = [hash] := by
      simp [insertions, inserts, hnew]
    rw [List.nil_append, insertions_append, hfirst] at h
    have hfind : (run step (withCapacityAndTtl capacity ttl)
        (before ++ [.put hash payload now])).1.inner.map.find hash = some (hash,
        ⟨payload, now⟩) := by
      rw [run_append]
      exact find_put_self _ hash payload now
    have hcapacity :=
      (run_constants (withCapacityAndTtl capacity ttl) (before ++ [.put hash payload now])).1
    have httl :=
      (run_constants (withCapacityAndTtl capacity ttl) (before ++ [.put hash payload now])).2
    rw [timely_append, Bool.and_eq_true] at htimely
    obtain ⟨hentry, -⟩ := find_of_unrepeated h hfind since (fun pre c post hsplit => by
      rw [← hafter]
      exact meets (before ++ .put hash payload now :: pre) c post (by simp [heq, hsplit]))
        (by rwa [hcapacity])
      (by rw [httl]; exact htimely.1)
    have hnow := htimely.2
    simp only [timely, bne_self_eq_false, Bool.false_or, Bool.and_true, decide_eq_true_eq] at hnow
    rw [heq, hafter, get_of_timely hentry]
    rwa [(run_constants _ since).2, httl]

theorem retains_three : Retains (withCapacityAndTtl 2 5)
    [.put "a" ['1'] 0, .put "b" ['2'] 1, .put "c" ['3'] 2] := by
  refine (retains_of_unrepeated 2 5 _).2 (meets_cons ?_ (meets_cons ?_ (meets_cons ?_ meets_nil)))
  · exact fun _ hfull => absurd hfull (by decide)
  · exact fun _ hfull => absurd hfull (by decide)
  · intro _ _ oldest holdest
    obtain rfl : "a" = oldest := Option.some.inj ((by decide : _ = some "a").symm.trans holdest)
    decide

/-- `a` expires, is stored again behind `b`, and is evicted before `b` for the place it had. -/
theorem not_retains_repeated : ¬ Retains (withCapacityAndTtl 2 5)
    [.put "a" ['1'] 0, .get "a" 10, .put "b" ['2'] 11, .put "a" ['1'] 12, .put "c" ['3'] 13] := by
  intro h
  have hget := h.retrieved [.put "a" ['1'] 0, .get "a" 10, .put "b" ['2'] 11] "a" ['1'] 12
    [.put "c" ['3'] 13] 14 rfl (by decide +kernel) (by decide +kernel) (by decide +kernel)
  revert hget
  decide +kernel

end Neoth.Compress.Ccr
