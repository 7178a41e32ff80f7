import Neoth.MeshSync.Gossip

/-!
# The order of vector clocks

`tick`, `merge` and `compare` of `VectorClock` in `cluster/gossip_wire.rs`.  A clock is read as the
function of its counters, and the order of two clocks is that of the functions.

* `compare_eq`: the four answers are the four cases of the order;
* `counterOf_merge`: a merge with room for every peer is the supremum;
* `le_merge`, `size_merge_le`: every merge raises counters and stays within the limit;
* `tickInPlace_spec`: a tick advances the clock or leaves it;
* `clocks_are_ordered`: the laws that follow.
-/

open Lib.TreeMap
open Std (ExtTreeMap ExtTreeSet)

namespace Neoth.MeshSync.VectorClock

/-! ## Ticks and merges -/

/-- `VectorClock::tick`, with the clock as it is left, which `Gossip.lean` has no use for
(`tick_eq_tickInPlace`). -/
def tickInPlace (clock : VectorClock) (self : PeerPubkey) : VectorClock × Bool :=
  if !clock.contains self && decide (maxVectorClockPeers ≤ clock.size) then (clock, false)
  else
    let entered : VectorClock := clock.insertIfNew self 0
    let counter := entered.counterOf self
    if counter + 1 < 2 ^ 64 then (entered.insert self (counter + 1), true) else (entered, false)

/-- One slot of the other clock; the number counts the slots that have changed. -/
def mergeSlot (merged : VectorClock × Nat) (slot : PeerPubkey × Nat) : VectorClock × Nat :=
  match merged.1[slot.1]? with
  | some own => if own < slot.2 then (merged.1.insert slot.1 slot.2, merged.2 + 1) else merged
  | none =>
    if merged.1.size < maxVectorClockPeers then (merged.1.insert slot.1 slot.2, merged.2 + 1)
    else merged

def merge (clock other : VectorClock) : VectorClock × Nat := other.toList.foldl mergeSlot (clock, 0)

/-! ## Comparison -/

inductive VcOrdering
  | before
  | equal
  | after
  | concurrent

/-- The loop over the peers; it ends early when both sides have been ahead. -/
def compareFrom (lhs rhs : VectorClock) : List PeerPubkey → Bool → Bool → VcOrdering
  | [], lhsDominatesAny, rhsDominatesAny =>
    match lhsDominatesAny, rhsDominatesAny with
    | false, false => .equal
    | true, false => .after
    | false, true => .before
    | true, true => .concurrent
  | peer :: peers, lhsDominatesAny, rhsDominatesAny =>
    let l := lhs.counterOf peer
    let r := rhs.counterOf peer
    let lhsDominatesAny := lhsDominatesAny || decide (r < l)
    let rhsDominatesAny := rhsDominatesAny || decide (l < r)
    if lhsDominatesAny && rhsDominatesAny then .concurrent
    else compareFrom lhs rhs peers lhsDominatesAny rhsDominatesAny

/-- The identities of both clocks in their order. -/
def peersOf (lhs rhs : VectorClock) : List PeerPubkey :=
  (ExtTreeSet.ofList (lhs.keys ++ rhs.keys)).toList

def compare (lhs rhs : VectorClock) : VcOrdering :=
  compareFrom lhs rhs (peersOf lhs rhs) false false

/-! ## What a comparison says -/

variable {clock : VectorClock} {peer : PeerPubkey}

theorem counterOf_eq_zero (h : peer ∉ clock) : clock.counterOf peer = 0 := by
  unfold counterOf
  rw [ExtTreeMap.getElem?_eq_none h]
  rfl

theorem mem_peersOf {lhs rhs : VectorClock} : peer ∈ peersOf lhs rhs ↔ peer ∈ lhs ∨ peer ∈ rhs := by
  unfold peersOf
  rw [ExtTreeSet.mem_toList, ExtTreeSet.mem_ofList, List.contains_iff_mem, List.mem_append,
    ExtTreeMap.mem_keys, ExtTreeMap.mem_keys]

theorem compareFrom_eq (lhs rhs : VectorClock) (peers : List PeerPubkey) (l r : Bool)
    (h : (l && r) = false) : compareFrom lhs rhs peers l r =
      match l || peers.any (fun peer => decide (rhs.counterOf peer < lhs.counterOf peer)),
        r || peers.any (fun peer => decide (lhs.counterOf peer < rhs.counterOf peer)) with
      | false, false => .equal
      | true, false => .after
      | false, true => .before
      | true, true => .concurrent := by
  induction peers generalizing l r with
  | nil => simp only [compareFrom, List.any_nil, Bool.or_false]
  | cons peer peers ih =>
    unfold compareFrom
    simp only [List.any_cons, ← Bool.or_assoc]
    split
    · rename_i hboth
      obtain ⟨hl, hr⟩ := Bool.and_eq_true_iff.mp hboth
      simp only [hl, hr, Bool.true_or]
    · rename_i hboth
      exact ih _ _ (Bool.not_eq_true _ ▸ hboth)

/-- One clock is ahead of the other somewhere exactly when it is not below it. -/
theorem any_ahead_iff (lhs rhs : VectorClock) :
    ((peersOf lhs rhs).any fun peer => decide (rhs.counterOf peer < lhs.counterOf peer)) = true ↔
      ¬ lhs.counterOf ≤ rhs.counterOf := by
  rw [List.any_eq_true, Pi.le_def, not_forall]
  constructor
  · rintro ⟨peer, -, hahead⟩
    exact ⟨peer, not_le.mpr (of_decide_eq_true hahead)⟩
  · rintro ⟨peer, hahead⟩
    have hlt := not_le.mp hahead
    refine ⟨peer, mem_peersOf.mpr (.inl ?_), decide_eq_true hlt⟩
    by_contra hnot
    rw [counterOf_eq_zero hnot] at hlt
    exact absurd hlt (Nat.not_lt_zero _)

theorem peersOf_comm (lhs rhs : VectorClock) (p : PeerPubkey → Bool) :
    (peersOf lhs rhs).any p = (peersOf rhs lhs).any p := by
  rw [Bool.eq_iff_iff, List.any_eq_true, List.any_eq_true]
  constructor
  all_goals
    rintro ⟨peer, hmem, hp⟩
    exact ⟨peer, mem_peersOf.mpr (mem_peersOf.mp hmem).symm, hp⟩

/-- **A comparison tells the order of the counters.** -/
theorem compare_eq (lhs rhs : VectorClock) :
    (compare lhs rhs = .equal ↔ lhs.counterOf = rhs.counterOf) ∧
      (compare lhs rhs = .before ↔ lhs.counterOf < rhs.counterOf) ∧
      (compare lhs rhs = .after ↔ rhs.counterOf < lhs.counterOf) ∧
      (compare lhs rhs = .concurrent ↔ ¬ lhs.counterOf ≤ rhs.counterOf ∧ ¬ rhs.counterOf ≤
        lhs.counterOf) := by
  have hl := any_ahead_iff lhs rhs
  have hr := any_ahead_iff rhs lhs
  rw [← peersOf_comm lhs rhs] at hr
  unfold compare
  rw [compareFrom_eq lhs rhs _ false false rfl, Bool.false_or, Bool.false_or]
  generalize ((peersOf lhs rhs).any fun peer => decide (rhs.counterOf peer < lhs.counterOf peer)) =
    ahead at hl ⊢
  generalize ((peersOf lhs rhs).any fun peer => decide (lhs.counterOf peer < rhs.counterOf peer)) =
    behind at hr ⊢
  have heq : lhs.counterOf = rhs.counterOf ↔
      lhs.counterOf ≤ rhs.counterOf ∧ rhs.counterOf ≤ lhs.counterOf :=
    le_antisymm_iff
  rw [lt_iff_le_not_ge, lt_iff_le_not_ge, heq]
  cases ahead <;> cases behind <;> simp_all

/-! ## Merges -/

/-- The identities that have a slot. -/
def peers (clock : VectorClock) : Finset PeerPubkey := clock.keys.toFinset

theorem mem_peers : peer ∈ clock.peers ↔ peer ∈ clock := by
  rw [peers, List.mem_toFinset, ExtTreeMap.mem_keys]

theorem card_peers (clock : VectorClock) : clock.peers.card = clock.size := by
  rw [peers, List.toFinset_card_of_nodup ExtTreeMap.nodup_keys, ExtTreeMap.length_keys]

theorem peers_insert (clock : VectorClock) (peer : PeerPubkey) (n : Nat) :
    peers (clock.insert peer n) = insert peer clock.peers := by
  ext other
  rw [mem_peers, Finset.mem_insert, mem_peers, ExtTreeMap.mem_insert,
    Std.LawfulEqOrd.compare_eq_iff_eq]
  exact or_congr_left eq_comm

theorem counterOf_insert (clock : VectorClock) (peer : PeerPubkey) (n : Nat) :
    counterOf (clock.insert peer n) = Function.update clock.counterOf peer n := by
  funext other
  by_cases h : peer = other
  · subst h
    rw [counterOf_insert_self, Function.update_self]
  · rw [counterOf_insert_of_ne _ n h, Function.update_of_ne (Ne.symm h)]

/-- One slot raises at most its own counter, and takes a new place only below the limit. -/
theorem mergeSlot_spec (merged : VectorClock × Nat) (slot : PeerPubkey × Nat) :
    merged.1.counterOf ≤ (mergeSlot merged slot).1.counterOf ∧
      (merged.1.size ≤ maxVectorClockPeers → (mergeSlot merged slot).1.size ≤ maxVectorClockPeers) ∧
      (mergeSlot merged slot).1.peers ⊆ insert slot.1 merged.1.peers ∧
      ((insert slot.1 merged.1.peers).card ≤ maxVectorClockPeers →
        (mergeSlot merged slot).1.counterOf =
          Function.update merged.1.counterOf slot.1 (max (merged.1.counterOf slot.1) slot.2)) := by
  obtain ⟨clock, changed⟩ := merged
  obtain ⟨peer, n⟩ := slot
  have hraise : ∀ m, clock.counterOf peer ≤ m →
      clock.counterOf ≤ counterOf (clock.insert peer m) := by
    intro m hm
    rw [counterOf_insert]
    exact le_update_iff.mpr ⟨hm, fun _ _ => le_rfl⟩
  unfold mergeSlot
  dsimp only
  cases hget : clock[peer]? with
  | some own =>
    have hown := counterOf_of_getElem? hget
    have hmem : peer ∈ clock := mem_of_getElem? hget
    dsimp only
    split
    · rename_i hlt
      refine ⟨hraise n (by omega), fun hsize => ?_, (peers_insert clock peer n).subset, fun _ => ?_⟩
      · rwa [ExtTreeMap.size_insert, if_pos (ExtTreeMap.mem_iff_contains.mp hmem)]
      · rw [counterOf_insert, hown, max_eq_right hlt.le]
    · rename_i hnot
      refine ⟨le_rfl, fun hsize => hsize, Finset.subset_insert _ _, fun _ => ?_⟩
      rw [hown, max_eq_left (not_lt.mp hnot), ← hown, Function.update_eq_self]
  | none =>
    have hnew : peer ∉ clock := by
      intro hmem
      obtain ⟨n, hn⟩ := exists_getElem?_of_mem hmem
      exact absurd (hget.symm.trans hn) (by simp)
    have hzero := counterOf_eq_zero hnew
    have hcard : (insert peer clock.peers).card = clock.size + 1 := by
      rw [Finset.card_insert_of_notMem (mem_peers.not.mpr hnew), card_peers]
    dsimp only
    split
    · rename_i hroom
      refine ⟨hraise n (by omega), fun _ => ?_, (peers_insert clock peer n).subset, fun _ => ?_⟩
      · exact ExtTreeMap.size_insert_le.trans hroom
      · rw [counterOf_insert, hzero, max_eq_right (Nat.zero_le n)]
    · rename_i hfull
      refine ⟨le_rfl, fun hsize => hsize, Finset.subset_insert _ _, fun hfits => ?_⟩
      omega

theorem le_mergeSlot (merged : VectorClock × Nat) (slot : PeerPubkey × Nat) :
    merged.1.counterOf ≤ (mergeSlot merged slot).1.counterOf :=
  (mergeSlot_spec merged slot).1

/-- What stays true of the clock through every slot is true of a merge. -/
theorem foldl_mergeSlot {motive : VectorClock → Prop} (slots : List (PeerPubkey × Nat))
    (merged : VectorClock × Nat) (hstart : motive merged.1)
    (hslot : ∀ m, ∀ slot ∈ slots, motive m.1 → motive (mergeSlot m slot).1) :
    motive (slots.foldl mergeSlot merged).1 := by
  induction slots generalizing merged with
  | nil => exact hstart
  | cons slot slots ih =>
    exact ih _ (hslot merged slot List.mem_cons_self hstart)
      fun m other hmem => hslot m other (List.mem_cons_of_mem _ hmem)

theorem le_merge (clock other : VectorClock) : clock.counterOf ≤ (merge clock other).1.counterOf :=
  foldl_mergeSlot (motive := fun m => clock.counterOf ≤ m.counterOf) _ _ le_rfl
    fun m slot _ h => h.trans (le_mergeSlot m slot)

theorem size_merge_le (clock other : VectorClock) (h : clock.size ≤ maxVectorClockPeers) :
    (merge clock other).1.size ≤ maxVectorClockPeers :=
  foldl_mergeSlot (motive := fun m => m.size ≤ maxVectorClockPeers) _ _ h
    fun m slot _ => (mergeSlot_spec m slot).2.1

theorem mem_merge (other : VectorClock) (h : peer ∈ clock) : peer ∈ (merge clock other).1 := by
  refine foldl_mergeSlot (motive := fun m => peer ∈ m) _ _ h fun m slot _ hmem => ?_
  unfold mergeSlot
  split
  · split
    · exact ExtTreeMap.mem_insert.mpr (.inr hmem)
    · exact hmem
  · split
    · exact ExtTreeMap.mem_insert.mpr (.inr hmem)
    · exact hmem

variable {slot : PeerPubkey × Nat}

theorem mem_slots : slot ∈ clock.toList ↔ clock[slot.1]? = some slot.2 :=
  ExtTreeMap.mem_toList_iff_getElem?_eq_some

theorem mem_peers_of_slot (h : slot ∈ clock.toList) : slot.1 ∈ clock.peers :=
  mem_peers.mpr (mem_of_getElem? (mem_slots.mp h))

theorem peers_merge_subset (clock other : VectorClock) :
    (merge clock other).1.peers ⊆ clock.peers ∪ other.peers := by
  refine foldl_mergeSlot (motive := fun m => m.peers ⊆ clock.peers ∪ other.peers) _ _
    Finset.subset_union_left fun m slot hmem h => (mergeSlot_spec m slot).2.2.1.trans ?_
  exact Finset.insert_subset (Finset.mem_union_right _ (mem_peers_of_slot hmem)) h

/-- A function bounds the counters of a clock when it bounds its slots. -/
theorem counterOf_le_iff (clock : VectorClock) {bound : PeerPubkey → Nat} :
    clock.counterOf ≤ bound ↔ ∀ slot ∈ clock.toList, slot.2 ≤ bound slot.1 := by
  constructor
  · rintro h ⟨peer, n⟩ hslot
    exact (counterOf_of_getElem? (mem_slots.mp hslot)).symm.le.trans (h peer)
  · intro h peer
    by_cases hmem : peer ∈ clock
    · obtain ⟨n, hn⟩ := exists_getElem?_of_mem hmem
      exact (counterOf_of_getElem? hn).le.trans (h (peer, n) (mem_slots.mpr hn))
    · exact (counterOf_eq_zero hmem).le.trans (Nat.zero_le _)

/-- With room for the peers of both sides, the merged counters are the least above the start and
every slot. -/
theorem foldl_mergeSlot_le_iff {room : Finset PeerPubkey} (hroom : room.card ≤ maxVectorClockPeers)
    (bound : PeerPubkey → Nat) (slots : List (PeerPubkey × Nat)) (merged : VectorClock × Nat)
    (hpeers : merged.1.peers ⊆ room) (hslots : ∀ slot ∈ slots, slot.1 ∈ room) :
    (slots.foldl mergeSlot merged).1.counterOf ≤ bound ↔
      merged.1.counterOf ≤ bound ∧ ∀ slot ∈ slots, slot.2 ≤ bound slot.1 := by
  induction slots generalizing merged with
  | nil => exact ⟨fun h => ⟨h, fun _ hmem => absurd hmem List.not_mem_nil⟩, fun h => h.1⟩
  | cons slot slots ih =>
    have hinsert : insert slot.1 merged.1.peers ⊆ room :=
      Finset.insert_subset (hslots slot List.mem_cons_self) hpeers
    obtain ⟨-, -, hsubset, hcounter⟩ := mergeSlot_spec merged slot
    rw [List.foldl_cons, ih _ (hsubset.trans hinsert) fun s hs =>
      hslots s (List.mem_cons_of_mem _ hs),
      hcounter ((Finset.card_le_card hinsert).trans hroom), update_le_iff, max_le_iff,
      List.forall_mem_cons]
    constructor
    · rintro ⟨⟨⟨hown, hnew⟩, hothers⟩, hrest⟩
      refine ⟨fun peer => ?_, hnew, hrest⟩
      by_cases h : peer = slot.1
      · exact h ▸ hown
      · exact hothers peer h
    · rintro ⟨hall, hnew, hrest⟩
      exact ⟨⟨⟨hall _, hnew⟩, fun peer _ => hall peer⟩, hrest⟩

/-- **With room for the peers of both, a merge is the supremum of the counters.** -/
theorem counterOf_merge {clock other : VectorClock}
    (h : (clock.peers ∪ other.peers).card ≤ maxVectorClockPeers) :
    (merge clock other).1.counterOf = clock.counterOf ⊔ other.counterOf := by
  refine eq_of_forall_ge_iff fun bound => ?_
  rw [sup_le_iff, counterOf_le_iff other]
  exact foldl_mergeSlot_le_iff h bound other.toList (clock, 0) Finset.subset_union_left
    fun slot hslot => Finset.mem_union_right _ (mem_peers_of_slot hslot)

/-! ## Ticks -/

variable {self : PeerPubkey}

theorem insertIfNew_of_mem (h : self ∈ clock) :
    (clock.insertIfNew self 0 : VectorClock) = clock := by
  refine ExtTreeMap.ext_getElem? fun peer => ?_
  rw [ExtTreeMap.getElem?_insertIfNew, if_neg fun hnew => hnew.2 h]

theorem counterOf_insertIfNew (clock : VectorClock) (self : PeerPubkey) :
    counterOf (clock.insertIfNew self 0) = clock.counterOf := by
  by_cases h : self ∈ clock
  · rw [insertIfNew_of_mem h]
  · funext peer
    by_cases hpeer : self = peer
    · subst hpeer
      rw [counterOf_eq_zero h]
      refine counterOf_of_getElem? ?_
      rw [ExtTreeMap.getElem?_insertIfNew, if_pos ⟨Std.LawfulEqOrd.compare_eq_iff_eq.mpr rfl, h⟩]
    · unfold counterOf
      rw [ExtTreeMap.getElem?_insertIfNew,
        if_neg fun hnew => hpeer (Std.LawfulEqOrd.compare_eq_iff_eq.mp hnew.1)]

/-- A refused tick changes nothing; one that is made raises its own counter by one and no other. -/
theorem tickInPlace_spec (clock : VectorClock) (self : PeerPubkey) :
    ((tickInPlace clock self).2 = false → (tickInPlace clock self).1 = clock) ∧
      ((tickInPlace clock self).2 = true →
        (tickInPlace clock self).1.counterOf =
          Function.update clock.counterOf self (clock.counterOf self + 1)) := by
  unfold tickInPlace
  dsimp only
  split
  · exact ⟨fun _ => rfl, fun h => absurd h Bool.false_ne_true⟩
  · rw [counterOf_insertIfNew]
    split
    · refine ⟨fun h => absurd h.symm Bool.false_ne_true, fun _ => ?_⟩
      rw [counterOf_insert, counterOf_insertIfNew]
    · rename_i hfull
      refine ⟨fun _ => insertIfNew_of_mem ?_, fun h => absurd h Bool.false_ne_true⟩
      by_contra hnew
      rw [counterOf_eq_zero hnew] at hfull
      exact hfull (by norm_num)

/-- The tick of the outbound path is this one, with the clock thrown away when it is refused. -/
theorem tick_eq_tickInPlace (clock : VectorClock) (self : PeerPubkey) :
    tick clock self = if (tickInPlace clock self).2 then some (tickInPlace clock self).1
      else none := by
  unfold tick tickInPlace
  dsimp only
  split
  · rfl
  · rw [counterOf_insertIfNew]
    split
    · refine congrArg some (ExtTreeMap.ext_getElem? fun peer => ?_)
      rw [ExtTreeMap.getElem?_insert, ExtTreeMap.getElem?_insert, ExtTreeMap.getElem?_insertIfNew]
      split
      · rfl
      · rename_i hne
        rw [if_neg fun hnew => hne hnew.1]
    · rfl

/-! ## The order and its joins -/

/-- The answers under which the left clock is not ahead anywhere. -/
def VcOrdering.notAhead (ordering : VcOrdering) : Prop := ordering = .before ∨ ordering = .equal

theorem notAhead_compare {lhs rhs : VectorClock} : (compare lhs rhs).notAhead ↔
    lhs.counterOf ≤ rhs.counterOf := by
  obtain ⟨hequal, hbefore, -, -⟩ := compare_eq lhs rhs
  rw [VcOrdering.notAhead, hequal, hbefore, le_iff_lt_or_eq]

theorem compare_antisymm {lhs rhs : VectorClock} (h : (compare lhs rhs).notAhead)
    (h' : (compare rhs lhs).notAhead) : compare lhs rhs = .equal :=
  (compare_eq lhs rhs).1.mpr (le_antisymm (notAhead_compare.mp h) (notAhead_compare.mp h'))

theorem compare_trans {a b c : VectorClock} (hab : (compare a b).notAhead)
    (hbc : (compare b c).notAhead) : (compare a c).notAhead :=
  notAhead_compare.mpr ((notAhead_compare.mp hab).trans (notAhead_compare.mp hbc))

theorem compare_before_trans {a b c : VectorClock} (hab : compare a b = .before)
    (hbc : compare b c = .before) : compare a c = .before :=
  (compare_eq a c).2.1.mpr (((compare_eq a b).2.1.mp hab).trans ((compare_eq b c).2.1.mp hbc))

theorem merge_isLeast {clock other : VectorClock}
    (h : (clock.peers ∪ other.peers).card ≤ maxVectorClockPeers) :
    (compare clock (merge clock other).1).notAhead ∧
    (compare other (merge clock other).1).notAhead ∧
      ∀ above, (compare clock above).notAhead → (compare other above).notAhead →
        (compare (merge clock other).1 above).notAhead := by
  simp only [notAhead_compare, counterOf_merge h]
  exact ⟨le_sup_left, le_sup_right, fun _ => sup_le⟩

theorem merge_self (h : clock.size ≤ maxVectorClockPeers) :
    compare (merge clock clock).1 clock = .equal := by
  rw [(compare_eq _ _).1, counterOf_merge (by rwa [Finset.union_self, card_peers]), sup_idem]

theorem merge_comm {clock other : VectorClock}
    (h : (clock.peers ∪ other.peers).card ≤ maxVectorClockPeers) :
    compare (merge clock other).1 (merge other clock).1 = .equal := by
  rw [(compare_eq _ _).1, counterOf_merge h, counterOf_merge (by rwa [Finset.union_comm]), sup_comm]

theorem merge_assoc {a b c : VectorClock}
    (h : (a.peers ∪ b.peers ∪ c.peers).card ≤ maxVectorClockPeers) :
    compare (merge (merge a b).1 c).1 (merge a (merge b c).1).1 = .equal := by
  have fits : ∀ {s : Finset PeerPubkey}, s ⊆ a.peers ∪ b.peers ∪ c.peers →
      s.card ≤ maxVectorClockPeers :=
    fun hs => (Finset.card_le_card hs).trans h
  have hbc : b.peers ∪ c.peers ⊆ a.peers ∪ b.peers ∪ c.peers :=
    Finset.union_subset_union_left Finset.subset_union_right
  rw [(compare_eq _ _).1,
    counterOf_merge (fits (Finset.union_subset_union_left (peers_merge_subset a b))),
    counterOf_merge (fits Finset.subset_union_left), @counterOf_merge a _ (fits ?_),
    counterOf_merge (fits hbc), sup_assoc]
  refine Finset.union_subset ?_ ((peers_merge_subset b c).trans hbc)
  exact Finset.subset_union_left.trans Finset.subset_union_left

theorem tickInPlace_after (h : (tickInPlace clock self).2 = true) :
    compare (tickInPlace clock self).1 clock = .after := by
  rw [(compare_eq _ _).2.2.1, (tickInPlace_spec clock self).2 h]
  exact lt_update_self_iff.mpr (Nat.lt_succ_self _)

/-- **Vector clocks are ordered by their counters; merging joins them and a tick moves strictly
up.** -/
theorem clocks_are_ordered (a b c : VectorClock) (self : PeerPubkey) :
    ((compare a b = .equal ↔ ∀ peer, a.counterOf peer = b.counterOf peer) ∧
      (compare a b = .before ↔
        (∀ peer, a.counterOf peer ≤ b.counterOf peer) ∧ ∃ peer,
          a.counterOf peer < b.counterOf peer) ∧
      (compare a b = .after ↔
        (∀ peer, b.counterOf peer ≤ a.counterOf peer) ∧ ∃ peer,
          b.counterOf peer < a.counterOf peer) ∧
      (compare a b = .concurrent ↔
        (∃ peer, b.counterOf peer < a.counterOf peer) ∧ ∃ peer,
          a.counterOf peer < b.counterOf peer)) ∧
    (((compare a b).notAhead → (compare b a).notAhead → compare a b = .equal) ∧
      ((compare a b).notAhead → (compare b c).notAhead → (compare a c).notAhead) ∧
      (compare a b = .before → compare b c = .before → compare a c = .before)) ∧
    ((a.peers ∪ b.peers).card ≤ maxVectorClockPeers →
      ((compare a (merge a b).1).notAhead ∧ (compare b (merge a b).1).notAhead ∧
        ∀ above, (compare a above).notAhead → (compare b above).notAhead →
          (compare (merge a b).1 above).notAhead) ∧
      compare (merge a b).1 (merge b a).1 = .equal) ∧
    (a.size ≤ maxVectorClockPeers → compare (merge a a).1 a = .equal) ∧
    ((a.peers ∪ b.peers ∪ c.peers).card ≤ maxVectorClockPeers →
      compare (merge (merge a b).1 c).1 (merge a (merge b c).1).1 = .equal) ∧
    ((∀ peer ∈ a, peer ∈ (merge a b).1 ∧ a.counterOf peer ≤ (merge a b).1.counterOf peer) ∧
      (a.size ≤ maxVectorClockPeers → (merge a b).1.size ≤ maxVectorClockPeers)) ∧
    ((tickInPlace a self).2 = false → (tickInPlace a self).1 = a) ∧
    ((tickInPlace a self).2 = true → compare (tickInPlace a self).1 a = .after) := by
  refine ⟨⟨?_, ?_, ?_, ?_⟩, ⟨compare_antisymm, compare_trans, compare_before_trans⟩,
    fun h => ⟨merge_isLeast h, merge_comm h⟩, merge_self, merge_assoc,
    ⟨fun peer hmem => ⟨mem_merge b hmem, le_merge a b peer⟩, size_merge_le a b⟩,
    (tickInPlace_spec a self).1, tickInPlace_after⟩
  · exact (compare_eq a b).1.trans funext_iff
  · exact (compare_eq a b).2.1.trans Pi.lt_def
  · exact (compare_eq a b).2.2.1.trans Pi.lt_def
  · rw [(compare_eq a b).2.2.2, Pi.le_def, Pi.le_def, not_forall, not_forall]
    simp only [not_le]

end Neoth.MeshSync.VectorClock
