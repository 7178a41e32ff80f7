import Neoth.Lib.Transaction
import Neoth.MeshSync.Gossip

/-!
# The durable vector frontier

The rows of `mesh_sync_vector_frontier` of one membership incarnation, with the checks
`cluster/durable_sync.rs` makes when it loads, merges and writes them.  Counters are
SQLite integers, so a row that is written is below `2 ^ 63`.

* `persistVectorFrontier_eq_ok_iff`: a written frontier is bounded and valid;
* `mergeVectorFrontier_spec`: a merge only raises counters, and admits no identity but
  the authenticated origin;
* `mergeVectorFrontier_ok`: when it succeeds.
-/

open Std Lib.Transaction Lib.TreeMap

namespace Neoth.MeshSync

/-- What every row says: a named peer and a positive SQLite integer. -/
def VectorClock.Valid (clock : VectorClock) : Prop :=
  ∀ (peer : PeerPubkey) (n : Nat), clock[peer]? = some n → peer ≠ "" ∧ 0 < n ∧ n < 2 ^ 63

/-- `load_vector_frontier_for`. -/
def loadVectorFrontier (stored : VectorClock) : Except String VectorClock := do
  require (stored.toList.all fun slot => slot.1 != "")
    "durable vector frontier contains an empty peer id"
  require (decide (stored.size ≤ maxVectorClockPeers))
    "durable vector frontier exceeds the bounded peer limit"
  require (stored.toList.all fun slot => decide (0 < slot.2))
    "corrupt durable mesh value: durable vector frontier counter"
  pure stored

/-- `persist_vector_frontier_for`. -/
def persistVectorFrontier (frontier : VectorClock) : Except String VectorClock := do
  require (decide (frontier.size ≤ maxVectorClockPeers))
    "durable vector frontier exceeds the bounded peer limit"
  require (frontier.toList.all fun slot => slot.1 != "") "vector frontier peer id is empty"
  require (frontier.toList.all fun slot => decide (0 < slot.2))
    "vector frontier counter must be positive"
  require (frontier.toList.all fun slot => decide (slot.2 < 2 ^ 63))
    "out of range integral type conversion attempted"
  pure frontier

/-- A slot of a third party may advance an identity that is known, and no other. -/
def raiseSlot (authenticatedOrigin : PeerPubkey) (frontier : VectorClock)
    (slot : PeerPubkey × Nat) : VectorClock :=
  if slot.1 = authenticatedOrigin then frontier
  else match frontier[slot.1]? with
    | none => frontier
    | some counter => frontier.insert slot.1 (max counter slot.2)

/-- `merge_vector_frontier_for`. -/
def mergeVectorFrontier (stored : VectorClock) (authenticatedOrigin : PeerPubkey)
    (incoming : VectorClock) : Except String VectorClock := do
  require (decide (incoming.size ≤ maxVectorClockPeers))
    "inbound mesh vector clock exceeds the bounded peer limit"
  require (incoming.toList.all fun slot => slot.1 != "" && decide (0 < slot.2))
    "inbound mesh vector clock contains an invalid slot"
  let frontier ← loadVectorFrontier stored
  let originCounter := incoming.counterOf authenticatedOrigin
  require (decide (0 < originCounter))
    "inbound mesh vector clock is missing its authenticated origin"
  require (frontier.contains authenticatedOrigin || decide (frontier.size < maxVectorClockPeers))
    s!"durable vector frontier is full; cannot admit authenticated origin {authenticatedOrigin}"
  let frontier := frontier.insert authenticatedOrigin
    (max (frontier.counterOf authenticatedOrigin) originCounter)
  persistVectorFrontier (incoming.toList.foldl (raiseSlot authenticatedOrigin) frontier)

/-! ## Loading and writing -/

theorem all_toList_iff {clock : VectorClock} {p : PeerPubkey × Nat → Bool} :
    clock.toList.all p = true ↔
      ∀ (peer : PeerPubkey) (n : Nat), clock[peer]? = some n → p (peer, n) = true := by
  rw [List.all_eq_true]
  constructor
  · intro h peer n hn
    exact h (peer, n) (ExtTreeMap.mem_toList_iff_getElem?_eq_some.mpr hn)
  · rintro h ⟨peer, n⟩ hn
    exact h peer n (ExtTreeMap.mem_toList_iff_getElem?_eq_some.mp hn)

theorem loadVectorFrontier_eq_ok {stored loaded : VectorClock}
    (h : loadVectorFrontier stored = .ok loaded) :
    loaded = stored ∧ stored.size ≤ maxVectorClockPeers := by
  unfold loadVectorFrontier at h
  simp only [bind_eq_ok_iff, require_eq_ok_iff] at h
  obtain ⟨-, -, -, hsize, -, -, h⟩ := h
  cases h
  exact ⟨rfl, of_decide_eq_true hsize⟩

theorem loadVectorFrontier_of_valid {stored : VectorClock} (h : stored.Valid)
    (hsize : stored.size ≤ maxVectorClockPeers) : loadVectorFrontier stored = .ok stored := by
  unfold loadVectorFrontier
  simp only [bind_eq_ok_iff, require_eq_ok_iff, all_toList_iff, bne_iff_ne, ne_eq,
    decide_eq_true_eq]
  exact ⟨(), fun peer n hn => (h peer n hn).1, (), hsize, (), fun peer n hn => (h peer n hn).2.1,
    rfl⟩

theorem persistVectorFrontier_eq_ok_iff {frontier written : VectorClock} :
    persistVectorFrontier frontier = .ok written ↔
      written = frontier ∧ frontier.size ≤ maxVectorClockPeers ∧ frontier.Valid := by
  unfold persistVectorFrontier
  simp only [bind_eq_ok_iff, require_eq_ok_iff, all_toList_iff, bne_iff_ne, ne_eq,
    decide_eq_true_eq]
  constructor
  · rintro ⟨-, hsize, -, hname, -, hpos, -, hbound, h⟩
    cases h
    exact ⟨rfl, hsize, fun peer n hn => ⟨hname peer n hn, hpos peer n hn, hbound peer n hn⟩⟩
  · rintro ⟨rfl, hsize, h⟩
    exact ⟨(), hsize, (), fun peer n hn => (h peer n hn).1, (), fun peer n hn => (h peer n hn).2.1,
      (), fun peer n hn => (h peer n hn).2.2, rfl⟩

/-! ## Merging -/

theorem VectorClock.Valid.insert {clock : VectorClock} (h : clock.Valid) {peer : PeerPubkey}
    {n : Nat} (hpeer : peer ≠ "") (hpos : 0 < n) (hbound : n < 2 ^ 63) :
    VectorClock.Valid (clock.insert peer n) := by
  intro other m hm
  by_cases e : peer = other
  · subst e
    rw [ExtTreeMap.getElem?_insert_self] at hm
    cases hm
    exact ⟨hpeer, hpos, hbound⟩
  · rw [getElem?_insert_of_ne n e] at hm
    exact h other m hm

theorem VectorClock.getElem?_of_counterOf_pos {clock : VectorClock} {peer : PeerPubkey}
    (h : 0 < clock.counterOf peer) : clock[peer]? = some (clock.counterOf peer) := by
  unfold counterOf at h ⊢
  cases hn : clock[peer]? with
  | none =>
    rw [hn] at h
    exact absurd h (Nat.lt_irrefl 0)
  | some n => rfl

theorem counterOf_le_insert_max (clock : VectorClock) (peer other : PeerPubkey) (n : Nat) :
    clock.counterOf other ≤ VectorClock.counterOf (clock.insert peer (max (clock.counterOf peer) n))
      other := by
  by_cases e : peer = other
  · subst e
    rw [VectorClock.counterOf_insert_self]
    exact Nat.le_max_left _ _
  · rw [VectorClock.counterOf_insert_of_ne _ _ e]

/-- Raising slots keeps the identities, and every counter or more. -/
theorem foldl_raiseSlot_spec (origin : PeerPubkey) (slots : List (PeerPubkey × Nat))
    (frontier : VectorClock) :
    let raised := slots.foldl (raiseSlot origin) frontier
    raised.size = frontier.size ∧
      (∀ peer, peer ∈ raised ↔ peer ∈ frontier) ∧
      (∀ peer, frontier.counterOf peer ≤ raised.counterOf peer) ∧
      (frontier.Valid → (∀ slot ∈ slots, slot.2 < 2 ^ 63) → raised.Valid) := by
  induction slots generalizing frontier with
  | nil => exact ⟨rfl, fun _ => Iff.rfl, fun _ => Nat.le_refl _, fun h _ => h⟩
  | cons slot slots ih =>
    obtain ⟨hsize, hkeys, hle, hvalid⟩ := ih (raiseSlot origin frontier slot)
    have hstep : (raiseSlot origin frontier slot).size = frontier.size ∧
        (∀ peer, peer ∈ raiseSlot origin frontier slot ↔ peer ∈ frontier) ∧
        (∀ peer, frontier.counterOf peer ≤ (raiseSlot origin frontier slot).counterOf peer) ∧
        (frontier.Valid → slot.2 < 2 ^ 63 → (raiseSlot origin frontier slot).Valid) := by
      unfold raiseSlot
      split
      · exact ⟨rfl, fun _ => Iff.rfl, fun _ => Nat.le_refl _, fun h _ => h⟩
      · cases hget : frontier[slot.1]? with
        | none => exact ⟨rfl, fun _ => Iff.rfl, fun _ => Nat.le_refl _, fun h _ => h⟩
        | some counter =>
          have hmem : slot.1 ∈ frontier := mem_of_getElem? hget
          have hcounter := VectorClock.counterOf_of_getElem? hget
          refine ⟨?_, ?_, ?_, ?_⟩
          · rw [ExtTreeMap.size_insert, if_pos (ExtTreeMap.mem_iff_contains.mp hmem)]
          · intro peer
            rw [ExtTreeMap.mem_insert]
            constructor
            · rintro (e | h)
              · rw [← LawfulEqOrd.eq_of_compare e]
                exact hmem
              · exact h
            · exact .inr
          · intro peer
            rw [← hcounter]
            exact counterOf_le_insert_max frontier slot.1 peer slot.2
          · intro h hslot
            obtain ⟨hname, hpos, hbound⟩ := h slot.1 counter hget
            exact h.insert hname (by omega) (by omega)
    rw [List.foldl_cons]
    refine ⟨hsize.trans hstep.1, fun peer => (hkeys peer).trans (hstep.2.1 peer),
      fun peer => (hstep.2.2.1 peer).trans (hle peer), ?_⟩
    intro h hslots
    exact hvalid (hstep.2.2.2 h (hslots slot (List.mem_cons_self ..)))
      (fun s hs => hslots s (List.mem_cons_of_mem _ hs))

theorem mergeVectorFrontier_spec {stored incoming merged : VectorClock} {origin : PeerPubkey}
    (h : mergeVectorFrontier stored origin incoming = .ok merged) :
    (∀ peer, stored.counterOf peer ≤ merged.counterOf peer) ∧
      (∀ peer, peer ∈ merged ↔ peer = origin ∨ peer ∈ stored) ∧ merged.Valid ∧
      merged.size ≤ maxVectorClockPeers := by
  unfold mergeVectorFrontier at h
  simp only [bind_eq_ok_iff, require_eq_ok_iff] at h
  obtain ⟨-, -, -, -, loaded, hload, -, -, -, -, h⟩ := h
  obtain ⟨rfl, -⟩ := loadVectorFrontier_eq_ok hload
  obtain ⟨rfl, hsize, hvalid⟩ := persistVectorFrontier_eq_ok_iff.mp h
  obtain ⟨-, hkeys, hle, -⟩ := foldl_raiseSlot_spec origin incoming.toList
    (loaded.insert origin (max (loaded.counterOf origin) (incoming.counterOf origin)))
  refine ⟨?_, ?_, hvalid, hsize⟩
  · intro peer
    exact (counterOf_le_insert_max loaded origin peer _).trans (hle peer)
  · intro peer
    rw [hkeys, ExtTreeMap.mem_insert, Std.compare_eq_iff_eq, eq_comm]

theorem mergeVectorFrontier_ok {stored incoming : VectorClock} {origin : PeerPubkey}
    (hstored : stored.Valid) (hincoming : incoming.Valid)
    (hsize : incoming.size ≤ maxVectorClockPeers) (horigin : 0 < incoming.counterOf origin)
    (hroom : stored.size < maxVectorClockPeers) :
    ∃ merged, mergeVectorFrontier stored origin incoming = .ok merged := by
  obtain ⟨hname, hpos, hbound⟩ :=
    hincoming origin _ (VectorClock.getElem?_of_counterOf_pos horigin)
  have hcounter : stored.counterOf origin < 2 ^ 63 := by
    rcases Nat.eq_zero_or_pos (stored.counterOf origin) with hzero | hp
    · rw [hzero]
      decide
    · exact (hstored origin _ (VectorClock.getElem?_of_counterOf_pos hp)).2.2
  obtain ⟨hsize', -, -, hvalid⟩ := foldl_raiseSlot_spec origin incoming.toList
    (stored.insert origin (max (stored.counterOf origin) (incoming.counterOf origin)))
  have hslots : ∀ slot ∈ incoming.toList, slot.2 < 2 ^ 63 := by
    rintro ⟨peer, n⟩ hslot
    exact (hincoming peer n (ExtTreeMap.mem_toList_iff_getElem?_eq_some.mp hslot)).2.2
  have hinsert : (stored.insert origin
      (max (stored.counterOf origin) (incoming.counterOf origin))).size ≤ maxVectorClockPeers :=
    ExtTreeMap.size_insert_le.trans hroom
  refine ⟨incoming.toList.foldl (raiseSlot origin)
    (stored.insert origin (max (stored.counterOf origin) (incoming.counterOf origin))), ?_⟩
  unfold mergeVectorFrontier
  simp only [bind_eq_ok_iff, require_eq_ok_iff]
  refine ⟨(), decide_eq_true hsize, (), ?_, stored, loadVectorFrontier_of_valid hstored hroom.le,
    (), decide_eq_true horigin, (), ?_, persistVectorFrontier_eq_ok_iff.mpr ⟨rfl, ?_, ?_⟩⟩
  · rw [all_toList_iff]
    intro peer n hn
    obtain ⟨hpeer, hn', -⟩ := hincoming peer n hn
    simp [hpeer, hn']
  · simp [hroom]
  · rw [hsize']
    exact hinsert
  · exact hvalid (hstored.insert hname (by omega) (by omega)) hslots

end Neoth.MeshSync
