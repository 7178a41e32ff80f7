import Neoth.Lib.Binary32
import Neoth.Wal.Codec
import Neoth.Wal.HybridClock

/-!
# The order of replay

`wal/hlc.rs`: the comparison by which decoded frames are put in order, and `cli/wal.rs`, which sorts
by it.

* `forall₂_of_sorted`: sorted lists of the same elements agree up to what the comparison takes for
  equal;
* **`replay_order`**: the comparison is a total preorder that refines the order of the clock, and
  what is sorted by it does not depend on the order in which it came.
-/

open Lib Std

namespace Neoth.Wal

/-! ## The comparison -/

/-- `Ord for Hlc`. -/
def Hlc.cmp (a b : Hlc) : Ordering :=
  (compare a.physicalNs b.physicalNs).then (compare a.logical b.logical)

/-- `Ord for Importance`: the order of the numbers, none of which is a NaN. -/
def Codec.Importance.cmp (a b : Codec.Importance) : Ordering :=
  compare (Binary32.value a.bits) (Binary32.value b.bits)

def compareEventHeadersForReplay (left right : Codec.EventHeaderV2) : Ordering :=
  (left.hlc.cmp right.hlc).then <|
  (compare left.nodeId right.nodeId).then <|
  (compare left.eventId right.eventId).then <|
  (compare left.payloadHash right.payloadHash).then <|
  (compare left.eventType right.eventType).then <|
  (compare left.eventSubtype right.eventSubtype).then <|
  (compare left.flags.bits right.flags.bits).then <|
  (compare left.generation right.generation).then <|
  (compare left.scope right.scope).then <|
  (compare left.category right.category).then <|
  (compare left.sessionId right.sessionId).then <|
  (left.importance.cmp right.importance).then <|
  (compare left.reservedLen right.reservedLen).then <|
  (compare left.payloadLen right.payloadLen).then <|
  compare left.totalLen right.totalLen

/-- `sort_by`, which leaves equal entries in their order. -/
def sortForReplay {A : Type} (header : A → Codec.EventHeaderV2) (entries : List A) : List A :=
  entries.mergeSort fun left right =>
    (compareEventHeadersForReplay (header left) (header right)).isLE

/-! ## The order of headers -/

attribute [local instance] lexOrd

/-- What is compared, the importance as the number it is. -/
def replayKey (h : Codec.EventHeaderV2) :=
  ((h.hlc.physicalNs, h.hlc.logical), h.nodeId, h.eventId, h.payloadHash, h.eventType,
    h.eventSubtype, h.flags.bits, h.generation, h.scope, h.category, h.sessionId,
    Binary32.value h.importance.bits, h.reservedLen, h.payloadLen, h.totalLen)

theorem compareEventHeadersForReplay_eq : compareEventHeadersForReplay = compareOn replayKey := rfl

instance transCmpReplay : TransCmp compareEventHeadersForReplay := by
  rw [compareEventHeadersForReplay_eq]
  unfold replayKey
  infer_instance

theorem replayKey_eq {a b : Codec.EventHeaderV2} (h : compareEventHeadersForReplay a b = .eq) :
    replayKey a = replayKey b := by
  rw [compareEventHeadersForReplay_eq] at h
  unfold compareOn replayKey at *
  exact Std.compare_eq_iff_eq.mp h

theorem compare_lt_of_hlc {a b : Codec.EventHeaderV2} (h : a.hlc < b.hlc) :
    compareEventHeadersForReplay a b = .lt := by
  have hhlc : a.hlc.cmp b.hlc = .lt := Ordering.then_eq_lt.mpr <| h.imp Std.compare_eq_lt.mpr
    fun hlogical =>
    ⟨Std.compare_eq_iff_eq.mpr hlogical.1, Std.compare_eq_lt.mpr hlogical.2⟩
  rw [compareEventHeadersForReplay, hhlc]
  rfl

/-! ## Sorted lists -/

/-- Sorted lists of the same elements agree up to what the comparison takes for equal. -/
theorem forall₂_of_sorted {A B : Type} {cmp : B → B → Ordering} [TransCmp cmp] (f : A → B)
    {l m : List A} (hperm : l.Perm m) (hl : l.Pairwise fun a b => (cmp (f a) (f b)).isLE = true)
    (hm : m.Pairwise fun a b => (cmp (f a) (f b)).isLE = true) :
    List.Forall₂ (fun a b => cmp (f a) (f b) = .eq) l m := by
  let same : Setoid B := ⟨fun a b => cmp a b = .eq, fun _ => ReflCmp.compare_self,
    OrientedCmp.eq_symm, TransCmp.eq_trans⟩
  let le : Quotient same → Quotient same → Prop :=
    Quotient.lift₂ (fun a b => (cmp a b).isLE = true) fun a b a' b' ha hb => by
      rw [TransCmp.congr_left ha, TransCmp.congr_right hb]
  have hanti : ∀ x y, le x y → le y x → x = y := by
    rintro ⟨a⟩ ⟨b⟩ hab hba
    exact Quotient.sound (OrientedCmp.isLE_antisymm hab hba)
  have hsame := List.Perm.eq_of_pairwise (fun x y _ _ => hanti x y) (List.pairwise_map.mpr hl)
    (List.pairwise_map.mpr hm) (hperm.map fun a => Quotient.mk same (f a))
  rw [← List.forall₂_eq_eq_eq, List.forall₂_map_left_iff, List.forall₂_map_right_iff] at hsame
  exact hsame.imp fun _ _ h => Quotient.exact h

theorem sorted_sortForReplay {A : Type} (header : A → Codec.EventHeaderV2) (entries : List A) :
    (sortForReplay header entries).Pairwise fun a b =>
      (compareEventHeadersForReplay (header a) (header b)).isLE = true := by
  refine List.pairwise_mergeSort (fun a b c => TransCmp.isLE_trans) (fun a b => ?_) entries
  have hswap : compareEventHeadersForReplay (header a) (header b) = _ := OrientedCmp.eq_swap
  rw [hswap]
  cases compareEventHeadersForReplay (header b) (header a) <;> decide

/-- **Replay order.**  The comparison is a total preorder that refines the order of the stamps; it
takes two headers for equal only if they agree in all that it compares; and entries sorted by it
stand in one order, whichever they came in, up to those it takes for equal. -/
theorem replay_order :
    (∀ a, compareEventHeadersForReplay a a = .eq) ∧
    (∀ a b, compareEventHeadersForReplay a b = (compareEventHeadersForReplay b a).swap) ∧
    (∀ a b c, (compareEventHeadersForReplay a b).isLE = true →
      (compareEventHeadersForReplay b c).isLE = true →
      (compareEventHeadersForReplay a c).isLE = true) ∧
    (∀ a b : Codec.EventHeaderV2, a.hlc < b.hlc → compareEventHeadersForReplay a b = .lt) ∧
    (∀ a b, compareEventHeadersForReplay a b = .eq → replayKey a = replayKey b) ∧
    ∀ (A : Type) (header : A → Codec.EventHeaderV2) (entries entries' : List A),
      entries.Perm entries' →
      List.Forall₂ (fun a b => compareEventHeadersForReplay (header a) (header b) = .eq)
        (sortForReplay header entries) (sortForReplay header entries') := by
  refine ⟨fun _ => ReflCmp.compare_self, fun _ _ => OrientedCmp.eq_swap,
    fun _ _ _ => TransCmp.isLE_trans, fun _ _ => compare_lt_of_hlc, fun _ _ => replayKey_eq,
    fun A header entries entries' hperm => ?_⟩
  have hsorted : (sortForReplay header entries).Perm (sortForReplay header entries') :=
    (List.mergeSort_perm _ _).trans (hperm.trans (List.mergeSort_perm _ _).symm)
  exact forall₂_of_sorted header hsorted (sorted_sortForReplay header entries)
    (sorted_sortForReplay header entries')

end Neoth.Wal
