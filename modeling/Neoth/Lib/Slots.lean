import Mathlib

/-!
# Buffers of slots

A buffer that is written in place, and that holds records of one size one after the other.

* `writeAt`, `copyWithin`: `copy_from_slice` and `copy_within`;
* `insert_slot`: what is behind a slot moves up, and the slot is written;
* `slotAt_flatten`, `flatten_slots`: the slots of what was laid end to end, and back.
-/

namespace Lib.Slots

variable {A : Type}

/-- The buffer with `data` at `start`. -/
def writeAt (buffer : List A) (start : Nat) (data : List A) : List A :=
  buffer.take start ++ (data ++ buffer.drop (start + data.length))

/-- What is between `start` and `stop`, moved to `dest`. -/
def copyWithin (buffer : List A) (start stop dest : Nat) : List A :=
  writeAt buffer dest ((buffer.drop start).take (stop - start))

theorem length_writeAt {buffer data : List A} {start : Nat}
    (h : start + data.length ≤ buffer.length) :
    (writeAt buffer start data).length = buffer.length := by
  simp only [writeAt, List.length_append, List.length_take, List.length_drop]
  omega

theorem writeAt_append {front old back data : List A} (h : old.length = data.length) :
    writeAt (front ++ (old ++ back)) front.length data = front ++ (data ++ back) := by
  have hback : (front ++ (old ++ back)).drop (front.length + data.length) = back := by
    rw [← List.append_assoc, List.drop_left' (by rw [List.length_append, h])]
  rw [writeAt, List.take_left' rfl, hback]

/-- Room is made for a slot, at the cost of the free end. -/
theorem insert_slot {front back free slot : List A} (h : slot.length ≤ free.length) :
    writeAt (copyWithin (front ++ (back ++ free)) front.length (front.length + back.length)
      (front.length + slot.length)) front.length slot = front ++ (slot ++
        (back ++ free.drop slot.length)) := by
  have hmoved : ((front ++ (back ++ free)).drop front.length).take
      (front.length + back.length - front.length) = back := by
    rw [List.drop_left' rfl, Nat.add_sub_cancel_left, List.take_left' rfl]
  -- the buffer again, cut where the moved part comes to stand
  have hlen : ((back ++ free).take slot.length).length = slot.length := by
    rw [List.length_take, List.length_append]
    omega
  have hcut : front ++ (back ++ free) = (front ++ (back ++ free).take slot.length) ++
      (((back ++ free).drop slot.length).take back.length ++ free.drop slot.length) := by
    have hrest : ((back ++ free).drop slot.length).drop back.length = free.drop slot.length := by
      rw [List.drop_drop, Nat.add_comm, ← List.drop_drop, List.drop_left' rfl]
    rw [List.append_assoc, ← hrest, List.take_append_drop, List.take_append_drop]
  have hold : (((back ++ free).drop slot.length).take back.length).length = back.length := by
    rw [List.length_take, List.length_drop, List.length_append]
    omega
  have hstart : front.length + slot.length = (front ++ (back ++ free).take slot.length).length := by
    rw [List.length_append, hlen]
  rw [copyWithin, hmoved, hcut, hstart, writeAt_append hold, List.append_assoc, writeAt_append hlen]

theorem insertIdx_append (front back : List A) (a : A) :
    (front ++ back).insertIdx front.length a = front ++ a :: back := by
  induction front with
  | nil => simp
  | cons b front ih =>
    rw [List.cons_append, List.length_cons, List.insertIdx_succ_cons, ih, List.cons_append]

/-! ## Slots of one size -/

def slotAt (size : Nat) (buffer : List A) (i : Nat) : List A := (buffer.drop (i * size)).take size

theorem length_flatten {size : Nat} {records : List (List A)} (h : ∀ r ∈ records, r.length = size) :
    records.flatten.length = records.length * size := by
  induction records with
  | nil => simp
  | cons r records ih =>
    obtain ⟨hr, hrest⟩ := List.forall_mem_cons.mp h
    rw [List.flatten_cons, List.length_append, ih hrest, hr, List.length_cons, Nat.succ_mul,
      Nat.add_comm]

theorem slotAt_flatten {size : Nat} {records : List (List A)} (h : ∀ r ∈ records, r.length = size)
    {i : Nat}
    {r : List A} (hi : records[i]? = some r) (more : List A) :
      slotAt size (records.flatten ++ more) i = r := by
  induction records generalizing i with
  | nil => simp at hi
  | cons first records ih =>
    obtain ⟨hfirst, hrest⟩ := List.forall_mem_cons.mp h
    cases i with
    | zero =>
      obtain rfl : first = r := by simpa using hi
      rw [slotAt, Nat.zero_mul, List.drop_zero, List.flatten_cons, List.append_assoc,
        List.take_left' hfirst]
    | succ i =>
      rw [← ih hrest (by simpa using hi), slotAt, slotAt, List.flatten_cons, List.append_assoc,
        Nat.succ_mul, Nat.add_comm, ← List.drop_drop, List.drop_left' hfirst]

theorem slotAt_append_right {size n : Nat} {front back : List A} (h : front.length = n * size)
    {i : Nat} (hi : n ≤ i) : slotAt size (front ++ back) i = slotAt size back (i - n) := by
  have hstart : i * size = front.length + (i - n) * size := by
    rw [h, ← Nat.add_mul, Nat.add_sub_cancel' hi]
  rw [slotAt, slotAt, hstart, ← List.drop_drop, List.drop_left' rfl]

theorem flatten_slots {size n : Nat} {buffer : List A} (h : buffer.length = n * size) :
    ((List.range n).map (slotAt size buffer)).flatten = buffer := by
  induction n generalizing buffer with
  | zero =>
    rw [Nat.zero_mul, List.length_eq_zero_iff] at h
    simp [h]
  | succ n ih =>
    have hrest : (buffer.drop size).length = n * size := by
      rw [List.length_drop, h, Nat.succ_mul, Nat.add_sub_cancel]
    have hslots : (List.range n).map (slotAt size buffer ∘ Nat.succ) =
        (List.range n).map (slotAt size (buffer.drop size)) := by
      refine List.map_congr_left fun i _ => ?_
      simp only [Function.comp, slotAt, List.drop_drop]
      rw [Nat.succ_mul, Nat.add_comm]
    rw [List.range_succ_eq_map, List.map_cons, List.map_map, List.flatten_cons, hslots, ih hrest]
    simp [slotAt]

end Lib.Slots
