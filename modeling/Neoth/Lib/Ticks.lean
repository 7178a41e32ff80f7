import Mathlib

/-!
# Ticks at a fixed interval

The integers `anchor + k * every` for `k ≥ 0`, in exact arithmetic, and a loop that goes from one to
the next.

* `isLeast_nextTick`, `isGreatest_lastTick`: the neighbours of a point among the ticks;
* `saturate`: what a bounded integer makes of the sums;
* `Halts`: a loop comes to an end; `halts_of_grows` if it makes progress up to a bound, and
  `not_halts_of_isSome`.
-/

namespace Lib.Ticks

/-! ## Ticks -/

def IsTick (anchor every t : Int) : Prop := ∃ k : Nat, t = anchor + k * every

/-- The number of steps from the anchor to the first tick after `t`. -/
def stepsAfter (anchor every t : Int) : Int := if t < anchor then 0 else (t - anchor) / every + 1

def nextTick (anchor every t : Int) : Int := anchor + stepsAfter anchor every t * every

def lastTick (anchor every t : Int) : Int := anchor + (t - anchor) / every * every

variable {anchor every t : Int}

theorem stepsAfter_nonneg (hevery : 0 < every) : 0 ≤ stepsAfter anchor every t := by
  unfold stepsAfter
  split
  · exact le_rfl
  · rename_i h
    have hquot := Int.ediv_nonneg (show 0 ≤ t - anchor by omega) hevery.le
    omega

theorem isTick_of_nonneg {k : Int} (hk : 0 ≤ k) : IsTick anchor every (anchor + k * every) :=
  ⟨k.toNat, by rw [Int.toNat_of_nonneg hk]⟩

/-- The quotient is between the points it is rounded from. -/
theorem ediv_mul_bounds (hevery : 0 < every) (d : Int) :
    d / every * every ≤ d ∧ d < (d / every + 1) * every :=
  ⟨Int.ediv_mul_le d hevery.ne', Int.lt_ediv_add_one_mul_self d hevery⟩

theorem isLeast_nextTick (anchor t : Int) (hevery : 0 < every) :
    IsLeast {u | IsTick anchor every u ∧ t < u} (nextTick anchor every t) := by
  refine ⟨⟨isTick_of_nonneg (stepsAfter_nonneg hevery), ?_⟩, ?_⟩
  · unfold nextTick stepsAfter
    split
    · omega
    · have hbounds := (ediv_mul_bounds hevery (t - anchor)).2
      omega
  · rintro u ⟨⟨k, rfl⟩, hlt⟩
    unfold nextTick stepsAfter
    split
    · have hk : 0 ≤ (k : Int) * every := Int.mul_nonneg (Int.natCast_nonneg k) hevery.le
      omega
    · have hquot : (t - anchor) / every < k := Int.ediv_lt_of_lt_mul hevery (by omega)
      have hmul := Int.mul_le_mul_of_nonneg_right (Int.add_one_le_of_lt hquot) hevery.le
      omega

theorem isGreatest_lastTick (hevery : 0 < every) (ht : anchor ≤ t) :
    IsGreatest {u | IsTick anchor every u ∧ u ≤ t} (lastTick anchor every t) := by
  refine ⟨⟨isTick_of_nonneg (Int.ediv_nonneg (by omega) hevery.le), ?_⟩, ?_⟩
  · have hbounds := (ediv_mul_bounds hevery (t - anchor)).1
    unfold lastTick
    omega
  · rintro u ⟨⟨k, rfl⟩, hle⟩
    have hquot : (k : Int) ≤ (t - anchor) / every := (Int.le_ediv_iff_mul_le hevery).mpr (by omega)
    have hmul := Int.mul_le_mul_of_nonneg_right hquot hevery.le
    unfold lastTick
    omega

/-- Before the anchor there is no tick. -/
theorem anchor_le_of_isTick (hevery : 0 < every) (h : IsTick anchor every t) : anchor ≤ t := by
  obtain ⟨k, rfl⟩ := h
  have hk : 0 ≤ (k : Int) * every := Int.mul_nonneg (Int.natCast_nonneg k) hevery.le
  omega

/-! ## Saturation -/

/-- `x`, or the bound that it is beyond. -/
def saturate (low high x : Int) : Int := max low (min high x)

theorem saturate_eq_self {low high x : Int} (hlow : low ≤ x) (hhigh : x ≤ high) :
    saturate low high x = x := by
  rw [saturate, min_eq_right hhigh, max_eq_right hlow]

theorem saturate_of_high_le {low high x : Int} (h : low ≤ high) (hx : high ≤ x) :
    saturate low high x = high := by
  rw [saturate, min_eq_left hx, max_eq_right h]

theorem saturate_of_le_low {low high x : Int} (hx : x ≤ low) : saturate low high x = low := by
  rw [saturate, max_eq_left ((min_le_right _ _).trans hx)]

/-! ## Loops -/

variable {T : Type} {go : T → Option T}

/-- The loop that goes where `go` says comes to an end. -/
def Halts (go : T → Option T) (t : T) : Prop := Acc (fun u v => go v = some u) t

theorem halts_of_none {t : T} (h : go t = none) : Halts go t := by
  constructor
  intro u hu
  simp [h] at hu

theorem halts_iff_of_some {t u : T} (h : go t = some u) : Halts go t ↔ Halts go u := by
  constructor
  · intro ht
    exact ht.inv h
  · intro hu
    constructor
    intro v hv
    obtain rfl := Option.some.inj (h.symm.trans hv)
    exact hu

/-- Progress up to a bound. -/
theorem halts_of_grows (value : T → Int) (bound : Int)
    (hgrows : ∀ t u, go t = some u → value t < value u ∧ value u ≤ bound) (t : T) : Halts go t := by
  have hwf := (measure fun t => (bound - value t).toNat).wf
  refine Subrelation.accessible ?_ (hwf.apply t)
  intro u v hv
  obtain ⟨hlt, hle⟩ := hgrows v u hv
  show (bound - value u).toNat < (bound - value v).toNat
  omega

/-- A loop that stops earlier. -/
theorem Halts.mono {go' : T → Option T} {t : T} (h : Halts go t)
    (hgo : ∀ t u, go' t = some u → go t = some u) : Halts go' t :=
  Subrelation.accessible (fun {u v} hv => hgo v u hv) h

theorem not_halts_of_isSome (h : ∀ t, (go t).isSome) (t : T) : ¬ Halts go t := by
  intro ht
  induction ht with
  | intro t _ ih =>
    obtain ⟨u, hu⟩ := Option.isSome_iff_exists.mp (h t)
    exact ih u hu

/-! ## Fuel -/

section
variable {A B : Type} {f : Nat → A → Option B}

theorem mapM_mono (hmono : ∀ a fuel fuel' b, fuel ≤ fuel' → f fuel a = some b → f fuel' a = some b)
    {fuel fuel' : Nat}
    (hle : fuel ≤ fuel') {as : List A} {bs : List B} (h : as.mapM (f fuel) = some bs) :
    as.mapM (f fuel') = some bs := by
  induction as generalizing bs with
  | nil => exact h
  | cons a as ih =>
    rw [List.mapM_cons] at h ⊢
    obtain ⟨b, hb, h⟩ := Option.bind_eq_some_iff.mp h
    obtain ⟨rest, hrest, h⟩ := Option.bind_eq_some_iff.mp h
    refine Option.bind_eq_some_iff.mpr ⟨b, hmono a fuel fuel' b hle hb, ?_⟩
    exact Option.bind_eq_some_iff.mpr ⟨rest, ih hrest, h⟩

/-- Loops one after the other have enough fuel together if each has enough. -/
theorem exists_mapM_iff (hmono : ∀ a fuel fuel' b, fuel ≤ fuel' → f fuel a = some b →
    f fuel' a = some b)
    (as : List A) : (∃ fuel bs, as.mapM (f fuel) = some bs) ↔ ∀ a ∈ as, ∃ fuel b,
      f fuel a = some b := by
  induction as with
  | nil => simp
  | cons a as ih =>
    rw [List.forall_mem_cons, ← ih]
    constructor
    · rintro ⟨fuel, bs, h⟩
      rw [List.mapM_cons] at h
      obtain ⟨b, hb, h⟩ := Option.bind_eq_some_iff.mp h
      obtain ⟨rest, hrest, -⟩ := Option.bind_eq_some_iff.mp h
      exact ⟨⟨fuel, b, hb⟩, fuel, rest, hrest⟩
    · rintro ⟨⟨fuel, b, hb⟩, fuel', rest, hrest⟩
      refine ⟨max fuel fuel', b :: rest, ?_⟩
      rw [List.mapM_cons, hmono a fuel _ b (le_max_left _ _) hb, Option.bind_eq_bind,
        Option.bind_some, mapM_mono hmono (le_max_right _ _) hrest]
      rfl

end

end Lib.Ticks
