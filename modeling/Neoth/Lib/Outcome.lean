import Neoth.Lib.Transaction

/-!
# Pre- and postconditions of fallible computations

`Ensures x P F`: if `x` succeeds its result satisfies `P`, and if it fails its error satisfies `F`:

* `Ensures.bind`: one computation after the other;
* `Ensures.foldlM`: a loop, by an invariant of what is left of the list;
* `Ensures.transact`, `Ensures.transact_error`: a transaction keeps an invariant that its body
  establishes, and fails with an error of its body.
-/

open Lib.Transaction

namespace Lib.Outcome

variable {S E A B : Type}

/-- The result satisfies `P`, the error satisfies `F`. -/
def Ensures (x : Except E A) (P : A → Prop) (F : E → Prop) : Prop :=
  match x with
  | .ok a => P a
  | .error e => F e

variable {x : Except E A} {P : A → Prop} {F : E → Prop}

theorem Ensures.of_ok (h : Ensures x P F) {a : A} (ha : x = .ok a) : P a := by
  rw [ha] at h
  exact h

theorem Ensures.of_error (h : Ensures x P F) {e : E} (he : x = .error e) : F e := by
  rw [he] at h
  exact h

theorem Ensures.mono {Q : A → Prop} {G : E → Prop} (h : Ensures x P F) (hpost : ∀ a, P a → Q a)
    (hfail : ∀ e, F e → G e) : Ensures x Q G := by
  cases x with
  | error e => exact hfail e h
  | ok a => exact hpost a h

theorem Ensures.bind {f : A → Except E B} {Q : B → Prop} (h : Ensures x P F)
    (hf : ∀ a, P a → Ensures (f a) Q F) : Ensures (x >>= f) Q F := by
  cases x with
  | error e => exact h
  | ok a => exact hf a h

theorem Ensures.map {f : A → B} {Q : B → Prop} (h : Ensures x (fun a => Q (f a)) F) :
    Ensures (x.map f) Q F := by
  cases x with
  | error e => exact h
  | ok a => exact h

theorem ensures_require {condition : Bool} {e : E} {P : Unit → Prop} (hok : condition = true → P ())
    (herror : condition = false → F e) : Ensures (require condition e) P F := by
  unfold require
  split
  · rename_i h
    exact hok h
  · rename_i h
    exact herror (Bool.not_eq_true _ ▸ h)

/-- A loop keeps an invariant that speaks of the elements still to come. -/
theorem Ensures.foldlM {I : List A → S → Prop} {f : S → A → Except E S}
    (step : ∀ a as s, I (a :: as) s → Ensures (f s a) (I as) F) {as : List A} {s : S} (h : I as s) :
    Ensures (as.foldlM f s) (I []) F := by
  induction as generalizing s with
  | nil => exact h
  | cons a as ih =>
    rw [List.foldlM_cons]
    exact (step a as s h).bind fun s' h' => ih h'

theorem Ensures.transact {I : S → Prop} {body : S → Except E (S × A)} {s : S} (hs : I s)
    (h : Ensures (body s) (fun r => I r.1) F) : I (transact body s).1 := by
  unfold Transaction.transact
  cases hbody : body s with
  | error e => exact hs
  | ok r => exact h.of_ok hbody

/-- A transaction fails with an error of its body. -/
theorem Ensures.transact_error {body : S → Except E (S × A)} {s : S} {Q : S × A → Prop} {e : E}
    (h : Ensures (body s) Q F) (he : (Transaction.transact body s).2 = .error e) : F e := by
  unfold Transaction.transact at he
  cases hbody : body s with
  | error e' =>
    rw [hbody] at he
    cases he
    exact h.of_error hbody
  | ok r =>
    rw [hbody] at he
    cases he

end Lib.Outcome
