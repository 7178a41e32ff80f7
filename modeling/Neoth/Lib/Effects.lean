import Mathlib

/-!
# Computations that change a state and may stop

A `Prog S E A` goes from a state to a result or an error, and what it has done before it stops stays
done.

`Meets P x Q F`: from a state that satisfies `P`, a result comes with a state that satisfies `Q`,
and an error with one that satisfies `F`:

* `Meets.bind`, `Meets.pure`, `Meets.throw`: one computation after the other;
* `Meets.get`, `Meets.modify`, `Meets.check`: the state is read, changed, and tested;
* `Meets.attempt`: an error that is handled;
* `Meets.given`: what the precondition says of no state;
* `Meets.forall_eq`: a computation that is known from each state on its own;
* `Keeps`: what holds before holds behind, whatever the outcome, with a rule for each construct.
-/

namespace Lib.Effects

def Prog (S E A : Type) : Type := S → Except E A × S

variable {S E A B : Type}

namespace Prog

/-- What comes after a result; an error ends the computation. -/
def andThen (x : Prog S E A) (f : A → Prog S E B) : Prog S E B := fun s =>
  match x s with
  | (.ok a, next) => f a next
  | (.error e, next) => (.error e, next)

instance monad : Monad (Prog S E) where
  pure a := fun s => (.ok a, s)
  bind := andThen

def throw (e : E) : Prog S E A := fun s => (.error e, s)
def get : Prog S E S := fun s => (.ok s, s)
def modify (f : S → S) : Prog S E Unit := fun s => (.ok (), f s)
def check (condition : Bool) (e : E) : Prog S E Unit := if condition then pure () else throw e

def when (x : Prog S E Unit) (condition : Bool) : Prog S E Unit := if condition then x else pure ()

/-- The outcome as a result. -/
def attempt (x : Prog S E A) : Prog S E (Except E A) := fun s => (.ok (x s).1, (x s).2)

variable {x y : Prog S E A} {f : A → Prog S E B} {s t next : S} {a : A} {e : E}

theorem bind_of_ok (h : x s = (.ok a, next)) : (x >>= f) s = f a next := by
  show andThen x f s = _
  rw [andThen, h]

theorem bind_of_error (h : x s = (.error e, next)) : (x >>= f) s = (.error e, next) := by
  show andThen x f s = _
  rw [andThen, h]

theorem bind_congr (h : x s = y t) : (x >>= f) s = (y >>= f) t := by
  show andThen x f s = andThen y f t
  rw [andThen, andThen, h]

end Prog

/-! ## Pre- and postconditions -/

/-- What holds of an outcome. -/
def After (Q : A → S → Prop) (F : E → S → Prop) : Except E A × S → Prop
  | (.ok a, s) => Q a s
  | (.error e, s) => F e s

def Meets (P : S → Prop) (x : Prog S E A) (Q : A → S → Prop) (F : E → S → Prop) : Prop :=
  ∀ s, P s → After Q F (x s)

variable {P P' : S → Prop} {x : Prog S E A} {Q Q' : A → S → Prop} {R : B → S → Prop}
  {F F' : E → S → Prop}

theorem After.mono {r : Except E A × S} (h : After Q F r) (hpost : ∀ a s, Q a s → Q' a s)
    (hfail : ∀ e s, F e s → F' e s) : After Q' F' r := by
  obtain ⟨result, s⟩ := r
  cases result with
  | error e => exact hfail e s h
  | ok a => exact hpost a s h

namespace Meets

theorem mono (h : Meets P x Q F) (hpre : ∀ s, P' s → P s) (hpost : ∀ a s, Q a s → Q' a s)
    (hfail : ∀ e s, F e s → F' e s) : Meets P' x Q' F' :=
  fun s hs => (h s (hpre s hs)).mono hpost hfail

theorem pre (h : Meets P x Q F) (hpre : ∀ s, P' s → P s) : Meets P' x Q F :=
  fun s hs => h s (hpre s hs)

theorem fails (h : Meets P x Q F) (hfail : ∀ e s, F e s → F' e s) : Meets P x Q F' :=
  h.mono (fun _ hs => hs) (fun _ _ hs => hs) hfail

theorem bind {f : A → Prog S E B} (h : Meets P x Q F) (hf : ∀ a, Meets (Q a) (f a) R F) :
    Meets P (x >>= f) R F := by
  intro s hs
  have hx := h s hs
  show After R F (Prog.andThen x f s)
  unfold Prog.andThen
  revert hx
  generalize x s = outcome
  intro hx
  obtain ⟨result, next⟩ := outcome
  cases result with
  | error e => exact hx
  | ok a => exact hf a next hx

theorem pure {a : A} (h : ∀ s, P s → Q a s) : Meets P (Pure.pure a) Q F := h

theorem throw {e : E} (h : ∀ s, P s → F e s) : Meets P (Prog.throw e : Prog S E A) Q F := h

theorem get : Meets P Prog.get (fun a s => a = s ∧ P s) F := fun _ hs => ⟨rfl, hs⟩

theorem modify {f : S → S} {Q : Unit → S → Prop} (h : ∀ s, P s → Q () (f s)) :
    Meets P (Prog.modify f) Q F := h

theorem check {condition : Bool} {e : E} {Q : Unit → S → Prop}
    (hok : condition = true → ∀ s, P s → Q () s)
    (herror : condition = false → ∀ s, P s → F e s) : Meets P (Prog.check condition e) Q F := by
  unfold Prog.check
  split
  · rename_i h
    exact hok h
  · rename_i h
    exact herror (Bool.not_eq_true _ ▸ h)

theorem attempt {Q : Except E A → S → Prop}
    (h : Meets P x (fun a s => Q (.ok a) s) (fun e s => Q (.error e) s)) :
    Meets P x.attempt Q F := by
  intro s hs
  have hx := h s hs
  show Q (x s).1 (x s).2
  revert hx
  generalize x s = outcome
  intro hx
  obtain ⟨result, next⟩ := outcome
  cases result with
  | error e => exact hx
  | ok a => exact hx

theorem ite {c : Prop} [Decidable c] {y : Prog S E A} (ht : c → Meets P x Q F)
    (hf : ¬ c → Meets P y Q F) : Meets P (if c then x else y) Q F := by
  split
  · rename_i h
    exact ht h
  · rename_i h
    exact hf h

theorem when {condition : Bool} {x : Prog S E Unit} {Q : Unit → S → Prop}
    (hx : condition = true → Meets P x Q F)
    (hskip : condition = false → ∀ s, P s → Q () s) : Meets P (Prog.when x condition) Q F := by
  unfold Prog.when
  split
  · rename_i h
    exact hx h
  · rename_i h
    exact hskip (Bool.not_eq_true _ ▸ h)

/-- A part of the precondition that is not about the state. -/
theorem given {p : Prop} (h : p → Meets P x Q F) : Meets (fun s => p ∧ P s) x Q F :=
  fun s hs => h hs.1 s hs.2

/-- A computation that is known from each state on its own. -/
theorem forall_eq (h : ∀ s, P s → Meets (· = s) x Q F) : Meets P x Q F := fun s hs => h s hs s rfl

end Meets

/-! ## Invariants -/

/-- What holds before the computation holds behind it, whatever the outcome. -/
def Keeps (P : S → Prop) (x : Prog S E A) : Prop := Meets P x (fun _ => P) (fun _ => P)

namespace Keeps

variable {f : A → Prog S E B} {condition : Bool} {e : E}

theorem bind (h : Keeps P x) (hf : ∀ a, Keeps P (f a)) : Keeps P (x >>= f) := Meets.bind h hf

theorem pure {a : A} : Keeps P (Pure.pure a : Prog S E A) := Meets.pure fun _ h => h

theorem throw : Keeps P (Prog.throw e : Prog S E A) := Meets.throw fun _ h => h

theorem get : Keeps P (Prog.get : Prog S E S) := fun _ h => h

theorem modify {g : S → S} (h : ∀ s, P s → P (g s)) : Keeps P (Prog.modify g : Prog S E Unit) := h

theorem check : Keeps P (Prog.check condition e) :=
  Meets.check (fun _ _ h => h) fun _ _ h => h

theorem attempt (h : Keeps P x) : Keeps P x.attempt := Meets.attempt h

theorem ite {c : Prop} [Decidable c] {y : Prog S E A} (hx : Keeps P x) (hy : Keeps P y) :
    Keeps P (if c then x else y) := Meets.ite (fun _ => hx) fun _ => hy

theorem when {x : Prog S E Unit} (h : Keeps P x) : Keeps P (Prog.when x condition) :=
  Meets.when (fun _ => h) fun _ _ hs => hs

end Keeps

end Lib.Effects
