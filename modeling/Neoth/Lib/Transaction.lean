import Mathlib

/-!
# Transactions

A transaction runs a fallible body against the stored state and commits what the
body leaves, or, if the body fails anywhere, keeps what was stored:

* `bind_eq_ok_iff`, `map_eq_ok`, `map_eq_error`, `require_eq_ok_iff`, `ite_eq_ok_iff`,
  `context_eq_ok_iff`: how a body that succeeds is taken apart, `mapM_eq_ok_iff`: a loop in it;
  `exists_ok_of_any`: how one that is run is;
* `transact_of_ok`, `transact_of_error`: commit and rollback.
-/

namespace Lib.Transaction

variable {S E A B : Type}

theorem bind_eq_ok_iff {x : Except E A} {f : A → Except E B} {b : B} :
    (x >>= f) = .ok b ↔ ∃ a, x = .ok a ∧ f a = .ok b := by
  constructor
  · intro h
    cases x with
    | error e => cases h
    | ok a => exact ⟨a, rfl, h⟩
  · rintro ⟨a, rfl, h⟩
    exact h

theorem map_eq_ok {x : Except E A} {f : A → B} {b : B} (h : x.map f = .ok b) :
    ∃ a, x = .ok a ∧ f a = b := by
  cases x with
  | error e => cases h
  | ok a => exact ⟨a, rfl, Except.ok.inj h⟩

theorem map_eq_error {x : Except E A} {f : A → B} {e : E} (h : x.map f = .error e) :
    x = .error e := by
  cases x with
  | error e' => exact congrArg _ (Except.error.inj h)
  | ok a => cases h

/-- A result of which a check holds, found by running the body. -/
theorem exists_ok_of_any {x : Except E A} {p : A → Bool} (h : x.toOption.any p = true) :
    ∃ a, x = .ok a ∧ p a = true := by
  cases x with
  | error e => cases h
  | ok a => exact ⟨a, rfl, h⟩

/-- Fail with `error` unless `condition` holds (`if !condition { bail!(..) }`). -/
def require (condition : Bool) (error : E) : Except E Unit :=
  if condition then .ok () else .error error

@[simp] theorem require_eq_ok_iff {condition : Bool} {error : E} {u : Unit} :
    require condition error = .ok u ↔ condition = true := by
  unfold require
  split <;> simp_all

theorem ite_eq_ok_iff {c : Prop} [Decidable c] {a b : A} {e : E} :
    (if c then .ok a else .error e : Except E A) = .ok b ↔ b = a ∧ c := by
  split
  · rename_i h
    exact ⟨fun heq => ⟨(Except.ok.inj heq).symm, h⟩, fun heq => congrArg _ heq.1.symm⟩
  · rename_i h
    constructor
    · intro heq
      cases heq
    · intro heq
      exact absurd heq.2 h

/-- A loop whose body accepts exactly the elements that satisfy `p`, with the result `g`. -/
theorem mapM_eq_ok_iff {f : A → Except E B} {p : A → Prop} {g : A → B}
    (hf : ∀ a b, f a = .ok b ↔ p a ∧ b = g a) {as : List A} {bs : List B} :
    as.mapM f = .ok bs ↔ (∀ a ∈ as, p a) ∧ bs = as.map g := by
  induction as generalizing bs with
  | nil => simp [pure, Except.pure, eq_comm]
  | cons a as ih =>
    simp only [List.mapM_cons, bind_eq_ok_iff, hf, ih, List.forall_mem_cons, List.map_cons]
    constructor
    · rintro ⟨_, ⟨ha, rfl⟩, _, ⟨has, rfl⟩, h⟩
      cases h
      exact ⟨⟨ha, has⟩, rfl⟩
    · rintro ⟨⟨ha, has⟩, rfl⟩
      exact ⟨_, ⟨ha, rfl⟩, _, ⟨has, rfl⟩, rfl⟩

/-- The value, or `error` when there is none (`.context(..)?`). -/
def context (value : Option A) (error : E) : Except E A :=
  match value with
  | none => .error error
  | some a => .ok a

@[simp] theorem context_eq_ok_iff {value : Option A} {error : E} {a : A} :
    context value error = .ok a ↔ value = some a := by
  cases value <;> simp [context]

/-- Commit on success, roll back on failure. -/
def transact (body : S → Except E (S × A)) (s : S) : S × Except E A :=
  match body s with
  | .ok (next, a) => (next, .ok a)
  | .error e => (s, .error e)

theorem transact_of_ok {body : S → Except E (S × A)} {s next : S} {a : A}
    (h : body s = .ok (next, a)) : transact body s = (next, .ok a) := by
  unfold transact
  rw [h]

theorem transact_of_error {body : S → Except E (S × A)} {s : S} {e : E}
    (h : body s = .error e) : transact body s = (s, .error e) := by
  unfold transact
  rw [h]

/-- A transaction that reports a result has committed its body. -/
theorem eq_ok_of_transact {body : S → Except E (S × A)} {s : S} {a : A}
    (h : (transact body s).2 = .ok a) : body s = .ok ((transact body s).1, a) := by
  unfold transact at h ⊢
  cases hbody : body s with
  | error e =>
    rw [hbody] at h
    cases h
  | ok r =>
    rw [hbody] at h
    cases h
    rfl

/-- A transaction that reports an error has changed nothing. -/
theorem eq_self_of_transact_error {body : S → Except E (S × A)} {s : S} {e : E}
    (h : (transact body s).2 = .error e) : (transact body s).1 = s := by
  unfold transact at h ⊢
  cases hbody : body s with
  | error e => rfl
  | ok r =>
    rw [hbody] at h
    cases h

end Lib.Transaction
