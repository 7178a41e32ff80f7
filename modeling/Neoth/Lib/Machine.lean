import Mathlib

/-!
# Runs of a machine that answers

`step s c` takes a command and returns the next state and an answer; `run` feeds
a list of commands and collects the answers in order.  The induction rules
every safety argument is an instance of are `run_invariant` (a predicate kept by
each step), `run_history` (one that also speaks of the commands before it) and
`run_relation` (a preorder each step stays inside).  Three more are
about the answers of a run: `run_sum` (a quantity that grows by what each answer
says), `run_consecutive` (a counter whose values the answers show) and `pairwise_run`
(what an answer leaves in the state rules out for ever what may not follow it).
-/

namespace Lib.Machine

variable {S C A : Type}

def run (step : S → C → S × A) : S → List C → S × List A
  | s, [] => (s, [])
  | s, c :: cs =>
    let next := step s c
    let rest := run step next.1 cs
    (rest.1, next.2 :: rest.2)

@[simp] theorem run_nil (step : S → C → S × A) (s : S) : run step s [] = (s, []) := rfl

@[simp] theorem run_cons (step : S → C → S × A) (s : S) (c : C) (cs : List C) :
    run step s (c :: cs) =
      ((run step (step s c).1 cs).1, (step s c).2 :: (run step (step s c).1 cs).2) := rfl

theorem run_append (step : S → C → S × A) (s : S) (cs ds : List C) :
    run step s (cs ++ ds) =
      ((run step (run step s cs).1 ds).1,
        (run step s cs).2 ++ (run step (run step s cs).1 ds).2) := by
  induction cs generalizing s with
  | nil => rfl
  | cons c cs ih => simp [ih]

/-- A predicate kept by every step holds at the end of every run. -/
theorem run_invariant {step : S → C → S × A} {P : S → Prop}
    (keep : ∀ s c, P s → P (step s c).1) (s : S) (h : P s) (cs : List C) :
    P (run step s cs).1 := by
  induction cs generalizing s with
  | nil => exact h
  | cons c cs ih => exact ih _ (keep s c h)

/-- The rule for runs whose steps all meet a condition on the state before them. -/
theorem run_invariant_of_meets {step : S → C → S × A} {P : S → Prop} {M : S → C → Prop}
    (keep : ∀ s c, P s → M s c → P (step s c).1) (s : S) (h : P s) (cs : List C)
    (meets : ∀ before c after, cs = before ++ c :: after → M (run step s before).1 c) :
    P (run step s cs).1 := by
  induction cs generalizing s with
  | nil => exact h
  | cons c cs ih =>
    refine ih _ (keep s c h (meets [] c cs rfl)) ?_
    rintro before d after rfl
    exact meets (c :: before) d after rfl

/-- A run none of whose steps is left meets every condition. -/
theorem meets_nil {step : S → C → S × A} {M : S → C → Prop} {s : S} (before : List C) (c : C)
    (after : List C) (h : [] = before ++ c :: after) : M (run step s before).1 c := by
  simp at h

/-- The condition of a run, step by step. -/
theorem meets_cons {step : S → C → S × A} {M : S → C → Prop} {s : S} {c : C} {cs : List C}
    (h : M s c)
    (meets : ∀ before d after, cs = before ++ d :: after → M (run step (step s c).1 before).1 d)
    (before : List C) (d : C) (after : List C) (hsplit : c :: cs = before ++ d :: after) :
    M (run step s before).1 d := by
  cases before with
  | nil =>
    cases hsplit
    exact h
  | cons c before =>
    cases hsplit
    exact meets before d after rfl

/-- The rule for a predicate that also speaks of the commands so far. -/
theorem run_history {step : S → C → S × A} {P : List C → S → Prop} (s : S) (init : P [] s)
    (keep : ∀ cs c, P cs (run step s cs).1 → P (cs ++ [c]) (step (run step s cs).1 c).1)
    (cs : List C) : P cs (run step s cs).1 := by
  induction cs using List.reverseRecOn with
  | nil => exact init
  | append_singleton cs c ih =>
    rw [run_append]
    exact keep cs c ih

/-- Both rules in one: a predicate of the commands so far, in runs whose steps all meet a
condition. -/
theorem run_history_of_meets {step : S → C → S × A} {P : List C → S → Prop}
    {M : S → C → Prop} (s : S) (init : P [] s)
    (keep : ∀ cs c, P cs (run step s cs).1 → M (run step s cs).1 c →
      P (cs ++ [c]) (step (run step s cs).1 c).1)
    (cs : List C) (meets : ∀ before c after, cs = before ++ c :: after →
      M (run step s before).1 c) :
    P cs (run step s cs).1 := by
  induction cs using List.reverseRecOn with
  | nil => exact init
  | append_singleton cs c ih =>
    rw [run_append]
    refine keep cs c (ih ?_) (meets cs c [] rfl)
    rintro before d after rfl
    exact meets before d (after ++ [c]) (by simp)

/-- Under an invariant, a reflexive and transitive relation that holds across
every step holds across every run. -/
theorem run_relation {step : S → C → S × A} {P : S → Prop} {R : S → S → Prop}
    (keep : ∀ s c, P s → P (step s c).1) (refl : ∀ s, R s s)
    (trans : ∀ {s t u}, R s t → R t u → R s u)
    (across : ∀ s c, P s → R s (step s c).1) (s : S) (h : P s) (cs : List C) :
    R s (run step s cs).1 := by
  induction cs generalizing s with
  | nil => exact refl s
  | cons c cs ih => exact trans (across s c h) (ih _ (keep s c h))

/-- Every answer of a run is the answer of one of its steps, taken in a state
reached by the commands before it. -/
theorem exists_step_of_mem_run {step : S → C → S × A} {s : S} {cs : List C} {a : A}
    (h : a ∈ (run step s cs).2) :
    ∃ before c after, cs = before ++ c :: after ∧ (step (run step s before).1 c).2 = a := by
  induction cs generalizing s with
  | nil => simp at h
  | cons c cs ih =>
    rcases List.mem_cons.mp h with rfl | h
    · exact ⟨[], c, cs, rfl, rfl⟩
    · obtain ⟨before, d, after, rfl, ha⟩ := ih h
      exact ⟨c :: before, d, after, rfl, ha⟩

/-- A quantity that every step raises by the measure of its answer is, at the
end of a run, raised by the sum over the answers. -/
theorem run_sum {step : S → C → S × A} {P : S → Prop} {f : S → Nat} {g : A → Nat}
    (keep : ∀ s c, P s → P (step s c).1)
    (grow : ∀ s c, P s → f (step s c).1 = f s + g (step s c).2) (s : S) (h : P s) (cs : List C) :
    f (run step s cs).1 = f s + ((run step s cs).2.map g).sum := by
  induction cs generalizing s with
  | nil => simp
  | cons c cs ih =>
    rw [run_cons, List.map_cons, List.sum_cons, ih _ (keep s c h), grow s c h, Nat.add_assoc]

/-- A counter that a step leaves as it is, or shows in its answer and raises by one:
the answers of a run show its values one after the other. -/
theorem run_consecutive {step : S → C → S × A} {f : S → Nat} {g : A → Option Nat}
    (count : ∀ s c, (g (step s c).2 = none ∧ f (step s c).1 = f s) ∨
      (g (step s c).2 = some (f s) ∧ f (step s c).1 = f s + 1)) (s : S) (cs : List C) :
    ∃ n, f (run step s cs).1 = f s + n ∧ (run step s cs).2.filterMap g = List.range' (f s) n := by
  induction cs generalizing s with
  | nil => exact ⟨0, rfl, rfl⟩
  | cons c cs ih =>
    obtain ⟨n, hstate, hanswers⟩ := ih (step s c).1
    rcases count s c with ⟨hg, hf⟩ | ⟨hg, hf⟩
    · refine ⟨n, by rw [run_cons, hstate, hf], ?_⟩
      rw [run_cons, List.filterMap_cons_none hg, hanswers, hf]
    · refine ⟨n + 1, by rw [run_cons, hstate, hf]; omega, ?_⟩
      rw [run_cons, List.filterMap_cons_some hg, hanswers, hf, List.range'_succ]

/-- `Q a s`: the state `s` still shows the answer `a`.  If every answer shows in
the state it leads to, goes on showing, and rules out every later answer not in
relation `R` to it, then the answers of a run are pairwise in relation `R`. -/
theorem pairwise_run {step : S → C → S × A} {P : S → Prop} {R : A → A → Prop} {Q : A → S → Prop}
    (keep : ∀ s c, P s → P (step s c).1)
    (shows : ∀ s c, P s → Q (step s c).2 (step s c).1)
    (persists : ∀ a s c, P s → Q a s → Q a (step s c).1)
    (excludes : ∀ a s c, P s → Q a s → R a (step s c).2) (s : S) (h : P s) (cs : List C) :
    (run step s cs).2.Pairwise R := by
  have hlater : ∀ a (cs : List C) (s : S), P s → Q a s → ∀ b ∈ (run step s cs).2, R a b := by
    intro a cs
    induction cs with
    | nil => simp
    | cons c cs ih =>
      intro s h hq b hb
      rcases List.mem_cons.mp hb with rfl | hb
      · exact excludes a s c h hq
      · exact ih _ (keep s c h) (persists a s c h hq) b hb
  induction cs generalizing s with
  | nil => exact List.Pairwise.nil
  | cons c cs ih =>
    exact List.pairwise_cons.mpr
      ⟨hlater _ cs _ (keep s c h) (shows s c h), ih _ (keep s c h)⟩

/-- What rules itself out occurs at most once. -/
theorem count_le_one_of_pairwise [DecidableEq A] {answers : List A} {a : A}
    (h : answers.Pairwise fun x y => x = a → y ≠ a) : answers.count a ≤ 1 := by
  induction answers with
  | nil => simp
  | cons x answers ih =>
    obtain ⟨hx, hrest⟩ := List.pairwise_cons.mp h
    by_cases heq : x = a
    · have hnone : a ∉ answers := fun hmem => hx a hmem heq rfl
      rw [List.count_cons, List.count_eq_zero_of_not_mem hnone]
      split <;> omega
    · rw [List.count_cons_of_ne heq]
      exact ih hrest

end Lib.Machine
