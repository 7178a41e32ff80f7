import Mathlib

/-!
# Knockouts

Pairs are judged one after the other, and the loser of each drops out.  A fold that does so leaves
the winner of every pair whose loser it takes out exactly if no such pair is won by an element that
is out (`Knockout.keeps_iff`); what matters is only who loses to whom, and in which order.

* `trail`, `mem_trail_iff`: the steps of a fold;
* `allPairs`: the pairs of a list, each in the order of the list;
* `Spares`, `Knockout`; `alive_foldl`: who is there at the end.
-/

namespace Lib

variable {S I A : Type}

/-! ## Folds, step by step -/

/-- The steps of `items.foldl step s`: the state before, the item, the state after. -/
def trail (step : S → I → S) : S → List I → List (S × I × S)
  | _, [] => []
  | s, i :: items => (s, i, step s i) :: trail step (step s i) items

theorem mem_trail_iff {step : S → I → S} {items : List I} {s s₁ s₂ : S} {i : I} :
    (s₁, i, s₂) ∈ trail step s items ↔
      ∃ before after, items = before ++ i :: after ∧ s₁ = before.foldl step s ∧ s₂ = step s₁ i := by
  induction items generalizing s with
  | nil => simp [trail]
  | cons j items ih =>
    rw [trail, List.mem_cons, ih]
    constructor
    · rintro (heq | ⟨before, after, rfl, hs, hs'⟩)
      · obtain ⟨rfl, rfl, rfl⟩ := by simpa using heq
        exact ⟨[], items, rfl, rfl, rfl⟩
      · exact ⟨j :: before, after, rfl, hs, hs'⟩
    · rintro ⟨before, after, hitems, hs, hs'⟩
      cases before with
      | nil =>
        obtain ⟨rfl, rfl⟩ := by simpa using hitems
        exact .inl (by rw [hs', hs]; rfl)
      | cons k before =>
        rw [List.cons_append, List.cons.injEq] at hitems
        obtain ⟨rfl, hitems⟩ := hitems
        exact .inr ⟨before, after, hitems, hs, hs'⟩

theorem foldl_eq_self {step : S → I → S} {items : List I} {s : S} (h : ∀ i ∈ items, step s i = s) :
    items.foldl step s = s := by
  induction items with
  | nil => rfl
  | cons i items ih =>
    rw [List.foldl_cons, h i List.mem_cons_self]
    exact ih fun j hj => h j (List.mem_cons_of_mem _ hj)

/-! ## The pairs of a list -/

def allPairs : List A → List (A × A)
  | [] => []
  | a :: l => l.map (a, ·) ++ allPairs l

theorem allPairs_sublist {l m : List A} (h : l.Sublist m) : (allPairs l).Sublist (allPairs m) := by
  induction h with
  | slnil => exact .refl _
  | cons a _ ih => exact ih.trans (List.sublist_append_right _ _)
  | cons_cons a hlm ih => exact (hlm.map _).append ih

theorem pairwise_iff_allPairs {R : A → A → Prop} {l : List A} : l.Pairwise R ↔ ∀ p ∈ allPairs l,
    R p.1 p.2 := by
  induction l with
  | nil => simp [allPairs]
  | cons a l ih =>
    rw [List.pairwise_cons, allPairs, List.forall_mem_append, List.forall_mem_map, ih]

/-! ## Losers and winners -/

/-- In a list of losers with their winners, whoever loses while it is still there loses to another
one that is still there. -/
def Spares (alive : A → Prop) (duels : List (A × A)) : Prop :=
  ∀ before x y after, duels = before ++ (x, y) :: after → alive x → x ∉ before.map Prod.fst →
    alive y ∧ y ≠ x ∧ y ∉ before.map Prod.fst

theorem spares_nil (alive : A → Prop) : Spares alive [] := by
  intro before x y after h
  simp at h

theorem spares_cons {alive : A → Prop} {x y : A} {duels : List (A × A)} :
    Spares alive ((x, y) :: duels) ↔
      (alive x → alive y ∧ y ≠ x) ∧ Spares (fun a => alive a ∧ a ≠ x) duels := by
  constructor
  · intro h
    refine ⟨fun hx => ?_, ?_⟩
    · obtain ⟨hy, hne, -⟩ := h [] x y duels rfl hx (by simp)
      exact ⟨hy, hne⟩
    · rintro before x' y' after rfl ⟨hx', hne⟩ hnot
      obtain ⟨hy', hne', hnot'⟩ := h ((x, y) :: before) x' y' after rfl hx' (by simp [hne, hnot])
      simp only [List.map_cons, List.mem_cons, not_or] at hnot'
      exact ⟨⟨hy', hnot'.1⟩, hne', hnot'.2⟩
  · rintro ⟨hhead, htail⟩ before x' y' after hduels hx' hnot
    cases before with
    | nil =>
      obtain ⟨⟨rfl, rfl⟩, rfl⟩ := by simpa using hduels
      exact ⟨(hhead hx').1, (hhead hx').2, by simp⟩
    | cons d before =>
      obtain ⟨rfl, rfl⟩ := by simpa using hduels
      simp only [List.map_cons, List.mem_cons, not_or] at hnot ⊢
      obtain ⟨⟨hy', hne⟩, hne', hnot'⟩ := htail before x' y' after rfl ⟨hx', hnot.1⟩ hnot.2
      exact ⟨hy', hne', hne, hnot'⟩

/-- Steps that each judge at most one pair, by what no step changes. -/
structure Knockout (S I A : Type) where
  step : S → I → S
  alive : S → A → Prop
  /-- The pair of an item, its loser in front. -/
  duel : S → I → Option (A × A)
  alive_step : ∀ s i a, alive (step s i) a ↔ alive s a ∧ ∀ d ∈ duel s i, a ≠ d.1
  duel_step : ∀ s i j, duel (step s j) i = duel s i

namespace Knockout

variable (k : Knockout S I A)

/-- Who is there at the end has not lost. -/
theorem alive_foldl (s : S) (items : List I) (a : A) :
    k.alive (items.foldl k.step s) a ↔ k.alive s a ∧ ∀ i ∈ items, ∀ d ∈ k.duel s i, a ≠ d.1 := by
  induction items generalizing s with
  | nil => simp
  | cons i items ih =>
    rw [List.foldl_cons, ih, k.alive_step, and_assoc, List.forall_mem_cons]
    simp only [k.duel_step]

/-- A step that takes out the loser of its pair leaves the winner. -/
def Keeps (s : S) (items : List I) : Prop :=
  ∀ s₁ i s₂, (s₁, i, s₂) ∈ trail k.step s items → ∀ x y, k.duel s₁ i = some (x, y) → k.alive s₁ x →
  k.alive s₂ y

theorem keeps_cons {s : S} {i : I} {items : List I} : k.Keeps s (i :: items) ↔
    (∀ x y, k.duel s i = some (x, y) → k.alive s x → k.alive (k.step s i) y) ∧
    k.Keeps (k.step s i) items := by
  constructor
  · intro h
    exact ⟨h s i (k.step s i) List.mem_cons_self,
      fun s₁ j s₂ hmem => h s₁ j s₂ (List.mem_cons_of_mem _ hmem)⟩
  · rintro ⟨hhead, htail⟩ s₁ j s₂ hmem
    rcases List.mem_cons.mp hmem with heq | hmem
    · obtain ⟨rfl, rfl, rfl⟩ := by simpa using heq
      exact hhead
    · exact htail s₁ j s₂ hmem

/-- **Every step leaves the winner of the pair whose loser it takes out if and only if no pair is
won by an element that is out.** -/
theorem keeps_iff {s : S} {items : List I} :
    k.Keeps s items ↔ Spares (k.alive s) (items.filterMap (k.duel s)) := by
  induction items generalizing s with
  | nil => exact ⟨fun _ => spares_nil _, fun _ _ _ _ hmem => by simp [trail] at hmem⟩
  | cons i items ih =>
    have hduel : k.duel (k.step s i) = k.duel s := funext fun j => k.duel_step s j i
    rw [keeps_cons, ih, hduel]
    cases hd : k.duel s i with
    | none =>
      have halive : k.alive (k.step s i) = k.alive s := by
        funext a
        simp [k.alive_step, hd]
      rw [List.filterMap_cons_none hd, halive]
      simp
    | some d =>
      obtain ⟨x, y⟩ := d
      have halive : k.alive (k.step s i) = fun a => k.alive s a ∧ a ≠ x := by
        funext a
        simp [k.alive_step, hd]
      rw [List.filterMap_cons_some hd, spares_cons, halive]
      refine and_congr_left fun _ => ⟨fun h => h x y rfl, ?_⟩
      rintro h x' y' heq
      obtain ⟨rfl, rfl⟩ := by simpa using heq
      exact h

end Knockout

end Lib
