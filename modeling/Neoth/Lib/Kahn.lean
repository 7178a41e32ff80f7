import Mathlib

/-!
# Kahn's algorithm

A topological sort by counting: every node knows how many of its edges are still open, and is queued
when the last of them closes. Edges may be doubled, and a node may point at itself.

* `relax`: the edges from one node are closed; `relax_spec`;
* `drain`: the loop; `Invariant`, `Invariant.step`, `exists_drain`;
* `hangsOnCycle_of_closed`: nodes that are all left with an open edge hang on a cycle.
-/

namespace Lib.Kahn

variable {A : Type} [DecidableEq A]

/-! ## Cycles -/

/-- `a` lies on a cycle, or a way leads from it to one. -/
def HangsOnCycle (edge : A → A → Prop) (a : A) : Prop :=
  ∃ b, Relation.ReflTransGen edge a b ∧ Relation.TransGen edge b b

omit [DecidableEq A] in
/-- Where every element of a finite set has an edge into the set, each of them hangs on a cycle. -/
theorem hangsOnCycle_of_closed {edge : A → A → Prop} {rest : List A}
    (h : ∀ a ∈ rest, ∃ b ∈ rest, edge a b) {a : A} (ha : a ∈ rest) : HangsOnCycle edge a := by
  by_contra hnot
  -- what can be reached from `a` within the set, ordered by the edges
  let Reached := { b // b ∈ rest ∧ Relation.ReflTransGen edge a b }
  let before : Reached → Reached → Prop := fun b c => Relation.TransGen edge c.1 b.1
  have hsub : {b | b ∈ rest ∧ Relation.ReflTransGen edge a b}.Finite :=
    (List.finite_toSet rest).subset fun b hb => hb.1
  have hfinite : Finite Reached := hsub.to_subtype
  have hirrefl : Std.Irrefl before := ⟨fun b hb => hnot ⟨b.1, b.2.2, hb⟩⟩
  have htrans : IsTrans Reached before := ⟨fun b c d hbc hcd => hcd.trans hbc⟩
  have hwell : WellFounded before := Finite.wellFounded_of_trans_of_irrefl before
  obtain ⟨least, -, hleast⟩ := hwell.has_min Set.univ ⟨⟨a, ha, .refl⟩, trivial⟩
  obtain ⟨next, hnext, hedge⟩ := h least.1 least.2.1
  exact hleast ⟨next, hnext, least.2.2.tail hedge⟩ trivial (.single hedge)

/-! ## Closing edges -/

/-- The edges to these nodes are closed one after the other; a node whose last one closes is handed
out. Nothing, where a node had none left. -/
def relax (open_ : A → Nat) : List A → Option ((A → Nat) × List A)
  | [] => some (open_, [])
  | a :: rest =>
    if open_ a = 0 then none
    else do
      let (open', batch) ← relax (Function.update open_ a (open_ a - 1)) rest
      some (open', if open_ a = 1 then a :: batch else batch)

theorem relax_spec {open_ : A → Nat} {targets : List A} (h : ∀ a, targets.count a ≤ open_ a) :
    ∃ open' batch, relax open_ targets = some (open', batch) ∧
    (∀ a, open' a = open_ a - targets.count a) ∧
      batch.Nodup ∧ ∀ a, a ∈ batch ↔ a ∈ targets ∧ open_ a = targets.count a := by
  induction targets generalizing open_ with
  | nil => exact ⟨open_, [], rfl, by simp, List.nodup_nil, by simp⟩
  | cons t targets ih =>
    have ht : targets.count t + 1 ≤ open_ t := by simpa using h t
    have hrest : ∀ a, targets.count a ≤ Function.update open_ t (open_ t - 1) a := by
      intro a
      by_cases hat : a = t
      · subst hat
        rw [Function.update_self]
        omega
      · rw [Function.update_of_ne hat]
        have hcount := h a
        rwa [List.count_cons_of_ne (Ne.symm hat)] at hcount
    obtain ⟨open', batch, hrelax, hopen, hnodup, hbatch⟩ := ih hrest
    have hout : t ∈ batch ↔ t ∈ targets ∧ open_ t = targets.count t + 1 := by
      rw [hbatch, Function.update_self]
      refine and_congr_right fun _ => ?_
      omega
    refine ⟨open', if open_ t = 1 then t :: batch else batch, ?_, fun a => ?_, ?_, fun a => ?_⟩
    · rw [relax, if_neg (by omega), hrelax]
      rfl
    · rw [hopen]
      by_cases hat : a = t
      · subst hat
        rw [Function.update_self, List.count_cons_self]
        omega
      · rw [Function.update_of_ne hat, List.count_cons_of_ne (Ne.symm hat)]
    · split
      · rename_i hone
        refine List.nodup_cons.mpr ⟨fun hmem => ?_, hnodup⟩
        have htargets := (hout.mp hmem).1
        have hpos := List.count_pos_iff.mpr htargets
        omega
      · exact hnodup
    · by_cases hat : a = t
      · subst hat
        rw [List.count_cons_self]
        split
        · rename_i hone
          have hzero : targets.count a = 0 := by omega
          simp [hone, hzero]
        · rename_i hone
          rw [hout]
          refine ⟨fun hmem => ⟨List.mem_cons_self, hmem.2⟩, fun hmem => ⟨?_, hmem.2⟩⟩
          exact List.count_pos_iff.mp (by omega)
      · have hmem : (a ∈ if open_ t = 1 then t :: batch else batch) ↔ a ∈ batch := by
          split
          · simp [hat]
          · exact Iff.rfl
        rw [hmem, hbatch, Function.update_of_ne hat, List.count_cons_of_ne (Ne.symm hat),
          List.mem_cons, or_iff_right hat]

/-! ## The loop -/

/-- Nodes are taken from the queue, and what becomes ready is arranged and queued. -/
def drain (succs : A → List A) (arrange : List A → List A) : Nat → (A → Nat) → List A → List A →
    Option (List A)
  | _, _, [], order => some order
  | 0, _, _ :: _, _ => none
  | fuel + 1, open_, a :: queue, order => do
    let (open', batch) ← relax open_ (succs a)
    drain succs arrange fuel open' (queue ++ arrange batch) (order ++ [a])

/-- The edges lead from nodes to nodes, and `succs` turns them around. -/
structure Turned (nodes : List A) (deps succs : A → List A) : Prop where
  known : ∀ a ∈ nodes, ∀ d ∈ deps a, d ∈ nodes
  count : ∀ d, ∀ a ∈ nodes, (succs d).count a = (deps a).count d
  onto : ∀ d, ∀ a ∈ succs d, a ∈ nodes

structure Invariant (nodes : List A) (deps : A → List A) (open_ : A → Nat) (queue order : List A) :
    Prop where
  nodup : (order ++ queue).Nodup
  known : ∀ a ∈ order ++ queue, a ∈ nodes
  counts : ∀ a ∈ nodes, open_ a = (deps a).countP fun d => d ∉ order
  ready : ∀ a ∈ nodes, open_ a = 0 ↔ a ∈ order ++ queue
  after : ∀ pre a post, order = pre ++ a :: post → ∀ d ∈ deps a, d ∈ pre

theorem countP_append_singleton {order deps : List A} {a : A} (ha : a ∉ order) :
    (deps.countP fun d => d ∉ order) = (deps.countP fun d => d ∉ order ++ [a]) + deps.count a := by
  induction deps with
  | nil => rfl
  | cons d deps ih =>
    rw [List.countP_cons, List.countP_cons, List.count_cons, ih]
    by_cases hda : d = a
    · subst hda
      simp [ha]
      omega
    · simp [hda]
      omega

variable {nodes : List A} {deps succs : A → List A} {arrange : List A → List A} {open_ : A → Nat}
  {queue order : List A}

theorem Invariant.step {a : A} (h : Invariant nodes deps open_ (a :: queue) order)
    (hturned : Turned nodes deps succs)
    (harrange : ∀ l, (arrange l).Perm l) : ∃ open' batch,
      relax open_ (succs a) = some (open', batch) ∧
      Invariant nodes deps open' (queue ++ arrange batch) (order ++ [a]) := by
  have hnodup := List.nodup_append.mp h.nodup
  have hnot : a ∉ order := fun hmem => hnodup.2.2 a hmem a List.mem_cons_self rfl
  have hnode : a ∈ nodes := h.known a (List.mem_append_right _ List.mem_cons_self)
  have hcount : ∀ b ∈ nodes,
      open_ b = ((deps b).countP fun d => d ∉ order ++ [a]) + (succs a).count b := by
    intro b hb
    rw [h.counts b hb, countP_append_singleton hnot, hturned.count a b hb]
  obtain ⟨open', batch, hrelax, hopen, hbatchNodup, hbatch⟩ :=
    @relax_spec _ _ open_ (succs a) fun b => by
    by_cases hb : b ∈ succs a
    · rw [hcount b (hturned.onto a b hb)]
      exact Nat.le_add_left _ _
    · rw [List.count_eq_zero_of_not_mem hb]
      exact Nat.zero_le _
  have hperm := harrange batch
  -- what is handed out was not ready before
  have hfresh : ∀ b ∈ batch, b ∈ nodes ∧ b ∉ order ++ a :: queue := by
    intro b hb
    obtain ⟨hsucc, hall⟩ := (hbatch b).mp hb
    have hbnode := hturned.onto a b hsucc
    have hpos := List.count_pos_iff.mpr hsucc
    refine ⟨hbnode, fun hmem => ?_⟩
    rw [(h.ready b hbnode).mpr hmem] at hall
    omega
  refine ⟨open', batch, hrelax, ⟨?_, ?_, ?_, ?_, ?_⟩⟩
  · have hall : (order ++ (a :: queue) ++ arrange batch).Nodup := by
      refine List.nodup_append.mpr ⟨h.nodup, hperm.nodup_iff.mpr hbatchNodup,
        fun x hx y hy hxy => ?_⟩
      exact (hfresh y (hperm.mem_iff.mp hy)).2 (hxy ▸ hx)
    simpa using hall
  · intro b hb
    rw [← List.append_assoc] at hb
    rcases List.mem_append.mp hb with hb | hb
    · exact h.known b (by simpa [or_assoc] using hb)
    · exact (hfresh b (hperm.mem_iff.mp hb)).1
  · intro b hb
    rw [hopen, hcount b hb, Nat.add_sub_cancel]
  · intro b hb
    rw [hopen]
    have hmem : b ∈ order ++ [a] ++ (queue ++ arrange batch) ↔
        b ∈ order ++ a :: queue ∨ b ∈ batch := by
      simp only [List.mem_append, List.mem_cons, List.not_mem_nil, or_false, hperm.mem_iff]
      tauto
    rw [hmem, ← h.ready b hb, hbatch]
    have hle := hcount b hb
    constructor
    · intro hzero
      by_cases hready : open_ b = 0
      · exact .inl hready
      · exact .inr ⟨List.count_pos_iff.mp (by omega), by omega⟩
    · rintro (hready | ⟨-, hall⟩) <;> omega
  · intro pre x post hsplit d hd
    rcases List.eq_nil_or_concat post with rfl | ⟨post, last, rfl⟩
    · obtain ⟨rfl, hx⟩ := List.append_inj' hsplit rfl
      obtain rfl : a = x := by simpa using hx
      have hzero := (h.ready a hnode).mpr (List.mem_append_right _ List.mem_cons_self)
      rw [h.counts a hnode, List.countP_eq_zero] at hzero
      simpa using hzero d hd
    · rw [List.concat_eq_append, ← List.cons_append, ← List.append_assoc] at hsplit
      exact h.after pre x post (List.append_inj' hsplit rfl).1 d hd

/-- **The loop ends within as many turns as there are nodes, and no count falls below zero.** -/
theorem exists_drain (hturned : Turned nodes deps succs) (harrange : ∀ l, (arrange l).Perm l)
    {fuel : Nat}
    (h : Invariant nodes deps open_ queue order) (hfuel : nodes.length ≤ fuel + order.length) :
    ∃ order', drain succs arrange fuel open_ queue order = some order' ∧
      ∃ open', Invariant nodes deps open' [] order' := by
  induction fuel generalizing open_ queue order with
  | zero =>
    cases queue with
    | nil => exact ⟨order, by rw [drain], open_, h⟩
    | cons a queue =>
      have hlen := (List.subperm_of_subset h.nodup h.known).length_le
      simp only [List.length_append, List.length_cons] at hlen
      omega
  | succ fuel ih =>
    cases queue with
    | nil => exact ⟨order, by rw [drain], open_, h⟩
    | cons a queue =>
      obtain ⟨open', batch, hrelax, hnext⟩ := h.step hturned harrange
      obtain ⟨order', hdrain, hdone⟩ :=
        ih hnext (by rw [List.length_append, List.length_singleton]; omega)
      refine ⟨order', ?_, hdone⟩
      rw [drain, hrelax]
      exact hdrain

/-! ## The end -/

/-- A node and one that it waits for. -/
def Edge (nodes : List A) (deps : A → List A) (a b : A) : Prop := a ∈ nodes ∧ b ∈ deps a

theorem Invariant.idxOf_lt (h : Invariant nodes deps open_ queue order) {a d : A} (ha : a ∈ order)
    (hd : d ∈ deps a) : d ∈ order ∧ order.idxOf d < order.idxOf a := by
  obtain ⟨pre, post, rfl⟩ := List.append_of_mem ha
  have hpre := h.after pre a post rfl d hd
  have hnot : a ∉ pre := by
    have hnodup := (List.nodup_append.mp (List.nodup_append.mp h.nodup).1).2.2
    exact fun hmem => hnodup a hmem a List.mem_cons_self rfl
  refine ⟨List.mem_append_left _ hpre, ?_⟩
  rw [List.idxOf_append_of_mem hpre, List.idxOf_append_of_notMem hnot, List.idxOf_cons_self,
    Nat.add_zero]
  exact List.idxOf_lt_length_of_mem hpre

/-- What was put out hangs on no cycle; all the rest does. -/
theorem Invariant.mem_iff (h : Invariant nodes deps open_ [] order)
    (hknown : ∀ a ∈ nodes, ∀ d ∈ deps a, d ∈ nodes)
    {a : A} (ha : a ∈ nodes) : a ∈ order ↔ ¬ HangsOnCycle (Edge nodes deps) a := by
  constructor
  · rintro hmem ⟨b, hab, hbb⟩
    have hforward : ∀ {x y}, Edge nodes deps x y → x ∈ order → y ∈ order :=
      fun hxy hx => (h.idxOf_lt hx hxy.2).1
    have hb : b ∈ order := by
      clear hbb
      induction hab with
      | refl => exact hmem
      | tail _ hxy ih => exact hforward hxy ih
    have hfalls : ∀ y, Relation.TransGen (Edge nodes deps) b y →
        y ∈ order ∧ order.idxOf y < order.idxOf b := by
      intro y hy
      induction hy with
      | single hxy => exact h.idxOf_lt hb hxy.2
      | tail _ hxy ih =>
        obtain ⟨hmem', hlt⟩ := h.idxOf_lt ih.1 hxy.2
        exact ⟨hmem', hlt.trans ih.2⟩
    exact (hfalls b hbb).2.ne rfl
  · intro hfree
    by_contra hnot
    refine hfree (@hangsOnCycle_of_closed _ _ (nodes.filter (· ∉ order)) (fun x hx => ?_) a ?_)
    · obtain ⟨hxnode, hxnot⟩ : x ∈ nodes ∧ x ∉ order := by simpa using hx
      have hopen : open_ x ≠ 0 := fun hzero => hxnot (by simpa using (h.ready x hxnode).mp hzero)
      rw [h.counts x hxnode] at hopen
      obtain ⟨d, hd, hdnot⟩ := List.countP_pos_iff.mp (Nat.pos_of_ne_zero hopen)
      exact ⟨d, by simpa using ⟨hknown x hxnode d hd, of_decide_eq_true hdnot⟩, hxnode, hd⟩
    · simpa using ⟨ha, hnot⟩

end Lib.Kahn
