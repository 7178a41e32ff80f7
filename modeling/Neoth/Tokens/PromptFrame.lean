import Neoth.Tokens.PromptBudget

/-!
# What the budget leaves alone

Degradation removes items and cuts conductor texts, and nothing else: `Degraded` says so item by
item.

* `Degraded`, `isProtected`: what may happen to an item, and what nothing happens to;
* `framed_oldest`, `framed_leastImportant`, `framed_truncate`: the steps of a pass;
* **`budget_frame`**: both functions frame the list, report what they did, and change nothing on an
  error.
-/

open Lib Lib.Lists Lib.Text

namespace Neoth.Tokens

/-! ## Degradation, item by item -/

/-- A degradable item of C or D, or a protocol of A that goes with the data it describes. -/
def Removable (a : BlockItem) : Prop :=
  a.retention = .degradable ∧ (a.block = .C ∨ a.block = .D ∨ (a.block = .A ∧ inGroup a = true))

/-- A conductor text is cut, and its estimate taken anew from what is left of it. -/
structure Cut (a b : BlockItem) : Prop where
  conductor : candidate .conductor a = true
  content : b.content <+: a.content
  rest : b = { a with content := b.content, tokens := countTokensUpperBound b.content }

/-- What survives, in the order that it had. -/
inductive Degraded : List BlockItem → List BlockItem → Prop
  | nil : Degraded [] []
  | keep (a : BlockItem) {items left : List BlockItem} : Degraded items left →
    Degraded (a :: items) (a :: left)
  | cut {a b : BlockItem} {items left : List BlockItem} : Cut a b → Degraded items left →
      Degraded (a :: items) (b :: left)
  | drop {a : BlockItem} {items left : List BlockItem} : Removable a → Degraded items left →
    Degraded (a :: items) left

/-- An item that stays as it is: every required one, every B and E, and every A that belongs to no
group. -/
def isProtected (a : BlockItem) : Bool :=
  a.retention == .required || a.block == .B || a.block == .E || (a.block == .A && !inGroup a)

variable {a : BlockItem}

theorem Cut.trans {a b c : BlockItem} (h : Cut a b) (h' : Cut b c) : Cut a c :=
  ⟨h.conductor, h'.content.trans h.content, by rw [h'.rest, h.rest]⟩

theorem Degraded.refl (items : List BlockItem) : Degraded items items := by
  induction items with
  | nil => exact .nil
  | cons a items ih => exact .keep a ih

theorem Cut.of_candidate {a b : BlockItem} (h : Cut a b) : candidate .conductor b = true := by
  rw [h.rest]
  exact h.conductor

theorem not_removable_of_candidate (h : candidate .conductor a = true) : ¬ Removable a := by
  rintro ⟨-, hblock⟩
  simp only [candidate, Bool.and_eq_true, beq_iff_eq] at h
  rw [h.1] at hblock
  simp at hblock

theorem Degraded.trans {items mid left : List BlockItem} (h : Degraded items mid)
    (h' : Degraded mid left) : Degraded items left := by
  induction h generalizing left with
  | nil => exact h'
  | keep a _ ih =>
    cases h' with
    | keep _ h' => exact .keep a (ih h')
    | cut hcut h' => exact .cut hcut (ih h')
    | drop hremovable h' => exact .drop hremovable (ih h')
  | cut hcut _ ih =>
    cases h' with
    | keep _ h' => exact .cut hcut (ih h')
    | cut hcut' h' => exact .cut (hcut.trans hcut') (ih h')
    | drop hremovable h' => exact absurd hremovable (not_removable_of_candidate hcut.of_candidate)
  | drop hremovable _ ih => exact .drop hremovable (ih h')

theorem Removable.not_protected (h : Removable a) : isProtected a = false := by
  obtain ⟨hretention, hblock | hblock | ⟨hblock, hgroup⟩⟩ := h
  · simp [isProtected, hretention, hblock]
  · simp [isProtected, hretention, hblock]
  · simp [isProtected, hretention, hblock, hgroup]

theorem not_protected_of_candidate (h : candidate .conductor a = true) : isProtected a = false := by
  simp only [candidate, Bool.and_eq_true, beq_iff_eq] at h
  simp [isProtected, h.1, h.2]

/-- Protected items stay, all of them, as they are and in their order. -/
theorem Degraded.kept {items left : List BlockItem} (h : Degraded items left) :
    left.filter isProtected = items.filter isProtected := by
  induction h with
  | nil => rfl
  | keep a _ ih => rw [List.filter_cons, List.filter_cons, ih]
  | cut hcut _ ih =>
    rw [List.filter_cons_of_neg (by simp [not_protected_of_candidate hcut.of_candidate]),
      List.filter_cons_of_neg (by simp [not_protected_of_candidate hcut.conductor]), ih]
  | drop hremovable _ ih => rw [List.filter_cons_of_neg (by simp [hremovable.not_protected]), ih]

theorem Degraded.of_keepIdx {items : List BlockItem} : ∀ keep : Nat → Bool,
    (∀ i a, items[i]? = some a → keep i = false → Removable a) →
    Degraded items (keepIdx keep items) := by
  induction items with
  | nil => exact fun _ _ => .nil
  | cons a items ih =>
    intro keep h
    have htail := ih (fun i => keep (i + 1)) fun i b hb => h (i + 1) b (by simpa using hb)
    unfold keepIdx
    split
    · exact .keep a htail
    · rename_i hdrop
      exact .drop (h 0 a rfl (by simpa using hdrop)) htail

theorem cut_truncateItem (h : truncates a = true) : Cut a (truncateItem a) := by
  unfold truncateItem
  rw [if_pos h]
  exact ⟨(Bool.and_eq_true_iff.mp h).1, List.take_prefix _ _, rfl⟩

theorem truncateItem_of_not (h : truncates a = false) : truncateItem a = a := by
  unfold truncateItem
  rw [if_neg (by simp [h])]

theorem Degraded.of_truncate (items : List BlockItem) :
    Degraded items (items.map truncateItem) := by
  induction items with
  | nil => exact .nil
  | cons a items ih =>
    rw [List.map_cons]
    cases h : truncates a with
    | true => exact .cut (cut_truncateItem h) ih
    | false =>
      rw [truncateItem_of_not h]
      exact .keep a ih

theorem Degraded.length_le {items left : List BlockItem} (h : Degraded items left) :
    left.length ≤ items.length := by
  induction h with
  | nil => exact le_rfl
  | keep a _ ih => exact Nat.succ_le_succ ih
  | cut _ _ ih => exact Nat.succ_le_succ ih
  | drop _ _ ih => exact Nat.le_succ_of_le ih

/-! ## The atomic group -/

theorem isSome_atomicGroup (a : BlockItem) : a.atomicGroup.isSome = inGroup a := by
  unfold inGroup
  cases a.atomicGroup with
  | none => rfl
  | some group => cases group; rfl

/-- What validity asks of the members of the group. -/
def GroupOk (members : List BlockItem) : Prop :=
  (∀ a ∈ members, a.retention = .degradable) ∧
    (members = [] ∨ (members.countP (·.block == .A) = 1 ∧ members.countP (·.block == .D) = 1 ∧
      ∀ a ∈ members, a.block = .A ∨ a.block = .D))

theorem validate_iff {items : List BlockItem} :
    validateAtomicGroups items = .ok () ↔ GroupOk (items.filter inGroup) := by
  have hrequired :
      (items.any fun item => item.atomicGroup.isSome && item.retention == .required) = false ↔
      ∀ a ∈ items.filter inGroup, a.retention = .degradable := by
    rw [List.any_eq_false]
    constructor
    · intro h a ha
      obtain ⟨hmem, hgroup⟩ := List.mem_filter.mp ha
      have hnot := h a hmem
      rw [isSome_atomicGroup, hgroup, Bool.true_and, beq_iff_eq] at hnot
      cases hret : a.retention with
      | degradable => rfl
      | required => exact absurd hret hnot
    · intro h a hmem hboth
      rw [isSome_atomicGroup, Bool.and_eq_true, beq_iff_eq] at hboth
      have hdeg := h a (List.mem_filter.mpr ⟨hmem, hboth.1⟩)
      rw [hboth.2] at hdeg
      cases hdeg
  unfold validateAtomicGroups GroupOk
  generalize items.filter inGroup = members at hrequired ⊢
  have hother : (members.countP fun item => item.block != .A && item.block != .D) = 0 ↔
      ∀ a ∈ members, a.block = .A ∨ a.block = .D := by
    rw [List.countP_eq_zero]
    refine forall₂_congr fun a _ => ?_
    simp only [Bool.and_eq_true, bne_iff_ne, ne_eq, not_and_or, not_not]
  have hnone : members.countP (·.block == .A) = 0 ∧ members.countP (·.block == .D) = 0 ∧
      (members.countP fun item => item.block != .A && item.block != .D) = 0 ↔ members = [] := by
    constructor
    · rintro ⟨hA, hD, hrest⟩
      refine List.eq_nil_iff_forall_not_mem.mpr fun a ha => ?_
      rcases hother.mp hrest a ha with hblock | hblock
      · exact List.countP_eq_zero.mp hA a ha (by simp [hblock])
      · exact List.countP_eq_zero.mp hD a ha (by simp [hblock])
    · rintro rfl
      simp
  dsimp only
  rw [← hrequired, ← hother, ← hnone]
  cases items.any fun item => item.atomicGroup.isSome && item.retention == .required with
  | true => simp
  | false =>
    simp only [Bool.false_eq_true, if_false, true_and]
    split <;> rename_i hcounts
    · exact iff_of_true rfl hcounts
    · exact iff_of_false (by rintro ⟨⟩) hcounts

/-- A list with the same members, or with none, is as valid. -/
theorem valid_of_members {items left : List BlockItem} (h : validateAtomicGroups items = .ok ())
    (hgroup : left.filter inGroup = items.filter inGroup ∨ left.filter inGroup = []) :
    validateAtomicGroups left = .ok () := by
  rw [validate_iff] at h ⊢
  rcases hgroup with hsame | hnone
  · rwa [hsame]
  · rw [hnone]
    exact ⟨by simp, .inl rfl⟩

theorem member_of_valid {items : List BlockItem} (h : validateAtomicGroups items = .ok ())
    (ha : a ∈ items)
    (hgroup : inGroup a = true) : a.retention = .degradable ∧ (a.block = .A ∨ a.block = .D) := by
  obtain ⟨hdegradable, hblocks⟩ := validate_iff.mp h
  have hmem : a ∈ items.filter inGroup := List.mem_filter.mpr ⟨ha, hgroup⟩
  refine ⟨hdegradable a hmem, ?_⟩
  rcases hblocks with hnone | ⟨-, -, hall⟩
  · rw [hnone] at hmem
    cases hmem
  · exact hall a hmem

/-! ## A removal -/

theorem inGroup_of_some {group : AtomicGroup} (h : a.atomicGroup = some group) : inGroup a = true :=
  by
  rw [← isSome_atomicGroup, h]
  rfl

theorem some_of_inGroup (h : inGroup a = true) : a.atomicGroup = some .mcpCatalogue := by
  simpa [inGroup] using h

section Removal

variable {block : Block} {items : List BlockItem} {removed : List Nat}

/-- What is removed: candidates, and the protocol of the group that a removed D belongs to. -/
theorem Removal.mem (h : Removal block items removed) (hvalid : validateAtomicGroups items = .ok ())
    (hblock : block = .C ∨ block = .D) {i : Nat} (ha : items[i]? = some a) (hi : i ∈ removed) :
    candidate block a = true ∨
      (block = .D ∧ a.block = .A ∧ a.retention = .degradable ∧ inGroup a = true) := by
  obtain ⟨chosen, -, -, hcandidate, hremoved⟩ := h
  rcases (hremoved i).mp hi with hchosen | ⟨a', group, ha', hgroup, j, hj, b, hb, hgroup'⟩
  · obtain ⟨a', ha', hcand⟩ := hcandidate i hchosen
    cases ha.symm.trans ha'
    exact .inl hcand
  · cases ha.symm.trans ha'
    obtain ⟨b', hb', hcand⟩ := hcandidate j hj
    cases hb.symm.trans hb'
    obtain ⟨hdegradable, hkind⟩ :=
      member_of_valid hvalid (List.mem_of_getElem? ha) (inGroup_of_some hgroup)
    obtain ⟨-, hkind'⟩ := member_of_valid hvalid (List.mem_of_getElem? hb) (inGroup_of_some hgroup')
    simp only [candidate, Bool.and_eq_true, beq_iff_eq] at hcand ⊢
    have hD : block = .D := by
      rw [hcand.1] at hkind'
      rcases hblock with rfl | rfl
      · simp at hkind'
      · rfl
    rcases hkind with hA | hD'
    · exact .inr ⟨hD, hA, hdegradable, inGroup_of_some hgroup⟩
    · exact .inl ⟨hD'.trans hD.symm, hdegradable⟩

theorem Removal.degraded (h : Removal block items removed)
    (hvalid : validateAtomicGroups items = .ok ())
    (hblock : block = .C ∨ block = .D) :
      Degraded items (keepIdx (fun j => decide (j ∉ removed)) items) := by
  refine .of_keepIdx _ fun i a ha hi => ?_
  rcases h.mem hvalid hblock ha (by simpa using hi) with hcand | ⟨-, hA, hdegradable, hgroup⟩
  · simp only [candidate, Bool.and_eq_true, beq_iff_eq] at hcand
    rw [Removable, hcand.1]
    exact ⟨hcand.2, hblock.imp id .inl⟩
  · exact ⟨hdegradable, .inr (.inr ⟨hA, hgroup⟩)⟩

/-- The group goes as a whole or stays as a whole. -/
theorem Removal.group (h : Removal block items removed) :
    (keepIdx (fun j => decide (j ∉ removed)) items).filter inGroup = items.filter inGroup ∨
      (keepIdx (fun j => decide (j ∉ removed)) items).filter inGroup = [] := by
  obtain ⟨chosen, -, -, hcandidate, hremoved⟩ := h
  by_cases hsome : ∃ i ∈ removed, ∃ a, items[i]? = some a ∧ inGroup a = true
  · obtain ⟨i, hi, a, ha, hgroup⟩ := hsome
    -- a member that goes has a chosen one behind it, and so has every other member
    obtain ⟨k, hk, c, hc, hgroup'⟩ : ∃ k ∈ chosen, ∃ c, items[k]? = some c ∧ inGroup c = true := by
      rcases (hremoved i).mp hi with hchosen | ⟨_, _, -, -, j, hj, b, hb, hb'⟩
      · exact ⟨i, hchosen, a, ha, hgroup⟩
      · exact ⟨j, hj, b, hb, inGroup_of_some hb'⟩
    refine .inr (filter_keepIdx_nil _ fun j b hb hmember => ?_)
    rw [decide_eq_false_iff_not, not_not, hremoved]
    exact .inr ⟨b, _, hb, some_of_inGroup hmember, k, hk, c, hc, some_of_inGroup hgroup'⟩
  · refine .inl (filter_keepIdx _ fun i a ha hi => ?_)
    by_contra hgroup
    exact hsome ⟨i, by simpa using hi, a, ha, by simpa using hgroup⟩

/-- The other blocks stay, but for A. -/
theorem Removal.other (h : Removal block items removed)
    (hvalid : validateAtomicGroups items = .ok ())
    (hblock : block = .C ∨ block = .D) {b : Block} (hne : b ≠ block) (hA : b ≠ .A) :
    (keepIdx (fun j => decide (j ∉ removed)) items).filter (·.block == b) =
      items.filter (·.block == b) := by
  refine filter_keepIdx _ fun i a ha hi => ?_
  rw [beq_eq_false_iff_ne]
  rintro rfl
  rcases h.mem hvalid hblock ha (by simpa using hi) with hcand | ⟨-, hA', -⟩
  · simp only [candidate, Bool.and_eq_true, beq_iff_eq] at hcand
    exact hne hcand.1
  · exact hA hA'

end Removal

/-! ## Totals -/

theorem countTotal_eq (items : List BlockItem) :
    countTotal items = min (items.map (·.tokens)).sum u32Max := by
  suffices hfold : ∀ total,
      items.foldl (fun total item => saturatingAdd total item.tokens) (min total u32Max) =
      min (total + (items.map (·.tokens)).sum) u32Max by
    have h := hfold 0
    rwa [Nat.zero_min, Nat.zero_add] at h
  induction items with
  | nil => simp
  | cons a items ih =>
    intro total
    rw [List.foldl_cons, List.map_cons, List.sum_cons, ← Nat.add_assoc, ← ih (total + a.tokens)]
    congr 1
    unfold saturatingAdd
    omega

theorem countTotal_le_of_sum {items left : List BlockItem}
    (h : (left.map (·.tokens)).sum ≤ (items.map (·.tokens)).sum) :
      countTotal left ≤ countTotal items := by
  rw [countTotal_eq, countTotal_eq]
  omega

/-- No conductor is estimated below what its first half is. -/
def Light (items : List BlockItem) : Prop :=
  ∀ a ∈ items, truncates a = true → countTokensUpperBound (firstHalf a.content) ≤ a.tokens

theorem firstHalf_le (text : List Char) :
    countTokensUpperBound (firstHalf text) ≤ countTokensUpperBound text := by
  have hle : bytes (firstHalf text) ≤ bytes text := bytes_le_of_initial (List.take_prefix _ _)
  unfold countTokensUpperBound
  omega

/-- A conductor that has been cut is light. -/
theorem light_truncateItem
    (h : truncates a = true → countTokensUpperBound (firstHalf a.content) ≤ a.tokens) :
    (truncateItem a).tokens ≤ a.tokens ∧
      (truncates (truncateItem a) = true →
        countTokensUpperBound (firstHalf (truncateItem a).content) ≤ (truncateItem a).tokens) := by
  cases ht : truncates a with
  | false =>
    rw [truncateItem_of_not ht]
    exact ⟨le_rfl, h⟩
  | true =>
    unfold truncateItem
    rw [if_pos ht]
    exact ⟨h ht, fun _ => firstHalf_le _⟩

/-! ## What a step leaves -/

/-- A part of the degradation: what it leaves, how many items of D and C it drops, and whether it
cuts a conductor. -/
structure Framed (items left : List BlockItem) (droppedD droppedC : Nat) (truncated : Bool) :
    Prop where
  degraded : Degraded items left
  group : left.filter inGroup = items.filter inGroup ∨ left.filter inGroup = []
  droppedD : items.length < 2 ^ 32 →
    droppedD + left.countP (·.block == .D) = items.countP (·.block == .D)
  droppedC : items.length < 2 ^ 32 →
    droppedC + left.countP (·.block == .C) = items.countP (·.block == .C)
  truncated : truncated = false →
    left.filter (·.block == .conductor) = items.filter (·.block == .conductor)
  light : Light items → Light left ∧ countTotal left ≤ countTotal items

theorem Framed.refl (items : List BlockItem) : Framed items items 0 0 false :=
  ⟨.refl items, .inl rfl, fun _ => Nat.zero_add _, fun _ => Nat.zero_add _, fun _ => rfl,
    fun h => ⟨h, le_rfl⟩⟩

variable {t : Bool}

theorem Framed.trans {items mid left : List BlockItem} {d d' c c' : Nat} {t t' : Bool}
    (h : Framed items mid d c t)
    (h' : Framed mid left d' c' t') : Framed items left (d + d') (c + c') (t || t') := by
  have hlen := h.degraded.length_le
  refine ⟨h.degraded.trans h'.degraded, ?_, fun hlt => ?_, fun hlt => ?_, fun ht => ?_,
    fun hlight => ?_⟩
  · rcases h'.group with hsame | hnone
    · rw [hsame]
      exact h.group
    · exact .inr hnone
  · have hd := h.droppedD hlt
    have hd' := h'.droppedD (hlen.trans_lt hlt)
    omega
  · have hc := h.droppedC hlt
    have hc' := h'.droppedC (hlen.trans_lt hlt)
    omega
  · obtain ⟨ht, ht'⟩ := Bool.or_eq_false_iff.mp ht
    exact (h'.truncated ht').trans (h.truncated ht)
  · obtain ⟨hmid, hle⟩ := h.light hlight
    obtain ⟨hleft, hle'⟩ := h'.light hmid
    exact ⟨hleft, hle'.trans hle⟩

/-- The counters of a list that a counter can count do not saturate. -/
theorem Framed.saturate {items left : List BlockItem} {d c : Nat} (h : Framed items left d c t) :
    Framed items left (min d u32Max) (min c u32Max) t := by
  refine ⟨h.degraded, h.group, fun hlt => ?_, fun hlt => ?_, h.truncated, h.light⟩
  · have hd := h.droppedD hlt
    have hle : items.countP (·.block == .D) ≤ items.length := List.countP_le_length
    rw [Nat.min_eq_left (by unfold u32Max; omega)]
    exact hd
  · have hc := h.droppedC hlt
    have hle : items.countP (·.block == .C) ≤ items.length := List.countP_le_length
    rw [Nat.min_eq_left (by unfold u32Max; omega)]
    exact hc

theorem Framed.valid {items left : List BlockItem} {d c : Nat} (h : Framed items left d c t)
    (hvalid : validateAtomicGroups items = .ok ()) : validateAtomicGroups left = .ok () :=
  valid_of_members hvalid h.group

theorem light_sublist {items left : List BlockItem} (hsub : left.Sublist items) (h : Light items) :
    Light left ∧ countTotal left ≤ countTotal items :=
  ⟨fun a ha => h a (hsub.subset ha),
    countTotal_le_of_sum ((hsub.map _).sum_le_sum fun _ _ => Nat.zero_le _)⟩

/-! ## The steps of a pass -/

theorem framed_oldest {items : List BlockItem} (hvalid : validateAtomicGroups items = .ok ()) :
    ∃ left d, dropHalf .D older items = some (left, d) ∧ Framed items left d 0 false := by
  obtain ⟨removed, hremoval, hdrop⟩ := dropHalf_spec .D older items
  have hsub := keepIdx_sublist items fun j => decide (j ∉ removed)
  refine ⟨_, _, hdrop, hremoval.degraded hvalid (.inr rfl), hremoval.group, fun hlt => ?_,
    fun _ => ?_, fun _ => ?_, light_sublist hsub⟩
  · have hle := hsub.countP_le (p := fun a : BlockItem => a.block == .D)
    have hcount : items.countP (·.block == .D) ≤ items.length := List.countP_le_length
    rw [Nat.mod_eq_of_lt (by omega)]
    omega
  · have hother := hremoval.other hvalid (.inr rfl) (b := .C) (by decide) (by decide)
    rw [Nat.zero_add, List.countP_eq_length_filter, hother, ← List.countP_eq_length_filter]
  · exact hremoval.other hvalid (.inr rfl) (by decide) (by decide)

theorem framed_leastImportant {items : List BlockItem}
    (hvalid : validateAtomicGroups items = .ok ()) :
    ∃ left c, dropHalf .C lessImportant items = some (left, c) ∧ Framed items left 0 c false := by
  obtain ⟨removed, hremoval, hdrop⟩ := dropHalf_spec .C lessImportant items
  have hsub := keepIdx_sublist items fun j => decide (j ∉ removed)
  refine ⟨_, _, hdrop, hremoval.degraded hvalid (.inl rfl), hremoval.group, fun _ => ?_,
    fun hlt => ?_, fun _ => ?_, light_sublist hsub⟩
  · have hother := hremoval.other hvalid (.inl rfl) (b := .D) (by decide) (by decide)
    rw [Nat.zero_add, List.countP_eq_length_filter, hother, ← List.countP_eq_length_filter]
  · have hle := hsub.countP_le (p := fun a : BlockItem => a.block == .C)
    have hcount : items.countP (·.block == .C) ≤ items.length := List.countP_le_length
    rw [Nat.mod_eq_of_lt (by omega)]
    omega
  · exact hremoval.other hvalid (.inl rfl) (by decide) (by decide)

theorem block_truncateItem (a : BlockItem) : (truncateItem a).block = a.block := by
  unfold truncateItem
  split <;> rfl

theorem inGroup_truncateItem (a : BlockItem) : inGroup (truncateItem a) = inGroup a := by
  unfold truncateItem
  split <;> rfl

/-- What a conductor is not is left alone. -/
theorem filter_truncate {p : BlockItem → Bool} {items : List BlockItem}
    (hp : ∀ a ∈ items, p (truncateItem a) = p a)
    (h : ∀ a ∈ items, p a = true → truncates a = false) :
    (items.map truncateItem).filter p = items.filter p := by
  induction items with
  | nil => rfl
  | cons a items ih =>
    obtain ⟨hpa, hrest⟩ := List.forall_mem_cons.mp hp
    obtain ⟨ha, hall⟩ := List.forall_mem_cons.mp h
    rw [List.map_cons, List.filter_cons, List.filter_cons, hpa, ih hrest hall]
    split
    · rename_i hkept
      rw [truncateItem_of_not (ha hkept)]
    · rfl

theorem not_truncates_of_block (h : a.block ≠ .conductor) : truncates a = false := by
  simp [truncates, candidate, h]

theorem framed_truncate {items : List BlockItem} (hvalid : validateAtomicGroups items = .ok ()) :
    Framed items (items.map truncateItem) 0 0 (items.any truncates) := by
  have hblock : ∀ block : Block, ∀ a ∈ items,
      ((truncateItem a).block == block) = (a.block == block) :=
    fun block a _ => by rw [block_truncateItem]
  have hother : ∀ block : Block, block ≠ .conductor →
      (items.map truncateItem).filter (·.block == block) = items.filter (·.block == block) := by
    refine fun block hne => filter_truncate (hblock block) fun a _ ha => not_truncates_of_block ?_
    rw [beq_iff_eq.mp ha]
    exact hne
  refine ⟨.of_truncate items, .inl ?_, fun _ => ?_, fun _ => ?_, fun hnone => ?_, fun hlight => ?_⟩
  · refine filter_truncate (fun a _ => inGroup_truncateItem a) fun a ha hgroup =>
      not_truncates_of_block ?_
    rcases (member_of_valid hvalid ha hgroup).2 with h | h <;> simp [h]
  · rw [Nat.zero_add, List.countP_eq_length_filter, hother .D (by decide),
      ← List.countP_eq_length_filter]
  · rw [Nat.zero_add, List.countP_eq_length_filter, hother .C (by decide),
      ← List.countP_eq_length_filter]
  · refine filter_truncate (hblock .conductor) fun a ha _ => ?_
    simpa using List.any_eq_false.mp hnone a ha
  · constructor
    · intro a ha
      obtain ⟨b, hb, rfl⟩ := List.mem_map.mp ha
      exact (light_truncateItem (hlight b hb)).2
    · refine countTotal_le_of_sum ?_
      rw [List.map_map]
      exact List.sum_le_sum fun a ha => (light_truncateItem (hlight a ha)).1

theorem framed_whenOver (cap : Nat) {step : List BlockItem → Option (List BlockItem × Nat)}
    {items : List BlockItem} {d c : Nat → Nat} (hd : d 0 = 0) (hc : c 0 = 0)
    (h : ∃ left n, step items = some (left, n) ∧ Framed items left (d n) (c n) false) :
    ∃ left n, whenOver cap step items = some (left, n) ∧ Framed items left (d n) (c n) false := by
  unfold whenOver
  split
  · exact h
  · refine ⟨items, 0, rfl, ?_⟩
    rw [hd, hc]
    exact .refl items

/-- A pass is its three steps, some of which are left out. -/
theorem framed_degrade {items : List BlockItem} (hvalid : validateAtomicGroups items = .ok ())
    (cap : Nat) :
    ∃ left d c t, degrade cap items = some (left, d, c, t) ∧ Framed items left d c t := by
  obtain ⟨left₁, d, hstep₁, hframed₁⟩ :=
    framed_whenOver cap (d := id) (c := fun _ => 0) rfl rfl (framed_oldest hvalid)
  obtain ⟨left₂, c, hstep₂, hframed₂⟩ :=
    framed_whenOver cap (d := fun _ => 0) (c :=
      id) rfl rfl (framed_leastImportant (hframed₁.valid hvalid))
  have hboth : Framed items left₂ d c false := by
    simpa using hframed₁.trans hframed₂
  unfold degrade
  rw [hstep₁, Option.bind_eq_bind, Option.bind_some]
  dsimp only
  rw [hstep₂, Option.bind_some]
  dsimp only
  split
  · exact ⟨_, _, _, _, rfl, by simpa using hboth.trans (framed_truncate (hboth.valid hvalid))⟩
  · exact ⟨_, _, _, _, rfl, hboth⟩

/-! ## The report -/

theorem foldl_snapshotEntry (items : List BlockItem) :
    items.foldl snapshotEntry (0, 0) = (countTotal items, min items.length u32Max) := by
  suffices hfold : ∀ total n, items.foldl snapshotEntry (total, min n u32Max) =
      (items.foldl (fun total item => saturatingAdd total item.tokens) total,
        min (n + items.length) u32Max) by
    have h := hfold 0 0
    rwa [Nat.zero_min, Nat.zero_add] at h
  induction items with
  | nil => simp
  | cons a items ih =>
    intro total n
    have hcount : saturatingAdd (min n u32Max) 1 = min (n + 1) u32Max := by
      unfold saturatingAdd
      omega
    rw [List.foldl_cons, List.foldl_cons, snapshotEntry, hcount, ih, List.length_cons]
    congr 2
    omega

/-- Whether there is an item of the block. -/
def occurs (items : List BlockItem) (block : Block) : Bool := items.any (·.block == block)

/-- The tokens and the number of the items of a block. -/
def accounts (items : List BlockItem) (block : Block) : Nat × Nat :=
  (countTotal (items.filter (·.block == block)), min (items.countP (·.block == block)) u32Max)

theorem snapshotPerBlock_eq (items : List BlockItem) :
    snapshotPerBlock items = (blocks.filter (occurs items)).map fun block =>
      (block, accounts items block) := by
  unfold snapshotPerBlock
  induction blocks with
  | nil => rfl
  | cons block rest ih =>
    rw [List.filterMap_cons, List.filter_cons]
    cases hmine : items.filter (·.block == block) with
    | nil =>
      have hnone : occurs items block = false := by
        unfold occurs
        rw [List.any_eq_false]
        exact fun a ha hblock => absurd (List.mem_filter.mpr ⟨ha, hblock⟩) (by rw [hmine]; simp)
      rw [hnone]
      exact ih
    | cons a mine =>
      have hsome : occurs items block = true := by
        obtain ⟨ha, hblock⟩ :=
          List.mem_filter.mp (hmine ▸ List.mem_cons_self : a ∈ items.filter (·.block == block))
        exact List.any_eq_true.mpr ⟨a, ha, hblock⟩
      rw [hsome, if_pos rfl, List.map_cons, ← ih, accounts, List.countP_eq_length_filter, hmine]
      dsimp only
      rw [foldl_snapshotEntry]

/-- A line for each block that there was. -/
def reportPerBlock (items left : List BlockItem) : List BlockTokens :=
  (blocks.filter (occurs items)).map fun block =>
    ⟨block, (accounts items block).1, (accounts left block).1, (accounts items block).2,
      (accounts left block).2⟩

theorem find_snapshot (left : List BlockItem) (block : Block) :
    (((snapshotPerBlock left).find? fun e => e.1 == block).map (·.2)).getD (0, 0) =
      accounts left block := by
  rw [snapshotPerBlock_eq, List.find?_map, Option.map_map]
  cases hfind : (blocks.filter (occurs left)).find? ((fun e : Block × Nat × Nat => e.1 == block) ∘
      fun b => (b, accounts left b)) with
  | none =>
    have hnone : occurs left block = false := by
      by_contra hoccurs
      have hmem : block ∈ blocks.filter (occurs left) := by
        refine List.mem_filter.mpr ⟨?_, by simpa using hoccurs⟩
        cases block <;> decide
      simpa using List.find?_eq_none.mp hfind block hmem
    have hempty : left.filter (·.block == block) = [] :=
      List.filter_eq_nil_iff.mpr (List.any_eq_false.mp hnone)
    rw [accounts, List.countP_eq_length_filter, hempty]
    rfl
  | some b =>
    have hb := List.find?_some hfind
    obtain rfl : b = block := by simpa using hb
    rfl

theorem buildPerBlock_snapshots (items left : List BlockItem) :
    buildPerBlock (snapshotPerBlock items) (snapshotPerBlock left) = reportPerBlock items left := by
  unfold buildPerBlock reportPerBlock
  conv_lhs => rw [snapshotPerBlock_eq items]
  rw [List.map_map]
  refine List.map_congr_left fun block _ => ?_
  simp only [Function.comp_apply, find_snapshot]

/-! ## Both functions -/

/-- What a degradation leaves, and what it reports. -/
structure Enforced (items : List BlockItem) (cap : Nat) (left : List BlockItem)
    (detail : BudgetExceededDetail) : Prop where
  framed : Framed items left detail.droppedDCount detail.droppedCCount detail.conductorTruncated
  kept : left.filter isProtected = items.filter isProtected
  valid : validateAtomicGroups left = .ok ()
  totals : detail.cap = cap ∧ detail.originalTotal = countTotal items ∧
    detail.newTotal = countTotal left
  perBlock : detail.perBlock = reportPerBlock items left

theorem Framed.enforced {items left : List BlockItem} {cap d c : Nat} (h : Framed items left d c t)
    (hvalid : validateAtomicGroups items = .ok ()) :
    Enforced items cap left ⟨cap, countTotal items, countTotal left, d, c, t,
      buildPerBlock (snapshotPerBlock items) (snapshotPerBlock left)⟩ :=
  ⟨h, h.degraded.kept, h.valid hvalid, ⟨rfl, rfl, rfl⟩, buildPerBlock_snapshots items left⟩

/-- A function frames the list: an invalid list is refused and left alone, a list under the cap is
left alone, and any other is degraded. -/
def Frames (enforce : List BlockItem → Nat →
    Option (List BlockItem × Except String (Option BudgetExceededDetail))) : Prop :=
  ∀ items cap,
    (∀ e, validateAtomicGroups items = .error e → enforce items cap = some (items, .error e)) ∧
    (validateAtomicGroups items = .ok () → countTotal items ≤ cap →
      enforce items cap = some (items, .ok none)) ∧
    (validateAtomicGroups items = .ok () → cap < countTotal items →
      ∃ left detail, enforce items cap = some (left, .ok (some detail)) ∧
      Enforced items cap left detail)

theorem enforceBudget_over {items : List BlockItem} {cap : Nat}
    (hvalid : validateAtomicGroups items = .ok ())
    (hover : cap < countTotal items) : ∃ left d c t, degrade cap items = some (left, d, c, t) ∧
      Framed items left d c t ∧
      enforceBudget items cap = some (left, .ok (some ⟨cap, countTotal items, countTotal left,
        d, c, t, buildPerBlock (snapshotPerBlock items) (snapshotPerBlock left)⟩)) := by
  obtain ⟨left, d, c, t, hdegrade, hframed⟩ := framed_degrade hvalid cap
  refine ⟨left, d, c, t, hdegrade, hframed, ?_⟩
  unfold enforceBudget
  simp only [hvalid]
  rw [if_neg (Nat.not_le.mpr hover), hdegrade]
  rfl

theorem frames_enforceBudget : Frames enforceBudget := by
  intro items cap
  refine ⟨fun e he => ?_, fun hvalid hunder => ?_, fun hvalid hover => ?_⟩
  · unfold enforceBudget
    simp only [he]
  · unfold enforceBudget
    simp only [hvalid]
    rw [if_pos hunder]
  · obtain ⟨left, d, c, t, -, hframed, heq⟩ := enforceBudget_over hvalid hover
    exact ⟨left, _, heq, hframed.enforced hvalid⟩

/-- The loop adds up what its passes do. -/
theorem framed_fitLoop (cap : Nat) {items start : List BlockItem} {tally : Tally}
    (hvalid : validateAtomicGroups start = .ok ())
    (hstart : Framed start items tally.droppedD tally.droppedC tally.truncated) :
    ∃ left tally', fitLoop cap items tally = some (left, .ok tally') ∧
      Framed start left tally'.droppedD tally'.droppedC tally'.truncated := by
  induction htotal : countTotal items using Nat.strong_induction_on generalizing items tally with
  | _ n ih =>
    rw [fitLoop]
    split
    · rename_i hover
      obtain ⟨left, d, c, t, -, hframed, heq⟩ := enforceBudget_over (hstart.valid hvalid) hover
      have hnext : Framed start left (saturatingAdd tally.droppedD d)
          (saturatingAdd tally.droppedC c) (tally.truncated || t) := (hstart.trans hframed).saturate
      rw [heq]
      dsimp only
      split
      · rename_i hless
        exact ih _ (htotal ▸ hless) hnext rfl
      · exact ⟨left, _, rfl, hnext⟩
    · exact ⟨items, tally, rfl, hstart⟩

theorem frames_enforceBudgetToFit : Frames enforceBudgetToFit := by
  intro items cap
  refine ⟨fun e he => ?_, fun hvalid hunder => ?_, fun hvalid hover => ?_⟩
  · unfold enforceBudgetToFit
    simp only [he]
  · unfold enforceBudgetToFit
    simp only [hvalid]
    rw [if_pos hunder]
  · obtain ⟨left, tally, hloop, hframed⟩ :=
      @framed_fitLoop cap items items ⟨0, 0, false⟩ hvalid (.refl items)
    refine ⟨left, _, ?_, hframed.enforced hvalid⟩
    unfold enforceBudgetToFit
    simp only [hvalid]
    rw [if_neg (Nat.not_le.mpr hover), hloop]

/-- **The budget frames the prompt**, in one pass and in as many as it takes. -/
theorem budget_frame : Frames enforceBudget ∧ Frames enforceBudgetToFit :=
  ⟨frames_enforceBudget, frames_enforceBudgetToFit⟩

/-- A conductor text of ten bytes that a tokenizer counts as two tokens. -/
def sampleConductor : BlockItem :=
  { BlockItem.new .conductor "aaaaaaaaaa".toList with tokens := 2 }

/-- Cut in half, it is counted by its five bytes. -/
theorem truncation_raises_the_total :
    ¬ ∀ (items left : List BlockItem) (cap : Nat) (detail : BudgetExceededDetail),
      validateAtomicGroups items = .ok () →
      enforceBudget items cap = some (left, .ok (some detail)) →
      countTotal left ≤ countTotal items := by
  intro h
  have hvalid : validateAtomicGroups [sampleConductor] = .ok () := rfl
  obtain ⟨left, d, c, t, hdegrade, -, heq⟩ :=
    enforceBudget_over hvalid (show 1 < countTotal [sampleConductor] by decide)
  have hle := h _ _ _ _ hvalid heq
  have hleft : degrade 1 [sampleConductor] = some ([truncateItem sampleConductor], 0, 0, true) := by
    decide +kernel
  cases hdegrade.symm.trans hleft
  revert hle
  decide

end Neoth.Tokens
