import Neoth.Tokens.PromptFrame

/-!
# Passes until it fits

The loop of `enforce_budget_to_fit` ends at the first pass that does not make the total smaller.  A
pass over items without tokens is such a pass, whatever stands behind them.

* `Exhausted`: nothing is left to degrade;
* `AtLast`: one pass more leaves nothing to degrade (`exhausted_degrade_iff`);
* `Sheds`: what the pass is to take off is enough (`sheds_iff`);
* **`fits_or_exhausts_iff`**: the loop stops over the cap with something left if and only if one of
  its passes begins with a list that sheds nothing and has something to leave.
-/

open Lib Lib.Lists Lib.Text

namespace Neoth.Tokens

/-! ## Nothing left to degrade -/

def isDegradable (a : BlockItem) : Bool := a.block.isDegradable && a.retention == .degradable

/-- Every degradable item is a conductor that truncation leaves as it is. -/
def Exhausted (items : List BlockItem) : Prop :=
  ∀ a ∈ items, isDegradable a = true → a.block = .conductor ∧ truncateItem a = a

theorem isDegradable_iff {a : BlockItem} : isDegradable a = true ↔
    candidate .C a = true ∨ candidate .D a = true ∨ candidate .conductor a = true := by
  unfold isDegradable candidate Block.isDegradable
  cases a.block <;> cases a.retention <;> decide

theorem exhausted_iff {items : List BlockItem} : Exhausted items ↔
    (∀ a ∈ items, candidate .D a = false) ∧ (∀ a ∈ items, candidate .C a = false) ∧
      ∀ a ∈ items, candidate .conductor a = true → truncateItem a = a := by
  have hblock : ∀ {b : Block} {a : BlockItem}, candidate b a = true → a.block = b := by
    intro b a h
    simp only [candidate, Bool.and_eq_true, beq_iff_eq] at h
    exact h.1
  constructor
  · intro h
    refine ⟨fun a ha => ?_, fun a ha => ?_, fun a ha hcand => ?_⟩
    · by_contra hD
      have hcand : candidate .D a = true := by simpa using hD
      have hconductor := (h a ha (isDegradable_iff.mpr (.inr (.inl hcand)))).1
      rw [hblock hcand] at hconductor
      cases hconductor
    · by_contra hC
      have hcand : candidate .C a = true := by simpa using hC
      have hconductor := (h a ha (isDegradable_iff.mpr (.inl hcand))).1
      rw [hblock hcand] at hconductor
      cases hconductor
    · exact (h a ha (isDegradable_iff.mpr (.inr (.inr hcand)))).2
  · rintro ⟨hD, hC, hconductor⟩ a ha hdegradable
    rcases isDegradable_iff.mp hdegradable with hcand | hcand | hcand
    · cases hcand.symm.trans (hC a ha)
    · cases hcand.symm.trans (hD a ha)
    · exact ⟨hblock hcand, hconductor a ha hcand⟩

/-! ## What a removal leaves of its candidates -/

/-- There is one D in the group. -/
theorem one_D_of_valid {items : List BlockItem} (h : validateAtomicGroups items = .ok ()) :
    (items.countP fun a => inGroup a && a.block == .D) ≤ 1 := by
  have hcount : (items.countP fun a => inGroup a && a.block == .D) =
      (items.filter inGroup).countP (·.block == .D) := by
    rw [List.countP_filter]
    exact List.countP_congr fun a _ => by rw [Bool.and_comm]
  rw [hcount]
  obtain ⟨-, hnone | ⟨-, hD, -⟩⟩ := validate_iff.mp h
  · simp [hnone]
  · exact hD.le

section Removal

variable {block : Block} {items : List BlockItem} {removed : List Nat}

/-- A candidate that is removed has been chosen: the group brings in no other one. -/
theorem Removal.chosen_of_candidate (h : Removal block items removed)
    (hvalid : validateAtomicGroups items = .ok ())
    (hblock : block = .C ∨ block = .D) : ∃ chosen : List Nat, chosen.Nodup ∧
      chosen.length = (items.countP (candidate block) + 1) / 2 ∧
      (∀ i ∈ chosen, ∃ a, items[i]? = some a ∧ candidate block a = true) ∧
      ∀ i a, items[i]? = some a → candidate block a = true → (i ∈ removed ↔ i ∈ chosen) := by
  obtain ⟨chosen, hnodup, hlength, hcandidate, hremoved⟩ := h
  refine ⟨chosen, hnodup, hlength, hcandidate,
    fun i a ha hcand => ⟨fun hi => ?_, fun hi => (hremoved i).mpr (.inl hi)⟩⟩
  rcases (hremoved i).mp hi with hchosen | ⟨a', group, ha', hgroup, j, hj, b, hb, hgroup'⟩
  · exact hchosen
  · cases ha.symm.trans ha'
    obtain ⟨b', hb', hcand'⟩ := hcandidate j hj
    cases hb.symm.trans hb'
    simp only [candidate, Bool.and_eq_true, beq_iff_eq] at hcand hcand'
    have hD : block = .D := by
      have hkind := (member_of_valid hvalid (List.mem_of_getElem? ha) (inGroup_of_some hgroup)).2
      rw [hcand.1] at hkind
      rcases hblock with rfl | rfl
      · simp at hkind
      · rfl
    have hsame : i = j := eq_of_countP_le_one (one_D_of_valid hvalid) ha hb
      (by simp [inGroup_of_some hgroup, hcand.1, hD])
        (by simp [inGroup_of_some hgroup', hcand'.1, hD])
    exact hsame ▸ hj

/-- The half that is left is empty if there was one candidate at most. -/
theorem Removal.none_left_iff (h : Removal block items removed)
    (hvalid : validateAtomicGroups items = .ok ()) (hblock : block = .C ∨ block = .D) :
    (∀ a ∈ keepIdx (fun j => decide (j ∉ removed)) items, candidate block a = false) ↔
      items.countP (candidate block) ≤ 1 := by
  obtain ⟨chosen, hnodup, hlength, hcandidate, hremoved⟩ := h.chosen_of_candidate hvalid hblock
  constructor
  · intro hnone
    -- all candidates have been chosen, and they are no more than the half of themselves
    have hsubset : (items.zipIdx.filter fun x => candidate block x.1).map (·.2) ⊆ chosen := by
      intro i hi
      obtain ⟨⟨a, j⟩, hmem, rfl⟩ := List.mem_map.mp hi
      obtain ⟨hzip, hcand⟩ := List.mem_filter.mp hmem
      have ha := List.mem_zipIdx_iff_getElem?.mp hzip
      by_contra hnot
      have hkept : a ∈ keepIdx (fun j => decide (j ∉ removed)) items :=
        (mem_keepIdx _).mpr ⟨j, ha, by simpa using fun hj => hnot ((hremoved j a ha hcand).mp hj)⟩
      cases hcand.symm.trans (hnone a hkept)
    have hindices : ((items.zipIdx.filter fun x => candidate block x.1).map (·.2)).Nodup := by
      refine (List.filter_sublist.map _).nodup ?_
      rw [List.zipIdx_map_snd]
      exact List.nodup_range'
    have hle := (List.subperm_of_subset hindices hsubset).length_le
    rw [List.length_map, length_candidates, hlength] at hle
    omega
  · intro hle a ha
    obtain ⟨i, hi, hkept⟩ := (mem_keepIdx _).mp ha
    by_contra hcand
    have hcand : candidate block a = true := by simpa using hcand
    have hpos := List.countP_pos_iff.mpr ⟨a, List.mem_of_getElem? hi, hcand⟩
    obtain ⟨j, hj⟩ : ∃ j, j ∈ chosen := List.exists_mem_of_length_pos (by omega)
    obtain ⟨b, hb, hcand'⟩ := hcandidate j hj
    have hsame : i = j := eq_of_countP_le_one hle hi hb hcand hcand'
    have hremoved' := (hremoved i a hi hcand).mpr (hsame ▸ hj)
    simp [hremoved'] at hkept

theorem Removal.candidates (h : Removal block items removed)
    (hvalid : validateAtomicGroups items = .ok ())
    (hblock : block = .C ∨ block = .D) {b : Block} (hne : b ≠ block) (hA : b ≠ .A) :
    (keepIdx (fun j => decide (j ∉ removed)) items).filter (candidate b) =
      items.filter (candidate b) := by
  have hsplit : ∀ l : List BlockItem, l.filter (candidate b) =
      (l.filter (·.block == b)).filter (·.retention == .degradable) := by
    intro l
    rw [List.filter_filter]
    exact List.filter_congr fun a _ => Bool.and_comm _ _
  rw [hsplit, h.other hvalid hblock hne hA, ← hsplit]

end Removal

/-! ## The last pass -/

/-- One pass more takes all that there is to take. -/
def AtLast (items : List BlockItem) : Prop :=
  items.countP (candidate .D) ≤ 1 ∧ items.countP (candidate .C) ≤ 1 ∧
    ∀ a ∈ items, candidate .conductor a = true → truncateItem (truncateItem a) = truncateItem a

theorem candidate_truncateItem (block : Block) (a : BlockItem) : candidate block
    (truncateItem a) = candidate block a := by
  unfold truncateItem
  split <;> rfl

theorem exhausted_truncate_iff {items : List BlockItem} : Exhausted (items.map truncateItem) ↔
    (∀ a ∈ items, candidate .D a = false) ∧ (∀ a ∈ items, candidate .C a = false) ∧
      ∀ a ∈ items, candidate .conductor a = true →
      truncateItem (truncateItem a) = truncateItem a := by
  simp only [exhausted_iff, List.forall_mem_map, candidate_truncateItem]

theorem forall_filter_congr {p : BlockItem → Bool} {Q : BlockItem → Prop} {l l' : List BlockItem}
    (h : l.filter p = l'.filter p) : (∀ a ∈ l, p a = true → Q a) ↔ ∀ a ∈ l', p a = true → Q a := by
  have hfilter : ∀ l : List BlockItem, (∀ a ∈ l, p a = true → Q a) ↔ ∀ a ∈ l.filter p, Q a := by
    intro l
    simp only [List.mem_filter, and_imp]
  rw [hfilter, h, ← hfilter]

theorem none_filter_congr {p : BlockItem → Bool} {l l' : List BlockItem}
    (h : l.filter p = l'.filter p) : (∀ a ∈ l, p a = false) ↔ ∀ a ∈ l', p a = false := by
  have hnone := forall_filter_congr (Q := fun _ => False) h
  simpa using hnone

/-- A pass that takes nothing off the total goes through all three steps. -/
theorem exhausted_degrade_iff {items left : List BlockItem} {cap d c : Nat} {t : Bool}
    (hvalid : validateAtomicGroups items = .ok ()) (hover : cap < countTotal items)
    (hdegrade : degrade cap items = some (left, d, c, t))
    (hstall : countTotal items ≤ countTotal left) : Exhausted left ↔ AtLast items := by
  obtain ⟨removed₁, hremoval₁, hdrop₁⟩ := dropHalf_spec .D older items
  have hsub₁ := keepIdx_sublist items fun j => decide (j ∉ removed₁)
  have hvalid₁ := valid_of_members hvalid hremoval₁.group
  have hD := hremoval₁.none_left_iff hvalid (.inr rfl)
  have hC₁ := hremoval₁.candidates hvalid (.inr rfl) (b := .C) (by decide) (by decide)
  have hconductor₁ := hremoval₁.candidates hvalid (.inr rfl) (b := .conductor) (by decide)
    (by decide)
  unfold degrade whenOver at hdegrade
  rw [if_pos hover, hdrop₁, Option.bind_eq_bind, Option.bind_some] at hdegrade
  dsimp only at hdegrade
  generalize keepIdx (fun j => decide (j ∉ removed₁)) items = left₁ at *
  have hover₁ : cap < countTotal left₁ := by
    by_contra hunder
    rw [if_neg hunder, Option.bind_some] at hdegrade
    simp only [hunder, if_false, Option.some.injEq, Prod.mk.injEq] at hdegrade
    obtain ⟨rfl, -⟩ := hdegrade
    omega
  obtain ⟨removed₂, hremoval₂, hdrop₂⟩ := dropHalf_spec .C lessImportant left₁
  have hsub₂ := keepIdx_sublist left₁ fun j => decide (j ∉ removed₂)
  have hC := hremoval₂.none_left_iff hvalid₁ (.inl rfl)
  have hD₂ := hremoval₂.candidates hvalid₁ (.inl rfl) (b := .D) (by decide) (by decide)
  have hconductor₂ := hremoval₂.candidates hvalid₁ (.inl rfl) (b := .conductor) (by decide)
    (by decide)
  rw [if_pos hover₁, hdrop₂, Option.bind_some] at hdegrade
  dsimp only at hdegrade
  generalize keepIdx (fun j => decide (j ∉ removed₂)) left₁ = left₂ at *
  split at hdegrade <;> simp only [Option.some.injEq, Prod.mk.injEq] at hdegrade
  · obtain ⟨rfl, -⟩ := hdegrade
    have hcount : left₁.countP (candidate .C) = items.countP (candidate .C) := by
      rw [List.countP_eq_length_filter, hC₁, ← List.countP_eq_length_filter]
    rw [exhausted_truncate_iff, none_filter_congr hD₂, hD, hC, hcount,
      forall_filter_congr (hconductor₂.trans hconductor₁)]
    rfl
  · obtain ⟨rfl, -⟩ := hdegrade
    omega

/-! ## What a pass takes off -/

def weight (items : List BlockItem) : Nat := (items.map (·.tokens)).sum

/-- What the first half of the candidates weighs, with the protocol of a group that goes with its
data. -/
def halfWeight (block : Block) (le : BlockItem → BlockItem → Bool) (items : List BlockItem) : Nat :=
  weight (lowestHalf block le items) +
    if (lowestHalf block le items).any inGroup then
      weight (items.filter fun a => inGroup a && a.block == .A) else 0

/-- The conductors that may be cut. -/
def conductors (items : List BlockItem) : List BlockItem := items.filter (candidate .conductor)

/-- The old half of D and the less important half of C weigh what the list is over the cap, or the
total, which saturates, is smaller without them and with the estimates of the conductors that are
cut. -/
def Sheds (cap : Nat) (items : List BlockItem) : Prop :=
  weight items ≤ cap + (halfWeight .D older items + halfWeight .C lessImportant items) ∨
    min (weight items + weight ((conductors items).map truncateItem) -
      (halfWeight .D older items + halfWeight .C lessImportant items + weight (conductors items)))
        u32Max <
    min (weight items) u32Max

section Weights

variable {block : Block} {items : List BlockItem} {le : BlockItem → BlockItem → Bool}

theorem mem_lowestHalf {a : BlockItem} (h : a ∈ lowestHalf block le items) :
    a ∈ items ∧ candidate block a = true :=
  List.mem_filter.mp (List.mem_mergeSort.mp (List.mem_of_mem_take h))

/-- A chosen item in the group is its D. -/
theorem block_eq_D_of_group {a : BlockItem} (hvalid : validateAtomicGroups items = .ok ())
    (hblock : block = .C ∨ block = .D) (ha : a ∈ items) (hcand : candidate block a = true)
    (hgroup : inGroup a = true) : block = .D ∧ a.block = .D := by
  simp only [candidate, Bool.and_eq_true, beq_iff_eq] at hcand
  have hkind := (member_of_valid hvalid ha hgroup).2
  rw [hcand.1] at hkind ⊢
  rcases hblock with rfl | rfl
  · simp at hkind
  · exact ⟨rfl, rfl⟩

/-- The places of the protocol, if a chosen item brings it in. -/
def protocolPlaces (chosen : List BlockItem) (items : List BlockItem) : List Nat :=
  if chosen.any inGroup then (items.zipIdx.filter fun x => inGroup x.1 && x.1.block == .A).map (·.2)
  else []

theorem mem_protocolPlaces {chosen : List BlockItem} {i : Nat} : i ∈ protocolPlaces chosen items ↔
    chosen.any inGroup = true ∧ ∃ a, items[i]? = some a ∧ inGroup a = true ∧ a.block = .A := by
  unfold protocolPlaces
  split
  · rename_i hany
    rw [hany]
    simp only [List.mem_map, List.mem_filter, Bool.and_eq_true, beq_iff_eq, true_and]
    constructor
    · rintro ⟨⟨a, j⟩, ⟨hzip, hgroup⟩, rfl⟩
      exact ⟨a, List.mem_zipIdx_iff_getElem?.mp hzip, hgroup⟩
    · rintro ⟨a, ha, hgroup⟩
      exact ⟨(a, i), ⟨List.mem_zipIdx_iff_getElem?.mpr ha, hgroup⟩, rfl⟩
  · rename_i hnone
    simp [hnone]

theorem items_protocolPlaces (chosen : List BlockItem) :
    (protocolPlaces chosen items).filterMap (items[·]?) =
    if chosen.any inGroup then items.filter fun a => inGroup a && a.block == .A else [] := by
  unfold protocolPlaces
  split
  · conv_rhs => rw [← List.zipIdx_map_fst 0 items, List.filter_map, ← List.filterMap_eq_map]
    rw [List.filterMap_map]
    refine List.filterMap_congr fun x hx => ?_
    exact List.mem_zipIdx_iff_getElem?.mp (List.mem_filter.mp hx).1
  · rfl

theorem nodup_protocolPlaces (chosen : List BlockItem) : (protocolPlaces chosen items).Nodup := by
  unfold protocolPlaces
  split
  · refine (List.filter_sublist.map _).nodup ?_
    rw [List.zipIdx_map_snd]
    exact List.nodup_range'
  · exact List.nodup_nil

/-- Beside what is chosen only the protocol goes. -/
theorem Removes.mem_iff {chosen removed : List Nat} (h : Removes block items chosen removed)
    (hitems : chosen.filterMap (items[·]?) = lowestHalf block le items)
    (hvalid : validateAtomicGroups items = .ok ()) (hblock : block = .C ∨ block = .D) (i : Nat) :
    i ∈ removed ↔ i ∈ chosen ++ protocolPlaces (lowestHalf block le items) items := by
  obtain ⟨-, -, hcandidate, hremoved⟩ := h
  have hany : (lowestHalf block le items).any inGroup = true ↔
      ∃ j ∈ chosen, ∃ b, items[j]? = some b ∧ inGroup b = true := by
    rw [← hitems, List.any_eq_true]
    simp only [List.mem_filterMap]
    constructor
    · rintro ⟨b, ⟨j, hj, hb⟩, hgroup⟩
      exact ⟨j, hj, b, hb, hgroup⟩
    · rintro ⟨j, hj, b, hb, hgroup⟩
      exact ⟨b, ⟨j, hj, hb⟩, hgroup⟩
  rw [hremoved, List.mem_append, mem_protocolPlaces, hany]
  constructor
  · rintro (hi | ⟨a, group, ha, hgroup, j, hj, b, hb, hgroup'⟩)
    · exact .inl hi
    obtain ⟨b', hb', hcand⟩ := hcandidate j hj
    cases hb.symm.trans hb'
    obtain ⟨-, hD⟩ := block_eq_D_of_group hvalid hblock (List.mem_of_getElem? hb) hcand
      (inGroup_of_some hgroup')
    rcases (member_of_valid hvalid (List.mem_of_getElem? ha)
      (inGroup_of_some hgroup)).2 with hA | hD'
    · exact .inr ⟨⟨j, hj, b, hb, inGroup_of_some hgroup'⟩, a, ha, inGroup_of_some hgroup, hA⟩
    · -- there is one D in the group
      have hsame : i = j := eq_of_countP_le_one (one_D_of_valid hvalid) ha hb
        (by simp [inGroup_of_some hgroup, hD']) (by simp [inGroup_of_some hgroup', hD])
      exact .inl (hsame ▸ hj)
  · rintro (hi | ⟨⟨j, hj, b, hb, hgroup'⟩, a, ha, hgroup, -⟩)
    · exact .inl hi
    · exact .inr ⟨a, _, ha, some_of_inGroup hgroup, j, hj, b, hb, some_of_inGroup hgroup'⟩

/-- **What a removal takes off** is what the first half of the candidates weighs. -/
theorem weight_removed {chosen removed : List Nat} (h : Removes block items chosen removed)
    (hitems : chosen.filterMap (items[·]?) = lowestHalf block le items)
    (hvalid : validateAtomicGroups items = .ok ()) (hblock : block = .C ∨ block = .D) :
    weight (keepIdx (fun j => decide (j ∉ removed)) items) + halfWeight block le items =
      weight items := by
  have hmem := h.mem_iff hitems hvalid hblock
  obtain ⟨hnodup, -, hcandidate, -⟩ := h
  have hdisjoint : chosen.Disjoint (protocolPlaces (lowestHalf block le items) items) := by
    intro i hi hprotocol
    obtain ⟨a, ha, hcand⟩ := hcandidate i hi
    obtain ⟨-, b, hb, hgroup, hA⟩ := mem_protocolPlaces.mp hprotocol
    cases ha.symm.trans hb
    obtain ⟨-, hD⟩ := block_eq_D_of_group hvalid hblock (List.mem_of_getElem? ha) hcand hgroup
    rw [hA] at hD
    cases hD
  have hplaces : ∀ i ∈ chosen ++ protocolPlaces (lowestHalf block le items) items,
      i < items.length := by
    intro i hi
    rcases List.mem_append.mp hi with hi | hi
    · obtain ⟨a, ha, -⟩ := hcandidate i hi
      exact (List.getElem?_eq_some_iff.mp ha).1
    · obtain ⟨-, a, ha, -⟩ := mem_protocolPlaces.mp hi
      exact (List.getElem?_eq_some_iff.mp ha).1
  have hsum := sum_keepIdx BlockItem.tokens (List.nodup_append.mpr ⟨hnodup, nodup_protocolPlaces _,
    fun i hi j hj heq => hdisjoint hi (heq ▸ hj)⟩) hplaces
  have hkeep : (fun j => decide (j ∉ removed)) =
      fun j => decide (j ∉ chosen ++ protocolPlaces (lowestHalf block le items) items) := by
    funext j
    exact decide_eq_decide.mpr (not_congr (hmem j))
  rw [List.filterMap_append, hitems, items_protocolPlaces, List.map_append, List.sum_append] at hsum
  rw [hkeep, halfWeight, weight, weight, weight, weight, ← hsum]
  split <;> simp [*]

end Weights

theorem weight_truncate (items : List BlockItem) :
    weight (items.map truncateItem) + weight (conductors items) =
      weight items + weight ((conductors items).map truncateItem) := by
  induction items with
  | nil => rfl
  | cons a items ih =>
    simp only [weight, conductors, List.map_cons, List.sum_cons, List.filter_cons] at ih ⊢
    split
    · simp only [List.map_cons, List.sum_cons]
      omega
    · rename_i hcand
      have hnot : truncates a = false := by simp [truncates, hcand]
      rw [truncateItem_of_not hnot]
      omega

theorem weight_conductors_le (items : List BlockItem) : weight (conductors items) ≤ weight items :=
  (List.filter_sublist.map _).sum_le_sum fun _ _ => Nat.zero_le _

theorem halfWeight_C_congr {items left : List BlockItem}
    (hvalid : validateAtomicGroups items = .ok ())
    (hvalid' : validateAtomicGroups left = .ok ())
    (h : left.filter (candidate .C) = items.filter (candidate .C)) :
    halfWeight .C lessImportant left = halfWeight .C lessImportant items := by
  have hhalf : lowestHalf .C lessImportant left = lowestHalf .C lessImportant items := by
    unfold lowestHalf
    rw [List.countP_eq_length_filter, h, List.countP_eq_length_filter]
  have hnone : ∀ {l : List BlockItem}, validateAtomicGroups l = .ok () →
      (lowestHalf .C lessImportant l).any inGroup = false := by
    intro l hl
    rw [List.any_eq_false]
    intro a ha hgroup
    obtain ⟨hmem, hcand⟩ := mem_lowestHalf ha
    cases (block_eq_D_of_group hl (.inl rfl) hmem hcand hgroup).1
  rw [halfWeight, halfWeight, hnone hvalid, hnone hvalid', hhalf]
  rfl

/-- **A pass makes the total smaller if and only if the list sheds.** -/
theorem sheds_iff {items left : List BlockItem} {cap d c : Nat} {t : Bool}
    (hvalid : validateAtomicGroups items = .ok ()) (hover : cap < countTotal items)
    (hdegrade : degrade cap items = some (left, d, c, t)) :
    countTotal left < countTotal items ↔ Sheds cap items := by
  obtain ⟨chosen₁, removed₁, hremoves₁, hitems₁, hdrop₁⟩ := dropHalf_chosen .D older items
  have hremoval₁ : Removal .D items removed₁ := ⟨chosen₁, hremoves₁⟩
  have hvalid₁ := valid_of_members hvalid hremoval₁.group
  have hC₁ := hremoval₁.candidates hvalid (.inr rfl) (b := .C) (by decide) (by decide)
  have hconductor₁ := hremoval₁.candidates hvalid (.inr rfl) (b := .conductor) (by decide)
    (by decide)
  have hweight₁ := weight_removed hremoves₁ hitems₁ hvalid (.inr rfl)
  unfold degrade whenOver at hdegrade
  rw [if_pos hover, hdrop₁, Option.bind_eq_bind, Option.bind_some] at hdegrade
  dsimp only at hdegrade
  generalize keepIdx (fun j => decide (j ∉ removed₁)) items = left₁ at *
  obtain ⟨chosen₂, removed₂, hremoves₂, hitems₂, hdrop₂⟩ := dropHalf_chosen .C lessImportant left₁
  have hremoval₂ : Removal .C left₁ removed₂ := ⟨chosen₂, hremoves₂⟩
  have hconductor₂ := hremoval₂.candidates hvalid₁ (.inl rfl) (b := .conductor) (by decide)
    (by decide)
  have hweight₂ := weight_removed hremoves₂ hitems₂ hvalid₁ (.inl rfl)
  rw [halfWeight_C_congr hvalid hvalid₁ hC₁] at hweight₂
  have htotal : ∀ l : List BlockItem, countTotal l = min (weight l) u32Max := countTotal_eq
  rw [htotal] at hover
  unfold Sheds
  by_cases hover₁ : cap < countTotal left₁
  · rw [if_pos hover₁, hdrop₂, Option.bind_some] at hdegrade
    dsimp only at hdegrade
    generalize keepIdx (fun j => decide (j ∉ removed₂)) left₁ = left₂ at *
    have hsame : conductors left₂ = conductors items := hconductor₂.trans hconductor₁
    have hcut := weight_truncate left₂
    have hle := weight_conductors_le left₂
    rw [hsame] at hcut hle
    rw [htotal] at hover₁
    split at hdegrade <;> rename_i hover₂ <;>
      simp only [Option.some.injEq, Prod.mk.injEq] at hdegrade <;> rw [htotal] at hover₂ <;>
      obtain ⟨rfl, -⟩ := hdegrade <;> rw [htotal, htotal] <;> omega
  · rw [if_neg hover₁, Option.bind_some] at hdegrade
    simp only [hover₁, if_false, Option.some.injEq, Prod.mk.injEq] at hdegrade
    obtain ⟨rfl, -⟩ := hdegrade
    rw [htotal] at hover₁
    rw [htotal, htotal]
    omega

/-! ## The loop -/

/-- The lists over the cap with which a pass of the loop begins. -/
inductive PassBegins (cap : Nat) : List BlockItem → List BlockItem → Prop
  | first {items : List BlockItem} : cap < countTotal items → PassBegins cap items items
  | next {items left s : List BlockItem} {d c : Nat} {t : Bool} : cap < countTotal items →
    Sheds cap items →
      degrade cap items = some (left, d, c, t) → PassBegins cap left s → PassBegins cap items s

theorem fitLoop_iff {cap : Nat} {items : List BlockItem} {tally : Tally}
    (hvalid : validateAtomicGroups items = .ok ()) :
    ∃ left tally', fitLoop cap items tally = some (left, .ok tally') ∧
      ((cap < countTotal left → Exhausted left) ↔ ∀ s, PassBegins cap items s →
        Sheds cap s ∨ AtLast s) := by
  induction htotal : countTotal items using Nat.strong_induction_on generalizing items tally with
  | _ n ih =>
    rw [fitLoop]
    by_cases hover : cap < countTotal items
    · obtain ⟨left, d, c, t, hdegrade, hframed, heq⟩ := enforceBudget_over hvalid hover
      rw [if_pos hover, heq]
      dsimp only
      have hsheds := sheds_iff hvalid hover hdegrade
      by_cases hless : countTotal left < countTotal items
      · rw [dif_pos hless]
        obtain ⟨left', tally', hloop, hiff⟩ := ih _ (htotal ▸ hless) (hframed.valid hvalid) rfl
        refine ⟨left', tally', hloop, hiff.trans ⟨fun h s hs => ?_, fun h s hs => ?_⟩⟩
        · cases hs with
          | first => exact .inl (hsheds.mp hless)
          | next _ _ hdegrade' hs =>
            cases hdegrade.symm.trans hdegrade'
            exact h s hs
        · exact h s (.next hover (hsheds.mp hless) hdegrade hs)
      · rw [dif_neg hless]
        have hstall := Nat.not_lt.mp hless
        refine ⟨left, _, rfl, ?_⟩
        rw [imp_iff_right (hover.trans_le hstall),
          exhausted_degrade_iff hvalid hover hdegrade hstall]
        constructor
        · intro hlast s hs
          cases hs with
          | first => exact .inr hlast
          | next _ hsheds' _ _ => exact absurd (hsheds.mpr hsheds') hless
        · exact fun h => (h items (.first hover)).resolve_left fun hsheds' =>
            hless (hsheds.mpr hsheds')
    · rw [if_neg hover]
      refine ⟨items, tally, rfl, iff_of_true (fun h => absurd h hover) fun s hs => ?_⟩
      cases hs with
      | first h => exact absurd h hover
      | next h => exact absurd h hover

/-- The loop returns, and what it leaves over the cap is exhausted. -/
def FitsOrExhausts (items : List BlockItem) (cap : Nat) : Prop :=
  ∃ left report, enforceBudgetToFit items cap = some (left, .ok report) ∧
  (cap < countTotal left → Exhausted left)

theorem enforceBudgetToFit_over {items left : List BlockItem} {cap : Nat} {tally : Tally}
    (hvalid : validateAtomicGroups items = .ok ()) (hover : cap < countTotal items)
    (hloop : fitLoop cap items ⟨0, 0, false⟩ = some (left, .ok tally)) :
    FitsOrExhausts items cap ↔ (cap < countTotal left → Exhausted left) := by
  have hresult :
      enforceBudgetToFit items cap = some (left, .ok (some ⟨cap, countTotal items, countTotal left,
      tally.droppedD, tally.droppedC, tally.truncated,
      buildPerBlock (snapshotPerBlock items) (snapshotPerBlock left)⟩)) := by
    unfold enforceBudgetToFit
    simp only [hvalid]
    rw [if_neg (Nat.not_le.mpr hover), hloop]
  constructor
  · rintro ⟨left', report, heq, hgood⟩
    cases hresult.symm.trans heq
    exact hgood
  · exact fun hgood => ⟨left, _, hresult, hgood⟩

/-- **The loop reaches the cap or leaves nothing to degrade if and only if every pass over the cap
begins with a list that sheds, or is the last that there can be.** -/
theorem fits_or_exhausts_iff {items : List BlockItem} {cap : Nat}
    (hvalid : validateAtomicGroups items = .ok ()) :
    FitsOrExhausts items cap ↔ ∀ s, PassBegins cap items s → Sheds cap s ∨ AtLast s := by
  by_cases hover : cap < countTotal items
  · obtain ⟨left, tally, hloop, hiff⟩ := @fitLoop_iff cap items ⟨0, 0, false⟩ hvalid
    exact (enforceBudgetToFit_over hvalid hover hloop).trans hiff
  · have hresult : enforceBudgetToFit items cap = some (items, .ok none) := by
      unfold enforceBudgetToFit
      simp only [hvalid]
      rw [if_pos (Nat.not_lt.mp hover)]
    refine iff_of_true ⟨items, none, hresult, fun h => absurd h hover⟩ fun s hs => ?_
    cases hs with
    | first h => exact absurd h hover
    | next h => exact absurd h hover

/-! ## Recalled context without tokens -/

/-- An old item of D without content, a new one of a hundred bytes, and a message of fifty. -/
def sampleRecall : List BlockItem :=
  [BlockItem.new .D [], { BlockItem.new .D (List.replicate 100 'd') with tsNs := 1 },
    BlockItem.new .E (List.replicate 50 'e')]

def samplePlain : List BlockItem :=
  [BlockItem.new .D (List.replicate 20 'd'), BlockItem.new .E (List.replicate 50 'e')]

theorem passes_plain (s : List BlockItem) (h : PassBegins 60 samplePlain s) :
    Sheds 60 s ∨ AtLast s := by
  have hpass : degrade 60 samplePlain = some ([BlockItem.new .E (List.replicate 50 'e')], 1, 0,
      false) := by
    decide +kernel
  cases h with
  | first _ => exact .inl (.inl (by decide +kernel))
  | next _ _ hdegrade hrest =>
    cases hdegrade.symm.trans hpass
    cases hrest with
    | first hover => exact absurd hover (by decide +kernel)
    | next hover => exact absurd hover (by decide +kernel)

theorem fits_or_exhausts_sample : FitsOrExhausts samplePlain 60 :=
  (fits_or_exhausts_iff (by decide +kernel)).mpr passes_plain

/-- The older half weighs nothing, so that the pass is over before the hundred bytes. -/
theorem not_sheds_recall : ¬ Sheds 60 sampleRecall := by
  have hsort : (sampleRecall.filter (candidate .D)).mergeSort older =
      sampleRecall.filter (candidate .D) :=
    List.mergeSort_of_pairwise (by decide +kernel)
  unfold Sheds halfWeight lowestHalf
  rw [hsort]
  decide +kernel

/-- The first pass drops the item without tokens, and the loop takes this for the end. -/
theorem loop_stops_early :
    ¬ ∀ (items : List BlockItem) (cap : Nat), validateAtomicGroups items = .ok () →
    FitsOrExhausts items cap := by
  intro h
  have hvalid : validateAtomicGroups sampleRecall = .ok () := by decide +kernel
  have hover : 60 < countTotal sampleRecall := by decide +kernel
  obtain ⟨left, tally, hloop, hiff⟩ := @fitLoop_iff 60 sampleRecall ⟨0, 0, false⟩ hvalid
  have hgood := (enforceBudgetToFit_over hvalid hover hloop).mp (h _ _ hvalid)
  rcases hiff.mp hgood sampleRecall (.first hover) with hsheds | ⟨hlast, -⟩
  · exact not_sheds_recall hsheds
  · exact absurd hlast (by decide +kernel)

end Neoth.Tokens
