import Neoth.Lib.Binary32
import Neoth.Lib.Lists
import Neoth.Lib.Text

/-!
# The budget of a prompt

`tokens/budget.rs`: the blocks of a prompt are degraded until their estimates fit under a cap.  A
pass drops half of the recalled context, half of the profile and half of every conductor text, each
of them only while the total is over the cap.

* `enforceBudget`: one pass, by indices as the code removes them;
* `enforceBudgetToFit`: passes as long as they make the total smaller;
* `dropHalf_spec`, `dropHalf_chosen`: what the removal by indices leaves, and what it has chosen.
-/

open Lib Lib.Lists Lib.Text

namespace Neoth.Tokens

/-! ## Items -/

inductive Block
  | A
  | B
  | C
  | D
  | E
  | conductor
  deriving DecidableEq

inductive AtomicGroup
  | mcpCatalogue
  deriving DecidableEq

inductive PromptRetention
  | degradable
  | required
  deriving DecidableEq

/-- `importance` is the bits of an `f32`, `tsNs` an `i64`. -/
structure BlockItem where
  block : Block
  atomicGroup : Option AtomicGroup
  retention : PromptRetention
  importance : UInt32
  tsNs : Int
  tokens : Nat
  content : List Char
  deriving DecidableEq

def u32Max : Nat := 2 ^ 32 - 1

def saturatingAdd (a b : Nat) : Nat := min (a + b) u32Max

def countTokensUpperBound (text : List Char) : Nat := min (bytes text) u32Max

/-- `Block::is_degradable`. -/
def Block.isDegradable (b : Block) : Bool := b == .C || b == .D || b == .conductor

namespace BlockItem

/-- The constructor binds the estimate to the content. -/
def new (block : Block) (content : List Char) : BlockItem :=
  ⟨block, none, .degradable, 0x3F000000, 0, countTokensUpperBound content, content⟩

end BlockItem

/-- A degradable item of the block. -/
def candidate (block : Block) (item : BlockItem) : Bool :=
  item.block == block && item.retention == .degradable

/-! ## Atomic groups -/

def inGroup (item : BlockItem) : Bool := item.atomicGroup == some .mcpCatalogue

def validateAtomicGroups (items : List BlockItem) : Except String Unit :=
  if items.any fun item => item.atomicGroup.isSome && item.retention == .required then
    .error "atomic groups cannot contain required-retention items"
  else
    let group := items.filter inGroup
    let mcpA := group.countP fun item => item.block == .A
    let mcpD := group.countP fun item => item.block == .D
    let mcpOther := group.countP fun item => item.block != .A && item.block != .D
    if (mcpA = 0 ∧ mcpD = 0 ∧ mcpOther = 0) ∨ (mcpA = 1 ∧ mcpD = 1 ∧ mcpOther = 0) then .ok ()
    else
      .error
        ("MCP catalogue atomic group requires exactly one Block A protocol and one Block D data item")

/-! ## Accounting -/

def countTotal (items : List BlockItem) : Nat :=
  items.foldl (fun total item => saturatingAdd total item.tokens) 0

/-- The blocks in the order of the discriminants. -/
def blocks : List Block := [.A, .B, .C, .D, .E, .conductor]

def snapshotEntry (entry : Nat × Nat) (item : BlockItem) : Nat × Nat :=
  (saturatingAdd entry.1 item.tokens, saturatingAdd entry.2 1)

/-- The tokens and the number of the items of each block that there is. -/
def snapshotPerBlock (items : List BlockItem) : List (Block × Nat × Nat) :=
  blocks.filterMap fun block =>
    match items.filter (·.block == block) with
    | [] => none
    | mine => some (block, mine.foldl snapshotEntry (0, 0))

structure BlockTokens where
  block : Block
  tokensBefore : Nat
  tokensAfter : Nat
  itemsBefore : Nat
  itemsAfter : Nat

def buildPerBlock (pre post : List (Block × Nat × Nat)) : List BlockTokens :=
  pre.map fun entry =>
    let after := ((post.find? fun e => e.1 == entry.1).map (·.2)).getD (0, 0)
    ⟨entry.1, entry.2.1, after.1, entry.2.2, after.2⟩

structure BudgetExceededDetail where
  cap : Nat
  originalTotal : Nat
  newTotal : Nat
  droppedDCount : Nat
  droppedCCount : Nat
  conductorTruncated : Bool
  perBlock : List BlockTokens

/-! ## A pass -/

def expandAtomicRemovals (items : List BlockItem) (indices : List Nat) : List Nat :=
  let selectedGroups := indices.filterMap fun index => items[index]?.bind (·.atomicGroup)
  if selectedGroups = [] then indices
  else
    let members := items.zipIdx.filterMap fun x =>
      (x.1.atomicGroup.filter fun group => group ∈ selectedGroups).map fun _ => x.2
    ((indices ++ members).mergeSort (· ≤ ·)).dedup

/-- `Vec::remove` at each index, which panics behind the end; the items of the block are counted in
a `u32`. -/
def removeAll (block : Block) : List Nat → List BlockItem → Nat → Option (List BlockItem × Nat)
  | [], items, dropped => some (items, dropped)
  | index :: indices, items, dropped => do
    let item ← items[index]?
    removeAll block indices (items.eraseIdx index)
      (if item.block = block then (dropped + 1) % 2 ^ 32 else dropped)

/-- Half of the candidates, the first ones in the order, and the groups that they belong to. -/
def dropHalf (block : Block) (le : BlockItem → BlockItem → Bool) (items : List BlockItem) :
    Option (List BlockItem × Nat) :=
  let indices := items.zipIdx.filter fun x => candidate block x.1
  if indices = [] then some (items, 0)
  else
    let sorted := indices.mergeSort fun a b => le a.1 b.1
    let half := (sorted.length + 1) / 2
    let toRemove := expandAtomicRemovals items ((sorted.take half).map (·.2))
    removeAll block (toRemove.mergeSort (· ≤ ·)).reverse items 0

/-- `sort_by_key` of the timestamps. -/
def older (a b : BlockItem) : Bool := a.tsNs ≤ b.tsNs

/-- `partial_cmp(..).unwrap_or(Equal)` is not `Greater`.  With a NaN the library promises no
order. -/
def lessImportant (a b : BlockItem) : Bool := !Binary32.lt b.importance a.importance

def truncates (item : BlockItem) : Bool := candidate .conductor item && 1 < item.tokens

def firstHalf (text : List Char) : List Char := text.take (max ((text.length + 1) / 2) 1)

def truncateItem (item : BlockItem) : BlockItem :=
  if truncates item then
    { item with
      content := firstHalf item.content
      tokens := countTokensUpperBound (firstHalf item.content) }
  else item

/-- A step, taken only over the cap. -/
def whenOver (cap : Nat) (step : List BlockItem → Option (List BlockItem × Nat))
    (items : List BlockItem) : Option (List BlockItem × Nat) :=
  if cap < countTotal items then step items else some (items, 0)

/-- The three steps, with what they report: the items of D and C that are dropped, and whether a
conductor is cut. -/
def degrade (cap : Nat) (items : List BlockItem) : Option (List BlockItem × Nat × Nat × Bool) := do
  let (items, droppedD) ← whenOver cap (dropHalf .D older) items
  let (items, droppedC) ← whenOver cap (dropHalf .C lessImportant) items
  if cap < countTotal items then
    some (items.map truncateItem, droppedD, droppedC, items.any truncates)
  else some (items, droppedD, droppedC, false)

/-- `enforce_budget`: the items as they are left, and the result; `none` is a panic. -/
def enforceBudget (items : List BlockItem) (cap : Nat) :
    Option (List BlockItem × Except String (Option BudgetExceededDetail)) :=
  match validateAtomicGroups items with
  | .error e => some (items, .error e)
  | .ok () =>
    let originalTotal := countTotal items
    if originalTotal ≤ cap then some (items, .ok none)
    else do
      let (left, droppedD, droppedC, truncated) ← degrade cap items
      some (left, .ok (some {
        cap := cap, originalTotal := originalTotal, newTotal := countTotal left
        droppedDCount := droppedD, droppedCCount := droppedC, conductorTruncated := truncated
        perBlock := buildPerBlock (snapshotPerBlock items) (snapshotPerBlock left) }))

/-! ## Passes until it fits -/

/-- What the passes have reported so far. -/
structure Tally where
  droppedD : Nat
  droppedC : Nat
  truncated : Bool

def Tally.add (t : Tally) (detail : BudgetExceededDetail) : Tally :=
  ⟨saturatingAdd t.droppedD detail.droppedDCount, saturatingAdd t.droppedC detail.droppedCCount,
    t.truncated || detail.conductorTruncated⟩

/-- The loop; a pass over the cap that returns no detail is the panic of the `expect`. -/
def fitLoop (cap : Nat) (items : List BlockItem) (tally : Tally) :
    Option (List BlockItem × Except String Tally) :=
  if cap < countTotal items then
    match enforceBudget items cap with
    | some (left, .ok (some detail)) =>
      if _hless : countTotal left < countTotal items then fitLoop cap left (tally.add detail)
      else some (left, .ok (tally.add detail))
    | some (left, .error e) => some (left, .error e)
    | some (_, .ok none) => none
    | none => none
  else some (items, .ok tally)
termination_by countTotal items

def enforceBudgetToFit (items : List BlockItem) (cap : Nat) :
    Option (List BlockItem × Except String (Option BudgetExceededDetail)) :=
  match validateAtomicGroups items with
  | .error e => some (items, .error e)
  | .ok () =>
    let originalTotal := countTotal items
    if originalTotal ≤ cap then some (items, .ok none)
    else
      match fitLoop cap items ⟨0, 0, false⟩ with
      | some (left, .ok tally) =>
        some (left, .ok (some {
          cap := cap, originalTotal := originalTotal, newTotal := countTotal left
          droppedDCount := tally.droppedD, droppedCCount := tally.droppedC,
          conductorTruncated := tally.truncated
          perBlock := buildPerBlock (snapshotPerBlock items) (snapshotPerBlock left) }))
      | some (left, .error e) => some (left, .error e)
      | none => none

/-! ## What is removed -/

theorem mem_expandAtomicRemovals {items : List BlockItem} {indices : List Nat} {i : Nat} :
    i ∈ expandAtomicRemovals items indices ↔ i ∈ indices ∨ ∃ a group, items[i]? = some a ∧
      a.atomicGroup = some group ∧ ∃ j ∈ indices, ∃ b, items[j]? = some b ∧
      b.atomicGroup = some group := by
  have hselected : ∀ group,
      group ∈ indices.filterMap (fun index => items[index]?.bind (·.atomicGroup)) ↔
      ∃ j ∈ indices, ∃ b, items[j]? = some b ∧ b.atomicGroup = some group := by
    intro group
    simp only [List.mem_filterMap, Option.bind_eq_some_iff]
  unfold expandAtomicRemovals
  dsimp only
  split
  · rename_i hnone
    refine ⟨.inl, fun h => h.resolve_right ?_⟩
    rintro ⟨a, group, -, -, hj⟩
    have hmem := (hselected group).mpr hj
    rw [hnone] at hmem
    cases hmem
  · rw [List.mem_dedup, List.mem_mergeSort, List.mem_append]
    refine or_congr_right ?_
    simp only [List.mem_filterMap, Option.map_eq_some_iff, Option.filter_eq_some_iff,
      decide_eq_true_eq, hselected]
    constructor
    · rintro ⟨⟨a, k⟩, hmem, group, ⟨hgroup, hj⟩, rfl⟩
      exact ⟨a, group, List.mem_zipIdx_iff_getElem?.mp hmem, hgroup, hj⟩
    · rintro ⟨a, group, ha, hgroup, hj⟩
      exact ⟨(a, i), List.mem_zipIdx_iff_getElem?.mpr ha, group, ⟨hgroup, hj⟩, rfl⟩

theorem nodup_expandAtomicRemovals {items : List BlockItem} {indices : List Nat}
    (h : indices.Nodup) : (expandAtomicRemovals items indices).Nodup := by
  unfold expandAtomicRemovals
  dsimp only
  split
  · exact h
  · exact List.nodup_dedup _

theorem descending {indices : List Nat} (h : indices.Nodup) :
    ((indices.mergeSort (· ≤ ·)).reverse).Pairwise (· > ·) := by
  rw [List.pairwise_reverse]
  have hsorted : (indices.mergeSort (· ≤ ·)).Pairwise fun a b => decide (a ≤ b) = true :=
    List.pairwise_mergeSort (fun a b c hab hbc => by simp only [decide_eq_true_eq] at *; omega)
      (fun a b => by simpa using Nat.le_total a b) indices
  have hnodup : (indices.mergeSort (· ≤ ·)).Nodup := (List.mergeSort_perm indices _).nodup_iff.mpr h
  exact (hsorted.and hnodup).imp fun hab => lt_of_le_of_ne (by simpa using hab.1) hab.2

/-- Removed from behind, every index is the place that the item had. -/
theorem removeAll_spec (block : Block) {indices : List Nat} :
    ∀ {items : List BlockItem} {dropped : Nat},
    indices.Pairwise (· > ·) → (∀ i ∈ indices, i < items.length) → dropped < 2 ^ 32 →
    let left := keepIdx (fun j => decide (j ∉ indices)) items
    removeAll block indices items dropped = some (left, (dropped +
      (items.countP (·.block == block) - left.countP (·.block == block))) % 2 ^ 32) := by
  induction indices with
  | nil =>
    intro items dropped _ _ hdropped
    simp only [List.not_mem_nil, not_false_eq_true, decide_true]
    rw [keepIdx_all items _ fun _ => rfl, removeAll, Nat.sub_self, Nat.add_zero,
      Nat.mod_eq_of_lt hdropped]
  | cons index indices ih =>
    intro items dropped hdesc hlt hdropped
    obtain ⟨hhead, htail⟩ := List.pairwise_cons.mp hdesc
    obtain ⟨hindex, hrest⟩ := List.forall_mem_cons.mp hlt
    obtain ⟨item, hitem⟩ : ∃ item, items[index]? = some item := ⟨_, List.getElem?_eq_getElem hindex⟩
    have hlength : ∀ i ∈ indices, i < (items.eraseIdx index).length := by
      intro i hi
      rw [List.length_eraseIdx_of_lt hindex]
      have hless := hhead i hi
      omega
    have hkeep : keepIdx (fun j => decide (j ∉ indices)) (items.eraseIdx index) =
        keepIdx (fun j => decide (j ∉ index :: indices)) items := by
      rw [keepIdx_eraseIdx]
      · congr 1
        funext j
        simp [List.mem_cons, not_or]
      · intro j hj
        rw [decide_eq_true_eq]
        intro hmem
        exact absurd (hhead j hmem) (Nat.not_lt.mpr hj)
    have hcount : (items.eraseIdx index).countP (·.block == block) + (if item.block = block then 1
        else 0) = items.countP (·.block == block) := by
      have hcount := countP_eraseIdx hitem (·.block == block)
      simpa only [beq_iff_eq] using hcount
    have hle :
        (keepIdx (fun j => decide (j ∉ indices)) (items.eraseIdx index)).countP (·.block == block) ≤
        (items.eraseIdx index).countP (·.block == block) := (keepIdx_sublist _ _).countP_le
    simp only [removeAll, hitem, Option.bind_eq_bind, Option.bind_some]
    have hnext : (if item.block = block then (dropped + 1) % 2 ^ 32 else dropped) < 2 ^ 32 := by
      split
      · exact Nat.mod_lt _ (by decide)
      · exact hdropped
    rw [ih htail hlength hnext, hkeep]
    rw [hkeep] at hle
    congr 2
    split at hcount <;> rename_i hblock
    · rw [if_pos hblock]
      omega
    · rw [if_neg hblock]
      omega

/-- The places that a step removes: those it has chosen, half of the candidates, and the groups of
what is chosen. -/
def Removes (block : Block) (items : List BlockItem) (chosen removed : List Nat) : Prop :=
  chosen.Nodup ∧ chosen.length = (items.countP (candidate block) + 1) / 2 ∧
    (∀ i ∈ chosen, ∃ a, items[i]? = some a ∧ candidate block a = true) ∧
    ∀ i, i ∈ removed ↔ i ∈ chosen ∨ ∃ a group, items[i]? = some a ∧ a.atomicGroup = some group ∧
      ∃ j ∈ chosen, ∃ b, items[j]? = some b ∧ b.atomicGroup = some group

def Removal (block : Block) (items : List BlockItem) (removed : List Nat) : Prop :=
  ∃ chosen, Removes block items chosen removed

/-- The first half of the candidates in the order. -/
def lowestHalf (block : Block) (le : BlockItem → BlockItem → Bool) (items : List BlockItem) :
    List BlockItem :=
  ((items.filter (candidate block)).mergeSort le).take ((items.countP (candidate block) + 1) / 2)

theorem length_candidates (block : Block) (items : List BlockItem) :
    (items.zipIdx.filter fun x => candidate block x.1).length = items.countP (candidate block) := by
  rw [← List.countP_eq_length_filter]
  conv_rhs => rw [← List.zipIdx_map_fst 0 items, List.countP_map]
  rfl

theorem map_fst_candidates (block : Block) (items : List BlockItem) :
    (items.zipIdx.filter fun x => candidate block x.1).map (·.1) =
      items.filter (candidate block) := by
  conv_rhs => rw [← List.zipIdx_map_fst 0 items, List.filter_map]
  rfl

/-- What stands at the places of the first candidates in the order. -/
theorem items_of_sorted (block : Block) (le : BlockItem → BlockItem → Bool)
    (items : List BlockItem) :
    ((((items.zipIdx.filter fun x => candidate block x.1).mergeSort fun a b => le a.1 b.1).take
      ((items.countP (candidate block) + 1) / 2)).map (·.2)).filterMap (items[·]?) =
        lowestHalf block le items := by
  have hsorted : ((items.zipIdx.filter fun x => candidate block x.1).mergeSort fun a b =>
      le a.1 b.1).map (·.1) = (items.filter (candidate block)).mergeSort le := by
    rw [← map_fst_candidates]
    exact List.map_mergeSort fun _ _ _ _ => rfl
  rw [List.filterMap_map, lowestHalf, ← hsorted, ← List.map_take, ← List.filterMap_eq_map]
  refine List.filterMap_congr fun x hx => ?_
  obtain ⟨hzip, -⟩ := List.mem_filter.mp (List.mem_mergeSort.mp (List.mem_of_mem_take hx))
  exact List.mem_zipIdx_iff_getElem?.mp hzip

theorem dropHalf_chosen (block : Block) (le : BlockItem → BlockItem → Bool)
    (items : List BlockItem) : ∃ chosen removed, Removes block items chosen removed ∧
      chosen.filterMap (items[·]?) = lowestHalf block le items ∧
      let left := keepIdx (fun j => decide (j ∉ removed)) items
      dropHalf block le items = some (left,
        (items.countP (·.block == block) - left.countP (·.block == block)) % 2 ^ 32) := by
  have hlength := length_candidates block items
  unfold dropHalf
  dsimp only
  split
  · rename_i hnone
    rw [hnone, List.length_nil] at hlength
    refine ⟨[], [], ⟨List.nodup_nil, by simp [← hlength], by simp, by simp⟩, ?_, ?_⟩
    · rw [lowestHalf, ← map_fst_candidates, hnone]
      simp
    · simp only [List.not_mem_nil, not_false_eq_true, decide_true]
      rw [keepIdx_all items _ fun _ => rfl, Nat.sub_self, Nat.zero_mod]
  · have hitems := items_of_sorted block le items
    rw [← hlength, ← @List.length_mergeSort _ fun a b => le a.1 b.1] at hitems
    generalize hsorted :
      (items.zipIdx.filter fun x => candidate block x.1).mergeSort (fun a b => le a.1 b.1) = sorted
    have hperm : sorted.Perm (items.zipIdx.filter fun x => candidate block x.1) :=
      hsorted ▸ List.mergeSort_perm _ _
    rw [hsorted] at hitems
    generalize hchosen : ((sorted.take ((sorted.length + 1) / 2)).map (·.2)) = chosen at hitems
    have hnodup : chosen.Nodup := by
      have hall : (sorted.map (·.2)).Nodup := by
        refine (hperm.map _).nodup_iff.mpr ?_
        refine (List.filter_sublist.map _).nodup ?_
        rw [List.zipIdx_map_snd]
        exact List.nodup_range'
      rw [← hchosen]
      exact ((List.take_sublist _ _).map _).nodup hall
    have hcandidate : ∀ i ∈ chosen, ∃ a, items[i]? = some a ∧ candidate block a = true := by
      intro i hi
      rw [← hchosen] at hi
      obtain ⟨⟨a, j⟩, hmem, rfl⟩ := List.mem_map.mp hi
      obtain ⟨hzip, hcand⟩ := List.mem_filter.mp (hperm.mem_iff.mp (List.mem_of_mem_take hmem))
      exact ⟨a, List.mem_zipIdx_iff_getElem?.mp hzip, hcand⟩
    have hremoved : ∀ i, i ∈ ((expandAtomicRemovals items chosen).mergeSort (· ≤ ·)).reverse ↔
        i ∈ expandAtomicRemovals items chosen := fun i => by
          rw [List.mem_reverse, List.mem_mergeSort]
    refine ⟨chosen, ((expandAtomicRemovals items chosen).mergeSort (· ≤ ·)).reverse,
      ⟨hnodup, ?_, hcandidate, fun i => (hremoved i).trans mem_expandAtomicRemovals⟩, hitems, ?_⟩
    · rw [← hchosen, List.length_map, List.length_take, hperm.length_eq, hlength]
      omega
    · have hlt : ∀ i ∈ ((expandAtomicRemovals items chosen).mergeSort (· ≤ ·)).reverse,
          i < items.length := by
        intro i hi
        rcases mem_expandAtomicRemovals.mp ((hremoved i).mp hi) with hi | ⟨a, group, ha, -⟩
        · obtain ⟨a, ha, -⟩ := hcandidate i hi
          exact (List.getElem?_eq_some_iff.mp ha).1
        · exact (List.getElem?_eq_some_iff.mp ha).1
      have hdesc := descending (@nodup_expandAtomicRemovals items chosen hnodup)
      have hremove := removeAll_spec block hdesc hlt (show 0 < 2 ^ 32 by decide)
      simpa only [Nat.zero_add] using hremove

theorem dropHalf_spec (block : Block) (le : BlockItem → BlockItem → Bool) (items : List BlockItem) :
    ∃ removed, Removal block items removed ∧
      let left := keepIdx (fun j => decide (j ∉ removed)) items
      dropHalf block le items = some (left,
        (items.countP (·.block == block) - left.countP (·.block == block)) % 2 ^ 32) := by
  obtain ⟨chosen, removed, hremoves, -, hdrop⟩ := dropHalf_chosen block le items
  exact ⟨removed, ⟨chosen, hremoves⟩, hdrop⟩

end Neoth.Tokens
