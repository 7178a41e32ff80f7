import Neoth.Compress.Transform
import Neoth.Lib.Binary64
import Neoth.Lib.Tally

/-!
# SmartCrusher

`SmartCrusher::apply` of `context/compress/smart_crusher.rs`: a sample of the rows of a JSON array.

* `optimalK`, `selectIndicesCapped`, `detectOutliers`, `keepIdx`, `smartCrusher`: the code, with the
  order in which it walks its hash maps as a parameter;
* `mem_selectIndicesCapped`, `mem_detectOutliers`, `mem_keepIdx`: which rows stay.
-/

open Lib.Encoding Lib.Text Lib.Tally Lib.Binary64

namespace Neoth.Compress

/-! ## JSON -/

/-- `serde_json::Map`, as its keys are walked. -/
structure JsonMap (V : Type) where
  entries : List (List Char × V)
  nodup : (entries.map Prod.fst).Nodup

section
variable {V : Type}

def JsonMap.keys (o : JsonMap V) : List (List Char) := o.entries.map Prod.fst

def JsonMap.get (o : JsonMap V) (field : List Char) : Option V := o.entries.lookup field

theorem JsonMap.isSome_get {o : JsonMap V} {field : List Char} : (o.get field).isSome = true ↔
    field ∈ o.keys := by
  unfold JsonMap.get JsonMap.keys
  cases hget : o.entries.lookup field with
  | none =>
    rw [List.lookup_eq_none_iff] at hget
    simp only [Option.isSome_none, Bool.false_eq_true, false_iff, List.mem_map, not_exists, not_and]
    rintro e he rfl
    simpa using hget e he
  | some v =>
    obtain ⟨l₁, l₂, heq, -⟩ := List.lookup_eq_some_iff.mp hget
    simp [heq]

end

/-- `serde_json::from_str` with the rows where it finds an array, `Value::as_object`, and the
compact text of a value. -/
class SerdeRows (V : Type) where
  parseArray : List Char → Except String (Option (List V))
  asObject : V → Option (JsonMap V)
  toText : V → List Char

section
variable {V : Type} [SerdeRows V]

open SerdeRows

/-- Rows as one compact array. -/
def arrayText (rows : List V) : List Char := '[' :: [','].intercalate (rows.map toText) ++ [']']

/-! ## The code -/

structure SmartCrusherConfig where
  minRows : Nat
  headRows : Nat
  tailRows : Nat
  maxKeep : Nat

def SmartCrusherConfig.default : SmartCrusherConfig := ⟨10, 5, 2, 20⟩

/-- The characters behind a digit or another character. -/
def digitTemplateFrom : Bool → List Char → List Char
  | _, [] => []
  | inDigits, c :: cs =>
    if c.isDigit then if inDigits then digitTemplateFrom true cs
    else '#' :: digitTemplateFrom true cs
    else c :: digitTemplateFrom false cs

def digitTemplate (s : List Char) : List Char := digitTemplateFrom false s

def countTemplates (maxK : Nat) (templates : Finset (List Char)) : List V → Finset (List Char)
  | [] => templates
  | v :: rest =>
    let templates := insert (digitTemplate (toText v)) templates
    if maxK ≤ templates.card then templates else countTemplates maxK templates rest

/-- `clamp` panics on bounds that are the wrong way round. -/
def optimalK (rows : List V) (minK maxK : Nat) : Option Nat :=
  if maxK < minK then none else some (max minK (min (countTemplates maxK ∅ rows).card maxK))

/-- The loop over the middle, with as much fuel as there are rows in it. -/
def fillStride (step midHi cap : Nat) : Nat → Nat → Finset Nat → Finset Nat
  | 0, _, set => set
  | fuel + 1, i, set =>
    if i < midHi ∧ set.card < cap then fillStride step midHi cap fuel (i + step) (insert i set)
    else set

def selectIndicesCapped (cfg : SmartCrusherConfig) (n cap : Nat) : Finset Nat :=
  let cap := max cap 1
  let set := Finset.range (min cfg.headRows n) ∪ Finset.Ico (n - cfg.tailRows) n
  let midLo := min cfg.headRows n
  let midHi := n - cfg.tailRows
  if midLo < midHi ∧ set.card < cap then
    let remaining := cap - set.card
    let span := midHi - midLo
    fillStride (max (span / (remaining + 1)) 1) midHi cap span midLo set
  else set

/-- How the entries of the hash maps come: those of the fields, and those of the values of a
field. -/
structure HashOrder where
  fields : List (List Char × Nat) → List (List Char × Nat)
  values : List Char → List (List Char × Nat) → List (List Char × Nat)
  fields_perm : ∀ l, (fields l).Perm l
  values_perm : ∀ field l, (values field l).Perm l

def objs (items : List V) : List (Nat × JsonMap V) :=
  items.zipIdx.filterMap fun x => (asObject x.1).map fun o => (x.2, o)

def fieldCount (items : List V) : List (List Char × Nat) :=
  tally ((objs items).flatMap fun o => o.2.keys)

/-- The values of a field in the object rows. -/
def fieldValues (items : List V) (field : List Char) : List (List Char) :=
  (objs items).filterMap fun o => (o.2.get field).map toText

/-- `(n as f64 * 0.20).ceil() as usize`. -/
def rareFieldFloor (n : Nat) : Nat := mulCeil 0x3fc999999999999a n

/-- `(present as f64 * 0.80).ceil() as usize`. -/
def coverTarget (present : Nat) : Nat := mulCeil 0x3fe999999999999a present

def rareFieldRows (items : List V) : List Nat :=
  ((objs items).filter fun o => o.2.keys.any fun k =>
    ((fieldCount items).lookup k).getD 0 < rareFieldFloor (objs items).length).map Prod.fst

/-- The rows with a value outside of the cover of a field. -/
def rareValueRows (order : HashOrder) (items : List V) (field : List Char) (present : Nat) :
    List Nat :=
  let valCounts := tally (fieldValues items field)
  if present = 0 ∨ 50 < valCounts.length ∨ present < valCounts.length * 2 then []
  else
    let top := coverFrom (coverTarget present) 0 (byCount (order.values field valCounts))
    ((objs items).filter fun o => ((o.2.get field).map toText).any fun v => !top.contains v).map
      Prod.fst

def detectOutliers (order : HashOrder) (items : List V) : List Nat :=
  if (objs items).length = 0 then []
  else rareFieldRows items ++ (order.fields (fieldCount items)).flatMap fun f =>
    rareValueRows order items f.1 f.2

/-- The indices that are kept, in order. -/
def keepIdx (cfg : SmartCrusherConfig) (order : HashOrder) (rows : List V) : Option (List Nat) :=
  (optimalK rows (cfg.headRows + cfg.tailRows) cfg.maxKeep).map fun cap =>
    (List.range rows.length).filter fun i =>
      i ∈ selectIndicesCapped cfg rows.length cap ∪ (detectOutliers order rows).toFinset

def schemaOf (rows : List V) : List Char :=
  match rows.findSome? asObject with
  | some o => " schema: ".toList ++ [','].intercalate o.keys ++ [';']
  | none => []

def headerLine (kept n : Nat) (schema : List Char) (marker : String) : List Char :=
  "[smart_crusher: kept ".toList ++ Nat.toDigits 10 kept ++ " of ".toList ++ Nat.toDigits 10 n ++
    " rows;".toList ++ schema ++ " full array at ".toList ++ marker.toList ++ "]\n".toList

/-- The rows with the kept indices. -/
def sampleOf (rows : List V) (kept : List Nat) : List V := kept.filterMap fun i => rows[i]?

/-- What the model gets to see. -/
def crushed (rows : List V) (kept : List Nat) (marker : String) : List Char :=
  headerLine kept.length rows.length (schemaOf rows) marker ++ arrayText (sampleOf rows kept)

/-- Nothing, where the code panics. -/
def smartCrusher [Sha256] {S : Type} [CcrStore S] (V : Type) [SerdeRows V]
    (cfg : SmartCrusherConfig)
    (order : HashOrder) (content : List Char) (store : S) :
      Option (Except TransformError (OffloadOutput × S)) :=
  match parseArray (V := V) (trimText content) with
  | .error e => some (.error (.invalidInput "smart_crusher" e))
  | .ok none => some (.error (.skipped "smart_crusher" "not a JSON array"))
  | .ok (some rows) =>
    if rows.length < cfg.minRows then some (.error (.skipped "smart_crusher" "below min_rows"))
    else (keepIdx cfg order rows).map fun kept =>
      if rows.length ≤ kept.length then .error (.skipped "smart_crusher" "nothing to drop")
      else
        let key := computeKey content
        let out := crushed rows kept (markerFor key)
        if bytes content ≤ bytes out then .error (.skipped "smart_crusher" "no byte savings")
        else .ok (.fromLengths (bytes content) out key, CcrStore.put store key content)

/-! ## The sample -/

theorem subset_fillStride {step midHi cap fuel i : Nat} {set : Finset Nat} :
    set ⊆ fillStride step midHi cap fuel i set := by
  induction fuel generalizing i set with
  | zero => exact Finset.Subset.refl _
  | succ fuel ih =>
    unfold fillStride
    split_ifs
    · exact (Finset.subset_insert i set).trans ih
    · exact Finset.Subset.refl _

/-- The head and the tail are kept, however many rows may be. -/
theorem mem_selectIndicesCapped {cfg : SmartCrusherConfig} {n cap i : Nat} (hi : i < n)
    (h : i < cfg.headRows ∨ n - cfg.tailRows ≤ i) : i ∈ selectIndicesCapped cfg n cap := by
  have hset : i ∈ Finset.range (min cfg.headRows n) ∪ Finset.Ico (n - cfg.tailRows) n := by
    rw [Finset.mem_union, Finset.mem_range, Finset.mem_Ico]
    omega
  unfold selectIndicesCapped
  dsimp only
  split_ifs
  · exact subset_fillStride hset
  · exact hset

/-! ## Fields -/

section
variable {rows : List V} {i : Nat} {field : List Char}

/-- The value of a row in a field, as text. -/
def valueAt (rows : List V) (i : Nat) (field : List Char) : Option (List Char) :=
  (rows[i]?.bind asObject).bind fun o => (o.get field).map toText

theorem mem_objs {o : JsonMap V} : (i, o) ∈ objs rows ↔ rows[i]?.bind asObject = some o := by
  unfold objs
  rw [List.mem_filterMap, Option.bind_eq_some_iff]
  constructor
  · rintro ⟨⟨v, j⟩, hv, hmap⟩
    obtain ⟨o', ho', heq⟩ := Option.map_eq_some_iff.mp hmap
    obtain ⟨rfl, rfl⟩ := Prod.mk.inj heq
    exact ⟨v, List.mem_zipIdx_iff_getElem?.mp hv, ho'⟩
  · rintro ⟨v, hv, ho⟩
    exact ⟨(v, i), List.mem_zipIdx_iff_getElem?.mpr hv, by simp [ho]⟩

theorem valueAt_eq_some {v : List Char} :
    valueAt rows i field = some v ↔ ∃ o,
      (i, o) ∈ objs rows ∧ (o.get field).map toText = some v := by
  simp only [mem_objs, valueAt, Option.bind_eq_some_iff]

theorem mem_fieldValues {v : List Char} : v ∈ fieldValues rows field ↔ ∃ i,
    valueAt rows i field = some v := by
  simp only [fieldValues, List.mem_filterMap, valueAt_eq_some, Prod.exists]

theorem isSome_valueAt : (valueAt rows i field).isSome = true ↔ ∃ o,
    (i, o) ∈ objs rows ∧ field ∈ o.keys := by
  simp only [Option.isSome_iff_exists, valueAt_eq_some, Option.map_eq_some_iff]
  constructor
  · rintro ⟨t, o, ho, v, hv, -⟩
    exact ⟨o, ho, JsonMap.isSome_get.mp (by simp [hv])⟩
  · rintro ⟨o, ho, hkey⟩
    obtain ⟨v, hv⟩ := Option.isSome_iff_exists.mp (JsonMap.isSome_get.mpr hkey)
    exact ⟨toText v, o, ho, v, hv, rfl⟩

/-- A field is counted once for each row that has it. -/
theorem count_keys (os : List (Nat × JsonMap V)) (field : List Char) :
    (os.flatMap fun o => o.2.keys).count field =
      (os.filterMap fun o => (o.2.get field).map toText).length := by
  induction os with
  | nil => rfl
  | cons o os ih =>
    rw [List.flatMap_cons, List.count_append, ih, List.filterMap_cons]
    cases hget : o.2.get field with
    | none =>
      have hout : field ∉ o.2.keys := fun hkey => by
        have := JsonMap.isSome_get.mpr hkey
        simp [hget] at this
      simp [List.count_eq_zero_of_not_mem hout]
    | some v =>
      have hkey : field ∈ o.2.keys := JsonMap.isSome_get.mp (by simp [hget])
      have hnodup : o.2.keys.Nodup := o.2.nodup
      rw [List.count_eq_one_of_mem hnodup hkey]
      simp [Nat.add_comm]

theorem lookup_fieldCount (rows : List V) (field : List Char) :
    ((fieldCount rows).lookup field).getD 0 = (fieldValues rows field).length := by
  rw [fieldCount, (tallied_tally _).lookup, count_keys, fieldValues]

theorem mem_fieldCount {n : Nat} :
    (field, n) ∈ fieldCount rows ↔
    fieldValues rows field ≠ [] ∧ n = (fieldValues rows field).length := by
  have hcount : ((objs rows).flatMap fun o => o.2.keys).count field =
      (fieldValues rows field).length := count_keys _ _
  rw [fieldCount, (tallied_tally _).mem, hcount, ← List.count_pos_iff, hcount, List.length_pos_iff]

/-! ## Outliers -/

/-- The row has a field that few rows have. -/
def RareField (rows : List V) (i : Nat) : Prop :=
  ∃ field, (valueAt rows i field).isSome = true ∧
  (fieldValues rows field).length < rareFieldFloor (objs rows).length

/-- At most fifty values, each of them twice on average. -/
def Categorical (rows : List V) (field : List Char) : Prop :=
  (fieldValues rows field).dedup.length ≤ 50 ∧
    2 * (fieldValues rows field).dedup.length ≤ (fieldValues rows field).length

/-- The values of a field that cover enough rows. -/
def coverOf (order : HashOrder) (rows : List V) (field : List Char) : List (List Char) :=
  coverFrom (coverTarget (fieldValues rows field).length) 0
    (byCount (order.values field (tally (fieldValues rows field))))

theorem mem_rareFieldRows : i ∈ rareFieldRows rows ↔ RareField rows i := by
  unfold rareFieldRows RareField
  simp only [List.mem_map, List.mem_filter, List.any_eq_true, decide_eq_true_eq, lookup_fieldCount,
    isSome_valueAt]
  constructor
  · rintro ⟨⟨j, o⟩, ⟨ho, field, hkey, hrare⟩, rfl⟩
    exact ⟨field, ⟨o, ho, hkey⟩, hrare⟩
  · rintro ⟨field, ⟨o, ho, hkey⟩, hrare⟩
    exact ⟨(i, o), ⟨ho, field, hkey, hrare⟩, rfl⟩

theorem mem_rareValueRows {order : HashOrder} (hvalues : fieldValues rows field ≠ []) :
    i ∈ rareValueRows order rows field (fieldValues rows field).length ↔
      Categorical rows field ∧ ∃ v, valueAt rows i field = some v ∧
      v ∉ coverOf order rows field := by
  have hpresent := List.length_pos_iff.mpr hvalues
  have hlen := (tallied_tally (fieldValues rows field)).length
  unfold rareValueRows Categorical
  dsimp only
  rw [hlen]
  split_ifs with hskip
  · refine iff_of_false List.not_mem_nil fun h => ?_
    omega
  · rw [and_iff_right (by omega)]
    simp only [List.mem_map, List.mem_filter, Option.any_eq_true, valueAt_eq_some,
      Bool.not_eq_true', List.contains_eq_mem, decide_eq_false_iff_not]
    constructor
    · rintro ⟨⟨j, o⟩, ⟨ho, v, hv, hout⟩, rfl⟩
      exact ⟨v, ⟨o, ho, hv⟩, hout⟩
    · rintro ⟨v, ⟨o, ho, hv⟩, hout⟩
      exact ⟨(i, o), ⟨ho, v, hv, hout⟩, rfl⟩

/-- **The outliers**: the rows with a rare field, and those with a value outside of the cover of a
categorical one. -/
theorem mem_detectOutliers {order : HashOrder} : i ∈ detectOutliers order rows ↔ RareField rows i ∨
    ∃ field v, Categorical rows field ∧ valueAt rows i field = some v ∧
    v ∉ coverOf order rows field := by
  unfold detectOutliers
  split_ifs with hnone
  · -- no row is an object
    have hnot : ∀ field, valueAt rows i field = none := by
      intro field
      by_contra hne
      obtain ⟨v, hv⟩ := Option.ne_none_iff_exists'.mp hne
      obtain ⟨o, ho, -⟩ := valueAt_eq_some.mp hv
      rw [List.length_eq_zero_iff.mp hnone] at ho
      cases ho
    refine iff_of_false List.not_mem_nil ?_
    rintro (⟨field, hsome, -⟩ | ⟨field, v, -, hv, -⟩)
    · rw [hnot] at hsome
      cases hsome
    · rw [hnot] at hv
      cases hv
  · rw [List.mem_append, mem_rareFieldRows, List.mem_flatMap]
    refine or_congr_right ⟨?_, ?_⟩
    · rintro ⟨⟨field, n⟩, hf, hi⟩
      obtain ⟨hvalues, rfl⟩ := mem_fieldCount.mp ((order.fields_perm _).mem_iff.mp hf)
      obtain ⟨hcat, v, hv, hout⟩ := (mem_rareValueRows hvalues).mp hi
      exact ⟨field, v, hcat, hv, hout⟩
    · rintro ⟨field, v, hcat, hv, hout⟩
      have hvalues := List.ne_nil_of_mem (mem_fieldValues.mpr ⟨i, hv⟩)
      exact ⟨(field, _), (order.fields_perm _).mem_iff.mpr (mem_fieldCount.mpr ⟨hvalues, rfl⟩),
        (mem_rareValueRows hvalues).mpr ⟨hcat, v, hv, hout⟩⟩

end

/-- The row is in the sample of the head, the middle and the tail. -/
def Sampled (cfg : SmartCrusherConfig) (rows : List V) (i : Nat) : Prop :=
  ∃ cap, optimalK rows (cfg.headRows + cfg.tailRows) cfg.maxKeep = some cap ∧
    i ∈ selectIndicesCapped cfg rows.length cap

theorem mem_keepIdx {cfg : SmartCrusherConfig} {order : HashOrder} {rows : List V} {kept : List Nat}
    (h : keepIdx cfg order rows = some kept) {i : Nat} :
    i ∈ kept ↔ i < rows.length ∧ (Sampled cfg rows i ∨ i ∈ detectOutliers order rows) := by
  obtain ⟨cap, hcap, rfl⟩ := Option.map_eq_some_iff.mp h
  simp only [List.mem_filter, List.mem_range, Finset.mem_union, List.mem_toFinset,
    decide_eq_true_eq, Sampled, hcap, Option.some.injEq, exists_eq_left']

end

end Neoth.Compress
