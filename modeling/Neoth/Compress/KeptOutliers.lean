import Neoth.Compress.SmartCrusher
import Neoth.Lib.Lists

/-!
# When a sample keeps its outliers

* `KeepsOutliers`: rows with a lone value are kept, and the order of the hash maps does not matter;
* `OutliersCovered`: what an array has to satisfy for that;
* **`smartCrusher_keeps_iff`**: the two are the same; in every case the sample is in order, has the
  head and the tail, and the only carrier of a field.
-/

open Lib.Encoding Lib.Text Lib.Tally Lib.Binary64 Lib.Lists

namespace Neoth.Compress

/-! ## Thresholds -/

theorem two_le_rareFieldFloor {n : Nat} (hn : 6 ≤ n) : 2 ≤ rareFieldFloor n := by
  have hsig : significand 0x3fc999999999999a = 7205759403792794 := by decide +kernel
  have hscale : scale 0x3fc999999999999a = 55 := by decide +kernel
  have hn' := sub_le_round53 n
  unfold rareFieldFloor mulCeil
  rw [hsig, hscale, Nat.le_div_iff_mul_le (by decide)]
  generalize round53 n = m at hn' ⊢
  have hm := sub_le_round53 (7205759403792794 * m)
  omega

theorem coverTarget_pos {n : Nat} (hn : 0 < n) : 0 < coverTarget n := by
  have hsig : significand 0x3fe999999999999a = 7205759403792794 := by decide +kernel
  have hscale : scale 0x3fe999999999999a = 53 := by decide +kernel
  have hn' := sub_le_round53 n
  unfold coverTarget mulCeil
  rw [hsig, hscale]
  generalize round53 n = m at hn' ⊢
  have hm := sub_le_round53 (7205759403792794 * m)
  refine Nat.div_pos ?_ (by decide)
  omega

section
variable {V : Type} [SerdeRows V]

open SerdeRows

/-- An array of compact texts says which values they are of. -/
class UnambiguousRows (V : Type) [SerdeRows V] : Prop where
  injective : ∀ rows rows' : List V, arrayText rows = arrayText rows' → rows = rows'

/-- The only row with some field. -/
def OnlyCarrier (rows : List V) (i : Nat) : Prop :=
  ∃ field, (valueAt rows i field).isSome = true ∧ (fieldValues rows field).length = 1

/-- The only row with its value of a categorical field. -/
def LoneValue (rows : List V) (i : Nat) : Prop :=
  ∃ field v, Categorical rows field ∧ valueAt rows i field = some v ∧
  (fieldValues rows field).count v = 1

variable (cfg : SmartCrusherConfig)

/-- The row is kept in every order: it is in the sample, has a rare field, or a value of a
categorical field such that the more frequent values alone reach the target. -/
def Sure (rows : List V) (i : Nat) : Prop :=
  Sampled cfg rows i ∨ RareField rows i ∨ ∃ field v,
    Categorical rows field ∧ valueAt rows i field = some v ∧
    coverTarget (fieldValues rows field).length ≤ moreFrequent (fieldValues rows field) v

structure OutliersCovered (rows : List V) : Prop where
  /-- A row with a lone value is kept for some reason that does not depend on the order. -/
  lone : 5 < (objs rows).length → ∀ i, LoneValue rows i → Sure cfg rows i
  /-- So is a row with a value such that the target is reached among the equally frequent ones, with
  it or without it. -/
  tie : ∀ i field v, Categorical rows field → valueAt rows i field = some v →
    moreFrequent (fieldValues rows field) v < coverTarget (fieldValues rows field).length →
      coverTarget (fieldValues rows field).length + (fieldValues rows field).count v ≤
        moreFrequent (fieldValues rows field) v + equallyFrequent (fieldValues rows field) v →
        Sure cfg rows i

structure KeepsOutliers [Sha256] {S : Type} [CcrStore S] (content : List Char) (store : S)
    (rows : List V) : Prop where
  independent : ∀ order order' : HashOrder,
    smartCrusher V cfg order content store = smartCrusher V cfg order' content store
  lone : 5 < (objs rows).length → ∀ i, LoneValue rows i → ∀ order out store',
    smartCrusher V cfg order content store = some (.ok (out, store')) →
      ∃ kept, keepIdx cfg order rows = some kept ∧ i ∈ kept

/-- The kept rows come in order, with the head, the tail, and in an array with more than five
objects every row that is the only carrier of a field. -/
structure Crushed [Sha256] (content : List Char) (rows : List V) (kept : List Nat)
    (output : List Char) : Prop where
  output_eq : output = crushed rows kept (markerFor (computeKey content))
  sublist : kept.Sublist (List.range rows.length)
  rows_sublist : (sampleOf rows kept).Sublist rows
  head : ∀ i < rows.length, i < cfg.headRows → i ∈ kept
  tail : ∀ i < rows.length, rows.length - cfg.tailRows ≤ i → i ∈ kept
  carrier : 5 < (objs rows).length → ∀ i, OnlyCarrier rows i → i ∈ kept

/-! ## Orders -/

/-- The values that are named come first. -/
def favouring (named : List Char → Option (List Char)) : HashOrder where
  fields := id
  values field l := l.filter (fun e => named field = some e.1) ++ l.filter fun e =>
    !decide (named field = some e.1)
  fields_perm := List.Perm.refl
  values_perm _ _ := List.filter_append_perm _ _

/-- The values that are named come last. -/
def disfavouring (named : List Char → Option (List Char)) : HashOrder where
  fields := id
  values field l := l.filter (fun e => !decide (named field = some e.1)) ++ l.filter fun e =>
    named field = some e.1
  fields_perm := List.Perm.refl
  values_perm _ _ := List.perm_append_comm.trans (List.filter_append_perm _ _)

variable {cfg} {rows : List V} {i : Nat} {field v : List Char}

theorem tallied_values (order : HashOrder) (rows : List V) (field : List Char) :
    Tallied (fieldValues rows field) (order.values field (tally (fieldValues rows field))) :=
  (tallied_tally _).perm (order.values_perm field _)

theorem target_pos (hv : v ∈ fieldValues rows field) :
    0 < coverTarget (fieldValues rows field).length :=
  coverTarget_pos (List.length_pos_of_mem hv)

theorem filter_named {named : List Char → Option (List Char)} (hnamed : named field = some v)
    (hv : v ∈ fieldValues rows field) :
      ((tally (fieldValues rows field)).filter fun e => named field = some e.1) =
      [(v, (fieldValues rows field).count v)] := by
  apply (tallied_tally _).filter_key hv
  intro e
  rw [hnamed, decide_eq_true_eq, Option.some.injEq]
  exact eq_comm

theorem mem_coverOf_favouring {named : List Char → Option (List Char)}
    (hnamed : named field = some v) (hv : v ∈ fieldValues rows field)
    (hmore : moreFrequent (fieldValues rows field) v <
      coverTarget (fieldValues rows field).length) :
    v ∈ coverOf (favouring named) rows field := by
  apply mem_cover_first (tallied_values _ rows field) hv (target_pos hv) _ hmore
  · exact (tally (fieldValues rows field)).filter fun e => !decide (named field = some e.1)
  · change _ ++ _ = _
    rw [filter_named hnamed hv]
    rfl

theorem not_mem_coverOf_disfavouring {named : List Char → Option (List Char)}
    (hnamed : named field = some v) (hv : v ∈ fieldValues rows field)
    (hall : coverTarget (fieldValues rows field).length + (fieldValues rows field).count v ≤
      moreFrequent (fieldValues rows field) v + equallyFrequent (fieldValues rows field) v) :
    v ∉ coverOf (disfavouring named) rows field := by
  apply not_mem_cover_last (tallied_values _ rows field) hv (target_pos hv) _ hall
  · exact (tally (fieldValues rows field)).filter fun e => !decide (named field = some e.1)
  · change _ ++ _ = _
    rw [filter_named hnamed hv]

/-! ## Rows that are kept in every order -/

section
variable {order : HashOrder} {kept : List Nat} (hkept : keepIdx cfg order rows = some kept)
include hkept

theorem mem_of_sure (hi : i < rows.length) (h : Sure cfg rows i) : i ∈ kept := by
  rw [mem_keepIdx hkept, mem_detectOutliers]
  refine ⟨hi, ?_⟩
  rcases h with h | h | ⟨field, v, hcat, hv, hmore⟩
  · exact .inl h
  · exact .inr (.inl h)
  · have hmem := mem_fieldValues.mpr ⟨i, hv⟩
    exact .inr (.inr ⟨field, v, hcat, hv,
      not_mem_cover (tallied_values order rows field) hmem (target_pos hmem) hmore⟩)

/-- In an array that is covered no other row is kept. -/
theorem sure_of_mem (hcovered : OutliersCovered cfg rows) (h : i ∈ kept) : Sure cfg rows i := by
  rw [mem_keepIdx hkept, mem_detectOutliers] at h
  rcases h.2 with h | h | ⟨field, v, hcat, hv, hout⟩
  · exact .inl h
  · exact .inr (.inl h)
  · have hmem := mem_fieldValues.mpr ⟨i, hv⟩
    rcases Nat.lt_or_ge (moreFrequent (fieldValues rows field) v)
      (coverTarget (fieldValues rows field).length) with
      hmore | hmore
    · apply hcovered.tie i field v hcat hv hmore
      by_contra hall
      exact hout (mem_cover (tallied_values order rows field) hmem (target_pos hmem)
        (not_le.mp hall))
    · exact .inr (.inr ⟨field, v, hcat, hv, hmore⟩)

end

/-- Where the values of a row come first, nothing but a sure reason keeps it. -/
theorem not_mem_favouring {kept : List Nat}
    (hkept : keepIdx cfg (favouring (valueAt rows i)) rows = some kept)
    (h : ¬Sure cfg rows i) : i ∉ kept := by
  rw [mem_keepIdx hkept, mem_detectOutliers]
  rintro ⟨-, hsampled | hrare | ⟨field, v, hcat, hv, hout⟩⟩
  · exact h (.inl hsampled)
  · exact h (.inr (.inl hrare))
  · apply hout
    apply mem_coverOf_favouring hv (mem_fieldValues.mpr ⟨i, hv⟩)
    by_contra hmore
    exact h (.inr (.inr ⟨field, v, hcat, hv, not_lt.mp hmore⟩))

/-- Where a value that the target may be reached without comes last, all rows with it are kept. -/
theorem mem_disfavouring {named : List Char → Option (List Char)} {kept : List Nat}
    (hkept : keepIdx cfg (disfavouring named) rows = some kept) (hnamed : named field = some v)
    (hcat : Categorical rows field)
    (hall : coverTarget (fieldValues rows field).length + (fieldValues rows field).count v ≤
      moreFrequent (fieldValues rows field) v + equallyFrequent (fieldValues rows field) v)
    (hi : i < rows.length) (hv : valueAt rows i field = some v) : i ∈ kept := by
  rw [mem_keepIdx hkept, mem_detectOutliers]
  exact ⟨hi, .inr (.inr ⟨field, v, hcat, hv,
    not_mem_coverOf_disfavouring hnamed (mem_fieldValues.mpr ⟨i, hv⟩) hall⟩)⟩

theorem lt_of_valueAt (hv : valueAt rows i field = some v) : i < rows.length := by
  by_contra hi
  rw [valueAt, List.getElem?_eq_none (not_lt.mp hi)] at hv
  cases hv

theorem exists_filter {order : HashOrder} {kept : List Nat}
    (hkept : keepIdx cfg order rows = some kept) :
    ∃ q : Nat → Bool, kept = (List.range rows.length).filter q := by
  obtain ⟨cap, -, rfl⟩ := Option.map_eq_some_iff.mp hkept
  exact ⟨_, rfl⟩

theorem sublist_of_keepIdx {order : HashOrder} {kept : List Nat}
    (hkept : keepIdx cfg order rows = some kept) : kept.Sublist (List.range rows.length) := by
  obtain ⟨q, rfl⟩ := exists_filter hkept
  exact List.filter_sublist

/-- The same rows are kept, and as many panics happen, as the order says. -/
theorem keepIdx_eq {order order' : HashOrder}
    (h : ∀ kept kept', keepIdx cfg order rows = some kept →
    keepIdx cfg order' rows = some kept' → ∀ i, i ∈ kept ↔ i ∈ kept') :
    keepIdx cfg order rows = keepIdx cfg order' rows := by
  unfold keepIdx at h ⊢
  cases hcap : optimalK rows (cfg.headRows + cfg.tailRows) cfg.maxKeep with
  | none => rfl
  | some cap =>
    simp only [hcap, Option.map_some, Option.some.injEq] at h ⊢
    apply List.filter_congr
    intro i hi
    have hmem := h _ _ rfl rfl i
    rw [List.mem_filter, List.mem_filter, and_iff_right hi, and_iff_right hi] at hmem
    exact Bool.eq_iff_iff.mpr hmem

/-! ## The output -/

omit [SerdeRows V] in
theorem sampleOf_range (rows : List V) : sampleOf rows (List.range rows.length) = rows := by
  unfold sampleOf
  induction rows with
  | nil => rfl
  | cons v rows ih => simp [List.range_succ_eq_map, List.filterMap_map, ih]

omit [SerdeRows V] in
theorem sampleOf_sublist {kept : List Nat} (hkept : kept.Sublist (List.range rows.length)) :
    (sampleOf rows kept).Sublist rows := by
  have h := hkept.filterMap fun i => rows[i]?
  change (sampleOf rows kept).Sublist (sampleOf rows (List.range rows.length)) at h
  rwa [sampleOf_range] at h

omit [SerdeRows V] in
/-- How many rows of a kind the output has. -/
theorem countP_sampleOf (rows : List V) (p : V → Bool) (kept : List Nat) :
    (sampleOf rows kept).countP p = kept.countP fun i => rows[i]?.any p := by
  induction kept with
  | nil => rfl
  | cons i kept ih =>
    unfold sampleOf at ih ⊢
    rw [List.filterMap_cons, List.countP_cons, ← ih]
    cases rows[i]? with
    | none => simp
    | some v => simp [List.countP_cons]

/-- A sample with all rows of a kind is the same as another one only if that has them, too. -/
theorem mem_of_countP_le {order order' : HashOrder} {kept kept' : List Nat}
    (hkept : keepIdx cfg order rows = some kept) (hkept' : keepIdx cfg order' rows = some kept')
    (p : V → Bool)
    (hsame : sampleOf rows kept' = sampleOf rows kept)
    (hall : ∀ i, rows[i]?.any p = true → i ∈ kept') {i : Nat}
    (hi : rows[i]?.any p = true) : i ∈ kept := by
  have hcount := countP_sampleOf rows p kept
  rw [← hsame, countP_sampleOf] at hcount
  obtain ⟨q, rfl⟩ := exists_filter hkept
  obtain ⟨q', rfl⟩ := exists_filter hkept'
  rw [List.countP_filter, List.countP_filter] at hcount
  have hfull : (List.range rows.length).countP (fun i => rows[i]?.any p) ≤
      (List.range rows.length).countP fun i => rows[i]?.any p && q' i := by
    apply List.countP_mono_left
    intro j _ hj
    exact Bool.and_eq_true_iff.mpr ⟨hj, (List.mem_filter.mp (hall j hj)).2⟩
  rw [hcount] at hfull
  have hlt : i ∈ List.range rows.length := by
    by_contra hi'
    rw [List.mem_range, not_lt] at hi'
    rw [List.getElem?_eq_none hi'] at hi
    cases hi
  exact List.mem_filter.mpr ⟨hlt, of_countP_le hfull i hlt hi⟩

/-- The row has the value in the field. -/
def hasValue (field v : List Char) (row : V) : Bool :=
  decide (((asObject row).bind fun o => (o.get field).map toText) = some v)

theorem any_hasValue : rows[i]?.any (hasValue field v) = true ↔ valueAt rows i field = some v := by
  unfold valueAt
  cases rows[i]? with
  | none => simp
  | some row => simp [hasValue]

theorem digits_injective {m n : Nat} {cs ds : List Char}
    (h : Nat.toDigits 10 m ++ ' ' :: cs = Nat.toDigits 10 n ++ ' ' :: ds) : m = n ∧ cs = ds := by
  have hdigits : ∀ n, ∀ c ∈ Nat.toDigits 10 n, (decide (c ≠ ' ')) = true := by
    intro n c hc
    have hdigit := Nat.isDigit_of_mem_toDigits (by decide) (by decide) hc
    simp only [decide_eq_true_eq]
    rintro rfl
    exact absurd hdigit (by decide)
  have htake := congrArg (List.takeWhile fun c => decide (c ≠ ' ')) h
  rw [List.takeWhile_append_of_pos (hdigits m), List.takeWhile_append_of_pos (hdigits n)] at htake
  have hsame : Nat.toDigits 10 m = Nat.toDigits 10 n := by simpa using htake
  rw [hsame] at h
  refine ⟨?_, by simpa using h⟩
  rw [← Nat.ofDigitChars_ten_toDigits (n := m), hsame, Nat.ofDigitChars_ten_toDigits]

/-- The output has its rows once. -/
theorem crushed_injective [UnambiguousRows V] {kept kept' : List Nat} {marker : String}
    (h : crushed rows kept marker = crushed rows kept' marker) :
      sampleOf rows kept = sampleOf rows kept' := by
  have hof : " of ".toList = ' ' :: "of ".toList := by decide
  unfold crushed headerLine at h
  simp only [hof, List.append_assoc, List.cons_append] at h
  obtain ⟨-, htail⟩ := digits_injective (List.append_cancel_left h)
  apply UnambiguousRows.injective
  simpa only [List.append_cancel_left_eq] using htail

/-- **A run that succeeds.** -/
theorem smartCrusher_ok [Sha256] {S : Type} [CcrStore S] {order : HashOrder} {content : List Char}
    {store store' : S}
    {out : OffloadOutput} (h : smartCrusher V cfg order content store = some (.ok (out, store'))) :
    ∃ rows kept, parseArray (V := V) (trimText content) = .ok (some rows) ∧
    keepIdx cfg order rows = some kept ∧
      out.output = crushed rows kept (markerFor (computeKey content)) := by
  unfold smartCrusher at h
  cases hparse : parseArray (V := V) (trimText content) with
  | error e => simp [hparse] at h
  | ok found =>
    cases found with
    | none => simp [hparse] at h
    | some rows =>
      simp only [hparse] at h
      split_ifs at h with hshort
      · simp at h
      · obtain ⟨kept, hkept, hout⟩ := Option.map_eq_some_iff.mp h
        split_ifs at hout
        obtain ⟨rfl, -⟩ := Prod.mk.inj (Except.ok.inj hout)
        exact ⟨rows, kept, rfl, hkept, rfl⟩

/-- The order of the hash maps matters for the kept rows only. -/
theorem smartCrusher_congr [Sha256] {S : Type} [CcrStore S] {order order' : HashOrder}
    {content : List Char} {store : S}
    (hparse : parseArray (V := V) (trimText content) = .ok (some rows))
    (h : keepIdx cfg order rows = keepIdx cfg order' rows) :
    smartCrusher V cfg order content store = smartCrusher V cfg order' content store := by
  unfold smartCrusher
  simp only [hparse, h]

/-- **Every sample has what does not depend on the order.** -/
theorem crushed_of_keepIdx [Sha256] {order : HashOrder} {content : List Char} {kept : List Nat}
    (hkept : keepIdx cfg order rows = some kept) :
    Crushed cfg content rows kept (crushed rows kept (markerFor (computeKey content))) := by
  have hsublist := sublist_of_keepIdx hkept
  obtain ⟨cap, hcap, -⟩ := Option.map_eq_some_iff.mp hkept
  refine ⟨rfl, hsublist, sampleOf_sublist hsublist, ?_, ?_, ?_⟩
  · intro i hi hhead
    exact mem_of_sure hkept hi (.inl ⟨cap, hcap, mem_selectIndicesCapped hi (.inl hhead)⟩)
  · intro i hi htail
    exact mem_of_sure hkept hi (.inl ⟨cap, hcap, mem_selectIndicesCapped hi (.inr htail)⟩)
  · rintro hmany i ⟨field, hsome, hlone⟩
    obtain ⟨v, hv⟩ := Option.isSome_iff_exists.mp hsome
    have hfloor := two_le_rareFieldFloor hmany
    exact mem_of_sure hkept (lt_of_valueAt hv) (.inr (.inl ⟨field, hsome, by omega⟩))

section
variable [Sha256] {S : Type} [CcrStore S] {content : List Char} {store : S}
  (hparse : parseArray (V := V) (trimText content) = .ok (some rows))
include hparse

theorem keepsOutliers_of_covered (h : OutliersCovered cfg rows) :
    KeepsOutliers cfg content store rows where
  independent order order' := by
    apply smartCrusher_congr hparse
    apply keepIdx_eq
    intro kept kept' hkept hkept' i
    have hlt : ∀ {order kept}, keepIdx cfg order rows = some kept → i ∈ kept → i < rows.length :=
      fun hkept hi => List.mem_range.mp ((sublist_of_keepIdx hkept).subset hi)
    constructor
    · intro hi
      exact mem_of_sure hkept' (hlt hkept hi) (sure_of_mem hkept h hi)
    · intro hi
      exact mem_of_sure hkept (hlt hkept' hi) (sure_of_mem hkept' h hi)
  lone := by
    intro hmany i hlone order out store' hok
    obtain ⟨rows', kept, hparse', hkept, -⟩ := smartCrusher_ok hok
    obtain rfl : rows = rows' := Option.some.inj (Except.ok.inj (hparse.symm.trans hparse'))
    have hsure := h.lone hmany i hlone
    obtain ⟨field, v, -, hv, -⟩ := hlone
    exact ⟨kept, hkept, mem_of_sure hkept (lt_of_valueAt hv) hsure⟩

theorem covered_of_keepsOutliers [UnambiguousRows V] (h : KeepsOutliers cfg content store rows)
    {order : HashOrder}
    {out : OffloadOutput} {store' : S}
    (hok : smartCrusher V cfg order content store = some (.ok (out, store'))) :
    OutliersCovered cfg rows := by
  -- with independence every order succeeds, and with the same output
  have hevery : ∀ order', ∃ kept, keepIdx cfg order' rows = some kept ∧
      out.output = crushed rows kept (markerFor (computeKey content)) := by
    intro order'
    rw [h.independent order order'] at hok
    obtain ⟨rows', kept, hparse', hkept, hout⟩ := smartCrusher_ok hok
    obtain rfl : rows = rows' := Option.some.inj (Except.ok.inj (hparse.symm.trans hparse'))
    exact ⟨kept, hkept, hout⟩
  constructor
  · intro hmany i hlone
    by_contra hnot
    rw [h.independent order (favouring (valueAt rows i))] at hok
    obtain ⟨kept, hkept, hi⟩ := h.lone hmany i hlone _ out store' hok
    exact not_mem_favouring hkept hnot hi
  · intro i field v hcat hv _ hall
    by_contra hnot
    obtain ⟨kept, hkept, hout⟩ := hevery (favouring (valueAt rows i))
    obtain ⟨kept', hkept', hout'⟩ := hevery (disfavouring (valueAt rows i))
    apply not_mem_favouring hkept hnot
    -- the second output has all rows with the value, so the first has them too
    have hsame := crushed_injective (hout.symm.trans hout')
    apply mem_of_countP_le hkept hkept' (hasValue field v) hsame.symm
    · intro j hj
      exact mem_disfavouring hkept' hv hcat hall (lt_of_valueAt (any_hasValue.mp hj))
        (any_hasValue.mp hj)
    · exact any_hasValue.mpr hv

end

/-- **A sample is in order, with the head, the tail and the only carriers; it keeps the lone values,
whatever the order of the hash maps, if and only if the outliers are covered.** -/
theorem smartCrusher_keeps_iff [UnambiguousRows V] [Sha256] {S : Type} [CcrStore S]
    {order : HashOrder} {content : List Char} {store store' : S} {out : OffloadOutput}
    (h : smartCrusher V cfg order content store = some (.ok (out, store'))) :
    ∃ rows kept, parseArray (V := V) (trimText content) = .ok (some rows) ∧
    keepIdx cfg order rows = some kept ∧
      Crushed cfg content rows kept out.output ∧
      (KeepsOutliers cfg content store rows ↔ OutliersCovered cfg rows) := by
  obtain ⟨rows, kept, hparse, hkept, hout⟩ := smartCrusher_ok h
  refine ⟨rows, kept, hparse, hkept, ?_, ?_⟩
  · rw [hout]
    exact crushed_of_keepIdx hkept
  · constructor
    · intro hkeeps
      exact covered_of_keepsOutliers hparse hkeeps h
    · intro hcovered
      exact keepsOutliers_of_covered hparse hcovered

end

/-! ## Samples -/

/-- Objects with a status of one character, and these statuses. -/
inductive SampleValue
  | row (status : Char)
  | text (status : Char)
  deriving DecidableEq

theorem nodup_status (c : Char) : ([(['s'], SampleValue.text c)].map Prod.fst).Nodup :=
  List.nodup_singleton _

def SampleValue.parse : List Char → Option SampleValue
  | ['\x7b', '"', 's', '"', ':', '"', c, '"', '\x7d'] => if c = '"' ∨ c = '\\' then none
    else some (.row c)
  | _ => none

instance : SerdeRows SampleValue where
  parseArray cs :=
    match cs with
    | '[' :: rest =>
      match (rest.dropLast.splitOn ',').mapM SampleValue.parse with
      | some rows => if rest.getLast? = some ']' then .ok (some rows)
        else .error "EOF while parsing a list"
      | none => .error "expected value"
    | _ => .error "expected value"
  asObject
    | .row c => some ⟨[(['s'], .text c)], nodup_status c⟩
    | .text _ => none
  toText
    | .row c => ['\x7b', '"', 's', '"', ':', '"', c, '"', '\x7d']
    | .text c => ['"', c, '"']

def statusRows (statuses : List Char) : List SampleValue := statuses.map .row

def statusArray (statuses : List Char) : List Char := arrayText (statusRows statuses)

/-- The rows behind a row. -/
theorem text_append_inj {a b : SampleValue} {cs ds : List Char}
    (h : SerdeRows.toText a ++ cs = SerdeRows.toText b ++ ds) : a = b ∧ cs = ds := by
  cases a with
  | row c =>
    cases b with
    | row d => simpa [SerdeRows.toText] using h
    | text d => simp [SerdeRows.toText] at h
  | text c =>
    cases b with
    | row d => simp [SerdeRows.toText] at h
    | text d => simpa [SerdeRows.toText] using h

theorem joined_inj (rows rows' : List SampleValue)
    (h : [','].intercalate (rows.map SerdeRows.toText) ++ [']'] =
      [','].intercalate (rows'.map SerdeRows.toText) ++ [']']) : rows = rows' := by
  have hopen : ∀ (v : SampleValue) (cs : List Char), ∃ c ds, c ≠ ']' ∧
      SerdeRows.toText v ++ cs = c :: ds := by
    intro v cs
    cases v with
    | row c => exact ⟨_, _, by decide, rfl⟩
    | text c => exact ⟨_, _, by decide, rfl⟩
  have hjoin : ∀ (v : SampleValue) (rows : List SampleValue),
      [','].intercalate ((v :: rows).map SerdeRows.toText) ++ [']'] = SerdeRows.toText v ++
        if rows = [] then [']'] else
          ',' :: ([','].intercalate (rows.map SerdeRows.toText) ++ [']']) := by
    intro v rows
    cases rows with
    | nil => simp
    | cons w rows => simp [List.intercalate_cons_cons]
  induction rows generalizing rows' with
  | nil =>
    cases rows' with
    | nil => rfl
    | cons v rows' =>
      rw [hjoin] at h
      obtain ⟨c, ds, hc, heq⟩ := hopen v (if rows' = [] then [']'] else _)
      rw [heq] at h
      simp [Ne.symm hc] at h
  | cons v rows ih =>
    cases rows' with
    | nil =>
      rw [hjoin] at h
      obtain ⟨c, ds, hc, heq⟩ := hopen v (if rows = [] then [']'] else _)
      rw [heq] at h
      simp [hc] at h
    | cons w rows' =>
      rw [hjoin, hjoin] at h
      obtain ⟨rfl, hrest⟩ := text_append_inj h
      split_ifs at hrest with hnil hnil' hnil'
      · rw [hnil, hnil']
      · simp at hrest
      · simp at hrest
      · rw [ih rows' (List.cons.inj hrest).2]

instance : UnambiguousRows SampleValue :=
  ⟨fun rows rows' h => joined_inj rows rows' (List.cons.inj h).2⟩

/-- The entries of the hash maps come as they were put in. -/
def insertionOrder : HashOrder := ⟨id, fun _ => id, List.Perm.refl, fun _ => List.Perm.refl⟩

/-- The crushing succeeds. -/
def isCrushed (content : List Char) : Bool :=
  match @smartCrusher Sha256.fips _ _ SampleValue _ .default insertionOrder content
    ([] : List (String × List Char)) with
  | some result => result.isOk
  | none => false

theorem exists_of_isCrushed (content : List Char) (h : isCrushed content = true) : ∃ out store',
    @smartCrusher Sha256.fips _ _ SampleValue _ .default insertionOrder content
      ([] : List (String × List Char)) = some (.ok (out, store')) := by
  unfold isCrushed at h
  revert h
  cases @smartCrusher Sha256.fips _ _ SampleValue _ .default insertionOrder content
      ([] : List (String × List Char)) with
  | none => exact fun h => absurd h (by decide)
  | some result =>
    cases result with
    | error e => exact fun h => absurd h (by simp [Except.isOk, Except.toBool])
    | ok result => exact fun _ => ⟨result.1, result.2, rfl⟩

/-- One error among twenty rows. -/
def quiet : List Char := List.replicate 6 'k' ++ 'e' :: List.replicate 13 'k'

/-- Nine lone statuses among forty rows. -/
def crowded : List Char := List.replicate 5 'k' ++ "123456789".toList ++ List.replicate 26 'k'

theorem field_of_valueAt {statuses field v : List Char} {i : Nat}
    (h : valueAt (statusRows statuses) i field = some v) : field = ['s'] := by
  obtain ⟨o, ho, hget⟩ := valueAt_eq_some.mp h
  rw [mem_objs, statusRows, List.getElem?_map] at ho
  cases hstatus : statuses[i]? with
  | none => simp [hstatus] at ho
  | some c =>
    rw [hstatus] at ho
    obtain rfl := Option.some.inj ho
    obtain ⟨w, hw, -⟩ := Option.map_eq_some_iff.mp hget
    have hkey := JsonMap.isSome_get.mp (Option.isSome_of_eq_some hw)
    exact List.mem_singleton.mp hkey

/-- The most frequent status covers enough. -/
theorem outliersCovered_quiet : OutliersCovered .default (statusRows quiet) := by
  constructor
  · rintro - i ⟨field, v, hcat, hv, hlone⟩
    obtain rfl := field_of_valueAt hv
    have hmore : ∀ v ∈ fieldValues (statusRows quiet) ['s'],
        (fieldValues (statusRows quiet) ['s']).count v = 1 →
        coverTarget (fieldValues (statusRows quiet) ['s']).length ≤
          moreFrequent (fieldValues (statusRows quiet) ['s']) v := by decide +kernel
    exact .inr (.inr ⟨_, v, hcat, hv, hmore v (mem_fieldValues.mpr ⟨i, hv⟩) hlone⟩)
  · intro i field v hcat hv hmore hall
    obtain rfl := field_of_valueAt hv
    have hnone : ∀ v ∈ fieldValues (statusRows quiet) ['s'],
        moreFrequent (fieldValues (statusRows quiet) ['s']) v <
        coverTarget (fieldValues (statusRows quiet) ['s']).length →
          ¬coverTarget (fieldValues (statusRows quiet) ['s']).length +
            (fieldValues (statusRows quiet) ['s']).count v ≤
            moreFrequent (fieldValues (statusRows quiet) ['s']) v +
              equallyFrequent (fieldValues (statusRows quiet) ['s']) v := by decide +kernel
    exact absurd hall (hnone v (mem_fieldValues.mpr ⟨i, hv⟩) hmore)

/-- The one error is kept, whatever the order. -/
theorem smartCrusher_keeps_iff_sample : ∃ out store',
    @smartCrusher Sha256.fips _ _ SampleValue _ .default insertionOrder (statusArray quiet)
      ([] : List (String × List Char)) = some (.ok (out, store')) ∧
    @KeepsOutliers SampleValue _ .default Sha256.fips _ _ (statusArray quiet)
      ([] : List (String × List Char)) (statusRows quiet) := by
  obtain ⟨out, store', h⟩ := exists_of_isCrushed (statusArray quiet) (by
    unfold isCrushed
    rw [Sha256.fips_eq]
    decide +kernel)
  refine ⟨out, store', h, ?_⟩
  obtain ⟨rows, kept, hparse, -, -, hiff⟩ :=
    @smartCrusher_keeps_iff SampleValue _ .default _ Sha256.fips _ _ _ _ _ _ _ h
  have hrows : SerdeRows.parseArray (V := SampleValue) (trimText (statusArray quiet)) =
    .ok (some (statusRows quiet)) := by
    decide +kernel
  obtain rfl : statusRows quiet = rows := Option.some.inj (Except.ok.inj (hrows.symm.trans hparse))
  exact hiff.mpr outliersCovered_quiet

/-- Where no status is frequent enough, lone statuses fill the cover, and the first one is
dropped. -/
theorem lone_status_is_dropped :
    ¬∀ order content (store : List (String × List Char)) out store' rows kept,
    @smartCrusher Sha256.fips _ _ SampleValue _ .default order content store =
      some (.ok (out, store')) →
      SerdeRows.parseArray (V := SampleValue) (trimText content) = .ok (some rows) →
        keepIdx .default order rows = some kept → 5 < (objs rows).length → ∀ i, LoneValue rows i →
        i ∈ kept := by
  intro hall
  obtain ⟨out, store', h⟩ := exists_of_isCrushed (statusArray crowded) (by
    unfold isCrushed
    rw [Sha256.fips_eq]
    decide +kernel)
  have hlone : LoneValue (statusRows crowded) 5 :=
    ⟨['s'], ['"', '1', '"'], ⟨by decide +kernel, by decide +kernel⟩, by decide +kernel, by
      decide +kernel⟩
  have hmem := hall insertionOrder _ [] out store' (statusRows crowded)
    [0, 1, 2, 3, 4, 6, 7, 8, 9, 10, 11, 12, 13, 38, 39] h (by decide +kernel) (by decide +kernel)
      (by decide +kernel) 5
    hlone
  exact absurd hmem (by decide)

end Neoth.Compress
