import Neoth.Pipeline.Envelope

/-!
# Fitting an envelope to the wire

* `bytes_render_mono`: a context with less data has no longer envelope, although its flags and
  digits change;
* `fitLoop_largest`: the binary search keeps the largest limit that fits;
* `fitToWireLimit_exact`: what comes back is the longest prefix that fits.
-/

open Lib Lib.Encoding Lib.Text

namespace Neoth.Pipeline

/-! ## Lengths -/

theorem bytes_le_of_sublist {cs ds : List Char} (h : cs.Sublist ds) : bytes cs ≤ bytes ds :=
  (h.map Char.utf8Size).sum_le_sum fun _ _ => Nat.zero_le _

theorem bytes_pushJsonString_mono {s t : String} (h : s.toList.Sublist t.toList) :
    bytes (pushJsonString s) ≤ bytes (pushJsonString t) := by
  have hescaped : (s.toList.flatMap escapeScalar).Sublist (t.toList.flatMap escapeScalar) :=
    h.flatMap _
  have hle := bytes_le_of_sublist hescaped
  simp only [pushJsonString, bytes_cons, bytes_append]
  omega

theorem escapeScalar_hexDigit : ∀ n < 16, bytes (escapeScalar (hexDigit n)) = 1 := by decide

/-- Digests are of one length. -/
theorem bytes_pushJsonString_hexEncode (digest : List UInt8) :
    bytes (pushJsonString (hexEncode digest)) = 2 * digest.length + 2 := by
  have hquote : '"'.utf8Size = 1 := rfl
  have hbody : bytes ((hexEncode digest).toList.flatMap escapeScalar) = 2 * digest.length := by
    unfold hexEncode
    rw [String.toList_ofList]
    induction digest with
    | nil => rfl
    | cons b digest ih =>
      have hhigh := escapeScalar_hexDigit (b.toNat / 16) (by have := b.toNat_lt; omega)
      have hlow := escapeScalar_hexDigit (b.toNat % 16) (Nat.mod_lt _ (by decide))
      simp only [List.flatMap_cons, List.cons_append, List.nil_append, bytes_append, hhigh, hlow,
        ih, List.length_cons]
      omega
  simp only [pushJsonString, bytes_cons, bytes_append, bytes_nil, hbody, hquote]
  omega

theorem bytes_toDigits (n : Nat) : bytes (Nat.toDigits 10 n) = (Nat.toDigits 10 n).length := by
  refine le_antisymm (bytes_toDigits_le ?_ ?_) (length_le_bytes _)
  · exact (List.length_pos_of_ne_nil Nat.toDigits_ne_nil).ne'
  · exact (Nat.length_toDigits_le_iff (by decide)
      (List.length_pos_of_ne_nil Nat.toDigits_ne_nil)).mp le_rfl

theorem bytes_toDigits_mono {m n : Nat} (h : m ≤ n) :
    bytes (Nat.toDigits 10 m) ≤ bytes (Nat.toDigits 10 n) := by
  have hpos : 0 < (Nat.toDigits 10 n).length := List.length_pos_of_ne_nil Nat.toDigits_ne_nil
  rw [bytes_toDigits n]
  exact bytes_toDigits_le hpos.ne'
    (h.trans_lt ((Nat.length_toDigits_le_iff (by decide) hpos).mp le_rfl))

theorem bytes_writeBool_mono {a b : Bool} (h : b = true → a = true) :
    bytes (writeBool a) ≤ bytes (writeBool b) := by
  cases a <;> cases b <;> simp_all
  decide

/-- A member with the same key and no longer a value. -/
structure NoLonger (a b : String × List Char) : Prop where
  key : a.1 = b.1
  value : bytes a.2 ≤ bytes b.2

theorem NoLonger.refl {a : String × List Char} : NoLonger a a := ⟨rfl, le_rfl⟩

theorem bytes_membersText_mono {as bs : List (String × List Char)}
    (h : List.Forall₂ NoLonger as bs) :
    bytes (JsonDecode.membersText as) ≤ bytes (JsonDecode.membersText bs) := by
  induction h with
  | nil => exact le_rfl
  | cons hab htail ih =>
    have hfirst := hab.value
    cases htail with
    | nil =>
      simp only [JsonDecode.membersText, JsonDecode.memberText, bytes_cons, bytes_append, hab.key]
      omega
    | cons hcd htail =>
      simp only [JsonDecode.membersText, JsonDecode.memberText, bytes_cons, bytes_append,
        hab.key] at ih ⊢
      omega

theorem bytes_objectText_mono {as bs : List (String × List Char)}
    (h : List.Forall₂ NoLonger as bs) :
    bytes (JsonDecode.objectText as) ≤ bytes (JsonDecode.objectText bs) := by
  have hmembers := bytes_membersText_mono h
  simp only [JsonDecode.objectText, bytes_cons, bytes_append]
  omega

/-! ## Contexts -/

section
variable [Sha256]

/-- `u` carries less of the same as `v`: part of the data, and the flags that this sets. -/
structure Narrower (u v : UntrustedContext) : Prop where
  class_ : u.class_ = v.class_
  sourceId : u.sourceId = v.sourceId
  transform : u.transform = v.transform
  parentSha256 : u.parentSha256 = v.parentSha256
  rootSha256 : bytes (pushJsonString u.rootSha256) = bytes (pushJsonString v.rootSha256)
  payloadSha256 : bytes (pushJsonString u.payloadSha256) = bytes (pushJsonString v.payloadSha256)
  rootBytes : u.rootBytes ≤ v.rootBytes
  payloadBytes : u.payloadBytes ≤ v.payloadBytes
  sourceTruncated : v.sourceTruncated = true → u.sourceTruncated = true
  lossy : v.lossy = true → u.lossy = true
  data : u.data.toList.Sublist v.data.toList

omit [Sha256] in
/-- **Less data is no longer on the wire.** -/
theorem bytes_render_mono {u v : UntrustedContext} (h : Narrower u v) :
    bytes u.render ≤ bytes v.render := by
  have hmembers : List.Forall₂ NoLonger (JsonDecode.texts u.entries)
      (JsonDecode.texts v.entries) := by
    unfold JsonDecode.texts UntrustedContext.entries
    rw [h.class_, h.sourceId, h.transform, h.parentSha256]
    simp only [List.map_cons, List.map_nil, List.forall₂_cons, List.forall₂_nil_left_iff, and_true]
    exact ⟨.refl, .refl, .refl, ⟨rfl, bytes_toDigits_mono h.rootBytes⟩,
      ⟨rfl, bytes_toDigits_mono h.payloadBytes⟩, ⟨rfl, bytes_writeBool_mono h.sourceTruncated⟩,
      .refl, ⟨rfl, bytes_writeBool_mono h.lossy⟩, ⟨rfl, h.rootSha256.le⟩, .refl,
      ⟨rfl, h.payloadSha256.le⟩, ⟨rfl, bytes_pushJsonString_mono h.data⟩⟩
  have hbody := bytes_objectText_mono hmembers
  rw [← UntrustedContext.wireBody_eq, ← UntrustedContext.wireBody_eq] at hbody
  unfold UntrustedContext.render
  simp only [bytes_append, bytes_cons]
  gcongr

theorem bytes_sha256Hex (s t : String) :
    bytes (pushJsonString (sha256Hex s)) = bytes (pushJsonString (sha256Hex t)) := by
  unfold sha256Hex
  rw [bytes_pushJsonString_hexEncode, bytes_pushJsonString_hexEncode, (Sha256.digest _).property,
    (Sha256.digest _).property]

variable {u : UntrustedContext} {maxWireBytes low high : Nat} {best : UntrustedContext}

/-- The limit that keeps everything leaves the envelope as it is. -/
theorem render_withCurrentPayloadLimit_of_le {root : String} (h : Sound root u) {n : Nat}
    (hn : byteLen u.data ≤ n) : (u.withCurrentPayloadLimit n).render = u.render := by
  have hdata : truncateUtf8 u.data n = u.data := by
    refine truncateUtf8_eq ?_
    rw [truncateUtf8, byteLen_ofList, takeBytes_eq_self_iff.mpr (byteLen_eq_bytes u.data ▸ hn),
      ← byteLen_eq_bytes]
    exact lt_irrefl _
  have hsame : u.withCurrentPayloadLimit n = u := by
    unfold UntrustedContext.withCurrentPayloadLimit
    simp only [hdata, lt_self_iff_false, decide_false, Bool.or_false, ← h.payloadBytes,
      ← h.payloadSha256, Bool.false_eq_true, if_false]
  exact congrArg UntrustedContext.render hsame

theorem narrower_withCurrentPayloadLimit (u : UntrustedContext) {m n : Nat} (h : m ≤ n) :
    Narrower (u.withCurrentPayloadLimit m) (u.withCurrentPayloadLimit n) := by
  have hdata : (truncateUtf8 u.data m).toList <+: (truncateUtf8 u.data n).toList := by
    unfold truncateUtf8
    rw [String.toList_ofList, String.toList_ofList, prefix_takeBytes_iff]
    exact ⟨takeBytes_initial m _, (bytes_takeBytes_le m _).trans h⟩
  have hbytes : byteLen (truncateUtf8 u.data m) ≤ byteLen (truncateUtf8 u.data n) := by
    rw [byteLen_eq_bytes, byteLen_eq_bytes]
    exact bytes_le_of_initial hdata
  have hflag : ∀ flag : Bool,
      (flag || decide (byteLen (truncateUtf8 u.data n) < byteLen u.data)) = true →
      (flag || decide (byteLen (truncateUtf8 u.data m) < byteLen u.data)) = true := by
    intro flag hn
    rw [Bool.or_eq_true, decide_eq_true_eq] at hn ⊢
    exact hn.imp_right hbytes.trans_lt
  constructor
  all_goals dsimp only [UntrustedContext.withCurrentPayloadLimit]
  · exact bytes_sha256Hex _ _
  · exact le_rfl
  · exact hbytes
  · exact hflag _
  · exact hflag _
  · exact hdata.sublist

/-- The context fits with so many bytes of data. -/
def FitsAt (u : UntrustedContext) (maxWireBytes n : Nat) : Prop :=
  bytes (u.withCurrentPayloadLimit n).render ≤ maxWireBytes

theorem FitsAt.mono {m n : Nat} (h : FitsAt u maxWireBytes n) (hle : m ≤ n) :
    FitsAt u maxWireBytes m :=
  (bytes_render_mono (narrower_withCurrentPayloadLimit u hle)).trans h

/-- **The search keeps the largest limit that fits.** -/
theorem fitLoop_largest (hbest : ∃ m, best = u.withCurrentPayloadLimit m ∧ FitsAt u maxWireBytes m ∧
    low ≤ m + 1) (hhigh : ∀ n, high < n → ¬ FitsAt u maxWireBytes n) :
    ∃ m, u.fitLoop maxWireBytes low high best = u.withCurrentPayloadLimit m ∧
    FitsAt u maxWireBytes m ∧
      ∀ n, FitsAt u maxWireBytes n → n ≤ m := by
  induction low, high, best using UntrustedContext.fitLoop.induct u maxWireBytes with
  | case1 low high best hle mid candidate hfits ih =>
    rw [UntrustedContext.fitLoop, if_pos hle, if_pos hfits]
    exact ih ⟨mid, rfl, hfits, le_rfl⟩ hhigh
  | case2 low high best hle mid candidate hfits hzero =>
    obtain ⟨m, -, hm, -⟩ := hbest
    exact absurd (hm.mono (Nat.zero_le m)) (hzero ▸ hfits)
  | case3 low high best hle mid candidate hfits hzero ih =>
    rw [UntrustedContext.fitLoop, if_pos hle, if_neg hfits, if_neg hzero]
    refine ih hbest fun n hn h => hfits (h.mono ?_)
    omega
  | case4 low high best hlt =>
    rw [UntrustedContext.fitLoop, if_neg hlt]
    obtain ⟨m, rfl, hm, hlow⟩ := hbest
    refine ⟨m, rfl, hm, fun n hn => ?_⟩
    by_contra hbeyond
    exact hhigh n (by omega) hn

/-- The context carries the longest prefix of the data that fits. -/
structure Longest (u : UntrustedContext) (maxWireBytes : Nat) (u' : UntrustedContext) : Prop where
  fits : bytes u'.render ≤ maxWireBytes
  truncated : u' = u ∨ ∃ n, u' = u.withCurrentPayloadLimit n
  initial : u'.data.toList <+: u.data.toList
  longest : ∀ data, data <+: u.data.toList →
    bytes (u.withCurrentPayloadLimit (bytes data)).render ≤ maxWireBytes → data <+: u'.data.toList
  unchanged : bytes u.render ≤ maxWireBytes → u' = u

theorem fitToWireLimit_of_fits (h : bytes u.render ≤ maxWireBytes) :
    u.fitToWireLimit maxWireBytes = some u := by
  rw [UntrustedContext.fitToWireLimit, if_pos h]

theorem fitToWireLimit_of_empty (h : ¬ bytes u.render ≤ maxWireBytes)
    (hempty : ¬ FitsAt u maxWireBytes 0) : u.fitToWireLimit maxWireBytes = none := by
  rw [UntrustedContext.fitToWireLimit, if_neg h]
  exact if_pos (not_le.mp hempty)

theorem fitToWireLimit_of_loop (h : ¬ bytes u.render ≤ maxWireBytes)
    (hempty : FitsAt u maxWireBytes 0) : u.fitToWireLimit maxWireBytes =
      some (u.fitLoop maxWireBytes 0 (byteLen u.data) (u.withCurrentPayloadLimit 0)) := by
  rw [UntrustedContext.fitToWireLimit, if_neg h]
  exact if_neg (not_lt.mpr hempty)

theorem longest_of_largest {m : Nat} (hover : ¬ bytes u.render ≤ maxWireBytes)
    (hm : FitsAt u maxWireBytes m)
    (hlargest : ∀ n, FitsAt u maxWireBytes n → n ≤ m) :
      Longest u maxWireBytes (u.withCurrentPayloadLimit m) := by
  have hdata : (u.withCurrentPayloadLimit m).data.toList = takeBytes m u.data.toList :=
    String.toList_ofList
  refine ⟨hm, .inr ⟨m, rfl⟩, ?_, fun data hinit hfit => ?_, fun hfit => absurd hfit hover⟩
  · rw [hdata]
    exact takeBytes_initial m _
  · rw [hdata, prefix_takeBytes_iff]
    exact ⟨hinit, hlargest _ hfit⟩

/-- **The fit is exact.** -/
theorem fitToWireLimit_exact {root : String} (h : Sound root u) (maxWireBytes : Nat) :
    (u.fitToWireLimit maxWireBytes = none ↔
      maxWireBytes < bytes (u.withCurrentPayloadLimit 0).render) ∧
      ∀ u', u.fitToWireLimit maxWireBytes = some u' → Longest u maxWireBytes u' := by
  have hwhole := render_withCurrentPayloadLimit_of_le h (n := byteLen u.data) le_rfl
  have hnone : ¬ FitsAt u maxWireBytes 0 ↔
      maxWireBytes < bytes (u.withCurrentPayloadLimit 0).render := not_le
  rw [← hnone]
  by_cases hfits : bytes u.render ≤ maxWireBytes
  · have hall : FitsAt u maxWireBytes (byteLen u.data) := by
      rw [FitsAt, hwhole]
      exact hfits
    rw [fitToWireLimit_of_fits hfits]
    refine ⟨iff_of_false (by simp) (not_not.mpr (hall.mono (Nat.zero_le _))), fun u' hu' => ?_⟩
    obtain rfl := Option.some.inj hu'
    exact ⟨hfits, .inl rfl, List.prefix_rfl, fun data hdata _ => hdata, fun _ => rfl⟩
  · by_cases hempty : FitsAt u maxWireBytes 0
    · rw [fitToWireLimit_of_loop hfits hempty]
      refine ⟨iff_of_false (by simp) (not_not.mpr hempty), fun u' hu' => ?_⟩
      have hbeyond : ∀ n, byteLen u.data < n → ¬ FitsAt u maxWireBytes n := by
        intro n hn hfit
        rw [FitsAt, render_withCurrentPayloadLimit_of_le h hn.le] at hfit
        exact hfits hfit
      obtain ⟨m, hloop, hm, hlargest⟩ := fitLoop_largest ⟨0, rfl, hempty, Nat.zero_le _⟩ hbeyond
      obtain rfl := hloop.symm.trans (Option.some.inj hu')
      exact longest_of_largest hfits hm hlargest
    · rw [fitToWireLimit_of_empty hfits hempty]
      exact ⟨iff_of_true rfl hempty, fun u' hu' => by cases hu'⟩

end

end Neoth.Pipeline
