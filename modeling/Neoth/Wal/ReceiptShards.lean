import Neoth.Wal.ReceiptLedger

/-!
# Shards of the receipt ledger, filled and read back

A shard that has been filled record by record holds what was inserted, sorted by handle and with
nothing behind it (`Shard.Holds`); sealed, it is read back as it is.

* `decodeRecord_recordOf`: a record of an exact frame;
* `Shard.Holds.admitRecord`, `Shard.Holds.finalizeShard`: what an insertion and the seal keep;
* `parseShard_of_holds`, `shard_of_parseShard`: reading back; and what an accepted shard consists
  of.
-/

open Lib.Encoding Lib.Slots Lib.Transaction Neoth.MeshSync Neoth.Wal.Codec

namespace Neoth.Wal

theorem context_toOption_eq_ok_iff {E A : Type} {x : Except E A} {error : String} {a : A} :
    context x.toOption error = .ok a ↔ x = .ok a := by
  cases x <;> simp [Except.toOption, context_eq_ok_iff]

/-! ## Handles -/

theorem length_pairsOf : ∀ bytes : List UInt8, (pairsOf bytes).length = bytes.length / 2
  | [] => rfl
  | [_] => by simp [pairsOf]
  | a :: b :: rest => by
    rw [pairsOf, List.length_cons, length_pairsOf rest, List.length_cons, List.length_cons]
    omega

variable {bytes : List UInt8}

theorem mapM_decodePair {pairs : List (UInt8 × UInt8)} (hlen : pairs.length = bytes.length)
    (h : ((pairs.zip bytes).all fun (pair, byte) =>
      match decodeLowerHexNibble pair.1, decodeLowerHexNibble pair.2 with
      | some high, some low => (high <<< 4 ||| low) == byte
      | _, _ => false) = true) :
    pairs.mapM ContextEvidenceReceipt.decodePair = .ok bytes := by
  induction pairs generalizing bytes with
  | nil =>
    rw [List.length_nil, eq_comm, List.length_eq_zero_iff] at hlen
    rw [hlen]
    rfl
  | cons pair pairs ih =>
    cases bytes with
    | nil => simp at hlen
    | cons byte bytes =>
      rw [List.zip_cons_cons, List.all_cons, Bool.and_eq_true] at h
      obtain ⟨hpair, hrest⟩ := h
      have hdecoded : ContextEvidenceReceipt.decodePair pair = .ok byte := by
        unfold ContextEvidenceReceipt.decodePair
        cases hhigh : decodeLowerHexNibble pair.1 with
        | none => simp [hhigh] at hpair
        | some high =>
          cases hlow : decodeLowerHexNibble pair.2 with
          | none => simp [hhigh, hlow] at hpair
          | some low =>
            simp only [hhigh, hlow, beq_iff_eq] at hpair
            rw [← hpair]
            rfl
      rw [List.mapM_cons, hdecoded, ih (by simpa using hlen) hrest]
      rfl

theorem Handle.ofBytes_val (handle : Handle) : Handle.ofBytes handle.val = handle :=
  Subtype.ext (List.take_left' handle.property)

variable {receipt : ContextEvidenceReceipt} {handle : Handle}

/-- The handle of a receipt is the one that it matches. -/
theorem opaqueHandle_of_matches (hvalid : receipt.validate = .ok ())
    (h : receipt.matchesOpaqueHandle handle = true) : receipt.opaqueHandle = .ok handle := by
  unfold ContextEvidenceReceipt.matchesOpaqueHandle at h
  rw [Bool.and_eq_true, beq_iff_eq] at h
  obtain ⟨hlen, hall⟩ := h
  have hpairs : (pairsOf (utf8 receipt.receiptHandle)).length = handle.val.length := by
    rw [length_pairsOf, hlen, handle.property]
    rfl
  unfold ContextEvidenceReceipt.opaqueHandle
  rw [hvalid, List.take_of_length_le (by rw [hpairs, handle.property]), mapM_decodePair hpairs hall]
  exact congrArg Except.ok handle.ofBytes_val

/-! ## Records -/

/-- A frame as a record holds it. -/
def recordOf (frame : List UInt8) : List UInt8 :=
  leBytes 2 frame.length ++
    (.replicate 6 0 ++ (frame ++ .replicate (frameMaxBytes - frame.length) 0))

variable {frame : List UInt8}

theorem length_recordOf (h : frame.length ≤ frameMaxBytes) :
    (recordOf frame).length = recordBytes := by
  simp only [recordOf, List.length_append, length_leBytes, List.length_replicate]
  unfold frameMaxBytes recordBytes at *
  omega

/-- What `insert_record` writes. -/
theorem writeAt_eq_recordOf (h : frame.length ≤ frameMaxBytes) :
    writeAt (writeAt (.replicate recordBytes 0) 0 (leBytes 2 frame.length)) 8 frame =
      recordOf frame := by
  have hblank : List.replicate recordBytes (0 : UInt8) = [] ++ (.replicate 2 0 ++ (.replicate 6 0 ++
      (.replicate frame.length 0 ++ .replicate (frameMaxBytes - frame.length) 0))) := by
    rw [List.nil_append, ← List.replicate_add, ← List.replicate_add, ← List.replicate_add]
    congr 1
    unfold frameMaxBytes recordBytes at *
    omega
  have hlength : writeAt (.replicate recordBytes 0) 0 (leBytes 2 frame.length) =
      (leBytes 2 frame.length ++ .replicate 6 0) ++ (.replicate frame.length 0 ++
        .replicate (frameMaxBytes - frame.length) 0) := by
    rw [hblank, show (0 : Nat) = ([] : List UInt8).length from rfl,
      writeAt_append (by rw [List.length_replicate, length_leBytes]), List.nil_append,
      List.append_assoc]
  have hstart : 8 = (leBytes 2 frame.length ++ List.replicate 6 (0 : UInt8)).length := by
    rw [List.length_append, length_leBytes, List.length_replicate]
  rw [hlength, hstart, writeAt_append List.length_replicate, List.append_assoc]
  rfl

theorem allZero_replicate (n : Nat) : allZero (.replicate n 0) = true := by
  simp [allZero]

theorem eq_replicate_of_allZero (h : allZero bytes = true) : bytes = .replicate bytes.length 0 := by
  refine List.eq_replicate_of_mem fun b hb => ?_
  simpa using List.all_eq_true.mp h b hb

theorem fields_recordOf (h : frame.length ≤ frameMaxBytes) :
    (u16At (recordOf frame) 0).toNat = frame.length ∧ slice (recordOf frame) 2 6 = .replicate 6 0 ∧
      (recordOf frame).drop (8 + frame.length) = .replicate (frameMaxBytes - frame.length) 0 ∧
      slice (recordOf frame) 8 frame.length = frame := by
  have hsmall : frame.length < 2 ^ 16 := by
    unfold frameMaxBytes at h
    omega
  refine ⟨?_, ?_, ?_, ?_⟩
  · rw [u16At, recordOf, slice_append_left (length_leBytes _ _), leNat_leBytes hsmall,
      UInt16.toNat_ofNat', Nat.mod_eq_of_lt hsmall]
  · rw [recordOf, slice_append_right (by simp), length_leBytes,
      slice_append_left List.length_replicate]
  · have hassoc : recordOf frame = (leBytes 2 frame.length ++ (.replicate 6 0 ++ frame)) ++
        .replicate (frameMaxBytes - frame.length) 0 := by
      simp only [recordOf, List.append_assoc]
    rw [hassoc, List.drop_left']
    simp only [List.length_append, length_leBytes, List.length_replicate]
    omega
  · rw [recordOf, slice_append_right (by simp), length_leBytes, slice_append_right (by simp),
      List.length_replicate, slice_append_left rfl]

section
variable [ReceiptJson]

variable {expected : ContextEvidenceReceipt}

/-- What an exact frame is. -/
theorem validateExactFrame_eq_ok_iff :
    validateExactFrame handle expected frame = .ok () ↔ frame.length ≤ frameMaxBytes ∧
      ∃ decoded, Codec.decodeFrame frame = .ok decoded ∧
      decoded.header.totalLen.toNat = frame.length ∧
        decoded.header.eventType = eventTypeExtended ∧
        decoded.header.eventSubtype = contextEvidenceReceiptSubtype ∧
        ContextEvidenceReceipt.decode decoded.payload = .ok expected ∧
        expected.matchesOpaqueHandle handle = true := by
  unfold validateExactFrame
  simp only [bind_eq_ok_iff, require_eq_ok_iff, context_toOption_eq_ok_iff, Unique.exists_iff,
    decide_eq_true_eq, beq_iff_eq, Bool.and_eq_true]
  constructor
  · rintro ⟨hlen, decoded, hdecoded, htotal, htype, hsubtype, receipt, hreceipt, rfl, hhandle⟩
    exact ⟨hlen, decoded, hdecoded, htotal, htype, hsubtype, hreceipt, hhandle⟩
  · rintro ⟨hlen, decoded, hdecoded, htotal, htype, hsubtype, hreceipt, hhandle⟩
    exact ⟨hlen, decoded, hdecoded, htotal, htype, hsubtype, expected, hreceipt, rfl, hhandle⟩

theorem validate_of_decode {encoded : List UInt8}
    (h : ContextEvidenceReceipt.decode encoded = .ok receipt) : receipt.validate = .ok () := by
  unfold ContextEvidenceReceipt.decode at h
  simp only [bind_eq_ok_iff, Unique.exists_iff] at h
  obtain ⟨-, receipt', -, hvalid, heq⟩ := h
  cases heq
  exact hvalid

omit [ReceiptJson] in
/-- The shortest frame has 104 bytes. -/
theorem length_of_decodeFrame {decoded : Codec.DecodedFrame}
    (h : Codec.decodeFrame frame = .ok decoded) : 104 ≤ frame.length := by
  unfold Codec.decodeFrame at h
  simp only [bind_eq_ok_iff, require_eq_ok_iff] at h
  obtain ⟨-, hneed, -⟩ := h
  exact of_decide_eq_true hneed

/-- **The record of an exact frame decodes to its receipt.** -/
theorem decodeRecord_recordOf (h : validateExactFrame handle expected frame = .ok ()) :
    decodeRecord (recordOf frame) = .ok (handle, expected) := by
  obtain ⟨hlen, decoded, hdecoded, htotal, htype, hsubtype, hreceipt, hhandle⟩ :=
    validateExactFrame_eq_ok_iff.mp h
  obtain ⟨hcount, hreserved, hpadding, hframe⟩ := fields_recordOf hlen
  have hopaque := opaqueHandle_of_matches (validate_of_decode hreceipt) hhandle
  unfold decodeRecord
  simp only [bind_eq_ok_iff, require_eq_ok_iff, context_toOption_eq_ok_iff, Unique.exists_iff,
    decide_eq_true_eq, beq_iff_eq, Bool.and_eq_true, hcount, hreserved, hpadding, hframe,
    allZero_replicate, length_recordOf hlen]
  exact ⟨trivial, ⟨length_of_decodeFrame hdecoded, hlen⟩, trivial, trivial, decoded,
    hdecoded, htotal, ⟨htype, hsubtype⟩, expected, hreceipt, handle, hopaque, rfl⟩

/-- A record that decodes is the record of its frame. -/
theorem recordOf_of_decodeRecord {record : List UInt8} {r : Handle × ContextEvidenceReceipt}
    (h : decodeRecord record = .ok r) :
      record = recordOf (slice record 8 (u16At record 0).toNat) := by
  unfold decodeRecord at h
  simp only [bind_eq_ok_iff, require_eq_ok_iff, Unique.exists_iff, decide_eq_true_eq, beq_iff_eq,
    Bool.and_eq_true] at h
  obtain ⟨hsize, ⟨-, hlen⟩, hreserved, hpadding, -⟩ := h
  have hfit : 8 + (u16At record 0).toNat ≤ record.length := by
    unfold frameMaxBytes at hlen
    unfold recordBytes at hsize
    omega
  have hframe : (slice record 8 (u16At record 0).toNat).length = (u16At record 0).toNat :=
    length_slice hfit
  have hrest : record.drop (8 + (u16At record 0).toNat) =
      .replicate (frameMaxBytes - (u16At record 0).toNat) 0 := by
    rw [eq_replicate_of_allZero hpadding, List.length_drop, hsize]
    congr 1
    unfold frameMaxBytes recordBytes at *
    omega
  have hzero : slice record 2 6 = .replicate 6 0 := by
    rw [eq_replicate_of_allZero hreserved, length_slice (by omega)]
  rw [recordOf, hframe, leBytes_u16At (by omega), ← hzero, ← hrest, ← drop_eq_slice_append record 8,
    ← drop_eq_slice_append record 2 6, ← drop_eq_slice_append record 0 2, List.drop_zero]

end

/-! ## Shards that are filled -/

section
variable [Sha256] [ReceiptJson]

/-- An exact frame in the shard of its handle. -/
structure Belongs (key : Digest) (shard : UInt8) (r : Handle × List UInt8) : Prop where
  exact_ : ∃ expected, validateExactFrame r.1 expected r.2 = .ok ()
  placed : shardForHandle key r.1 = shard

variable {key : Digest}

theorem Belongs.fits {shard : UInt8} {r : Handle × List UInt8} (h : Belongs key shard r) :
    r.2.length ≤ frameMaxBytes := by
  obtain ⟨expected, hexact⟩ := h.exact_
  exact (validateExactFrame_eq_ok_iff.mp hexact).1

omit [Sha256] [ReceiptJson] in
/-- The records of a shard: these, and nothing behind them. -/
def laidOut (records : List (Handle × List UInt8)) : List UInt8 :=
  (records.map fun r => recordOf r.2).flatten ++
    .replicate ((recordsPerShard - records.length) * recordBytes) 0

/-- The shard holds these records, by handle. -/
structure Shard.Holds (shard : Shard) (key : Digest) (records : List (Handle × List UInt8)) :
    Prop where
  size : shard.bytes.length = shardBytes
  content : shardRecords shard.bytes = laidOut records
  handles : shard.handles = records.map (·.1)
  count : shard.count = records.length
  fits : records.length ≤ recordsPerShard
  sorted : records.Pairwise fun r s => r.1.order < s.1.order
  belong : ∀ r ∈ records, Belongs key shard.shard r

omit [Sha256] [ReceiptJson] in
theorem length_flatten_records {records : List (Handle × List UInt8)}
    (h : ∀ r ∈ records, r.2.length ≤ frameMaxBytes) :
    ((records.map fun r => recordOf r.2).flatten).length = records.length * recordBytes := by
  have hsizes : ∀ record ∈ records.map fun r => recordOf r.2, record.length = recordBytes := by
    intro record hrecord
    obtain ⟨r, hr, rfl⟩ := List.mem_map.mp hrecord
    exact length_recordOf (h r hr)
  rw [length_flatten hsizes, List.length_map]

theorem length_laidOut {shard : UInt8} {records : List (Handle × List UInt8)}
    (h : ∀ r ∈ records, Belongs key shard r) (hfits : records.length ≤ recordsPerShard) :
    (laidOut records).length = recordsBytes := by
  rw [laidOut, List.length_append, length_flatten_records fun r hr => (h r hr).fits,
    List.length_replicate, ← Nat.add_mul, Nat.add_sub_cancel' hfits]
  rfl

omit [Sha256] [ReceiptJson] in
theorem length_shardRecords (h : bytes.length = shardBytes) :
    (shardRecords bytes).length = recordsBytes :=
  length_slice (by rw [h, shardBytes]; exact Nat.le_add_right _ _)

omit [Sha256] [ReceiptJson] in
theorem shardRecords_append {header records rest : List UInt8}
    (hheader : header.length = shardHeaderBytes)
    (hrecords : records.length = recordsBytes) :
      shardRecords (header ++ (records ++ rest)) = records := by
  rw [shardRecords, slice_append_right hheader.le, hheader, Nat.sub_self,
    slice_append_left hrecords]

omit [Sha256] [ReceiptJson] in
/-- The records of a shard are written, the rest stays. -/
theorem writeAt_records {bytes records : List UInt8} (hbytes : bytes.length = shardBytes)
    (hrecords : records.length = recordsBytes) :
    (writeAt bytes shardHeaderBytes records).length = shardBytes ∧
      shardRecords (writeAt bytes shardHeaderBytes records) = records := by
  have hfits : shardHeaderBytes + records.length ≤ bytes.length := by
    rw [hbytes, hrecords]
    exact Nat.le_add_right _ _
  refine ⟨(length_writeAt hfits).trans hbytes, ?_⟩
  rw [writeAt, shardRecords_append _ hrecords]
  rw [List.length_take]
  omega

theorem holds_emptyShard (key : Digest) (shard : UInt8) (generation : UInt64) :
    (emptyShard shard generation).Holds key [] where
  size := List.length_replicate
  content := by
    rw [emptyShard, shardRecords, slice, List.drop_replicate, List.take_replicate, laidOut,
      List.map_nil, List.flatten_nil, List.nil_append, List.length_nil, Nat.sub_zero]
    congr 1
  handles := rfl
  count := rfl
  fits := Nat.zero_le _
  sorted := List.Pairwise.nil
  belong := by simp

omit [Sha256] [ReceiptJson] in
/-- What an insertion does to the records. -/
theorem laidOut_insert {front back : List (Handle × List UInt8)} {handle : Handle}
    {frame : List UInt8}
    (hfront : ((front.map fun r => recordOf r.2).flatten).length = front.length * recordBytes)
    (hback : ((back.map fun r => recordOf r.2).flatten).length = back.length * recordBytes)
    (hframe : frame.length ≤ frameMaxBytes) (hfits : (front ++ back).length < recordsPerShard) :
    writeAt (copyWithin (laidOut (front ++ back)) (front.length * recordBytes)
      ((front ++ back).length * recordBytes)
      (front.length * recordBytes + recordBytes)) (front.length * recordBytes) (recordOf frame) =
        laidOut (front ++ (handle, frame) :: back) := by
  have hfree : recordsPerShard - (front ++ back).length =
      (recordsPerShard - (front ++ (handle, frame) :: back).length) + 1 := by
    simp only [List.length_append, List.length_cons] at hfits ⊢
    omega
  have hroom :
      recordBytes ≤ (List.replicate ((recordsPerShard - (front ++ back).length) * recordBytes)
      (0 : UInt8)).length := by
    rw [List.length_replicate, hfree, Nat.succ_mul]
    exact Nat.le_add_left _ _
  have hrecord := length_recordOf hframe
  have hinsert := @insert_slot _ (front.map fun r => recordOf r.2).flatten
    (back.map fun r => recordOf r.2).flatten
    (.replicate ((recordsPerShard - (front ++ back).length) * recordBytes) 0) (recordOf frame)
    (by rw [hrecord]; exact hroom)
  rw [hfront, hback, hrecord, ← Nat.add_mul, ← List.length_append, List.drop_replicate] at hinsert
  rw [laidOut, List.map_append, List.flatten_append, List.append_assoc, hinsert, laidOut,
    List.map_append, List.map_cons, List.flatten_append, List.flatten_cons, List.append_assoc,
    List.append_assoc, hfree, Nat.succ_mul, Nat.add_sub_cancel]

omit [Sha256] [ReceiptJson] in
theorem insertRecord_eq_ok {shard : Shard} (hroom : shard.count < recordsPerShard) (position : Nat)
    (handle : Handle) (hfits : frame.length ≤ frameMaxBytes) :
    ∃ filled, insertRecord shard position handle frame = .ok filled ∧
    filled.count = shard.count + 1 ∧
      filled.handles = shard.handles.insertIdx position handle := by
  unfold insertRecord
  simp only [bind_eq_ok_iff, require_eq_ok_iff, Unique.exists_iff, decide_eq_true_eq]
  exact ⟨_, ⟨hroom, hfits, rfl⟩, rfl, rfl⟩

variable {handles : List Handle}

omit [Sha256] [ReceiptJson] in
theorem binarySearch_eq_error {position : Nat} (h : binarySearch handles handle = .error position) :
    handle ∉ handles ∧
    position = (handles.takeWhile fun other => decide (other.order < handle.order)).length := by
  unfold binarySearch at h
  split at h
  · cases h
  · rename_i hnone
    refine ⟨fun hmem => ?_, (Except.error.inj h).symm⟩
    simpa using List.findIdx?_eq_none_iff.mp hnone handle hmem

omit [Sha256] [ReceiptJson] in
theorem binarySearch_eq_ok {position : Nat} (h : binarySearch handles handle = .ok position) :
    handle ∈ handles := by
  unfold binarySearch at h
  split at h
  · rename_i position' hsome
    obtain ⟨hlt, hsame, -⟩ := List.findIdx?_eq_some_iff_getElem.mp hsome
    rw [← beq_iff_eq.mp hsame]
    exact List.getElem_mem hlt
  · cases h

omit [Sha256] [ReceiptJson] in
theorem admitRecord_emptyShard (shard : UInt8) (generation : UInt64) (append : Append) :
    (emptyShard shard generation).admitRecord append =
      insertRecord (emptyShard shard generation) 0 append.handle append.frame := rfl

omit [Sha256] [ReceiptJson] in
/-- Where the search ends, the records stay sorted. -/
theorem sorted_insert {records : List (Handle × List UInt8)}
    (hsorted : records.Pairwise fun r s => r.1.order < s.1.order)
    (hnew : handle ∉ records.map (·.1)) :
    (records.takeWhile (fun r => decide (r.1.order < handle.order)) ++
      (handle, frame) :: records.dropWhile fun r => decide (r.1.order < handle.order)).Pairwise
        fun r s => r.1.order < s.1.order := by
  have hfront : ∀ r ∈ records.takeWhile fun r => decide (r.1.order < handle.order),
      r.1.order < handle.order :=
    fun r hr => by simpa using List.mem_takeWhile_imp hr
  have hback : ∀ r ∈ records.dropWhile fun r => decide (r.1.order < handle.order),
      handle.order < r.1.order := by
    intro r hr
    cases hdrop : records.dropWhile fun r => decide (r.1.order < handle.order) with
    | nil => simp [hdrop] at hr
    | cons first rest =>
      have hfirst : handle.order < first.1.order := by
        have hnot : ¬ first.1.order < handle.order := by
          have hhead := List.head_dropWhile_not
            (fun r : Handle × List UInt8 => decide (r.1.order < handle.order))
            (l := records) (by simp [hdrop])
          simpa [hdrop] using hhead
        refine lt_of_le_of_ne (not_lt.mp hnot) fun heq => hnew ?_
        rw [Handle.order_injective heq]
        exact List.mem_map_of_mem ((List.dropWhile_sublist _).subset (hdrop ▸ List.mem_cons_self))
      rw [hdrop] at hr
      rcases List.mem_cons.mp hr with rfl | hr
      · exact hfirst
      · have hdropped : (first :: rest).Pairwise fun r s => r.1.order < s.1.order :=
          hdrop ▸ hsorted.sublist (List.dropWhile_sublist _)
        exact hfirst.trans ((List.pairwise_cons.mp hdropped).1 r hr)
  refine List.pairwise_append.mpr ⟨hsorted.sublist (List.takeWhile_sublist _),
    List.pairwise_cons.mpr ⟨hback, hsorted.sublist (List.dropWhile_sublist _)⟩, ?_⟩
  intro r hr s hs
  rcases List.mem_cons.mp hs with rfl | hs
  · exact hfront r hr
  · exact (hfront r hr).trans (hback s hs)

/-- **An append leaves the records sorted and nothing behind them, with the record of a new handle
among them.** -/
theorem Shard.Holds.admitRecord {shard shard' : Shard} {key : Digest}
    {records : List (Handle × List UInt8)} (h : shard.Holds key records) {append : Append}
    (hbelongs : Belongs key shard.shard (append.handle, append.frame))
    (hstep : shard.admitRecord append = .ok shard') :
    ∃ records', shard'.Holds key records' ∧ shard'.shard = shard.shard ∧
      ∀ r, r ∈ records' ↔
      r ∈ records ∨ (append.handle ∉ records.map (·.1) ∧ r = (append.handle, append.frame)) := by
  unfold Shard.admitRecord at hstep
  cases hsearch : binarySearch shard.handles append.handle with
  | ok position =>
    rw [hsearch] at hstep
    cases hstep
    have hmem := binarySearch_eq_ok hsearch
    rw [h.handles] at hmem
    exact ⟨records, h, rfl, fun r => ⟨.inl, fun hr => hr.resolve_right fun hnew => hnew.1 hmem⟩⟩
  | error position =>
    rw [hsearch] at hstep
    obtain ⟨hnew, hposition⟩ := binarySearch_eq_error hsearch
    rw [h.handles] at hnew
    unfold insertRecord at hstep
    simp only [bind_eq_ok_iff, require_eq_ok_iff, Unique.exists_iff, decide_eq_true_eq] at hstep
    obtain ⟨hroom, hfits, hinserted⟩ := hstep
    cases hinserted
    let before : Handle × List UInt8 → Bool := fun r => decide (r.1.order < append.handle.order)
    have hsplit : records = records.takeWhile before ++ records.dropWhile before :=
      List.takeWhile_append_dropWhile.symm
    have hfront : position = (records.takeWhile before).length := by
      rw [hposition, h.handles, List.takeWhile_map, List.length_map]
      rfl
    have hcount : (records.takeWhile before ++ records.dropWhile before).length <
        recordsPerShard := by
      rw [← hsplit, ← h.count]
      exact hroom
    have hbelong := h.belong
    rw [hsplit] at hbelong
    have hlaid := @laidOut_insert (records.takeWhile before) (records.dropWhile before)
      append.handle append.frame
      (length_flatten_records fun r hr => (hbelong r (List.mem_append_left _ hr)).fits)
      (length_flatten_records fun r hr => (hbelong r (List.mem_append_right _ hr)).fits)
        hfits hcount
    rw [← hsplit, ← h.content, ← h.count, ← hfront] at hlaid
    have hbelong' : ∀ r ∈ records.takeWhile before ++ (append.handle, append.frame) ::
        records.dropWhile before, Belongs key shard.shard r := by
      intro r hr
      rcases List.mem_append.mp hr with hr | hr
      · exact hbelong r (List.mem_append_left _ hr)
      · rcases List.mem_cons.mp hr with rfl | hr
        · exact hbelongs
        · exact hbelong r (List.mem_append_right _ hr)
    have hlength : (records.takeWhile before ++ (append.handle, append.frame) ::
        records.dropWhile before).length = shard.count + 1 := by
      rw [h.count, hsplit, List.length_append, List.length_append, List.length_cons, ← hsplit]
      omega
    obtain ⟨hsize, hcontent⟩ :=
      writeAt_records h.size (length_laidOut hbelong' (by rw [hlength]; exact hroom))
    refine ⟨records.takeWhile before ++ (append.handle, append.frame) :: records.dropWhile before,
      ⟨?_, ?_, ?_, hlength.symm, by rw [hlength]; exact hroom, sorted_insert h.sorted hnew,
        hbelong'⟩, rfl, fun r => ?_⟩
    · rw [writeAt_eq_recordOf hfits, hlaid]
      exact hsize
    · rw [writeAt_eq_recordOf hfits, hlaid]
      exact hcontent
    · have hhandles : shard.handles = (records.takeWhile before).map (·.1) ++
          (records.dropWhile before).map (·.1) := by
        rw [h.handles, ← List.map_append, ← hsplit]
      have hat : position = ((records.takeWhile before).map (·.1)).length := by
        rw [hfront, List.length_map]
      show shard.handles.insertIdx position append.handle = _
      rw [hhandles, hat, insertIdx_append, List.map_append, List.map_cons]
    · constructor
      · intro hr
        rcases List.mem_append.mp hr with hr | hr
        · exact .inl ((List.takeWhile_sublist _).subset hr)
        · rcases List.mem_cons.mp hr with rfl | hr
          · exact .inr ⟨hnew, rfl⟩
          · exact .inl ((List.dropWhile_sublist _).subset hr)
      · rintro (hr | ⟨-, rfl⟩)
        · rw [hsplit] at hr
          rcases List.mem_append.mp hr with hr | hr
          · exact List.mem_append_left _ hr
          · exact List.mem_append_right _ (List.mem_cons_of_mem _ hr)
        · exact List.mem_append_right _ List.mem_cons_self

/-- **A shard that is filled holds, for each handle, the first frame that came with it.** -/
theorem holds_foldlM {shard : UInt8} {generation : UInt64} {appends : List Append} {filled : Shard}
    (hbelong : ∀ append ∈ appends, Belongs key shard (append.handle, append.frame))
    (h : appends.foldlM Shard.admitRecord (emptyShard shard generation) = .ok filled) :
    ∃ records, filled.Holds key records ∧ filled.shard = shard ∧
      ∀ handle frame, (handle, frame) ∈ records ↔
        (appends.find? fun append => append.handle == handle).map (·.frame) = some frame := by
  induction appends using List.reverseRecOn generalizing filled with
  | nil =>
    cases h
    exact ⟨[], holds_emptyShard key shard generation, rfl, by simp⟩
  | append_singleton appends append ih =>
    rw [List.foldlM_append, bind_eq_ok_iff] at h
    obtain ⟨before, hbefore, h⟩ := h
    obtain ⟨records, hholds, rfl, hfirst⟩ :=
      ih (fun a ha => hbelong a (List.mem_append_left _ ha)) hbefore
    have hstep : before.admitRecord append = .ok filled := by simpa using h
    obtain ⟨records', hholds', hshard, hmem⟩ := hholds.admitRecord
      (hbelong append (List.mem_append_right _ (List.mem_singleton_self _))) hstep
    refine ⟨records', hholds', hshard, fun handle frame => ?_⟩
    rw [hmem, List.find?_append]
    cases hfind : appends.find? fun append => append.handle == handle with
    | some earlier =>
      have hknown : handle ∈ records.map (·.1) :=
        List.mem_map.mpr ⟨(handle, earlier.frame),
          (hfirst handle earlier.frame).mpr (by rw [hfind]; rfl), rfl⟩
      rw [hfirst, hfind, Option.some_or]
      refine ⟨fun hr => hr.elim id fun hnew => ?_, .inl⟩
      obtain ⟨hnew, heq⟩ := hnew
      cases heq
      exact absurd hknown hnew
    | none =>
      have hnew : ∀ frame, (handle, frame) ∉ records := fun frame hr => by
        rw [hfirst, hfind] at hr
        cases hr
      rw [Option.none_or, List.find?_singleton]
      by_cases hsame : append.handle = handle
      · subst hsame
        have hnot : append.handle ∉ records.map (·.1) := by
          intro hr
          obtain ⟨r, hr, hhandle⟩ := List.mem_map.mp hr
          exact hnew r.2 (hhandle ▸ hr)
        simp [hnew, hnot, eq_comm]
      · have hvalues : append.handle.val ≠ handle.val := fun hval => hsame (Subtype.ext hval)
        simp [hnew, Ne.symm hsame, hvalues]

end

/-! ## Sealed objects -/

section
variable [Sha256]

theorem length_tag (key : Digest) (domain body : List UInt8) :
    (tag key domain body).length = tagBytes :=
  (Sha256.digest _).property

/-- A body with its tag. -/
def sealedObject (key : Digest) (domain body : List UInt8) : List UInt8 :=
  body ++ tag key domain body

theorem length_sealedObject (key : Digest) (domain body : List UInt8) :
    (sealedObject key domain body).length = body.length + tagBytes := by
  rw [sealedObject, List.length_append, length_tag]

variable {key : Digest}

theorem verifyTag_eq_ok_iff {domain bytes : List UInt8} :
    verifyTag key domain bytes = .ok () ↔ ∃ body, bytes = sealedObject key domain body := by
  unfold verifyTag
  simp only [bind_eq_ok_iff, require_eq_ok_iff, Unique.exists_iff, decide_eq_true_eq, beq_iff_eq]
  constructor
  · rintro ⟨-, htag⟩
    exact ⟨bytes.take (bytes.length - tagBytes), by rw [sealedObject, htag, List.take_append_drop]⟩
  · rintro ⟨body, rfl⟩
    have hbody : (sealedObject key domain body).length - tagBytes = body.length := by
      rw [length_sealedObject, Nat.add_sub_cancel]
    refine ⟨by rw [length_sealedObject]; exact Nat.le_add_left _ _, ?_⟩
    rw [hbody, sealedObject, List.take_left' rfl, List.drop_left' rfl]

/-! ## Sealed shards -/

def shardBody (shard slot : UInt8) (count : Nat) (generation : UInt64) (records : List UInt8) :
    List UInt8 :=
  shardMagic ++ (leBytes 2 formatVersion ++ ([shard, slot] ++ (leBytes 2 count ++ ([0, 0] ++
    (leBytes 8 generation.toNat ++ ((Sha256.digest records).val ++ records))))))

/-- The bytes of a shard under its seal. -/
def Shard.sealedBytes (shard : Shard) (key : Digest) : List UInt8 :=
  sealedObject key domainShard
    (shardBody shard.shard shard.slot shard.count shard.generation (shardRecords shard.bytes))

theorem finalizeShard_eq_ok_iff {shard sealed : Shard} : finalizeShard shard key = .ok sealed ↔
    (shard.count = shard.handles.length ∧ shard.count ≤ recordsPerShard ∧
      shard.bytes.length = shardBytes) ∧
      sealed = { shard with bytes := shard.sealedBytes key } := by
  unfold finalizeShard
  simp only [bind_eq_ok_iff, require_eq_ok_iff, Unique.exists_iff, decide_eq_true_eq, beq_iff_eq,
    and_assoc]
  refine and_congr_right fun _ => and_congr_right fun _ => and_congr_right fun _ => ?_
  exact ⟨fun h => (Except.ok.inj h).symm, fun h => congrArg _ h.symm⟩

omit [Sha256] in
@[simp] theorem length_shardMagic : shardMagic.length = 8 := by decide

variable {shard slot : UInt8} {count : Nat} {generation : UInt64} {records more : List UInt8}

theorem length_shardBody (hrecords : records.length = recordsBytes) :
    (shardBody shard slot count generation records).length = shardHeaderBytes + recordsBytes := by
  have hdigest : (Sha256.digest records).val.length = 32 := (Sha256.digest records).property
  simp only [shardBody, List.length_append, length_shardMagic, length_leBytes, List.length_cons,
    List.length_nil, hdigest, hrecords]
  unfold shardHeaderBytes
  omega

/-- Where the fields stand. -/
theorem fields_shardBody (hrecords : records.length = recordsBytes) :
    slice (shardBody shard slot count generation records ++ more) 0 8 = shardMagic ∧
    slice (shardBody shard slot count generation records ++ more) 8 2 = leBytes 2 formatVersion ∧
    slice (shardBody shard slot count generation records ++ more) 10 2 = [shard, slot] ∧
    slice (shardBody shard slot count generation records ++ more) 12 2 = leBytes 2 count ∧
    slice (shardBody shard slot count generation records ++ more) 14 2 = [0, 0] ∧
    slice (shardBody shard slot count generation records ++ more) 16 8 =
      leBytes 8 generation.toNat ∧
    slice (shardBody shard slot count generation records ++ more) 24 32 =
      (Sha256.digest records).val ∧
    shardRecords (shardBody shard slot count generation records ++ more) = records := by
  have hdigest : (Sha256.digest records).val.length = 32 := (Sha256.digest records).property
  refine ⟨?_, ?_, ?_, ?_, ?_, ?_, ?_, ?_⟩
  all_goals
    simp (disch := simp [hdigest, hrecords]) only [shardBody, shardRecords, shardHeaderBytes,
      List.append_assoc, slice_append_right, slice_append_left, length_shardMagic, length_leBytes,
      List.length_cons, List.length_nil, hdigest, Nat.reduceSub, Nat.reduceAdd]

variable {b : List UInt8}

omit [Sha256] in
theorem getD_of_slice {b xs : List UInt8} {start len i : Nat} (h : slice b start len = xs)
    (hi : i < len) : b.getD (start + i) 0 = xs.getD i 0 := by
  rw [← h, slice]
  simp [List.getD, hi]

omit [Sha256] in
theorem toNat_u16At_of_slice {start n : Nat} (h : slice b start 2 = leBytes 2 n) (hn : n < 2 ^ 16) :
    (u16At b start).toNat = n := by
  rw [u16At, h, leNat_leBytes hn, UInt16.toNat_ofNat', Nat.mod_eq_of_lt hn]

/-! ## Reading the records -/

variable {index : Nat}

omit [Sha256] in
theorem recordAt_eq (h : index < recordsPerShard) :
    recordAt bytes index = .ok (slotAt recordBytes (shardRecords bytes) index) := by
  have hfits : index * recordBytes + recordBytes ≤ recordsBytes := by
    rw [← Nat.succ_mul]
    exact Nat.mul_le_mul_right _ h
  unfold recordAt require
  rw [if_pos (by simpa using h)]
  refine congrArg Except.ok ?_
  rw [slotAt, shardRecords, slice, slice, List.drop_take, List.take_take, List.drop_drop,
    Nat.min_eq_left (by omega)]

omit [Sha256] in
theorem slotAt_laidOut_of_lt {records : List (Handle × List UInt8)} {r : Handle × List UInt8}
    (hfits : ∀ r ∈ records, r.2.length ≤ frameMaxBytes) (hr : records[index]? = some r) :
    slotAt recordBytes (laidOut records) index = recordOf r.2 := by
  refine slotAt_flatten (fun record hrecord => ?_) (by simp [hr]) _
  obtain ⟨r, hr, rfl⟩ := List.mem_map.mp hrecord
  exact length_recordOf (hfits r hr)

omit [Sha256] in
theorem allZero_slotAt_laidOut {records : List (Handle × List UInt8)}
    (hfits : ∀ r ∈ records, r.2.length ≤ frameMaxBytes) (hi : records.length ≤ index) :
    allZero (slotAt recordBytes (laidOut records) index) = true := by
  rw [laidOut, slotAt_append_right (length_flatten_records hfits) hi, slotAt, List.drop_replicate,
    List.take_replicate]
  exact allZero_replicate _

variable [ReceiptJson]

/-- A turn of the loop reads the handle of the next record. -/
theorem readRecord_of_lt {shard : UInt8} {records : List (Handle × List UInt8)}
    (hcontent : shardRecords bytes = laidOut records) (hbelong : ∀ r ∈ records, Belongs key shard r)
    (hsorted : records.Pairwise fun r s => r.1.order < s.1.order)
    (hfits : records.length ≤ recordsPerShard) (hi : index < records.length) :
    readRecord bytes shard key records.length ((records.take index).map (·.1)) index =
      .ok ((records.take (index + 1)).map (·.1)) := by
  have hr : records[index]? = some records[index] := List.getElem?_eq_getElem hi
  have hmem : records[index] ∈ records := List.getElem_mem hi
  obtain ⟨expected, hexact⟩ := (hbelong _ hmem).exact_
  have hslot := slotAt_laidOut_of_lt (fun r hr => (hbelong r hr).fits) hr
  have hprevious : ((records.take index).map (·.1)).getLast?.all
      (fun previous => decide (previous.order < records[index].1.order)) = true := by
    rw [List.getLast?_map, Option.all_map]
    cases hlast : (records.take index).getLast? with
    | none => rfl
    | some previous =>
      have hbefore : previous ∈ records.take index := List.mem_of_getLast? hlast
      obtain ⟨j, hj, hget⟩ := List.mem_iff_getElem.mp hbefore
      rw [List.length_take, Nat.min_eq_left hi.le] at hj
      rw [List.getElem_take] at hget
      have hlt := List.pairwise_iff_getElem.mp hsorted j index (hj.trans hi) hi hj
      rw [hget] at hlt
      simpa using hlt
  unfold readRecord
  rw [recordAt_eq (hi.trans_le hfits), hcontent, hslot]
  simp only [bind_eq_ok_iff, require_eq_ok_iff, Unique.exists_iff, Except.ok.injEq, exists_eq_left',
    if_pos hi, decodeRecord_recordOf hexact, (hbelong _ hmem).placed, hprevious, beq_self_eq_true,
    true_and, List.take_add_one, hr, List.map_append, Option.toList_some, List.map_cons,
    List.map_nil]

/-- What is behind the last record is skipped. -/
theorem readRecord_of_le {shard : UInt8} {records : List (Handle × List UInt8)}
    (hcontent : shardRecords bytes = laidOut records) (hbelong : ∀ r ∈ records, Belongs key shard r)
    (hi : records.length ≤ index) (hindex : index < recordsPerShard) (handles : List Handle) :
    readRecord bytes shard key records.length handles index = .ok handles := by
  have hzero := allZero_slotAt_laidOut (fun r hr => (hbelong r hr).fits) hi
  unfold readRecord
  rw [recordAt_eq hindex, hcontent]
  simp only [bind_eq_ok_iff, require_eq_ok_iff, Unique.exists_iff, Except.ok.injEq, exists_eq_left',
    if_neg (not_lt.mpr hi), hzero, true_and]

/-- The loop reads the handles of the records. -/
theorem readRecords {shard : UInt8} {records : List (Handle × List UInt8)}
    (hcontent : shardRecords bytes = laidOut records) (hbelong : ∀ r ∈ records, Belongs key shard r)
    (hsorted : records.Pairwise fun r s => r.1.order < s.1.order)
    (hfits : records.length ≤ recordsPerShard)
    {n : Nat} (hn : n ≤ recordsPerShard) :
      (List.range n).foldlM (readRecord bytes shard key records.length) [] =
      .ok ((records.take n).map (·.1)) := by
  induction n with
  | zero => rfl
  | succ n ih =>
    rw [List.range_succ, List.foldlM_append, ih (Nat.le_of_succ_le hn)]
    by_cases hlt : n < records.length
    · have hturn := readRecord_of_lt hcontent hbelong hsorted hfits hlt
      simp only [List.foldlM_cons, List.foldlM_nil, bind, Except.bind, hturn]
      rfl
    · have hturn :=
        readRecord_of_le hcontent hbelong (not_lt.mp hlt) hn ((records.take n).map (·.1))
      have htake : records.take (n + 1) = records.take n := by
        rw [List.take_of_length_le (not_lt.mp hlt),
          List.take_of_length_le (Nat.le_succ_of_le (not_lt.mp hlt))]
      simp only [List.foldlM_cons, List.foldlM_nil, bind, Except.bind, hturn, htake]
      rfl

variable {entry : ManifestEntry}

/-- **A shard that has been filled and sealed is read back as it is.** -/
theorem parseShard_of_holds {shard sealed : Shard} {records : List (Handle × List UInt8)}
    (h : shard.Holds key records) (hsealed : finalizeShard shard key = .ok sealed)
    {entry : ManifestEntry}
    (hslot : entry.slot = shard.slot) (hgeneration : entry.generation = shard.generation)
    (hcount : entry.count.toNat = shard.count) :
      parseShard sealed.bytes shard.shard entry key = .ok sealed := by
  obtain ⟨-, rfl⟩ := finalizeShard_eq_ok_iff.mp hsealed
  have hrecords := length_shardRecords h.size
  have hlen := @length_shardBody _ shard.shard shard.slot shard.count shard.generation _ hrecords
  obtain ⟨hmagic, hversion, hplace, hcountAt, hreserved, hgenerationAt, hdigest, hcontent⟩ :=
    @fields_shardBody _ shard.shard shard.slot shard.count shard.generation _ (tag key domainShard
      (shardBody shard.shard shard.slot shard.count shard.generation (shardRecords shard.bytes)))
        hrecords
  have hbytes :
      shard.sealedBytes key = shardBody shard.shard shard.slot shard.count shard.generation
      (shardRecords shard.bytes) ++
        tag key domainShard (shardBody shard.shard shard.slot shard.count shard.generation
        (shardRecords shard.bytes)) := rfl
  rw [← hbytes] at hmagic hversion hplace hcountAt hreserved hgenerationAt hdigest hcontent
  have hsize : (shard.sealedBytes key).length = shardBytes := by
    rw [Shard.sealedBytes, length_sealedObject, hlen]
    rfl
  have hsmall : shard.count < 2 ^ 16 := by
    have hfits := h.fits
    rw [← h.count] at hfits
    unfold recordsPerShard at hfits
    omega
  have hloop := readRecords (hcontent.trans h.content) h.belong h.sorted h.fits le_rfl
  rw [← h.count, List.take_of_length_le h.fits, ← h.handles] at hloop
  unfold parseShard
  simp only [bind_eq_ok_iff, require_eq_ok_iff, Unique.exists_iff, decide_eq_true_eq, beq_iff_eq,
    Bool.and_eq_true]
  rw [toNat_u16At_of_slice hversion (by decide), toNat_u16At_of_slice hcountAt hsmall,
    u64At_of_slice hgenerationAt, hreserved, hdigest, hcontent]
  refine ⟨hsize, verifyTag_eq_ok_iff.mpr ⟨_, rfl⟩, hmagic, rfl, ⟨?_, ?_⟩, ⟨?_, rfl⟩,
    hgeneration.symm, rfl, hcount, _, hloop, ?_⟩
  · exact getD_of_slice hplace (show 0 < 2 by decide)
  · rw [hslot]
    exact getD_of_slice hplace (show 1 < 2 by decide)
  · exact h.count ▸ h.fits
  · rw [hslot, hgeneration]

/-! ## What an accepted shard consists of -/

omit [Sha256] [ReceiptJson] in
/-- The frames of a shard, as its records say. -/
def Shard.frames (shard : Shard) : List (List UInt8) :=
  (List.range shard.count).map fun index =>
    let record := slotAt recordBytes (shardRecords shard.bytes) index
    slice record 8 (u16At record 0).toNat

theorem Shard.Holds.frames {shard : Shard} {key : Digest} {records : List (Handle × List UInt8)}
    (h : shard.Holds key records) : shard.frames = records.map (·.2) := by
  refine List.ext_getElem (by simp [Shard.frames, h.count]) fun index hindex hindex' => ?_
  have hlt : index < records.length := by simpa using hindex'
  have hfits := (h.belong _ (List.getElem_mem hlt)).fits
  obtain ⟨hcount, -, -, hframe⟩ := fields_recordOf hfits
  have hslot := slotAt_laidOut_of_lt (fun r hr => (h.belong r hr).fits)
    (List.getElem?_eq_getElem hlt)
  simp only [Shard.frames, List.getElem_map, List.getElem_range, h.content, hslot, hcount, hframe]

omit [Sha256] [ReceiptJson] in
/-- The shard in its place in the next generation. -/
def Shard.placed (shard : Shard) (slot : UInt8) (generation : UInt64) : Shard :=
  { shard with slot := slot, generation := generation }

theorem Shard.Holds.placed {shard : Shard} {key : Digest} {records : List (Handle × List UInt8)}
    (h : shard.Holds key records) (slot : UInt8) (generation : UInt64) :
    (shard.placed slot generation).Holds key records :=
  ⟨h.size, h.content, h.handles, h.count, h.fits, h.sorted, h.belong⟩

/-- The seal leaves the records as they are. -/
theorem Shard.Holds.sealed {shard sealed : Shard} {key : Digest}
    {records : List (Handle × List UInt8)}
    (h : shard.Holds key records) (hsealed : finalizeShard shard key = .ok sealed) :
      sealed.Holds key records := by
  obtain ⟨-, rfl⟩ := finalizeShard_eq_ok_iff.mp hsealed
  have hrecords := length_shardRecords h.size
  have hlen := @length_shardBody _ shard.shard shard.slot shard.count shard.generation _ hrecords
  obtain ⟨-, -, -, -, -, -, -, hcontent⟩ :=
    @fields_shardBody _ shard.shard shard.slot shard.count shard.generation _ (tag key domainShard
      (shardBody shard.shard shard.slot shard.count shard.generation (shardRecords shard.bytes)))
        hrecords
  refine ⟨?_, hcontent.trans h.content, h.handles, h.count, h.fits, h.sorted, h.belong⟩
  show (shard.sealedBytes key).length = shardBytes
  rw [Shard.sealedBytes, length_sealedObject, hlen]
  rfl

variable {handles : List Handle}

theorem of_readRecord {shard : UInt8} {count index : Nat} {handles handles' : List Handle}
    (h : readRecord bytes shard key count handles index = .ok handles')
    (hindex : index < recordsPerShard) :
    (index < count → ∃ r, decodeRecord (slotAt recordBytes (shardRecords bytes) index) = .ok r) ∧
      (count ≤ index → allZero (slotAt recordBytes (shardRecords bytes) index) = true) := by
  unfold readRecord at h
  rw [recordAt_eq hindex] at h
  simp only [bind_eq_ok_iff, Except.ok.injEq, exists_eq_left'] at h
  constructor
  · intro hlt
    rw [if_pos hlt] at h
    simp only [bind_eq_ok_iff] at h
    obtain ⟨r, hr, -⟩ := h
    exact ⟨r, hr⟩
  · intro hle
    rw [if_neg (not_lt.mpr hle)] at h
    simp only [bind_eq_ok_iff, require_eq_ok_iff] at h
    obtain ⟨-, hzero, -⟩ := h
    exact hzero

theorem of_readRecords {shard : UInt8} {count n : Nat} (hn : n ≤ recordsPerShard)
    (h : (List.range n).foldlM (readRecord bytes shard key count) [] = .ok handles)
    (hindex : index < n) :
    (index < count → ∃ r, decodeRecord (slotAt recordBytes (shardRecords bytes) index) = .ok r) ∧
      (count ≤ index → allZero (slotAt recordBytes (shardRecords bytes) index) = true) := by
  induction n generalizing handles with
  | zero => exact absurd hindex (Nat.not_lt_zero _)
  | succ n ih =>
    rw [List.range_succ, List.foldlM_append] at h
    simp only [List.foldlM_cons, List.foldlM_nil, bind_eq_ok_iff] at h
    obtain ⟨before, hbefore, after, hturn, -⟩ := h
    rcases Nat.lt_succ_iff_lt_or_eq.mp hindex with hlt | rfl
    · exact ih (Nat.le_of_succ_le hn) hbefore hlt
    · exact of_readRecord hturn hn

omit [Sha256] [ReceiptJson] in
/-- Records of frames, and nothing behind them. -/
def laidOutFrames (frames : List (List UInt8)) : List UInt8 :=
  (frames.map recordOf).flatten ++ .replicate ((recordsPerShard - frames.length) * recordBytes) 0

omit [Sha256] in
theorem shardRecords_eq_laidOutFrames {shard : Shard} (hsize : shard.bytes.length = shardBytes)
    (hcount : shard.count ≤ recordsPerShard) (hslots : ∀ index < recordsPerShard,
      (index < shard.count → ∃ r,
        decodeRecord (slotAt recordBytes (shardRecords shard.bytes) index) = .ok r) ∧
        (shard.count ≤ index →
          allZero (slotAt recordBytes (shardRecords shard.bytes) index) = true)) :
    shardRecords shard.bytes = laidOutFrames shard.frames := by
  have hlen := length_shardRecords hsize
  have hrange : List.range recordsPerShard = List.range shard.count ++
      (List.range (recordsPerShard - shard.count)).map (shard.count + ·) := by
    rw [← List.range_add, Nat.add_sub_cancel' hcount]
  have hused : (List.range shard.count).map (slotAt recordBytes (shardRecords shard.bytes)) =
      shard.frames.map recordOf := by
    rw [Shard.frames, List.map_map]
    refine List.map_congr_left fun index hindex => ?_
    rw [List.mem_range] at hindex
    obtain ⟨r, hr⟩ := (hslots index (hindex.trans_le hcount)).1 hindex
    exact recordOf_of_decodeRecord hr
  have hunused : ((List.range (recordsPerShard - shard.count)).map (shard.count + ·)).map
      (slotAt recordBytes (shardRecords shard.bytes)) =
        .replicate (recordsPerShard - shard.count) (.replicate recordBytes 0) := by
    rw [List.eq_replicate_iff]
    refine ⟨by simp, fun record hrecord => ?_⟩
    simp only [List.map_map, List.mem_map, List.mem_range, Function.comp] at hrecord
    obtain ⟨offset, hoffset, rfl⟩ := hrecord
    have hindex : shard.count + offset < recordsPerShard := by omega
    have hfits : (shard.count + offset) * recordBytes + recordBytes ≤ recordsBytes := by
      rw [← Nat.succ_mul]
      exact Nat.mul_le_mul_right _ hindex
    rw [eq_replicate_of_allZero ((hslots _ hindex).2 (Nat.le_add_right _ _)), slotAt,
      List.length_take, List.length_drop, hlen, Nat.min_eq_left (by omega)]
  have hframes : shard.frames.length = shard.count := by simp [Shard.frames]
  rw [← @flatten_slots _ recordBytes recordsPerShard _ hlen, hrange, List.map_append, hused,
    hunused, List.flatten_append, List.flatten_replicate_replicate, laidOutFrames, hframes]

omit [Sha256] [ReceiptJson] in
theorem slice_two {start : Nat} (h : start + 2 ≤ b.length) :
    slice b start 2 = [b.getD start 0, b.getD (start + 1) 0] := by
  have hfirst : start < b.length := by omega
  have hsecond : start + 1 < b.length := by omega
  simp only [List.getD, List.getElem?_eq_getElem hfirst, List.getElem?_eq_getElem hsecond,
    Option.getD_some]
  rw [slice, List.drop_eq_getElem_cons hfirst, List.drop_eq_getElem_cons hsecond]
  rfl

omit [Sha256] [ReceiptJson] in
theorem eq_replicate_of_slice {start len : Nat} (h : start + len ≤ b.length)
    (hzero : allZero (slice b start len) = true) : slice b start len = .replicate len 0 := by
  rw [eq_replicate_of_allZero hzero, length_slice h]

omit [ReceiptJson] in
/-- A sealed object that begins with a body, up to the seal, is that body sealed. -/
theorem sealedObject_of_verifyTag {domain bytes body rest : List UInt8}
    (htag : verifyTag key domain bytes = .ok ()) (hheader : bytes = body ++ rest)
    (hlong : body.length + tagBytes = bytes.length) : bytes = sealedObject key domain body := by
  obtain ⟨body', hbody⟩ := verifyTag_eq_ok_iff.mp htag
  have hlen := congrArg List.length hbody
  rw [length_sealedObject, ← hlong] at hlen
  rw [hbody, List.append_inj_left (hbody.symm.trans hheader) (Nat.add_right_cancel hlen).symm]

/-- **An accepted shard is the sealed one of its fields and its frames.** -/
theorem shard_of_parseShard {expected : UInt8} {shard : Shard}
    (h : parseShard bytes expected entry key = .ok shard) : shard.bytes = bytes ∧
      bytes = sealedObject key domainShard
        (shardBody shard.shard shard.slot shard.count shard.generation
        (laidOutFrames shard.frames)) := by
  unfold parseShard at h
  simp only [bind_eq_ok_iff, require_eq_ok_iff, Unique.exists_iff, decide_eq_true_eq, beq_iff_eq,
    Bool.and_eq_true] at h
  obtain ⟨hsize, htag, hmagic, hversion, ⟨hshard, hslot⟩, ⟨hcount, hreserved⟩, hgeneration, hdigest,
      -, handles, hloop,
    heq⟩ := h
  cases heq
  refine ⟨rfl, ?_⟩
  have hrecords : shardRecords bytes = _ := @shardRecords_eq_laidOutFrames _
    ⟨expected, entry.slot, entry.generation, (u16At bytes 12).toNat, bytes, handles⟩ hsize hcount
    fun index hindex => of_readRecords le_rfl hloop hindex
  have hlong : 56 + recordsBytes + 32 = bytes.length := hsize.symm
  have hheader : bytes = shardBody expected entry.slot (u16At bytes 12).toNat entry.generation
      (shardRecords bytes) ++ bytes.drop (56 + recordsBytes) := by
    have hversionAt : slice bytes 8 2 = leBytes 2 formatVersion := by
      rw [← hversion, leBytes_u16At (by omega)]
    have hplace : slice bytes 10 2 = [expected, entry.slot] := by
      rw [slice_two (by omega), hshard, hslot]
    have hreservedAt : slice bytes 14 2 = [0, 0] := eq_replicate_of_slice (by omega) hreserved
    have hgenerationAt : slice bytes 16 8 = leBytes 8 entry.generation.toNat := by
      rw [← hgeneration, leBytes_u64At (by omega)]
    rw [shardBody, ← hmagic, ← hversionAt, ← hplace, leBytes_u16At (by omega), ← hreservedAt,
      ← hgenerationAt, ← hdigest]
    simp only [List.append_assoc]
    rw [shardRecords, shardHeaderBytes, ← drop_eq_slice_append bytes 56 recordsBytes,
      ← drop_eq_slice_append bytes 24 32, ← drop_eq_slice_append bytes 16 8,
      ← drop_eq_slice_append bytes 14 2, ← drop_eq_slice_append bytes 12 2,
      ← drop_eq_slice_append bytes 10 2, ← drop_eq_slice_append bytes 8 2,
      ← drop_eq_slice_append bytes 0 8, List.drop_zero]
  rw [← hrecords]
  refine sealedObject_of_verifyTag htag hheader ?_
  rw [length_shardBody (length_shardRecords hsize)]
  exact hlong

end

end Neoth.Wal
