import Neoth.Wal.ReceiptShards

/-!
# Manifests and journals of the receipt ledger

The manifest of a generation names the shards; it keeps its invariant (`Manifest.WellFormed`) from
one generation to the next, so that what is written is what is read. The journal of a transaction
carries the manifest that it installs.

* `toBytes_entryAt`, `entryAt_of_slice`: the entries;
* `Manifest.WellFormed.next`, `Manifest.WellFormed.parseManifest`, `manifest_of_parseManifest`: the
  invariant, and that what is written is read;
* `Pending.Bound.parsePending`, `Pending.pending_of_parsePending`: the same for a journal;
* **`receipt_objects_roundtrip_unique`**: round trips, and that the bytes are determined by what is
  read.
-/

open Lib.Encoding Lib.Slots Lib.Transaction Neoth.MeshSync Neoth.Wal.Codec

namespace Neoth.Wal

/-! ## Entries -/

variable {b : List UInt8}

theorem slice_slice {start len i n : Nat} (h : i + n ≤ len) :
    slice (slice b start len) i n = slice b (start + i) n := by
  rw [slice, slice, slice, List.drop_take, List.take_take, List.drop_drop,
    Nat.min_eq_left (by omega)]

theorem val_sha256At {start : Nat} (hfit : start + 32 ≤ b.length) :
    (sha256At b start).val = slice b start 32 := by
  rw [← toList_arrayAt hfit, sha256At]

theorem sha256At_of_slice {start : Nat} {digest : Digest} (hfit : start + 32 ≤ b.length)
    (h : slice b start 32 = digest.val) : sha256At b start = digest := by
  apply Subtype.ext
  rw [val_sha256At hfit, h]

theorem ManifestEntry.length_toBytes (entry : ManifestEntry) :
    entry.toBytes.length = manifestEntryBytes := by
  have hdigest : entry.shardSha256.val.length = 32 := entry.shardSha256.property
  simp only [ManifestEntry.toBytes, List.length_append, List.length_cons, List.length_nil,
    length_leBytes, hdigest]
  rfl

def entryOffset (index : UInt8) : Nat := manifestHeaderBytes + index.toNat * manifestEntryBytes

theorem entryOffset_le (index : UInt8) :
    entryOffset index + manifestEntryBytes ≤
      manifestHeaderBytes + shardCount * manifestEntryBytes := by
  have hindex := index.toNat_lt
  unfold entryOffset manifestEntryBytes shardCount
  omega

theorem entryAt_eq (b : List UInt8) (index : UInt8) : entryAt b index =
    ⟨b.getD (entryOffset index) 0 == 1, b.getD (entryOffset index + 1) 0,
      u16At b (entryOffset index + 2), u64At b (entryOffset index + 4),
      sha256At b (entryOffset index + 12)⟩ := rfl

variable {index : UInt8} {entry : ManifestEntry}

/-- An entry is read as it was written. -/
theorem entryAt_of_slice (hfit : entryOffset index + manifestEntryBytes ≤ b.length)
    (h : slice b (entryOffset index) manifestEntryBytes = entry.toBytes) :
    entryAt b index = entry ∧ b.getD (entryOffset index) 0 = entry.present.toUInt8 := by
  have hdigest : entry.shardSha256.val.length = 32 := entry.shardSha256.property
  have hpresent : b.getD (entryOffset index + 0) 0 = entry.present.toUInt8 :=
    getD_of_slice h (by decide)
  have hslot : b.getD (entryOffset index + 1) 0 = entry.slot := getD_of_slice h (by decide)
  have hfield : ∀ {i n : Nat}, i + n ≤ manifestEntryBytes →
      slice b (entryOffset index + i) n = slice entry.toBytes i n := fun hin => by
        rw [← h, slice_slice hin]
  have hstart : [entry.present.toUInt8, entry.slot].length = 2 := rfl
  have hcount : u16At b (entryOffset index + 2) = entry.count := by
    refine u16At_of_slice ((hfield (by decide)).trans ?_)
    rw [ManifestEntry.toBytes, slice_append_right hstart.le, hstart,
      slice_append_left (length_leBytes _ _)]
  have hgeneration : u64At b (entryOffset index + 4) = entry.generation := by
    refine u64At_of_slice ((hfield (by decide)).trans ?_)
    rw [ManifestEntry.toBytes, slice_append_right (by rw [hstart]; decide), hstart,
      slice_append_right (by rw [length_leBytes]), length_leBytes,
      slice_append_left (length_leBytes _ _)]
  have hsha : sha256At b (entryOffset index + 12) = entry.shardSha256 := by
    refine sha256At_of_slice (by unfold manifestEntryBytes at hfit; omega)
      ((hfield (by decide)).trans ?_)
    rw [ManifestEntry.toBytes, slice_append_right (by rw [hstart]; decide), hstart,
      slice_append_right (by rw [length_leBytes]; decide), length_leBytes,
      slice_append_right (by rw [length_leBytes]), length_leBytes, slice_self hdigest]
  refine ⟨?_, hpresent⟩
  have hflag : (entry.present.toUInt8 == 1) = entry.present := by cases entry.present <;> decide
  rw [Nat.add_zero] at hpresent
  rw [entryAt_eq, hslot, hcount, hgeneration, hsha, hpresent, hflag]

/-- An entry that is read is the one that was written. -/
theorem toBytes_entryAt (hfit : entryOffset index + manifestEntryBytes ≤ b.length)
    (hpresent : b.getD (entryOffset index) 0 ≤ 1) :
    (entryAt b index).toBytes = slice b (entryOffset index) manifestEntryBytes := by
  have hflag : (b.getD (entryOffset index) 0 == 1).toUInt8 = b.getD (entryOffset index) 0 := by
    have hle : (b.getD (entryOffset index) 0).toNat ≤ 1 := hpresent
    rcases Nat.le_one_iff_eq_zero_or_eq_one.mp hle with h | h
    · rw [UInt8.toNat_inj.mp (h.trans UInt8.toNat_zero.symm)]
      decide
    · rw [UInt8.toNat_inj.mp (h.trans UInt8.toNat_one.symm)]
      decide
  unfold manifestEntryBytes at *
  have hcut : slice b (entryOffset index) 44 =
      slice b (entryOffset index) 2 ++ (slice b (entryOffset index + 2) 2 ++
      (slice b (entryOffset index + 4) 8 ++ slice b (entryOffset index + 12) 32)) := by
    rw [← slice_add b (entryOffset index + 4) 8 32, ← slice_add b (entryOffset index + 2) 2 40,
      ← slice_add b (entryOffset index) 2 42]
  rw [hcut, slice_two (by omega), ← leBytes_u16At (by omega), ← leBytes_u64At (by omega),
    ← val_sha256At (by omega), entryAt_eq, ManifestEntry.toBytes, hflag]

theorem length_shardIndices : shardIndices.length = shardCount := by simp [shardIndices]

theorem shardIndices_get (index : UInt8) : shardIndices[index.toNat]? = some index := by
  have hindex : index.toNat < shardCount := index.toNat_lt
  rw [shardIndices, List.getElem?_map, List.getElem?_range hindex, Option.map_some,
    UInt8.ofNat_toNat]

theorem nodup_shardIndices : shardIndices.Nodup := by
  refine List.Nodup.map_on (fun i hi j hj h => ?_) List.nodup_range
  have hsame := congrArg UInt8.toNat h
  have hi : i < 256 := List.mem_range.mp hi
  have hj : j < 256 := List.mem_range.mp hj
  rwa [UInt8.toNat_ofNat', UInt8.toNat_ofNat', Nat.mod_eq_of_lt hi, Nat.mod_eq_of_lt hj] at hsame

theorem mem_shardIndices (index : UInt8) : index ∈ shardIndices :=
  List.mem_of_getElem? (shardIndices_get index)

def entriesBytes (entries : UInt8 → ManifestEntry) : List UInt8 :=
  (shardIndices.map fun index => (entries index).toBytes).flatten

theorem length_entryBytes {entries : UInt8 → ManifestEntry} :
    ∀ bytes ∈ shardIndices.map fun index => (entries index).toBytes,
      bytes.length = manifestEntryBytes := by
  intro bytes hbytes
  obtain ⟨index, -, rfl⟩ := List.mem_map.mp hbytes
  exact (entries index).length_toBytes

theorem length_entriesBytes (entries : UInt8 → ManifestEntry) :
    (entriesBytes entries).length = shardCount * manifestEntryBytes := by
  rw [entriesBytes, length_flatten length_entryBytes, List.length_map, length_shardIndices]

theorem slice_entriesBytes (entries : UInt8 → ManifestEntry) (index : UInt8) (more : List UInt8) :
    slice (entriesBytes entries ++ more) (index.toNat * manifestEntryBytes) manifestEntryBytes =
      (entries index).toBytes :=
  slotAt_flatten length_entryBytes (by rw [List.getElem?_map, shardIndices_get]; rfl) more

/-- The entries that are read, written again. -/
theorem entriesBytes_entryAt
    (hfit : manifestHeaderBytes + shardCount * manifestEntryBytes ≤ b.length)
    (hpresent : ∀ index, b.getD (entryOffset index) 0 ≤ 1) :
    entriesBytes (entryAt b) = slice b manifestHeaderBytes (shardCount * manifestEntryBytes) := by
  have hslots : shardIndices.map (fun index => (entryAt b index).toBytes) =
      (List.range shardCount).map (slotAt manifestEntryBytes
        (slice b manifestHeaderBytes (shardCount * manifestEntryBytes))) := by
    rw [shardIndices, List.map_map]
    refine List.map_congr_left fun i hi => ?_
    have hlt : i < 256 := List.mem_range.mp hi
    have hindex : (UInt8.ofNat i).toNat = i := by rw [UInt8.toNat_ofNat', Nat.mod_eq_of_lt hlt]
    have hle : i * manifestEntryBytes + manifestEntryBytes ≤ shardCount * manifestEntryBytes := by
      rw [← Nat.succ_mul]
      exact Nat.mul_le_mul_right _ hlt
    have hentry := toBytes_entryAt ((entryOffset_le (.ofNat i)).trans hfit) (hpresent (.ofNat i))
    rw [entryOffset, hindex] at hentry
    exact hentry.trans (slice_slice hle).symm
  rw [entriesBytes, hslots, flatten_slots (length_slice hfit)]

/-- A present entry, as a manifest of this generation can have it. -/
structure ManifestEntry.Written (entry : ManifestEntry) (generation : UInt64) : Prop where
  present : entry.present = true
  slot : entry.slot < 2
  count_pos : 0 < entry.count
  count_le : entry.count.toNat ≤ recordsPerShard
  generation_pos : 0 < entry.generation
  generation_le : entry.generation ≤ generation
  shardSha256 : entry.shardSha256 ≠ zeroSha

variable {generation : UInt64}

/-- What is read passes the check. -/
theorem checkEntry_of_fits (hentry : entryAt b index = entry)
    (hflag : b.getD (entryOffset index) 0 = entry.present.toUInt8)
    (h : entry = .empty ∨ entry.Written generation) : checkEntry b generation index = .ok () := by
  unfold checkEntry
  rw [← entryOffset, hflag, hentry]
  simp only [bind_eq_ok_iff, require_eq_ok_iff, Unique.exists_iff]
  rcases h with rfl | h
  · exact ⟨by decide, rfl⟩
  · rw [h.present]
    refine ⟨by decide, ?_⟩
    rw [if_neg (by decide)]
    simp only [require_eq_ok_iff, Bool.and_eq_true, decide_eq_true_eq, bne_iff_ne]
    exact ⟨⟨⟨⟨⟨h.slot, h.count_pos⟩, h.count_le⟩, h.generation_pos⟩, h.generation_le⟩,
      h.shardSha256⟩

theorem getD_le_one_of_checkEntry (h : checkEntry b generation index = .ok ()) :
    b.getD (entryOffset index) 0 ≤ 1 := by
  unfold checkEntry at h
  rw [← entryOffset] at h
  simp only [bind_eq_ok_iff, require_eq_ok_iff, Unique.exists_iff, decide_eq_true_eq] at h
  exact h.1

theorem forM_eq_ok_iff {E A : Type} {f : A → Except E Unit} {l : List A} :
    l.forM f = .ok () ↔ ∀ a ∈ l, f a = .ok () := by
  induction l with
  | nil => simp [pure, Except.pure]
  | cons a l ih =>
    have hcons : (a :: l).forM f = f a >>= fun _ => l.forM f := rfl
    rw [hcons, bind_eq_ok_iff, Unique.exists_iff, List.forall_mem_cons, ih]

/-! ## Manifests -/

namespace Manifest

@[simp] theorem length_manifestMagic : manifestMagic.length = 8 := by decide

/-- What the seal of a manifest is over. -/
def body (manifest : Manifest) : List UInt8 :=
  manifestMagic ++ (leBytes 2 formatVersion ++ ([0, 0] ++ (leBytes 8 manifest.generation.toNat ++
    (leBytes 8 manifest.previousGeneration.toNat ++ (manifest.previousSha256.val ++
    (leBytes 4 manifest.totalRecords.toNat ++
      (leBytes 4 lifetimeCapacity ++ entriesBytes manifest.entries)))))))

theorem length_body (manifest : Manifest) :
    manifest.body.length = manifestHeaderBytes + shardCount * manifestEntryBytes := by
  have hdigest : manifest.previousSha256.val.length = 32 := manifest.previousSha256.property
  simp only [body, List.length_append, length_manifestMagic, length_leBytes, List.length_cons,
    List.length_nil, hdigest, length_entriesBytes]
  unfold manifestHeaderBytes
  omega

variable (manifest : Manifest) (more : List UInt8)

/-- Where the fields stand. -/
theorem fields_body :
    slice (manifest.body ++ more) 0 8 = manifestMagic ∧
    slice (manifest.body ++ more) 8 2 = leBytes 2 formatVersion ∧
    slice (manifest.body ++ more) 10 2 = [0, 0] ∧
    slice (manifest.body ++ more) 12 8 = leBytes 8 manifest.generation.toNat ∧
    slice (manifest.body ++ more) 20 8 = leBytes 8 manifest.previousGeneration.toNat ∧
    slice (manifest.body ++ more) 28 32 = manifest.previousSha256.val ∧
    slice (manifest.body ++ more) 60 4 = leBytes 4 manifest.totalRecords.toNat ∧
    slice (manifest.body ++ more) 64 4 = leBytes 4 lifetimeCapacity := by
  have hdigest : manifest.previousSha256.val.length = 32 := manifest.previousSha256.property
  refine ⟨?_, ?_, ?_, ?_, ?_, ?_, ?_, ?_⟩
  all_goals
    simp (disch := simp [hdigest]) only [body, List.append_assoc, slice_append_right,
      slice_append_left, length_manifestMagic, length_leBytes, List.length_cons, List.length_nil,
      hdigest, Nat.reduceSub, Nat.reduceAdd]

/-- Where the entries stand. -/
theorem entryAt_body (index : UInt8) :
    entryAt (manifest.body ++ more) index = manifest.entries index ∧
    (manifest.body ++ more).getD (entryOffset index) 0 =
      (manifest.entries index).present.toUInt8 := by
  have hfit : entryOffset index + manifestEntryBytes ≤ (manifest.body ++ more).length := by
    rw [List.length_append, length_body]
    exact (entryOffset_le index).trans (Nat.le_add_right _ _)
  have hdigest : manifest.previousSha256.val.length = 32 := manifest.previousSha256.property
  refine entryAt_of_slice hfit ?_
  have hcut : manifest.body ++ more = (manifestMagic ++ (leBytes 2 formatVersion ++ ([0, 0] ++
      (leBytes 8 manifest.generation.toNat ++ (leBytes 8 manifest.previousGeneration.toNat ++
      (manifest.previousSha256.val ++
        (leBytes 4 manifest.totalRecords.toNat ++ leBytes 4 lifetimeCapacity))))))) ++
        (entriesBytes manifest.entries ++ more) := by
    simp only [body, List.append_assoc]
  rw [hcut, slice_append_right]
  · rw [← slice_entriesBytes manifest.entries index more, entryOffset]
    congr 1
    simp only [List.length_append, length_manifestMagic, length_leBytes, List.length_cons,
      List.length_nil, hdigest]
    unfold manifestHeaderBytes
    omega
  · simp only [List.length_append, length_manifestMagic, length_leBytes, List.length_cons,
      List.length_nil, hdigest]
    unfold entryOffset manifestHeaderBytes
    omega

variable {manifest}

/-- What every manifest of the ledger keeps. -/
structure WellFormed (manifest : Manifest) : Prop where
  size : manifest.bytes.length = manifestBytes
  total : sumOfCounts manifest.entries = manifest.totalRecords.toNat
  capacity : sumOfCounts manifest.entries ≤ lifetimeCapacity
  grows : manifest.previousGeneration < manifest.generation
  genesis : manifest.previousGeneration = 0 → manifest.previousSha256 = zeroSha
  entries : ∀ index, manifest.entries index = .empty ∨
    (manifest.entries index).Written manifest.generation

section
variable [Sha256]

/-- The manifest under its seal. -/
def sealedBytes (manifest : Manifest) (key : Digest) : List UInt8 :=
  sealedObject key domainFile manifest.body

theorem length_sealedBytes (manifest : Manifest) (key : Digest) :
    (manifest.sealedBytes key).length = manifestBytes := by
  rw [sealedBytes, length_sealedObject, length_body]
  rfl

variable {key : Digest}

theorem finalizeManifest_eq_ok_iff {sealed : Manifest} :
    finalizeManifest manifest key = .ok sealed ↔
    (manifest.bytes.length = manifestBytes ∧
      sumOfCounts manifest.entries = manifest.totalRecords.toNat ∧
      sumOfCounts manifest.entries ≤ lifetimeCapacity) ∧
        sealed = { manifest with bytes := manifest.sealedBytes key } := by
  unfold finalizeManifest
  simp only [bind_eq_ok_iff, require_eq_ok_iff, Unique.exists_iff, decide_eq_true_eq, beq_iff_eq,
    Bool.and_eq_true, and_assoc]
  refine and_congr_right fun _ => and_congr_right fun _ => and_congr_right fun _ => ?_
  exact ⟨fun h => (Except.ok.inj h).symm, fun h => congrArg _ h.symm⟩

/-- **A manifest that is sealed is read back as it is.** -/
theorem WellFormed.parseManifest (h : manifest.WellFormed) (key : Digest) :
    parseManifest (manifest.sealedBytes key) key =
      .ok { manifest with bytes := manifest.sealedBytes key } := by
  obtain ⟨hmagic, hversion, hreserved, hgeneration, hprevious, hsha, htotal, hcapacity⟩ :=
    fields_body manifest (tag key domainFile manifest.body)
  have hentries := entryAt_body manifest (tag key domainFile manifest.body)
  have hbytes : manifest.sealedBytes key = manifest.body ++ tag key domainFile manifest.body := rfl
  have hlen := length_sealedBytes manifest key
  rw [← hbytes] at hmagic hversion hreserved hgeneration hprevious hsha htotal hcapacity hentries
  have hcheck : shardIndices.forM (checkEntry (manifest.sealedBytes key) manifest.generation) =
      .ok () :=
    forM_eq_ok_iff.mpr fun index _ =>
      checkEntry_of_fits (hentries index).1 (hentries index).2 (h.entries index)
  have hall : entryAt (manifest.sealedBytes key) = manifest.entries := funext fun index =>
    (hentries index).1
  have hcapacityAt : (u32At (manifest.sealedBytes key) 64).toNat = lifetimeCapacity := by
    rw [u32At, hcapacity, leNat_leBytes (by decide)]
    rfl
  have hshaAt : sha256At (manifest.sealedBytes key) 28 = manifest.previousSha256 :=
    sha256At_of_slice (by rw [hlen]; decide) hsha
  unfold Wal.parseManifest
  simp only [bind_eq_ok_iff, require_eq_ok_iff, Unique.exists_iff, decide_eq_true_eq, beq_iff_eq,
    Bool.and_eq_true]
  rw [toNat_u16At_of_slice hversion (by decide), hreserved, u64At_of_slice hgeneration,
    u64At_of_slice hprevious, u32At_of_slice htotal, hcapacityAt, hshaAt, hall]
  refine ⟨hlen, verifyTag_eq_ok_iff.mpr ⟨_, rfl⟩, hmagic, ⟨rfl, rfl⟩, rfl, ?_, ?_, hcheck,
    ⟨h.total, h.capacity⟩, rfl⟩
  · rw [decide_eq_true h.grows, Bool.true_or]
  · rw [Bool.or_eq_true, bne_iff_ne, beq_iff_eq, or_iff_not_imp_left, not_not]
    exact h.genesis

/-- **An accepted manifest is the sealed one of its fields.** -/
theorem manifest_of_parseManifest {bytes : List UInt8}
    (h : Wal.parseManifest bytes key = .ok manifest) :
    manifest.bytes = bytes ∧ bytes.length = manifestBytes ∧ bytes = manifest.sealedBytes key := by
  unfold Wal.parseManifest at h
  simp only [bind_eq_ok_iff, require_eq_ok_iff, Unique.exists_iff, decide_eq_true_eq, beq_iff_eq,
    Bool.and_eq_true] at h
  obtain ⟨hsize, htag, hmagic, ⟨hversion, hreserved⟩, hcapacity, -, -, hcheck, -, heq⟩ := h
  cases heq
  refine ⟨rfl, hsize, ?_⟩
  have hlong : 68 + shardCount * manifestEntryBytes + 32 = bytes.length := hsize.symm
  have hversionAt : slice bytes 8 2 = leBytes 2 formatVersion := by
    rw [← hversion, leBytes_u16At (by omega)]
  have hreservedAt : slice bytes 10 2 = [0, 0] := eq_replicate_of_slice (by omega) hreserved
  have hcapacityAt : slice bytes 64 4 = leBytes 4 lifetimeCapacity := by
    rw [← hcapacity, leBytes_u32At (by omega)]
  have hentries : entriesBytes (entryAt bytes) = slice bytes 68 (shardCount * manifestEntryBytes) :=
    entriesBytes_entryAt (Nat.le_of_add_right_le hlong.le) fun index =>
      getD_le_one_of_checkEntry (forM_eq_ok_iff.mp hcheck index (mem_shardIndices index))
  have hheader :
      bytes = (Manifest.mk (u64At bytes 12) (u64At bytes 20) (sha256At bytes 28) (u32At bytes 60)
      (entryAt bytes) bytes).body ++ bytes.drop (68 + shardCount * manifestEntryBytes) := by
    rw [body, ← hmagic, ← hversionAt, ← hreservedAt, leBytes_u64At (by omega),
      leBytes_u64At (by omega), val_sha256At (by omega), leBytes_u32At (by omega), ← hcapacityAt,
      hentries]
    simp only [List.append_assoc]
    rw [← drop_eq_slice_append bytes 68, ← drop_eq_slice_append bytes 64 4,
      ← drop_eq_slice_append bytes 60 4, ← drop_eq_slice_append bytes 28 32,
      ← drop_eq_slice_append bytes 20 8, ← drop_eq_slice_append bytes 12 8,
      ← drop_eq_slice_append bytes 10 2, ← drop_eq_slice_append bytes 8 2,
      ← drop_eq_slice_append bytes 0 8, List.drop_zero]
  refine sealedObject_of_verifyTag htag hheader ?_
  rw [length_body]
  exact hlong

/-- Manifests with the same fields are the same bytes. -/
theorem sealedBytes_congr {other : Manifest} (hgeneration : manifest.generation = other.generation)
    (hprevious : manifest.previousGeneration = other.previousGeneration)
    (hsha : manifest.previousSha256 = other.previousSha256)
    (htotal : manifest.totalRecords = other.totalRecords)
    (hentries : manifest.entries = other.entries) :
    manifest.sealedBytes key = other.sealedBytes key := by
  rw [sealedBytes, sealedBytes, body, body, hgeneration, hprevious, hsha, htotal, hentries]

end

/-! ### From one generation to the next -/

/-- The count of a shard is exchanged. -/
theorem sumOfCounts_update (entries : UInt8 → ManifestEntry) (shard : UInt8)
    (entry : ManifestEntry) :
    sumOfCounts (Function.update entries shard entry) + (entries shard).count.toNat =
      sumOfCounts entries + entry.count.toNat := by
  have hother : ((shardIndices.erase shard).map fun index =>
      (Function.update entries shard entry index).count.toNat) =
        (shardIndices.erase shard).map fun index => (entries index).count.toNat := by
    refine List.map_congr_left fun index hindex => ?_
    have hne : index ≠ shard := fun h => nodup_shardIndices.not_mem_erase (h ▸ hindex)
    rw [Function.update_of_ne hne]
  have hbefore := List.sum_map_erase (fun index => (entries index).count.toNat)
    (mem_shardIndices shard)
  have hafter :=
    List.sum_map_erase (fun index => (Function.update entries shard entry index).count.toNat)
    (mem_shardIndices shard)
  rw [hother, Function.update_self] at hafter
  rw [sumOfCounts, sumOfCounts]
  omega

theorem le_sumOfCounts (entries : UInt8 → ManifestEntry) (shard : UInt8) :
    (entries shard).count.toNat ≤ sumOfCounts entries := by
  have hsum := List.sum_map_erase (fun index => (entries index).count.toNat)
    (mem_shardIndices shard)
  rw [sumOfCounts]
  omega

section
variable [Sha256]

/-- The entries that a manifest hands on; all absent, where there is none yet. -/
def entriesOf (prior : Option Manifest) : UInt8 → ManifestEntry :=
  (prior.map (·.entries)).getD fun _ => .empty

/-- What a manifest hands on to the next one. -/
theorem prior_wellFormed {prior : Option Manifest} (h : ∀ manifest ∈ prior, manifest.WellFormed) :
    sumOfCounts (entriesOf prior) = (prior.map (·.totalRecords.toNat)).getD 0 ∧
      ((prior.map (·.generation)).getD 0 = 0 →
        (prior.map fun manifest => Sha256.digest manifest.bytes).getD zeroSha = zeroSha) ∧
      ∀ index, entriesOf prior index = .empty ∨
        (entriesOf prior index).Written ((prior.map (·.generation)).getD 0) := by
  cases prior with
  | none =>
    refine ⟨?_, fun _ => rfl, fun _ => .inl rfl⟩
    simp [sumOfCounts, entriesOf, ManifestEntry.empty]
  | some manifest =>
    have hmanifest := h manifest rfl
    refine ⟨hmanifest.total, fun hzero => ?_, hmanifest.entries⟩
    have hpos : (0 : UInt64) < manifest.generation :=
      lt_of_le_of_lt (UInt64.zero_le) hmanifest.grows
    exact absurd hzero hpos.ne'

/-- **The next manifest is well formed, and names the shard that was written.** -/
theorem WellFormed.next {prior : Option Manifest} (h : ∀ manifest ∈ prior, manifest.WellFormed)
    {generation : UInt64} {shard slot : UInt8} {count : Nat} {shardSha256 : Digest}
    {next : Manifest} (hslot : slot < 2) (hcount : 0 < count) (hsha : shardSha256 ≠ zeroSha)
    (hnext : nextManifest prior generation shard slot count shardSha256 = .ok next) :
    next.WellFormed ∧ next.generation = generation ∧
      next.entries shard = ⟨true, slot, .ofNat count, generation, shardSha256⟩ := by
  obtain ⟨htotal, hgenesis, hentries⟩ := prior_wellFormed h
  have hprior : ((prior.map (·.entries)).getD fun _ => .empty) = entriesOf prior := rfl
  unfold nextManifest at hnext
  simp only [bind_eq_ok_iff, require_eq_ok_iff, Unique.exists_iff, decide_eq_true_eq,
    hprior] at hnext
  obtain ⟨hgrows, hfits, holdCount, hsmall, hcapacity, heq⟩ := hnext
  cases heq
  have hold := le_sumOfCounts (entriesOf prior) shard
  have hcountNat : (UInt16.ofNat count).toNat = count := by
    unfold recordsPerShard at hfits
    rw [UInt16.toNat_ofNat', Nat.mod_eq_of_lt (by omega)]
  have hsum := sumOfCounts_update (entriesOf prior) shard
    ⟨true, slot, .ofNat count, generation, shardSha256⟩
  rw [hcountNat, htotal] at hsum
  refine ⟨⟨List.length_replicate, ?_, ?_, hgrows, hgenesis, fun index => ?_⟩, rfl,
    Function.update_self ..⟩
  · show sumOfCounts (Function.update (entriesOf prior) shard _) = _
    rw [UInt32.toNat_ofNat', Nat.mod_eq_of_lt hsmall]
    omega
  · show sumOfCounts (Function.update (entriesOf prior) shard _) ≤ _
    omega
  · show Function.update (entriesOf prior) shard _ index = _ ∨
      (Function.update (entriesOf prior) shard _ index).Written generation
    by_cases hindex : index = shard
    · subst hindex
      rw [Function.update_self]
      refine .inr ⟨rfl, hslot, ?_, hcountNat.trans_le hfits, lt_of_le_of_lt UInt64.zero_le hgrows,
        le_rfl, hsha⟩
      rw [UInt16.lt_iff_toNat_lt, hcountNat]
      exact hcount
    · rw [Function.update_of_ne hindex]
      exact (hentries index).imp_right fun hwritten => { hwritten with
        generation_le := hwritten.generation_le.trans hgrows.le }

/-- The seal keeps it. -/
theorem WellFormed.sealed (h : manifest.WellFormed) (key : Digest) :
    ({ manifest with bytes := manifest.sealedBytes key } : Manifest).WellFormed :=
  { h with size := length_sealedBytes manifest key }

/-- The manifests of a ledger, from none on, each sealed and named by the next. -/
inductive Reached (key : Digest) : Option Manifest → Prop
  | none : Reached key none
  | next {prior : Option Manifest} {generation : UInt64} {shard slot : UInt8} {count : Nat}
    {shardSha256 : Digest}
      {next sealed : Manifest} (hprior : Reached key prior) (hslot : slot < 2) (hcount : 0 < count)
      (hsha : shardSha256 ≠ zeroSha)
      (hnext : nextManifest prior generation shard slot count shardSha256 = .ok next)
      (hsealed : finalizeManifest next key = .ok sealed) : Reached key (some sealed)

theorem Reached.wellFormed {key : Digest} {state : Option Manifest} (h : Reached key state) :
    ∀ manifest ∈ state, manifest.WellFormed := by
  induction h with
  | none => simp
  | next _ hslot hcount hsha hnext hsealed ih =>
    intro manifest hmanifest
    obtain rfl := Option.some.inj hmanifest
    obtain ⟨-, rfl⟩ := finalizeManifest_eq_ok_iff.mp hsealed
    exact (WellFormed.next ih hslot hcount hsha hnext).1.sealed key

end

end Manifest

/-! ## The journal -/

namespace Pending

@[simp] theorem length_pendingMagic : pendingMagic.length = 8 := by decide

/-- What the seal of a journal is over. -/
def body (pending : Pending) : List UInt8 :=
  pendingMagic ++ (leBytes 2 formatVersion ++ ([0, 0] ++ (pending.oldManifestSha256.val ++
    (leBytes 8 pending.newGeneration.toNat ++
      ([pending.shard, pending.slot] ++ ([0, 0, 0, 0, 0, 0] ++
    (pending.newShardSha256.val ++ (pending.newManifestSha256.val ++ (leBytes 4 manifestBytes ++
    pending.manifest.bytes)))))))))

variable {pending : Pending}

theorem length_body (hsize : pending.manifest.bytes.length = manifestBytes) :
    pending.body.length = pendingPrefixBytes + manifestBytes := by
  have hold : pending.oldManifestSha256.val.length = 32 := pending.oldManifestSha256.property
  have hshard : pending.newShardSha256.val.length = 32 := pending.newShardSha256.property
  have hmanifest : pending.newManifestSha256.val.length = 32 := pending.newManifestSha256.property
  simp only [body, List.length_append, length_pendingMagic, length_leBytes, List.length_cons,
    List.length_nil, hold, hshard, hmanifest, hsize]
  unfold pendingPrefixBytes
  omega

/-- Where the fields stand. -/
theorem fields_body (more : List UInt8) (hsize : pending.manifest.bytes.length = manifestBytes) :
    slice (pending.body ++ more) 0 8 = pendingMagic ∧
    slice (pending.body ++ more) 8 2 = leBytes 2 formatVersion ∧
    slice (pending.body ++ more) 10 2 = [0, 0] ∧
    slice (pending.body ++ more) 12 32 = pending.oldManifestSha256.val ∧
    slice (pending.body ++ more) 44 8 = leBytes 8 pending.newGeneration.toNat ∧
    slice (pending.body ++ more) 52 2 = [pending.shard, pending.slot] ∧
    slice (pending.body ++ more) 54 6 = [0, 0, 0, 0, 0, 0] ∧
    slice (pending.body ++ more) 60 32 = pending.newShardSha256.val ∧
    slice (pending.body ++ more) 92 32 = pending.newManifestSha256.val ∧
    slice (pending.body ++ more) 124 4 = leBytes 4 manifestBytes ∧
    slice (pending.body ++ more) pendingPrefixBytes manifestBytes = pending.manifest.bytes := by
  have hold : pending.oldManifestSha256.val.length = 32 := pending.oldManifestSha256.property
  have hshard : pending.newShardSha256.val.length = 32 := pending.newShardSha256.property
  have hmanifest : pending.newManifestSha256.val.length = 32 := pending.newManifestSha256.property
  refine ⟨?_, ?_, ?_, ?_, ?_, ?_, ?_, ?_, ?_, ?_, ?_⟩
  all_goals
    simp (disch := simp [hold, hshard, hmanifest, hsize]) only [body, pendingPrefixBytes,
      List.append_assoc, slice_append_right, slice_append_left, length_pendingMagic, length_leBytes,
      List.length_cons, List.length_nil, hold, hshard, hmanifest, Nat.reduceSub, Nat.reduceAdd]

section
variable [Sha256]

/-- The journal under its seal. -/
def sealedBytes (pending : Pending) (key : Digest) : List UInt8 :=
  sealedObject key domainFile pending.body

variable {key : Digest} {bytes : List UInt8}

theorem serializePending_eq_ok_iff : serializePending pending key = .ok bytes ↔
    (pending.manifest.bytes.length = manifestBytes ∧
      Sha256.digest pending.manifest.bytes = pending.newManifestSha256) ∧
      bytes = pending.sealedBytes key := by
  unfold serializePending
  simp only [bind_eq_ok_iff, require_eq_ok_iff, Unique.exists_iff, beq_iff_eq, and_assoc]
  refine and_congr_right fun _ => and_congr_right fun _ => ?_
  exact ⟨fun h => (Except.ok.inj h).symm, fun h => congrArg _ h.symm⟩

/-- The journal of a transaction: its manifest is sealed, and names the shard that was written. -/
structure Bound (pending : Pending) (key : Digest) : Prop where
  manifest : parseManifest pending.manifest.bytes key = .ok pending.manifest
  digest : Sha256.digest pending.manifest.bytes = pending.newManifestSha256
  generation : pending.manifest.generation = pending.newGeneration
  slot : pending.slot < 2
  entry : ∃ count, pending.manifest.entries pending.shard =
    ⟨true, pending.slot, count, pending.newGeneration, pending.newShardSha256⟩

theorem Bound.size (h : pending.Bound key) : pending.manifest.bytes.length = manifestBytes :=
  (Manifest.manifest_of_parseManifest h.manifest).2.1

/-- **The journal of a transaction is read back as it is.** -/
theorem Bound.parsePending {key : Digest} (h : pending.Bound key) :
    parsePending (pending.sealedBytes key) key = .ok pending := by
  obtain ⟨hmagic, hversion, hreserved, hold, hgeneration, hplace, hreserved', hshard, hdigest,
      hlength, hmanifest⟩ :=
    fields_body (tag key domainFile pending.body) h.size
  obtain ⟨count, hentry⟩ := h.entry
  have hbytes : pending.sealedBytes key = pending.body ++ tag key domainFile pending.body := rfl
  have hlen : (pending.sealedBytes key).length = pendingBytes := by
    rw [sealedBytes, length_sealedObject, length_body h.size]
    rfl
  rw [← hbytes] at hmagic hversion hreserved hold hgeneration hplace
  rw [← hbytes] at hreserved' hshard hdigest hlength hmanifest
  have hlengthAt : (u32At (pending.sealedBytes key) 124).toNat = manifestBytes := by
    rw [u32At, hlength, leNat_leBytes (by decide)]
    rfl
  have hshardAt : (pending.sealedBytes key).getD 52 0 = pending.shard :=
    getD_of_slice hplace (show 0 < 2 by decide)
  have hslotAt : (pending.sealedBytes key).getD 53 0 = pending.slot :=
    getD_of_slice hplace (show 1 < 2 by decide)
  have hfit : ∀ start, start + 32 ≤ pendingBytes → start + 32 ≤ (pending.sealedBytes key).length :=
    fun start hstart => hstart.trans_eq hlen.symm
  unfold Wal.parsePending
  simp only [bind_eq_ok_iff, require_eq_ok_iff, Unique.exists_iff, decide_eq_true_eq, beq_iff_eq,
    Bool.and_eq_true]
  rw [toNat_u16At_of_slice hversion (by decide), hreserved, hreserved', hlengthAt,
    u64At_of_slice hgeneration, hshardAt, hslotAt, sha256At_of_slice (hfit 12 (by decide)) hold,
    sha256At_of_slice (hfit 60 (by decide)) hshard, sha256At_of_slice (hfit 92 (by decide)) hdigest,
    hmanifest]
  refine ⟨hlen, verifyTag_eq_ok_iff.mpr ⟨_, rfl⟩, ⟨⟨hmagic, rfl⟩, rfl⟩, ⟨rfl, rfl⟩, h.slot,
    pending.manifest, h.manifest, ⟨h.generation, h.digest⟩, ?_, rfl⟩
  rw [hentry]
  exact ⟨⟨⟨rfl, rfl⟩, rfl⟩, rfl⟩

/-- **An accepted journal is the sealed one of its fields, and its manifest is an accepted one.** -/
theorem pending_of_parsePending (h : Wal.parsePending bytes key = .ok pending) :
    parseManifest pending.manifest.bytes key = .ok pending.manifest ∧
    bytes = pending.sealedBytes key := by
  unfold Wal.parsePending at h
  simp only [bind_eq_ok_iff, require_eq_ok_iff, Unique.exists_iff, decide_eq_true_eq, beq_iff_eq,
    Bool.and_eq_true] at h
  obtain ⟨hsize, htag, ⟨⟨hmagic, hversion⟩, hreserved⟩, ⟨hreserved', hlength⟩, -, manifest,
      hmanifest, -, -, heq⟩ := h
  obtain rfl := Except.ok.inj heq
  obtain ⟨hembedded, hmanifestSize, -⟩ := Manifest.manifest_of_parseManifest hmanifest
  refine ⟨hembedded ▸ hmanifest, ?_⟩
  have hlong : 128 + manifestBytes + 32 = bytes.length := hsize.symm
  have hversionAt : slice bytes 8 2 = leBytes 2 formatVersion := by
    rw [← hversion, leBytes_u16At (by omega)]
  have hreservedAt : slice bytes 10 2 = [0, 0] := eq_replicate_of_slice (by omega) hreserved
  have hreservedAt' : slice bytes 54 6 = [0, 0, 0, 0, 0, 0] :=
    eq_replicate_of_slice (by omega) hreserved'
  have hlengthAt : slice bytes 124 4 = leBytes 4 manifestBytes := by
    rw [← hlength, leBytes_u32At (by omega)]
  have hheader :
      bytes = (Pending.mk (sha256At bytes 12) (u64At bytes 44) (bytes.getD 52 0) (bytes.getD 53 0)
      (sha256At bytes 60) (sha256At bytes 92) manifest).body ++ bytes.drop (128 +
        manifestBytes) := by
    rw [body, ← hmagic, ← hversionAt, ← hreservedAt', ← hreservedAt, val_sha256At (by omega),
      leBytes_u64At (by omega), ← slice_two (by omega), val_sha256At (by omega),
      val_sha256At (by omega), ← hlengthAt, hembedded]
    simp only [List.append_assoc]
    rw [pendingPrefixBytes, ← drop_eq_slice_append bytes 128, ← drop_eq_slice_append bytes 124 4,
      ← drop_eq_slice_append bytes 92 32, ← drop_eq_slice_append bytes 60 32,
      ← drop_eq_slice_append bytes 54 6, ← drop_eq_slice_append bytes 52 2,
      ← drop_eq_slice_append bytes 44 8, ← drop_eq_slice_append bytes 12 32,
      ← drop_eq_slice_append bytes 10 2, ← drop_eq_slice_append bytes 8 2,
      ← drop_eq_slice_append bytes 0 8, List.drop_zero]
  refine sealedObject_of_verifyTag htag hheader ?_
  rw [length_body (by rw [hembedded]; exact length_slice (by unfold pendingPrefixBytes; omega))]
  exact hlong

end

end Pending

/-! ## The objects of the ledger -/

section
variable [Sha256]

variable {key : Digest}

theorem parseManifest_of_reached {prior : Option Manifest} (hprior : Manifest.Reached key prior)
    {shard slot : UInt8} {count : Nat} {shardSha256 : Digest} {next : Manifest} (hslot : slot < 2)
    (hcount : 0 < count) (hsha : shardSha256 ≠ zeroSha)
    (hnext : nextManifest prior generation shard slot count shardSha256 = .ok next) :
    ∃ sealed, finalizeManifest next key = .ok sealed ∧ parseManifest sealed.bytes key = .ok sealed ∧
      ∀ old, Pending.Bound ⟨old, generation, shard, slot, shardSha256, Sha256.digest sealed.bytes,
        sealed⟩ key := by
  obtain ⟨hwell, hgeneration, hentry⟩ :=
    Manifest.WellFormed.next hprior.wellFormed hslot hcount hsha hnext
  have hsealed : finalizeManifest next key = .ok { next with bytes := next.sealedBytes key } :=
    Manifest.finalizeManifest_eq_ok_iff.mpr ⟨⟨hwell.size, hwell.total, hwell.capacity⟩, rfl⟩
  exact ⟨_, hsealed, hwell.parseManifest key, fun old =>
    ⟨hwell.parseManifest key, rfl, hgeneration, hslot, _, hentry⟩⟩

theorem Pending.Bound.serializePending {pending : Pending} {key : Digest} (h : pending.Bound key) :
    ∃ bytes, serializePending pending key = .ok bytes ∧ Wal.parsePending bytes key = .ok pending :=
  ⟨_, Pending.serializePending_eq_ok_iff.mpr ⟨⟨h.size, h.digest⟩, rfl⟩, h.parsePending⟩

/-- Accepted manifests with the same fields are the same bytes. -/
theorem manifest_bytes_unique {bytes bytes' : List UInt8} {manifest manifest' : Manifest}
    (h : parseManifest bytes key = .ok manifest) (h' : parseManifest bytes' key = .ok manifest')
    (hgeneration : manifest.generation = manifest'.generation)
    (hprevious : manifest.previousGeneration = manifest'.previousGeneration)
    (hsha : manifest.previousSha256 = manifest'.previousSha256)
    (htotal : manifest.totalRecords = manifest'.totalRecords)
    (hentries : manifest.entries = manifest'.entries) : bytes = bytes' := by
  obtain ⟨-, -, hbytes⟩ := Manifest.manifest_of_parseManifest h
  obtain ⟨-, -, hbytes'⟩ := Manifest.manifest_of_parseManifest h'
  rw [hbytes, hbytes', Manifest.sealedBytes_congr hgeneration hprevious hsha htotal hentries]

section
variable [ReceiptJson]

/-- A shard that has been filled is sealed, and read back against the entry that names it. -/
theorem parseShard_of_filled {shard slot : UInt8} {first generation : UInt64}
    {appends : List Append}
    {filled : Shard} (hbelong : ∀ append ∈ appends, Belongs key shard (append.handle, append.frame))
    (hfilled : appends.foldlM Shard.admitRecord (emptyShard shard first) = .ok filled) :
    ∃ sealed, finalizeShard (filled.placed slot generation) key = .ok sealed ∧
      (∀ entry : ManifestEntry, entry.slot = slot → entry.generation = generation →
        entry.count.toNat = filled.count → parseShard sealed.bytes shard entry key = .ok sealed) ∧
      sealed.count = filled.count ∧ shardRecords sealed.bytes = shardRecords filled.bytes ∧
      sealed.handles = filled.handles ∧ (sealed.handles.Pairwise fun a b => a.order < b.order) ∧
      ∀ handle frame, (handle, frame) ∈ sealed.handles.zip sealed.frames ↔
        (appends.find? fun append => append.handle == handle).map (·.frame) = some frame := by
  obtain ⟨records, hholds, hshard, hfirst⟩ := holds_foldlM hbelong hfilled
  have hplaced := hholds.placed slot generation
  have hcount : filled.count = filled.handles.length := by
    rw [hholds.count, hholds.handles, List.length_map]
  obtain ⟨sealed, hsealed⟩ : ∃ sealed, finalizeShard (filled.placed slot generation) key =
      .ok sealed :=
    ⟨_, finalizeShard_eq_ok_iff.mpr ⟨⟨hcount, hholds.count ▸ hholds.fits, hholds.size⟩, rfl⟩⟩
  have hsealedHolds := hplaced.sealed hsealed
  refine ⟨sealed, hsealed, fun entry hslot hgeneration hentry => ?_, ?_, ?_, ?_, ?_,
    fun handle frame => ?_⟩
  · rw [← hshard]
    exact parseShard_of_holds hplaced hsealed hslot hgeneration hentry
  · rw [hsealedHolds.count, hholds.count]
  · rw [hsealedHolds.content, hholds.content]
  · rw [hsealedHolds.handles, hholds.handles]
  · rw [hsealedHolds.handles]
    exact List.pairwise_map.mpr hsealedHolds.sorted
  · have hzip : sealed.handles.zip sealed.frames = records := by
      rw [hsealedHolds.handles, hsealedHolds.frames, List.zip_map']
      exact List.map_id' records
    rw [hzip, hfirst]

/-- **The objects of the ledger: what is written is read back, and each byte of what is accepted is
determined.** -/
theorem receipt_objects_roundtrip_unique (key : Digest) :
    -- a shard that was filled record by record
    (∀ (shard slot : UInt8) (first generation : UInt64) (appends : List Append) (filled : Shard),
      (∀ append ∈ appends, Belongs key shard (append.handle, append.frame)) →
      appends.foldlM Shard.admitRecord (emptyShard shard first) = .ok filled →
      ∃ sealed, finalizeShard (filled.placed slot generation) key = .ok sealed ∧
        (∀ entry : ManifestEntry, entry.slot = slot → entry.generation = generation →
          entry.count.toNat = filled.count → parseShard sealed.bytes shard entry key = .ok sealed) ∧
        sealed.count = filled.count ∧ shardRecords sealed.bytes = shardRecords filled.bytes ∧
        sealed.handles = filled.handles ∧ (sealed.handles.Pairwise fun a b => a.order < b.order) ∧
        ∀ handle frame, (handle, frame) ∈ sealed.handles.zip sealed.frames ↔
          (appends.find? fun append => append.handle == handle).map (·.frame) = some frame) ∧
    -- the next manifest, and the journal that installs it
    (∀ prior, Manifest.Reached key prior →
      ∀ (generation : UInt64) (shard slot : UInt8) (count : Nat)
      (shardSha256 : Digest) (next : Manifest), slot < 2 → 0 < count → shardSha256 ≠ zeroSha →
      nextManifest prior generation shard slot count shardSha256 = .ok next →
      ∃ sealed, finalizeManifest next key = .ok sealed ∧
      parseManifest sealed.bytes key = .ok sealed ∧
        ∀ old, ∃ bytes,
          serializePending ⟨old, generation, shard, slot, shardSha256, Sha256.digest sealed.bytes,
            sealed⟩ key = .ok bytes ∧
          parsePending bytes key =
            .ok ⟨old, generation, shard, slot, shardSha256, Sha256.digest sealed.bytes, sealed⟩) ∧
    -- what is accepted
    (∀ bytes bytes' expected expected' entry entry' shard shard',
      parseShard bytes expected entry key = .ok shard →
      parseShard bytes' expected' entry' key = .ok shard' →
      shard.shard = shard'.shard → shard.slot = shard'.slot → shard.generation = shard'.generation →
      shard.count = shard'.count → shard.frames = shard'.frames → bytes = bytes') ∧
    (∀ bytes bytes' manifest manifest',
      parseManifest bytes key = .ok manifest → parseManifest bytes' key = .ok manifest' →
      manifest.generation = manifest'.generation →
      manifest.previousGeneration = manifest'.previousGeneration →
      manifest.previousSha256 = manifest'.previousSha256 →
      manifest.totalRecords = manifest'.totalRecords →
      manifest.entries = manifest'.entries → bytes = bytes') ∧
    ∀ bytes bytes' pending pending',
      parsePending bytes key = .ok pending → parsePending bytes' key = .ok pending' →
      pending.oldManifestSha256 = pending'.oldManifestSha256 →
      pending.newGeneration = pending'.newGeneration →
      pending.shard = pending'.shard → pending.slot = pending'.slot →
      pending.newShardSha256 = pending'.newShardSha256 →
      pending.newManifestSha256 = pending'.newManifestSha256 →
      pending.manifest.generation = pending'.manifest.generation →
      pending.manifest.previousGeneration = pending'.manifest.previousGeneration →
      pending.manifest.previousSha256 = pending'.manifest.previousSha256 →
      pending.manifest.totalRecords = pending'.manifest.totalRecords →
      pending.manifest.entries = pending'.manifest.entries → bytes = bytes' := by
  refine ⟨fun shard slot first generation appends filled => parseShard_of_filled, ?_, ?_, ?_, ?_⟩
  · intro prior hprior generation shard slot count shardSha256 next hslot hcount hsha hnext
    obtain ⟨sealed, hsealed, hparsed, hbound⟩ :=
      parseManifest_of_reached hprior hslot hcount hsha hnext
    exact ⟨sealed, hsealed, hparsed, fun old => (hbound old).serializePending⟩
  · intro bytes bytes' expected expected' entry entry' shard shard' h h' hshard hslot hgeneration
      hcount hframes
    obtain ⟨-, hbytes⟩ := shard_of_parseShard h
    obtain ⟨-, hbytes'⟩ := shard_of_parseShard h'
    rw [hbytes, hbytes', hshard, hslot, hgeneration, hcount, hframes]
  · intro bytes bytes' manifest manifest' h h'
    exact manifest_bytes_unique h h'
  · intro bytes bytes' pending pending' h h' hold hgeneration hshard hslot hshardSha hmanifestSha
      hmanifestGeneration hprevious hprevSha htotal hentries
    obtain ⟨hmanifest, hbytes⟩ := Pending.pending_of_parsePending h
    obtain ⟨hmanifest', hbytes'⟩ := Pending.pending_of_parsePending h'
    have hembedded := manifest_bytes_unique hmanifest hmanifest' hmanifestGeneration hprevious
      hprevSha htotal hentries
    rw [hbytes, hbytes', Pending.sealedBytes, Pending.sealedBytes, Pending.body, Pending.body, hold,
      hgeneration, hshard, hslot, hshardSha, hmanifestSha, hembedded]

end

end

/-! Two receipts in one shard. -/

section Samples

def sampleReceiptHandle (b : UInt8) : Handle := .ofBytes (.replicate 32 b)

def sampleReceipt (b : UInt8) : ContextEvidenceReceipt :=
  ⟨contextEvidenceReceiptSchemaVersion, hexEncode (sampleReceiptHandle b).val, .localImport,
    1, 1, 29⟩

def sampleReceiptPayload (b : UInt8) : List UInt8 :=
  utf8 "\x7b\"schema_version\":1,\"receipt_handle\":\"" ++ (utf8 (sampleReceipt b).receiptHandle ++
    (utf8 "\",\"receipt_kind\":\"local_import\",\"policy_revision\":1," ++
      utf8 "\"lifecycle_revision\":1,\"observed_minute\":29\x7d"))

/-- The reader, on these texts. -/
@[reducible] def sampleReceiptJson : ReceiptJson :=
  ⟨fun encoded => ([14, 56].find? fun b => sampleReceiptPayload b == encoded).map sampleReceipt⟩

def sampleReceiptHeader : Codec.EventHeaderV2 := { Codec.EventHeaderV2.empty with
  eventType := eventTypeExtended
  eventSubtype := contextEvidenceReceiptSubtype
  totalLen := 302
  payloadLen := 198
  hlc := ⟨1, 1⟩ }

def sampleReceiptFrame (b : UInt8) : List UInt8 :=
  (Codec.encodeFrame sampleReceiptHeader (sampleReceiptPayload b)).getD []

def sampleAppends : List Append := [14, 56].map fun b =>
  ⟨sampleReceiptHandle b, sampleReceipt b, sampleReceiptFrame b⟩

attribute [local instance] sampleReceiptJson Sha256.fips

theorem validateExactFrame_sampleReceipt {b : UInt8} (hb : b ∈ [14, 56]) :
    validateExactFrame (sampleReceiptHandle b) (sampleReceipt b) (sampleReceiptFrame b) =
      .ok () := by
  have hlength : ∀ b ∈ [14, 56], (sampleReceiptPayload b).length = 198 := by decide +kernel
  have hvalid : ∀ b ∈ [14, 56], (sampleReceipt b).validate = .ok () := by decide +kernel
  have hsame : ∀ b ∈ [14, 56], (sampleReceipt b).matchesOpaqueHandle (sampleReceiptHandle b) =
      true := by
    decide +kernel
  have hread : ∀ b ∈ [14, 56], sampleReceiptJson.fromSlice (sampleReceiptPayload b) =
      some (sampleReceipt b) := by
    decide +kernel
  have hdescribes : sampleReceiptHeader.Describes (sampleReceiptPayload b).length :=
    hlength b hb ▸ ⟨rfl, rfl⟩
  have hframe := encodeFrame_eq_some_iff.mpr ⟨hdescribes, rfl⟩
  have hlen := length_of_encodeFrame hframe
  have hdecoded := decodeFrame_checked ⟨rfl, rfl, rfl, by decide⟩ hdescribes
    (List.length_replicate (a := 0)) []
  rw [List.append_nil] at hdecoded
  rw [sampleReceiptFrame, hframe, Option.getD_some]
  refine validateExactFrame_eq_ok_iff.mpr ⟨?_, _, hdecoded, hlen.symm, rfl, rfl, ?_, ?_⟩
  · rw [hlen]
    decide
  · unfold ContextEvidenceReceipt.decode
    simp only [bind_eq_ok_iff, require_eq_ok_iff, context_eq_ok_iff, Unique.exists_iff,
      decide_eq_true_eq, hlength b hb]
    exact ⟨by decide, sampleReceipt b, hread b hb, hvalid b hb, rfl⟩
  · exact hsame b hb

theorem shardForHandle_sampleReceiptHandle :
    ∀ b ∈ [14, 56], shardForHandle zeroSha (sampleReceiptHandle b) = 23 := by
  rw [Sha256.fips_eq]
  decide +kernel

theorem belongs_sampleAppends :
    ∀ append ∈ sampleAppends, Belongs zeroSha 23 (append.handle, append.frame) := by
  intro append happend
  obtain ⟨b, hb, rfl⟩ := List.mem_map.mp happend
  have hexact := validateExactFrame_sampleReceipt hb
  refine ⟨⟨sampleReceipt b, ?_⟩, shardForHandle_sampleReceiptHandle b hb⟩
  dsimp only
  exact hexact

theorem admitRecord_sampleAppends :
    ∃ filled, sampleAppends.foldlM Shard.admitRecord (emptyShard 23 0) = .ok filled ∧
    filled.count = 2 := by
  have hfits : ∀ b ∈ [14, 56], (sampleReceiptFrame b).length ≤ frameMaxBytes := fun b hb =>
    (validateExactFrame_eq_ok_iff.mp (validateExactFrame_sampleReceipt hb)).1
  obtain ⟨one, hone, hcount, hhandles⟩ := insertRecord_eq_ok
    (show (emptyShard 23 0).count < recordsPerShard by decide) 0 (sampleReceiptHandle 14)
      (hfits 14 (by decide))
  obtain ⟨two, htwo, hcount', -⟩ := insertRecord_eq_ok
    (show one.count < recordsPerShard by rw [hcount]; decide) 1 (sampleReceiptHandle 56)
      (hfits 56 (by decide))
  have hfound : binarySearch one.handles (sampleReceiptHandle 56) = .error 1 := by
    rw [hhandles]
    decide +kernel
  refine ⟨two, ?_, by rw [hcount', hcount]; rfl⟩
  simp only [sampleAppends, List.map_cons, List.map_nil, List.foldlM_cons,
    admitRecord_emptyShard, hone]
  show (one.admitRecord _ >>= _) = _
  rw [Shard.admitRecord, hfound]
  dsimp only
  rw [htwo]
  rfl

/-- The two receipts are filed and sealed, the manifest that names their shard is read back, and so
is the journal that installs it. -/
theorem receipt_objects_roundtrip_unique_sample :
    ∃ filled sealed : Shard, ∃ next manifest : Manifest, ∃ journal : List UInt8,
      let pending : Pending :=
        ⟨zeroSha, 1, 23, 0, sampleReceiptHandle 1, Sha256.digest manifest.bytes, manifest⟩
      sampleAppends.foldlM Shard.admitRecord (emptyShard 23 0) = .ok filled ∧
      finalizeShard (filled.placed 0 1) zeroSha = .ok sealed ∧
      parseShard sealed.bytes 23 ⟨true, 0, 2, 1, zeroSha⟩ zeroSha = .ok sealed ∧
      (∀ b ∈ [14, 56], (sampleReceiptHandle b, sampleReceiptFrame b) ∈
        sealed.handles.zip sealed.frames) ∧
      nextManifest none 1 23 0 2 (sampleReceiptHandle 1) = .ok next ∧
      finalizeManifest next zeroSha = .ok manifest ∧
      parseManifest manifest.bytes zeroSha = .ok manifest ∧
      serializePending pending zeroSha = .ok journal ∧
      parsePending journal zeroSha = .ok pending := by
  obtain ⟨hshards, hmanifests, -⟩ := receipt_objects_roundtrip_unique zeroSha
  obtain ⟨filled, hfilled, hcount⟩ := admitRecord_sampleAppends
  obtain ⟨sealed, hsealed, hparsed, -, -, -, -, hrecords⟩ :=
    hshards 23 0 0 1 _ filled belongs_sampleAppends hfilled
  obtain ⟨next, hnext⟩ : ∃ next, nextManifest none 1 23 0 2 (sampleReceiptHandle 1) = .ok next := by
    unfold nextManifest
    simp only [bind_eq_ok_iff, require_eq_ok_iff, Unique.exists_iff, decide_eq_true_eq]
    exact ⟨_, by decide, by decide, by decide, by decide, by decide, rfl⟩
  obtain ⟨manifest, hmanifest, hreparsed, hjournal⟩ :=
    hmanifests none .none 1 23 0 2 (sampleReceiptHandle 1) next (by decide) (by decide)
      (by decide) hnext
  obtain ⟨journal, hwritten, hread⟩ := hjournal zeroSha
  refine ⟨filled, sealed, next, manifest, journal, hfilled, hsealed, hparsed _ rfl rfl hcount.symm,
    ?_, hnext, hmanifest, hreparsed, hwritten, hread⟩
  have hother : (sampleReceiptHandle 14 == sampleReceiptHandle 56) = false := by decide +kernel
  intro b hb
  refine (hrecords _ _).mpr ?_
  simp only [List.mem_cons, List.not_mem_nil, or_false] at hb
  obtain rfl | rfl := hb
  · simp only [sampleAppends, List.map_cons, List.find?_cons, beq_self_eq_true, Option.map_some]
  · simp only [sampleAppends, List.map_cons, List.find?_cons, hother, beq_self_eq_true,
      Option.map_some]

end Samples

end Neoth.Wal
