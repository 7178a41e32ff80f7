import Neoth.Wal.Frames

/-!
# Recovering a torn segment

`scan_tail` of `wal/recovery.rs`, which a writer runs on a segment before it appends to it: it walks
the frames and says where the first one that does not decode, or is longer than any the writer
writes, begins.

* `scanFrom_spec`: the segment resumes behind all frames, up to the first implausible one;
* `reads_truncate`: truncating there keeps the frames.
-/

open Lib.FrameLog Lib.Transaction Neoth.MeshSync

namespace Neoth.Wal

def segmentHeaderLen : Nat := 60
def minFrameLen : Nat := preambleLen + headerBodyLen + crcLen
def maxFrameLen : Nat := preambleLen + headerBodyLen + maxPayloadBytes + crcLen

inductive ScanResult
  | clean (through : Nat)
  | tornAt (goodThrough tornAt : Nat)
  deriving DecidableEq

def ScanResult.resumeOffset : ScanResult → Nat
  | clean through => through
  | tornAt goodThrough _ => goodThrough

/-- The loop of `scan_tail`; `last_good` is `offset` whenever the loop turns. -/
def scanFrom (segment : List UInt8) : Nat → Nat → ScanResult
  | 0, offset => .clean offset
  | fuel + 1, offset =>
    if offset < segment.length then
      if (segment.drop offset).length < minFrameLen then .tornAt offset offset
      else
        match readFrame (segment.drop offset) with
        | .ok f =>
          let total := f.header.totalLen
          if total < minFrameLen ∨ maxFrameLen < total then .tornAt offset offset
          else if segment.length < offset + total then .tornAt offset offset
          else scanFrom segment fuel (offset + total)
        | .error _ => .tornAt offset offset
    else .clean offset

/-- `scan_tail`, where `headerLen` is what the segment header says. -/
def scanTail (segment : List UInt8) (headerLen : Nat) : ScanResult :=
  if segment.length < segmentHeaderLen then .clean segment.length
  else scanFrom segment (segment.length + 1) headerLen

theorem exact_readFraming : Reads.Exact readFraming := by
  intro bytes f h
  obtain ⟨d, hd, rfl⟩ := map_eq_ok h
  have hlen := decodeFrame_totalLen hd
  have htake : decodeFrame (bytes.take d.header.totalLen) = .ok d := decodeFrame_take hd
  have hslice : slice (bytes.take d.header.totalLen) preambleLen headerBodyLen =
      slice bytes preambleLen headerBodyLen := by
    have hparts := @slice_append (bytes.take d.header.totalLen) preambleLen headerBodyLen
      (by simp only [List.length_take, preambleLen, headerBodyLen]; omega)
      (bytes.drop d.header.totalLen)
    rw [List.take_append_drop] at hparts
    exact hparts.symm
  show readFrame (bytes.take d.header.totalLen) = _
  rw [readFrame, htake, hslice]
  rfl

theorem scanFrom_spec {segment : List UInt8} {fuel offset : Nat}
    (hfuel : segment.length < fuel + offset) :
    ∃ fs, Reads readFraming segment offset fs (scanFrom segment fuel offset).resumeOffset ∧
      ∀ f, readFrame (segment.drop (scanFrom segment fuel offset).resumeOffset) = .ok f →
        maxFrameLen < f.header.totalLen := by
  have hnil : ∀ b, segment.length ≤ b → ∀ f, readFrame (segment.drop b) = .ok f →
      maxFrameLen < f.header.totalLen := by
    intro b hb f hf
    have hend := readFraming.end_le hf
    have hpos := readFraming.size_pos hf
    omega
  induction fuel generalizing offset with
  | zero => exact ⟨[], .nil _, hnil _ (by simpa [scanFrom, ScanResult.resumeOffset] using hfuel.le)⟩
  | succ fuel ih =>
    unfold scanFrom
    split_ifs with hlt hshort
    · refine ⟨[], .nil _, ?_⟩
      intro f hf
      change readFrame (segment.drop offset) = .ok f at hf
      obtain ⟨d, hd, rfl⟩ := map_eq_ok hf
      have hlen := decodeFrame_totalLen hd
      simp only [minFrameLen, preambleLen, headerBodyLen, crcLen] at hshort
      omega
    · cases hread : readFrame (segment.drop offset) with
      | error e => exact ⟨[], .nil _, fun f hf => by simp [ScanResult.resumeOffset, hread] at hf⟩
      | ok f =>
        have hend : offset + f.header.totalLen ≤ segment.length := readFraming.end_le hread
        have hmin : minFrameLen ≤ f.header.totalLen := by
          obtain ⟨d, hd, rfl⟩ := map_eq_ok hread
          exact (decodeFrame_totalLen hd).1
        dsimp only
        split_ifs with hsize hfit
        · refine ⟨[], .nil _, ?_⟩
          intro g hg
          cases hread.symm.trans hg
          omega
        · omega
        · have hpos := readFraming.size_pos hread
          obtain ⟨fs, hreads, hstop⟩ := @ih (offset + f.header.totalLen) (by
            simp only [minFrameLen, preambleLen, headerBodyLen, crcLen] at hmin
            omega)
          exact ⟨f :: fs, .cons hread hreads, hstop⟩
    · exact ⟨[], .nil _, hnil _ (by simpa [ScanResult.resumeOffset] using hlt)⟩

variable {segment : List UInt8} {headerLen b : Nat} {fs : List IndexedFrame}

/-- Frames of a plausible length stay where they are when the segment is truncated. -/
theorem reads_truncate (hheader : segmentHeaderLen ≤ segment.length)
    (hreads : Reads readFraming segment headerLen fs b)
    (hsize : ∀ f ∈ fs, f.header.totalLen ≤ maxFrameLen) :
    Reads readFraming (segment.take (scanTail segment headerLen).resumeOffset) headerLen fs b := by
  refine hreads.take exact_readFraming ?_
  rw [scanTail, if_neg (by omega)]
  obtain ⟨gs, hscan, hstop⟩ := @scanFrom_spec segment (segment.length + 1) headerLen
    (by omega)
  by_contra hlt
  obtain ⟨hs, rfl, hrest⟩ := hscan.of_le hreads (by omega)
  cases hrest with
  | nil => exact hlt (Nat.le_refl _)
  | cons head tail =>
    have hlong := hstop _ head
    have hshort := hsize _ (List.mem_append_right _ List.mem_cons_self)
    omega

theorem le_resumeOffset (hheader : segmentHeaderLen ≤ segment.length) :
    headerLen ≤ (scanTail segment headerLen).resumeOffset := by
  rw [scanTail, if_neg (by omega)]
  obtain ⟨gs, hscan, -⟩ := @scanFrom_spec segment (segment.length + 1) headerLen
    (by omega)
  exact hscan.le

end Neoth.Wal
