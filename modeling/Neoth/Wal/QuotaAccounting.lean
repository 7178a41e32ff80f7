import Neoth.Wal.QuotaGuard

/-!
# What the quota accounts for

* `Moves`: what the operations under the lock take from the counters;
* `Accounted`: the counters are the sums of what the owners hold, and the disk is behind them;
* `accounted_after`: that holds in every state of a run;
* **`quota_is_accounted`**: no counter is short, and an admission is taken or refused as the ceiling
  has it.
-/

open Lib.Machine

namespace Neoth.Wal.Quota

/-! ## Sums over the owners -/

variable {owners : List Held} {i : Nat} {h h' : Held}

theorem sum_map_set (f : Held → Nat) (hget : owners[i]? = some h) (h' : Held) :
    ((owners.set i h').map f).sum + f h = (owners.map f).sum + f h' := by
  induction owners generalizing i with
  | nil => simp at hget
  | cons first rest ih =>
    cases i with
    | zero =>
      obtain rfl : first = h := by simpa using hget
      simp only [List.set_cons_zero, List.map_cons, List.sum_cons]
      omega
    | succ i =>
      have hrest := ih (i := i) (by simpa using hget)
      simp only [List.set_cons_succ, List.map_cons, List.sum_cons]
      omega

theorem sum_map_eraseIdx (f : Held → Nat) (hget : owners[i]? = some h) :
    ((owners.eraseIdx i).map f).sum + f h = (owners.map f).sum := by
  induction owners generalizing i with
  | nil => simp at hget
  | cons first rest ih =>
    cases i with
    | zero =>
      obtain rfl : first = h := by simpa using hget
      simp only [List.eraseIdx_cons_zero, List.map_cons, List.sum_cons]
      omega
    | succ i =>
      have hrest := ih (i := i) (by simpa using hget)
      simp only [List.eraseIdx_cons_succ, List.map_cons, List.sum_cons]
      omega

/-! ## What is taken under the lock -/

/-- Nothing but the accounts has changed, and a measurement that is due stays due. -/
structure Frame (g g' : QuotaGuard) : Prop where
  ceiling : g'.ceiling = g.ceiling
  remeasureThreshold : g'.remeasureThreshold = g.remeasureThreshold
  measurementEpoch : g'.measurementEpoch = g.measurementEpoch
  lastMeasured : g'.lastMeasured = g.lastMeasured
  breached : g'.breached = g.breached
  needsMeasurement : g.needsMeasurement = true → g'.needsMeasurement = true

/-- So much has been settled, released and paid of the debt, and there was as much. -/
structure Moves (g g' : QuotaGuard) (settled released paid : Nat) : Prop where
  pending : g'.pendingReserved + settled = g.pendingReserved
  reserved : g'.reserved + released = g.reserved
  debt : g'.receiptDebtReserved + paid = g.receiptDebtReserved
  exact : g'.exact = g.exact
  frame : Frame g g'

variable {g g' g'' : QuotaGuard} {settled released paid : Nat}

theorem Frame.refl (g : QuotaGuard) : Frame g g := ⟨rfl, rfl, rfl, rfl, rfl, id⟩

theorem Frame.trans (h : Frame g g') (h' : Frame g' g'') : Frame g g'' :=
  ⟨h'.ceiling.trans h.ceiling, h'.remeasureThreshold.trans h.remeasureThreshold,
    h'.measurementEpoch.trans h.measurementEpoch, h'.lastMeasured.trans h.lastMeasured,
    h'.breached.trans h.breached, fun hn => h'.needsMeasurement (h.needsMeasurement hn)⟩

theorem Moves.refl (g : QuotaGuard) : Moves g g 0 0 0 := ⟨rfl, rfl, rfl, rfl, .refl g⟩

theorem Moves.trans {settled' released' paid' : Nat} (h : Moves g g' settled released paid)
    (h' : Moves g' g'' settled' released' paid') :
    Moves g g'' (settled + settled') (released + released') (paid + paid') := by
  refine ⟨?_, ?_, ?_, h'.exact.trans h.exact, h.frame.trans h'.frame⟩
  · rw [← h.pending, ← h'.pending]
    omega
  · rw [← h.reserved, ← h'.reserved]
    omega
  · rw [← h.debt, ← h'.debt]
    omega

variable {bytes : Nat}

theorem moves_settle (h : bytes ≤ g.pendingReserved) :
    Moves g (g.settlePendingAdmissionLocked bytes) bytes 0 0 :=
  ⟨Nat.sub_add_cancel h, rfl, rfl, by simp [QuotaGuard.settlePendingAdmissionLocked, h], rfl, rfl,
    rfl, rfl, rfl, id⟩

theorem moves_release (h : bytes ≤ g.reserved) :
    Moves g (g.releaseReservedLocked bytes) 0 bytes 0 :=
  ⟨rfl, Nat.sub_add_cancel h, rfl, by simp [QuotaGuard.releaseReservedLocked, h], rfl, rfl, rfl,
    rfl, rfl, id⟩

theorem moves_needing (g : QuotaGuard) : Moves g { g with needsMeasurement := true } 0 0 0 :=
  ⟨rfl, rfl, rfl, rfl, rfl, rfl, rfl, rfl, rfl, fun _ => rfl⟩

theorem moves_rearm (g : QuotaGuard) (admittedEpoch : Nat) :
    Moves g (g.rearmIfMeasurementCrossedLocked admittedEpoch) 0 0 0 := by
  unfold QuotaGuard.rearmIfMeasurementCrossedLocked
  split
  · exact moves_needing g
  · exact .refl g

theorem moves_invalidate (g : QuotaGuard) (bytes : Nat) :
    Moves g (g.invalidateMeasuredBaselineLocked bytes) 0 0 0 :=
  by
  unfold QuotaGuard.invalidateMeasuredBaselineLocked
  split
  · exact moves_needing g
  · exact .refl g

theorem moves_releaseUnqueued (h : bytes ≤ g.pendingReserved) (h' : bytes ≤ g.reserved) :
    Moves g (g.releaseUnqueuedAdmissionLocked bytes) bytes bytes 0 := by
  have hreleased :=
    (moves_settle h).trans (moves_release (g := g.settlePendingAdmissionLocked bytes) h')
  rw [Nat.zero_add] at hreleased
  exact hreleased

/-- Settled, and a part of it given back: the way of every owner that has been queued. -/
theorem moves_settleAndRelease {bytes released : Nat} (epoch : Nat) (h : bytes ≤ g.pendingReserved)
    (h' : released ≤ g.reserved) :
    Moves g
      (((g.settlePendingAdmissionLocked bytes).rearmIfMeasurementCrossedLocked
        epoch).releaseReservedLocked
      released) bytes released 0 := by
  have hsettled := (moves_settle h).trans (moves_rearm (g.settlePendingAdmissionLocked bytes) epoch)
  have hreleased := hsettled.trans (moves_release (h'.trans_eq hsettled.reserved.symm))
  rw [Nat.zero_add, Nat.zero_add] at hreleased
  exact hreleased

/-- Of the debt no more is paid than is asked for, and none that is not there. -/
theorem moves_releaseDebt (bytes : Nat) (h : g.receiptDebtReserved ≤ g.reserved) :
    ∃ paid ≤ bytes, Moves g (g.releaseReceiptDebtLocked bytes) 0 paid paid := by
  unfold QuotaGuard.releaseReceiptDebtLocked
  split
  · exact ⟨0, Nat.zero_le _, .refl g⟩
  · refine ⟨min g.receiptDebtReserved bytes, min_le_right _ _, ?_⟩
    have hle : min g.receiptDebtReserved bytes ≤ g.receiptDebtReserved := min_le_left _ _
    generalize min g.receiptDebtReserved bytes = releasable at hle ⊢
    have hstored : Moves g { g with receiptDebtReserved := g.receiptDebtReserved - releasable } 0 0
      releasable :=
      ⟨rfl, rfl, Nat.sub_add_cancel hle, rfl, rfl, rfl, rfl, rfl, rfl, id⟩
    have hreleased : Moves g (if releasable ≠ 0 then
        QuotaGuard.releaseReservedLocked
          { g with receiptDebtReserved := g.receiptDebtReserved - releasable } releasable
        else { g with receiptDebtReserved := g.receiptDebtReserved - releasable }) 0 releasable
          releasable := by
      split
      · have hboth := hstored.trans (moves_release (hle.trans h))
        simpa using hboth
      · obtain rfl : releasable = 0 := by omega
        exact hstored
    dsimp only
    split
    · have hboth := hreleased.trans (moves_invalidate _ (bytes - releasable))
      simpa using hboth
    · exact hreleased

/-! ## The accounts -/

def Owner.Sound : Owner → Prop
  | .request _ => True
  | .receipt r => r.releasableBytes ≤ r.pendingBytes ∧ r.ownedBytes = r.pendingBytes
  | .component c => c.retainedBytes ≤ c.reservedBytes

theorem Owner.Sound.mayPersist_le {owner : Owner} (h : owner.Sound) :
    owner.mayPersist ≤ owner.pending := by
  cases owner with
  | request a => exact le_rfl
  | receipt r => exact Nat.sub_le _ _
  | component c => exact h

/-- An owner has written what it may, and nothing before it was queued. -/
structure Held.Sound (h : Held) : Prop where
  owner : h.owner.Sound
  landed : h.landed ≤ h.owner.mayPersist
  unqueued : h.queued = false → h.landed = 0

theorem Held.Sound.landed_le (hs : h.Sound) : h.landed ≤ h.pending :=
  hs.landed.trans hs.owner.mayPersist_le

/-- What of the payload stands in `reserved` and not yet in `pending_reserved`. -/
def AdmitPhase.unpended : AdmitPhase → Bool
  | .charged _ => true
  | _ => false

def AdmitPhase.inFlight : AdmitPhase → Bool
  | .pended _ | .walking | .passed => true
  | _ => false

/-- A breach is trusted only while no measurement is due, and a projection that has been passed
still holds. -/
def AdmitPhase.Sound (g : QuotaGuard) (payloadBytes : Nat) : AdmitPhase → Prop
  | .entered | .walking => True
  | .admissible | .loaded _ => g.breached = true → g.needsMeasurement = true
  | .projected cur => (g.breached = true → g.needsMeasurement = true) ∧
      (g.needsMeasurement = true ∨
        saturatingAdd (saturatingAdd g.lastMeasured cur) payloadBytes ≤ g.ceiling)
  | .charged _ | .pended _ => (g.breached = true → g.needsMeasurement = true) ∧
      (g.needsMeasurement = true ∨ saturatingAdd g.lastMeasured g.reserved ≤ g.ceiling)
  | .passed => g.breached = false ∧ saturatingAdd g.lastMeasured g.reserved ≤ g.ceiling

namespace QuotaSystem

def unpended (s : QuotaSystem) : Nat :=
  match s.admitting with
  | some a => if a.phase.unpended then a.payloadBytes else 0
  | none => 0

def inFlight (s : QuotaSystem) : Nat :=
  match s.admitting with
  | some a => if a.phase.inFlight then a.payloadBytes else 0
  | none => 0

/-- The counters are the sums of what is held, and what is on the disk and what may come there is
measured or reserved, from the first measurement on. -/
structure Accounted (s : QuotaSystem) : Prop where
  pending : s.guard.pendingReserved = (s.owners.map Held.pending).sum + s.inFlight
  room : s.guard.pendingReserved + s.unpended + s.guard.receiptDebtReserved ≤ s.guard.reserved
  bounded : s.guard.reserved ≤ maxU64
  exact : s.guard.exact = true
  sound : ∀ h ∈ s.owners, h.Sound
  disk : 0 < s.guard.measurementEpoch →
    s.stable + s.guard.pendingReserved + s.unpended ≤
      s.guard.lastMeasured + s.guard.reserved + s.outside
  phase : ∀ a, s.admitting = some a → a.phase.Sound s.guard a.payloadBytes

end QuotaSystem

theorem saturatingAdd_mono {a b c : Nat} (h : b ≤ c) : saturatingAdd a b ≤ saturatingAdd a c :=
  min_le_min_right _ (Nat.add_le_add_left h a)

variable {phase : AdmitPhase}

theorem AdmitPhase.Sound.frame {payloadBytes : Nat} (h : phase.Sound g payloadBytes)
    (hframe : Frame g g') (hreserved : g'.reserved ≤ g.reserved) : phase.Sound g' payloadBytes := by
  have hbreach : (g.breached = true → g.needsMeasurement = true) → g'.breached = true →
      g'.needsMeasurement = true :=
    fun hb hb' => hframe.needsMeasurement (hb (hframe.breached ▸ hb'))
  have hmono := saturatingAdd_mono (a := g.lastMeasured) hreserved
  cases phase with
  | entered => trivial
  | walking => trivial
  | admissible => exact hbreach h
  | loaded cur => exact hbreach h
  | projected cur =>
    refine ⟨hbreach h.1, h.2.imp hframe.needsMeasurement fun hle => ?_⟩
    rwa [hframe.lastMeasured, hframe.ceiling]
  | charged cur =>
    refine ⟨hbreach h.1, h.2.imp hframe.needsMeasurement fun hle => ?_⟩
    rw [hframe.lastMeasured, hframe.ceiling]
    exact hmono.trans hle
  | pended cur =>
    refine ⟨hbreach h.1, h.2.imp hframe.needsMeasurement fun hle => ?_⟩
    rw [hframe.lastMeasured, hframe.ceiling]
    exact hmono.trans hle
  | passed =>
    refine ⟨hframe.breached.trans h.1, ?_⟩
    rw [hframe.lastMeasured, hframe.ceiling]
    exact hmono.trans h.2

/-! ## Owners -/

namespace QuotaSystem

variable {s : QuotaSystem}

namespace Accounted

theorem held_le (hs : s.Accounted) (hget : s.owners[i]? = some h) :
    h.pending ≤ s.guard.pendingReserved := by
  have hsum := sum_map_eraseIdx Held.pending hget
  have hpending := hs.pending
  omega

theorem pending_le (hs : s.Accounted) : s.guard.pendingReserved ≤ s.guard.reserved := by
  have hroom := hs.room
  omega

/-- An owner goes, and gives back no more than it has not written. -/
theorem discard (hs : s.Accounted) (hget : s.owners[i]? = some h)
    (hm : Moves s.guard g' settled released paid)
    (hsettled : settled = h.pending) (hreleased : released ≤ h.pending + paid) (stable : Nat)
    (hstable : stable + h.landed + released ≤ s.stable + h.pending) :
    ({ s with stable }.discard i h g').Accounted := by
  have hsum := sum_map_eraseIdx Held.pending hget
  have hpending := hm.pending
  have hreserved := hm.reserved
  have hdebt := hm.debt
  have hroom := hs.room
  refine ⟨?_, ?_, ?_, hm.exact.trans hs.exact, ?_, fun hepoch => ?_,
    fun a ha => (hs.phase a ha).frame hm.frame ?_⟩
  · show g'.pendingReserved = ((s.owners.eraseIdx i).map Held.pending).sum + s.inFlight
    have hold := hs.pending
    omega
  · show g'.pendingReserved + s.unpended + g'.receiptDebtReserved ≤ g'.reserved
    omega
  · show g'.reserved ≤ maxU64
    have hold := hs.bounded
    omega
  · exact fun h' hmem => hs.sound h' (List.mem_of_mem_eraseIdx hmem)
  · have hold := hs.disk (hm.frame.measurementEpoch ▸ hepoch)
    show stable + h.landed + g'.pendingReserved + s.unpended ≤
      g'.lastMeasured + g'.reserved + s.outside
    rw [hm.frame.lastMeasured]
    omega
  · show g'.reserved ≤ s.guard.reserved
    omega

theorem setOwner (hs : s.Accounted) (hget : s.owners[i]? = some h)
    (hpending : h'.pending = h.pending) (hsound : h'.Sound) : (s.setOwner i h').Accounted := by
  refine ⟨?_, hs.room, hs.bounded, hs.exact, ?_, hs.disk, hs.phase⟩
  · have hsum := sum_map_set Held.pending hget h'
    show s.guard.pendingReserved = ((s.owners.set i h').map Held.pending).sum + s.inFlight
    have hold := hs.pending
    omega
  · intro other hmem
    rcases List.mem_or_eq_of_mem_set hmem with hmem | rfl
    · exact hs.sound other hmem
    · exact hsound

theorem mark (hs : s.Accounted)
    (hroom : s.guard.pendingReserved + s.unpended + s.guard.receiptDebtReserved + bytes ≤
      s.guard.reserved) :
    Accounted { s with guard := s.guard.markReceiptDebtLocked bytes } := by
  unfold QuotaGuard.markReceiptDebtLocked
  split
  · exact hs
  · have hbounded := hs.bounded
    have hfits : s.guard.receiptDebtReserved + bytes ≤ maxU64 := by omega
    refine ⟨hs.pending, ?_, hs.bounded, ?_, hs.sound, hs.disk,
      fun a ha => (hs.phase a ha).frame ?_ le_rfl⟩
    · show s.guard.pendingReserved + s.unpended + saturatingAdd s.guard.receiptDebtReserved bytes ≤
        s.guard.reserved
      rw [saturatingAdd, min_eq_left hfits]
      omega
    · show (s.guard.exact && decide _) = true
      rw [hs.exact, decide_eq_true hfits]
      rfl
    · exact ⟨rfl, rfl, rfl, rfl, rfl, id⟩

end Accounted

theorem accounted_dropOwner (hs : s.Accounted) (hget : s.owners[i]? = some h) :
    (s.dropOwner i h).1.Accounted := by
  obtain ⟨owner, queued, landed, abandoned⟩ := h
  have hsound := hs.sound _ (List.mem_of_getElem? hget)
  have hle := hs.held_le hget
  have hle' := hle.trans hs.pending_le
  have hlanded := hsound.landed
  have hwritten := hsound.landed_le
  unfold dropOwner
  dsimp only
  cases owner with
  | request a =>
    dsimp only
    split
    · exact hs
    · have hmoves := (moves_settle hle).trans (moves_rearm _ a.measurementEpoch)
      exact hs.discard hget hmoves rfl (Nat.zero_le _) s.stable (Nat.add_le_add_left hwritten _)
  | receipt r =>
    obtain ⟨hreleasable, -⟩ := hsound.owner
    simp only [Owner.mayPersist, Held.pending, Owner.pending] at hlanded hle hle'
    dsimp only
    split
    · exact hs
    split
    · exact hs.setOwner hget rfl ⟨hsound.owner, hsound.landed, hsound.unqueued⟩
    · rename_i hopen
      unfold ContextEvidenceQuotaReservation.drop
      rw [if_neg hopen]
      split
      · have hmoves := moves_settleAndRelease r.measurementEpoch hle (hreleasable.trans hle')
        refine hs.discard hget hmoves rfl (hreleasable.trans (Nat.le_add_right _ _)) s.stable ?_
        show s.stable + landed + r.releasableBytes ≤ s.stable + r.pendingBytes
        omega
      · rename_i hzero
        have hnone : r.pendingBytes = 0 := not_not.mp hzero
        refine hs.discard hget (.refl _) hnone.symm (Nat.zero_le _) s.stable ?_
        exact Nat.add_le_add_left hwritten _
  | component c =>
    have hretained : c.retainedBytes ≤ c.reservedBytes := hsound.owner
    simp only [Owner.mayPersist, Held.pending, Owner.pending] at hlanded hle hle'
    dsimp only
    split
    · exact hs
    · have hroom : c.reservedBytes - c.retainedBytes ≤ s.guard.reserved :=
        (Nat.sub_le _ _).trans hle'
      have hmoves := moves_settleAndRelease c.measurementEpoch hle hroom
      refine hs.discard hget hmoves rfl ((Nat.sub_le _ _).trans (Nat.le_add_right _ _)) s.stable ?_
      show s.stable + landed + (c.reservedBytes - c.retainedBytes) ≤ s.stable + c.reservedBytes
      omega

/-- What has come to the home from outside the admissions. -/
theorem Accounted.grow (hs : s.Accounted) (n : Nat) :
    Accounted { s with stable := s.stable + n, outside := s.outside + n } := by
  refine ⟨hs.pending, hs.room, hs.bounded, hs.exact, hs.sound, fun hepoch => ?_, hs.phase⟩
  have hold := hs.disk hepoch
  show s.stable + n + s.guard.pendingReserved + s.unpended ≤
    s.guard.lastMeasured + s.guard.reserved + (s.outside + n)
  omega

variable {r : ContextEvidenceQuotaReservation}

theorem accounted_split (hs : s.Accounted) (hget : s.owners[i]? = some h)
    (howner : h.owner = .receipt r)
    (hqueued : h.queued = true) {maxBytes : Nat} {rest : ContextEvidenceQuotaReservation}
    {part : ContextEvidenceQuotaComponent}
    (hsplit : r.splitComponent maxBytes = some (rest, part)) : Accounted { s with
      owners := s.owners.set i { h with owner := .receipt rest } ++
        [⟨.component part, true, 0, false⟩] } := by
  obtain ⟨owner, queued, landed, abandoned⟩ := h
  cases howner
  have hsound := hs.sound _ (List.mem_of_getElem? hget)
  obtain ⟨hreleasable, howned⟩ := hsound.owner
  have hlanded : landed ≤ r.pendingBytes - r.releasableBytes := hsound.landed
  unfold ContextEvidenceQuotaReservation.splitComponent at hsplit
  split at hsplit
  · cases hsplit
  rename_i hroom
  cases hsplit
  refine ⟨?_, hs.room, hs.bounded, hs.exact, fun other hmem => ?_, hs.disk, hs.phase⟩
  · have hsum := sum_map_set Held.pending hget ⟨.receipt { r with
      releasableBytes := r.releasableBytes - maxBytes, ownedBytes := r.ownedBytes - maxBytes,
      pendingBytes := r.pendingBytes - maxBytes }, queued, landed, abandoned⟩
    have hold := hs.pending
    simp only [Held.pending, Owner.pending] at hsum hold ⊢
    rw [List.map_append, List.sum_append, List.map_singleton, List.sum_singleton]
    show s.guard.pendingReserved = _ + maxBytes + s.inFlight
    omega
  · rcases List.mem_append.mp hmem with hmem | hmem
    · rcases List.mem_or_eq_of_mem_set hmem with hmem | rfl
      · exact hs.sound other hmem
      · refine ⟨⟨Nat.sub_le_sub_right hreleasable maxBytes, congrArg (· - maxBytes) howned⟩, ?_,
          fun h => ?_⟩
        · show landed ≤ r.pendingBytes - maxBytes - (r.releasableBytes - maxBytes)
          omega
        · rw [hqueued] at h
          cases h
    · rw [List.mem_singleton.mp hmem]
      exact ⟨Nat.zero_le _, le_rfl, fun _ => rfl⟩

theorem accounted_reconcile (hs : s.Accounted) (hget : s.owners[i]? = some h)
    (howner : h.owner = .receipt r)
    {retained reclaimedDebt baselineReclaimed : Nat} (failureDebt : Bool)
    (hretained : retained ≤ r.ownedBytes) (hleft : h.landed ≤ retained + baselineReclaimed)
    (hreclaimed : reclaimedDebt + baselineReclaimed ≤ s.stable) :
    (s.reconcile i h r retained reclaimedDebt baselineReclaimed failureDebt).Accounted := by
  have hsound := hs.sound _ (List.mem_of_getElem? hget)
  have hle := hs.held_le hget
  have hpending : h.pending = r.pendingBytes := by rw [Held.pending, howner, Owner.pending]
  have howned : r.ownedBytes = r.pendingBytes := by
    have hreceipt := hsound.owner
    rw [howner] at hreceipt
    exact hreceipt.2
  have hroom := hs.room
  have hdebt : s.guard.receiptDebtReserved ≤ s.guard.reserved := by omega
  obtain ⟨paid, hpaid, hreclaim⟩ := moves_releaseDebt reclaimedDebt hdebt
  have hinvalid := hreclaim.trans (moves_invalidate _ baselineReclaimed)
  unfold reconcile
  dsimp only
  generalize (s.guard.releaseReceiptDebtLocked reclaimedDebt).invalidateMeasuredBaselineLocked
    baselineReclaimed = g₁ at hinvalid ⊢
  have hpending₁ := hinvalid.pending
  have hreserved₁ := hinvalid.reserved
  have hdebt₁ := hinvalid.debt
  have hsettle : Moves g₁ (r.reconcileAfterTerminalLocked g₁ retained) r.pendingBytes
      (r.ownedBytes - retained) 0 :=
    moves_settleAndRelease r.measurementEpoch (by omega) (by omega)
  have hmoves := hinvalid.trans hsettle
  generalize r.reconcileAfterTerminalLocked g₁ retained = g₂ at hmoves ⊢
  have hdiscarded :
      Accounted ({ s with stable := s.stable - (reclaimedDebt + baselineReclaimed) }.discard i
        h g₂) :=
    hs.discard hget hmoves (by omega) (by omega) _ (by omega)
  split
  · refine hdiscarded.mark ?_
    have hpending₂ := hmoves.pending
    have hreserved₂ := hmoves.reserved
    have hdebt₂ := hmoves.debt
    show g₂.pendingReserved + s.unpended + g₂.receiptDebtReserved + retained ≤ g₂.reserved
    omega
  · exact hdiscarded

end QuotaSystem

/-- A transaction keeps no more than it owns, and what it has left on the disk is what it keeps or
reports as reclaimed; what it reports as reclaimed was there. -/
def QuotaEvent.Reported (s : QuotaSystem) : QuotaEvent → Prop
  | .reconcile i retained reclaimedDebt baselineReclaimed _ => ∀ h ∈ s.living i, ∀ r,
    h.owner = .receipt r →
      retained ≤ r.ownedBytes ∧ h.landed ≤ retained + baselineReclaimed ∧
      reclaimedDebt + baselineReclaimed ≤ s.stable
  | _ => True

namespace QuotaSystem

variable {s : QuotaSystem}

theorem getElem?_of_living (h' : s.living i = some h) : s.owners[i]? = some h :=
  (Option.filter_eq_some_iff.mp h').1

theorem accounted_releaseUnqueued (hs : s.Accounted) (hget : s.owners[i]? = some h) :
    (if h.queued then (s, QuotaAnswer.inapplicable) else if s.walking then (s, .blocked)
      else (s.discard i h (s.guard.releaseUnqueuedAdmissionLocked h.owner.pending),
        .none)).1.Accounted := by
  have hsound := hs.sound _ (List.mem_of_getElem? hget)
  have hle := hs.held_le hget
  have hmoves := moves_releaseUnqueued hle (hle.trans hs.pending_le)
  split
  · exact hs
  rename_i hqueued
  split
  · exact hs
  refine hs.discard hget hmoves rfl (Nat.le_add_right _ _) s.stable ?_
  show s.stable + h.landed + _ ≤ _
  rw [hsound.unqueued (Bool.not_eq_true _ ▸ hqueued), Nat.add_zero]

/-- **What a step of an owner keeps.** -/
theorem accounted_ownerStep (hs : s.Accounted) (hliving : s.living i = some h) {event : QuotaEvent}
    (howner : event.owner = some i) (hreported : event.Reported s) :
      (s.ownerStep i h event).1.Accounted := by
  have hget := getElem?_of_living hliving
  have hsound := hs.sound _ (List.mem_of_getElem? hget)
  obtain ⟨owner, queued, landed, abandoned⟩ := h
  cases event with
  | tryAdmit kind payloadBytes => exact hs
  | proceed spurious lengths => exact hs
  | reset => exact hs
  | «foreign» bytes => exact hs
  | remove bytes => exact hs
  | enqueue j =>
    have hset : (s.setOwner i ⟨owner, true, landed, abandoned⟩).Accounted :=
      hs.setOwner hget rfl ⟨hsound.owner, hsound.landed, by simp⟩
    cases owner with
    | request a => exact hset
    | receipt r => exact hset
    | component c => exact hs
  | releaseUnqueued j =>
    have hstep := accounted_releaseUnqueued hs hget
    cases owner with
    | request a => exact hstep
    | receipt r => exact hstep
    | component c => exact hs
  | drop j => exact accounted_dropOwner hs hget
  | armFailClosed j =>
    cases owner with
    | request a => exact hs
    | component c => exact hs
    | receipt r =>
      show (if queued then _ else _ : QuotaSystem × QuotaAnswer).1.Accounted
      split
      · refine hs.setOwner hget rfl ⟨⟨Nat.zero_le _, hsound.owner.2⟩, ?_, hsound.unqueued⟩
        exact hsound.landed.trans (Nat.sub_le_sub_left (Nat.zero_le _) _)
      · exact hs
  | consume j bytes =>
    cases owner with
    | request a => exact hs
    | component c => exact hs
    | receipt r =>
      show (if queued then _ else _ : QuotaSystem × QuotaAnswer).1.Accounted
      split
      · refine hs.setOwner hget rfl ⟨⟨(Nat.sub_le _ _).trans hsound.owner.1, hsound.owner.2⟩, ?_,
          hsound.unqueued⟩
        exact hsound.landed.trans (Nat.sub_le_sub_left (Nat.sub_le _ _) _)
      · exact hs
  | splitComponent j maxBytes =>
    cases owner with
    | request a => exact hs
    | component c => exact hs
    | receipt r =>
      show (if queued then _ else _ : QuotaSystem × QuotaAnswer).1.Accounted
      split
      · rename_i hqueued
        cases hsplit : r.splitComponent maxBytes with
        | none => exact hs
        | some parts => exact accounted_split hs hget rfl hqueued hsplit
      · exact hs
  | reconcile j retained reclaimedDebt baselineReclaimed failureDebt =>
    cases owner with
    | request a => exact hs
    | component c => exact hs
    | receipt r =>
      cases howner
      obtain ⟨hretained, hleft, hreclaimed⟩ := hreported _ hliving r rfl
      show (if !queued then _ else if s.walking then _
        else _ : QuotaSystem × QuotaAnswer).1.Accounted
      split
      · exact hs
      split
      · exact hs
      · exact accounted_reconcile hs hget rfl failureDebt hretained hleft hreclaimed
  | markBytesMayPersist j bytes =>
    cases owner with
    | request a => exact hs
    | receipt r => exact hs
    | component c =>
      have hretained : c.retainedBytes ≤ c.reservedBytes := hsound.owner
      refine hs.setOwner hget rfl ⟨max_le hretained (min_le_right _ _), ?_, hsound.unqueued⟩
      exact hsound.landed.trans (le_max_left _ _)
  | clearAfterConfirmedCleanup j =>
    cases owner with
    | request a => exact hs
    | receipt r => exact hs
    | component c => exact hs.setOwner hget rfl ⟨Nat.zero_le _, Nat.zero_le _, fun _ => rfl⟩
  | write j bytes =>
    show (if queued then _ else _ : QuotaSystem × QuotaAnswer).1.Accounted
    split
    · rename_i hqueued
      have hset :
          (s.setOwner i ⟨owner, queued, min (landed + bytes) owner.mayPersist,
            abandoned⟩).Accounted :=
        hs.setOwner hget rfl ⟨hsound.owner, min_le_right _ _, by simp [hqueued]⟩
      exact hset.grow _
    · exact hs

end QuotaSystem

/-! ## Admissions -/

theorem saturatingAdd_assoc (a b c : Nat) :
    saturatingAdd (saturatingAdd a b) c = saturatingAdd a (b + c) := by
  simp only [saturatingAdd]
  omega

theorem saturatingAdd_eq {a b : Nat} (h : a + b ≤ maxU64) : saturatingAdd a b = a + b :=
  min_eq_left h

theorem checkedAdd_eq_some_iff {a b sum : Nat} : checkedAdd a b = some sum ↔
    a + b ≤ maxU64 ∧ a + b = sum := by
  simp [checkedAdd]

/-- Nothing but what is pending stays reserved. -/
theorem rebasedReserved_eq (h : g.pendingReserved ≤ maxU64) :
    g.rebasedReserved g.reserved g.pendingReserved = g.pendingReserved := by
  rw [QuotaGuard.rebasedReserved, Nat.sub_self, max_self]
  exact saturatingAdd_eq h

/-- What a walk publishes. -/
def QuotaGuard.rebased (g : QuotaGuard) (used : Nat) : QuotaGuard :=
  { g with
    lastMeasured := used, reserved := g.pendingReserved,
    measurementEpoch := saturatingAdd g.measurementEpoch 1,
    breached := decide (saturatingAdd used g.pendingReserved > g.ceiling),
    needsMeasurement := false,
    receiptDebtReserved := 0 }

theorem publish_eq (h : g.pendingReserved ≤ maxU64) (hexact : g.exact = true)
    (used payloadBytes : Nat) : g.publish used payloadBytes =
      (if (g.rebased used).breached then
        (g.rebased used).releaseUnqueuedAdmissionLocked payloadBytes
        else g.rebased used, (g.rebased used).breached) := by
  unfold QuotaGuard.publish QuotaGuard.rebased
  rw [rebasedReserved_eq h, Nat.sub_self, Nat.add_zero, hexact, decide_eq_true h]
  rfl

namespace QuotaSystem

variable {s : QuotaSystem} {a : Admitting}

/-- The admission goes on where what it has charged is the same. -/
theorem Accounted.turn (hs : s.Accounted) {admitting : Option Admitting}
    (hunpended : unpended { s with admitting } = s.unpended)
    (hinFlight : inFlight { s with admitting } = s.inFlight)
    (hphase : ∀ a, admitting = some a → a.phase.Sound s.guard a.payloadBytes) :
      Accounted { s with admitting } := by
  refine ⟨?_, ?_, hs.bounded, hs.exact, hs.sound, fun hepoch => ?_, hphase⟩
  · rw [hinFlight]
    exact hs.pending
  · rw [hunpended]
    exact hs.room
  · rw [hunpended]
    exact hs.disk hepoch

theorem Accounted.refuse (hs : s.Accounted) (hunpended : s.unpended = 0)
    (hinFlight : s.inFlight = 0) : (s.refuse s.guard).1.Accounted :=
  hs.turn hunpended.symm hinFlight.symm fun _ h => by cases h

theorem Accounted.goto (hs : s.Accounted) (ha : s.admitting = some a)
    (hunpended : phase.unpended = a.phase.unpended) (hinFlight : phase.inFlight = a.phase.inFlight)
    (hphase : phase.Sound s.guard a.payloadBytes) :
      Accounted { s with admitting := some { a with phase } } := by
  refine hs.turn ?_ ?_ ?_
  · show (if phase.unpended then a.payloadBytes else 0) = s.unpended
    rw [unpended, ha, hunpended]
  · show (if phase.inFlight then a.payloadBytes else 0) = s.inFlight
    rw [inFlight, ha, hinFlight]
  · rintro _ ⟨⟩
    exact hphase

theorem unpended_eq (ha : s.admitting = some a) :
    s.unpended = if a.phase.unpended then a.payloadBytes else 0 := by
  rw [unpended, ha]

theorem inFlight_eq (ha : s.admitting = some a) :
    s.inFlight = if a.phase.inFlight then a.payloadBytes else 0 := by
  rw [inFlight, ha]

/-- The exchange has succeeded. -/
theorem Accounted.charge (hs : s.Accounted) (ha : s.admitting = some a)
    {cur sum : Nat} (hphase : a.phase = .projected cur)
    (hsum : checkedAdd cur a.payloadBytes = some sum) (hcur : s.guard.reserved = cur) :
    Accounted { s with
      guard := { s.guard with reserved := sum },
      admitting := some { a with phase := .charged sum } } := by
  obtain ⟨hfits, rfl⟩ := checkedAdd_eq_some_iff.mp hsum
  subst hcur
  have hunpended : s.unpended = 0 := by rw [unpended_eq ha, hphase]; rfl
  have hinFlight : s.inFlight = 0 := by rw [inFlight_eq ha, hphase]; rfl
  have hsound := hs.phase a ha
  rw [hphase] at hsound
  refine ⟨?_, ?_, hfits, hs.exact, hs.sound, fun hepoch => ?_, ?_⟩
  · have hold := hs.pending
    rw [hinFlight] at hold
    exact hold
  · have hold := hs.room
    show s.guard.pendingReserved + a.payloadBytes + s.guard.receiptDebtReserved ≤
      s.guard.reserved + a.payloadBytes
    omega
  · have hold := hs.disk hepoch
    show s.stable + s.guard.pendingReserved + a.payloadBytes ≤
      s.guard.lastMeasured + (s.guard.reserved + a.payloadBytes) + s.outside
    omega
  · rintro _ ⟨⟩
    refine ⟨hsound.1, hsound.2.imp_right fun hle => ?_⟩
    rwa [saturatingAdd_assoc] at hle

theorem Accounted.pend (hs : s.Accounted) (ha : s.admitting = some a) {cur : Nat}
    (hphase : a.phase = .charged cur) : Accounted { s with
      guard := { s.guard with
        pendingReserved := saturatingAdd s.guard.pendingReserved a.payloadBytes,
        exact := s.guard.exact && decide (s.guard.pendingReserved + a.payloadBytes ≤ maxU64) },
      admitting := some { a with phase := .pended cur } } := by
  have hunpended : s.unpended = a.payloadBytes := by rw [unpended_eq ha, hphase]; rfl
  have hinFlight : s.inFlight = 0 := by rw [inFlight_eq ha, hphase]; rfl
  have hroom := hs.room
  have hbounded := hs.bounded
  have hfits : s.guard.pendingReserved + a.payloadBytes ≤ maxU64 := by omega
  have hsound := hs.phase a ha
  rw [hphase] at hsound
  rw [saturatingAdd_eq hfits, decide_eq_true hfits, Bool.and_true]
  refine ⟨?_, ?_, hbounded, hs.exact, hs.sound, fun hepoch => ?_, ?_⟩
  · have hold := hs.pending
    show s.guard.pendingReserved + a.payloadBytes = (s.owners.map Held.pending).sum + a.payloadBytes
    omega
  · show s.guard.pendingReserved + a.payloadBytes + 0 + s.guard.receiptDebtReserved ≤
      s.guard.reserved
    omega
  · have hold := hs.disk hepoch
    show s.stable + (s.guard.pendingReserved + a.payloadBytes) + 0 ≤ _
    rw [hunpended] at hold
    exact (Nat.add_assoc _ _ _).symm.trans_le hold
  · rintro _ ⟨⟩
    exact hsound

/-- The walk has come to its end. -/
theorem Accounted.rebase (hs : s.Accounted) (ha : s.admitting = some a)
    (hphase : a.phase = .walking) (used : Nat)
    (phase : AdmitPhase) (hnext : phase.unpended = false ∧ phase.inFlight = true)
    (hsound : phase.Sound (s.guard.rebased used) a.payloadBytes) :
    Accounted { s with
      guard := s.guard.rebased used, outside := s.stable - used,
      admitting := some { a with phase } } := by
  have hunpended : unpended { s with
      guard := s.guard.rebased used, outside := s.stable - used,
      admitting := some { a with phase } } = 0 := by
    simp [unpended, hnext.1]
  have hinFlight' : inFlight { s with
      guard := s.guard.rebased used, outside := s.stable - used,
      admitting := some { a with phase } } =
        s.inFlight := by
    rw [inFlight_eq ha, hphase]
    exact if_pos hnext.2
  refine ⟨?_, ?_, hs.pending_le.trans hs.bounded, hs.exact, hs.sound, fun _ => ?_, ?_⟩
  · rw [hinFlight']
    exact hs.pending
  · rw [hunpended]
    exact le_rfl
  · rw [hunpended]
    show s.stable + s.guard.pendingReserved + 0 ≤ used + s.guard.pendingReserved + (s.stable - used)
    omega
  · rintro _ ⟨⟩
    exact hsound

/-- The admission takes back what it has charged, and gives up. -/
theorem Accounted.takeBack (hs : s.Accounted) (ha : s.admitting = some a)
    (hphase : a.phase.inFlight = true) :
    (s.refuse (s.guard.releaseUnqueuedAdmissionLocked a.payloadBytes)).1.Accounted := by
  have hinFlight : s.inFlight = a.payloadBytes := by rw [inFlight_eq ha, hphase]; rfl
  have hunpended : s.unpended = 0 := by
    rw [unpended_eq ha]
    revert hphase
    cases a.phase <;> simp [AdmitPhase.inFlight, AdmitPhase.unpended]
  have hpending := hs.pending
  have hroom := hs.room
  have hmoves := @moves_releaseUnqueued s.guard a.payloadBytes (by omega) (by omega)
  have hpending' := hmoves.pending
  have hreserved' := hmoves.reserved
  have hdebt' := hmoves.debt
  generalize s.guard.releaseUnqueuedAdmissionLocked a.payloadBytes =
    g' at hmoves hpending' hreserved' hdebt' ⊢
  refine ⟨?_, ?_, ?_, hmoves.exact.trans hs.exact, hs.sound, fun hepoch => ?_, fun _ h => by
    cases h⟩
  · show g'.pendingReserved = (s.owners.map Held.pending).sum + 0
    omega
  · show g'.pendingReserved + 0 + g'.receiptDebtReserved ≤ g'.reserved
    omega
  · show g'.reserved ≤ maxU64
    have hold := hs.bounded
    omega
  · have hold := hs.disk (hmoves.frame.measurementEpoch ▸ hepoch)
    show s.stable + g'.pendingReserved + 0 ≤ g'.lastMeasured + g'.reserved + s.outside
    rw [hmoves.frame.lastMeasured]
    omega

/-- The owner is made. -/
theorem Accounted.take (hs : s.Accounted) (ha : s.admitting = some a) (hphase : a.phase = .passed) :
    Accounted
      { s with owners := s.owners ++ [⟨newOwner s.guard a, false, 0, false⟩], admitting := none
        } := by
  have hinFlight : s.inFlight = a.payloadBytes := by rw [inFlight_eq ha, hphase]; rfl
  have hunpended : s.unpended = 0 := by rw [unpended_eq ha, hphase]; rfl
  have hnew : (newOwner s.guard a).pending = a.payloadBytes ∧ (newOwner s.guard a).Sound := by
    unfold newOwner
    cases a.kind with
    | request => exact ⟨rfl, trivial⟩
    | receipt => exact ⟨rfl, le_rfl, rfl⟩
  refine ⟨?_, ?_, hs.bounded, hs.exact, fun h hmem => ?_, fun hepoch => ?_, fun _ h => by cases h⟩
  · have hold := hs.pending
    rw [hinFlight] at hold
    rw [List.map_append, List.sum_append, List.map_singleton, List.sum_singleton]
    show s.guard.pendingReserved = _ + (newOwner s.guard a).pending + 0
    rw [hnew.1]
    exact hold
  · have hold := hs.room
    rw [hunpended] at hold
    exact hold
  · rcases List.mem_append.mp hmem with hmem | hmem
    · exact hs.sound h hmem
    · rw [List.mem_singleton.mp hmem]
      exact ⟨hnew.2, Nat.zero_le _, fun _ => rfl⟩
  · have hold := hs.disk hepoch
    rw [hunpended] at hold
    exact hold

/-- **What a step of the admission in flight keeps.** -/
theorem accounted_proceed (hs : s.Accounted) (ha : s.admitting = some a) (spurious : Bool)
    (lengths : List Nat) : (s.proceed a spurious lengths).1.Accounted := by
  have hsound := hs.phase a ha
  have hunpended := unpended_eq ha
  have hinFlight := inFlight_eq ha
  obtain ⟨kind, payloadBytes, phase⟩ := a
  unfold proceed
  dsimp only at hsound hunpended hinFlight ⊢
  cases phase with
  | entered =>
    dsimp only
    split
    · exact hs.refuse hunpended hinFlight
    · rename_i hopen
      refine hs.goto ha rfl rfl fun hbreached => ?_
      simpa [hbreached] using hopen
  | admissible => exact hs.goto ha rfl rfl hsound
  | loaded cur =>
    dsimp only
    split
    · exact hs.refuse hunpended hinFlight
    · rename_i hfits
      refine hs.goto ha rfl rfl ⟨hsound, ?_⟩
      rcases hneeds : s.guard.needsMeasurement with _ | _
      · exact .inr (Nat.le_of_not_lt fun hlt => hfits ⟨hlt, hneeds⟩)
      · exact .inl rfl
  | projected cur =>
    dsimp only
    split
    · exact hs.refuse hunpended hinFlight
    · rename_i sum hsum
      split
      · rename_i hcas
        exact hs.charge ha rfl hsum hcas.1
      split
      · exact hs.refuse hunpended hinFlight
      · exact hs.goto ha rfl rfl hsound.1
  | charged cur => exact hs.pend ha rfl
  | pended cur =>
    dsimp only
    split
    · exact hs.goto ha rfl rfl trivial
    · rename_i hnot
      obtain ⟨hneeds, -⟩ :
          s.guard.needsMeasurement = false ∧ ¬ s.guard.remeasureThreshold ≤ cur := by
        simpa using hnot
      refine hs.goto ha rfl rfl ⟨?_, hsound.2.resolve_left (by simp [hneeds])⟩
      rw [← Bool.not_eq_true]
      intro hbreached
      rw [hsound.1 hbreached] at hneeds
      cases hneeds
  | walking =>
    dsimp only
    rw [publish_eq (hs.pending_le.trans hs.bounded) hs.exact]
    dsimp only
    split
    · rename_i hover
      have hrebased := hs.rebase ha rfl (measureDir lengths) .walking ⟨rfl, rfl⟩ trivial
      exact hrebased.takeBack rfl rfl
    · rename_i hwithin
      rw [Bool.not_eq_true] at hwithin
      have hle := of_decide_eq_false hwithin
      exact hs.rebase ha rfl (measureDir lengths) .passed ⟨rfl, rfl⟩ ⟨hwithin, Nat.le_of_not_lt hle⟩
  | passed =>
    dsimp only
    rw [if_neg (by simp [hsound.1])]
    exact hs.take ha rfl

/-! ## Runs -/

/-- An event of a transaction reaches the living one, or nothing. -/
theorem step_owner (s : QuotaSystem) (event : QuotaEvent) {i : Nat} (hi : event.owner = some i) :
    s.step event = (s, .inapplicable) ∨ ∃ h,
      s.living i = some h ∧ s.step event = s.ownerStep i h event := by
  cases hliving : s.living i with
  | none =>
    refine .inl ?_
    cases event <;> cases hi <;> simp only [step, QuotaEvent.owner, Option.bind_some, hliving]
  | some h =>
    refine .inr ⟨h, rfl, ?_⟩
    cases event <;> cases hi <;> simp only [step, QuotaEvent.owner, Option.bind_some, hliving]

variable {event : QuotaEvent}

/-- **What one event keeps.** -/
theorem accounted_step (hs : s.Accounted) (hreported : event.Reported s) :
    (s.step event).1.Accounted := by
  have howner : ∀ i, event.owner = some i → (s.step event).1.Accounted := by
    intro i hi
    rcases step_owner s event hi with hstep | ⟨h, hliving, hstep⟩
    · rw [hstep]
      exact hs
    · rw [hstep]
      exact accounted_ownerStep hs hliving hi hreported
  cases event with
  | tryAdmit kind payloadBytes =>
    show (if s.admitting.isSome then _ else _ : QuotaSystem × QuotaAnswer).1.Accounted
    split
    · exact hs
    · rename_i hnone
      rw [Option.not_isSome_iff_eq_none] at hnone
      refine hs.turn ?_ ?_ ?_
      · rw [unpended, unpended, hnone]
        rfl
      · rw [inFlight, inFlight, hnone]
        rfl
      · rintro _ ⟨⟩
        trivial
  | proceed spurious lengths =>
    cases ha : s.admitting with
    | none =>
      have hstep : s.step (.proceed spurious lengths) = (s, .inapplicable) := by rw [step, ha]
      rw [hstep]
      exact hs
    | some a =>
      have hstep : s.step (.proceed spurious lengths) = s.proceed a spurious lengths := by
        rw [step, ha]
      rw [hstep]
      exact accounted_proceed hs ha spurious lengths
  | reset =>
    show (if s.admitting.isSome then _ else _ : QuotaSystem × QuotaAnswer).1.Accounted
    split
    · exact hs
    · rename_i hnone
      rw [Option.not_isSome_iff_eq_none] at hnone
      refine ⟨hs.pending, hs.room, hs.bounded, hs.exact, hs.sound, hs.disk, fun a ha => ?_⟩
      rw [hnone] at ha
      cases ha
  | «foreign» bytes => exact hs.grow bytes
  | remove bytes =>
    refine ⟨hs.pending, hs.room, hs.bounded, hs.exact, hs.sound, fun hepoch => ?_, hs.phase⟩
    refine le_trans ?_ (hs.disk hepoch)
    show s.stable - bytes + s.guard.pendingReserved + s.unpended ≤
      s.stable + s.guard.pendingReserved + s.unpended
    omega
  | enqueue i => exact howner i rfl
  | releaseUnqueued i => exact howner i rfl
  | drop i => exact howner i rfl
  | armFailClosed i => exact howner i rfl
  | consume i bytes => exact howner i rfl
  | splitComponent i maxBytes => exact howner i rfl
  | reconcile i retained reclaimedDebt baselineReclaimed failureDebt => exact howner i rfl
  | markBytesMayPersist i bytes => exact howner i rfl
  | clearAfterConfirmedCleanup i => exact howner i rfl
  | write i bytes => exact howner i rfl

/-- Every transaction of the run reports what it has done. -/
def ReportedRun (ceilingBytes stable : Nat) (events : List QuotaEvent) : Prop :=
  ∀ before event rest, events = before ++ event :: rest →
  event.Reported (after ceilingBytes stable before)

theorem accounted_after {ceilingBytes stable : Nat} {events : List QuotaEvent}
    (hreported : ReportedRun ceilingBytes stable events) :
      (after ceilingBytes stable events).Accounted := by
  refine run_invariant_of_meets (P := Accounted) (M := QuotaEvent.Reported)
    (fun s event hs hevent => accounted_step hs hevent) _ ?_ events hreported
  refine ⟨rfl, le_rfl, Nat.zero_le _, rfl, by simp [fresh],
    fun hepoch => absurd hepoch (Nat.lt_irrefl 0), ?_⟩
  rintro _ ⟨⟩

/-! ## What is promised of a run -/

/-- What the living owners hold of `pending_reserved`, and what those have left that were armed. -/
def livePending (s : QuotaSystem) : Nat :=
  ((s.owners.filter fun h => !h.abandoned).map Held.pending).sum
def abandonedPending (s : QuotaSystem) : Nat :=
  ((s.owners.filter fun h => h.abandoned).map Held.pending).sum

def onDisk (s : QuotaSystem) : Nat := s.stable + (s.owners.map Held.landed).sum

/-- What the owners have not written yet. -/
def owed (s : QuotaSystem) : Nat := (s.owners.map fun h => h.pending - h.landed).sum

/-- The admission in flight has charged its payload. -/
def charged (s : QuotaSystem) : Bool :=
  match s.admitting with
  | some a => a.phase.unpended || a.phase.inFlight
  | none => false

structure Balanced (s : QuotaSystem) : Prop where
  pending : s.guard.pendingReserved = s.livePending + s.abandonedPending + s.inFlight
  reserved : s.guard.pendingReserved ≤ s.guard.reserved
  exact : s.guard.exact = true
  bounded : s.guard.reserved ≤ maxU64
  /-- From the first measurement on, up to what has come to the home from outside the admissions. -/
  disk : 0 < s.guard.measurementEpoch →
    s.onDisk + s.owed ≤ s.guard.lastMeasured + s.guard.reserved + s.outside

/-- How an admission ends, and what it does to the counters before. -/
structure Answers (s : QuotaSystem) (event : QuotaEvent) : Prop where
  admitted : (s.step event).2 = .admitted → s.guard.ceiling < maxU64 →
    (s.step event).1.guard.lastMeasured + (s.step event).1.guard.reserved ≤ s.guard.ceiling
  /-- Refused without a walk, it has charged nothing, and changes nothing. -/
  refused : ∀ used ceiling, (s.step event).2 = .refused used ceiling → s.walking = false →
    (s.step event).1.guard = s.guard ∧ s.charged = false
  /-- Refused by its own walk, it leaves the new baseline and what was pending without it. -/
  walked : ∀ used ceiling, (s.step event).2 = .refused used ceiling → s.walking = true →
    (s.step event).1.guard.lastMeasured = used ∧
      (s.step event).1.guard.reserved = (s.step event).1.guard.pendingReserved ∧
      (s.step event).1.guard.pendingReserved + s.inFlight = s.guard.pendingReserved
  /-- Its steps change nothing before it has charged the payload, and it stays charged while it is
  in flight. -/
  uncharged : ∀ spurious lengths, event = .proceed spurious lengths → s.charged = false →
    (s.step event).1.charged = false → (s.step event).1.guard = s.guard
  charges : s.charged = true → (s.step event).1.admitting.isSome = true →
    (s.step event).1.charged = true

theorem sum_filter_add (f : Held → Nat) (p : Held → Bool) (owners : List Held) :
    (owners.map f).sum = ((owners.filter fun h => !p h).map f).sum +
      ((owners.filter p).map f).sum := by
  induction owners with
  | nil => rfl
  | cons first rest ih =>
    rcases hp : p first with _ | _
    · simp only [List.filter_cons, hp, Bool.not_false, if_true, Bool.false_eq_true, if_false,
        List.map_cons, List.sum_cons]
      omega
    · simp only [List.filter_cons, hp, Bool.not_true, if_true, Bool.false_eq_true, if_false,
        List.map_cons, List.sum_cons]
      omega

theorem Accounted.landed_add_owed (hs : s.Accounted) :
    (s.owners.map Held.landed).sum + s.owed = (s.owners.map Held.pending).sum := by
  have hsound := hs.sound
  unfold owed
  generalize s.owners = owners at hsound
  induction owners with
  | nil => rfl
  | cons first rest ih =>
    obtain ⟨hfirst, hrest⟩ := List.forall_mem_cons.mp hsound
    have hle := hfirst.landed_le
    have hih := ih hrest
    simp only [List.map_cons, List.sum_cons]
    omega

theorem Accounted.balanced (hs : s.Accounted) : s.Balanced := by
  refine ⟨?_, hs.pending_le, hs.exact, hs.bounded, fun hepoch => ?_⟩
  · have hsplit := sum_filter_add Held.pending Held.abandoned s.owners
    rw [hs.pending, hsplit]
    rfl
  · have hold := hs.disk hepoch
    have howed := hs.landed_add_owed
    have hpending := hs.pending
    unfold onDisk
    omega

/-- A step of an owner is none of the admission. -/
theorem ownerStep_frame (s : QuotaSystem) (i : Nat) (h : Held) (event : QuotaEvent) :
    (s.ownerStep i h event).1.admitting = s.admitting ∧ ((s.ownerStep i h event).2 = .none ∨
      (s.ownerStep i h event).2 = .blocked ∨ (s.ownerStep i h event).2 = .inapplicable) := by
  unfold ownerStep dropOwner
  repeat' split
  all_goals exact ⟨rfl, by simp⟩

/-- The step of an admission that is not its end: nothing is answered. -/
theorem answers_of_quiet (hanswer : (s.step event).2 = .none ∨ (s.step event).2 = .blocked ∨
    (s.step event).2 = .inapplicable)
    (hproceed : ∀ spurious lengths, event = .proceed spurious lengths → s.charged = false →
      (s.step event).1.charged = false → (s.step event).1.guard = s.guard)
    (hcharges : s.charged = true → (s.step event).1.admitting.isSome = true →
      (s.step event).1.charged = true) :
    s.Answers event := by
  have hnone : ∀ answer, (s.step event).2 = answer →
      answer = .none ∨ answer = .blocked ∨ answer = .inapplicable :=
    fun answer h => h ▸ hanswer
  refine ⟨fun h _ => ?_, fun used ceiling h _ => ?_, fun used ceiling h _ => ?_, hproceed, hcharges⟩
  · simpa using hnone _ h
  · simpa using hnone _ h
  · simpa using hnone _ h

theorem answers_of_frame (hadmitting : (s.step event).1.admitting = s.admitting)
    (hanswer : (s.step event).2 = .none ∨ (s.step event).2 = .blocked ∨
      (s.step event).2 = .inapplicable)
    (hother : ∀ spurious lengths, event ≠ .proceed spurious lengths) : s.Answers event := by
  refine answers_of_quiet hanswer (fun spurious lengths h => absurd h (hother _ _))
    fun hcharged _ => ?_
  unfold charged at hcharged ⊢
  rwa [hadmitting]

theorem walking_eq (ha : s.admitting = some a) : s.walking = true ↔ a.phase = .walking := by
  unfold walking
  rw [ha]
  obtain ⟨kind, payloadBytes, phase⟩ := a
  cases phase <;> simp

theorem charged_eq (ha : s.admitting = some a) :
    s.charged = (a.phase.unpended || a.phase.inFlight) := by
  rw [charged, ha]

/-- Refused where nothing has been charged. -/
theorem answers_of_refuse (hstep : s.step event = s.refuse s.guard) (hwalking : s.walking = false)
    (hcharged : s.charged = false) : s.Answers event := by
  refine ⟨fun h => ?_, fun used ceiling _ _ => ?_, fun used ceiling _ h => ?_, fun _ _ _ _ _ => ?_,
    fun h => ?_⟩
  · rw [hstep] at h
    cases h
  · rw [hstep]
    exact ⟨rfl, hcharged⟩
  · rw [hwalking] at h
    cases h
  · rw [hstep]
    rfl
  · rw [hcharged] at h
    cases h

/-- The admission goes on, as charged as before or more. -/
theorem answers_of_goto (ha : s.admitting = some a) {g' : QuotaGuard}
    (hstep : s.step event = ({ s with guard := g', admitting := some { a with phase } }, .none))
    (hguard : (phase.unpended || phase.inFlight) = false → g' = s.guard)
    (hcharges : (a.phase.unpended || a.phase.inFlight) = true →
      (phase.unpended || phase.inFlight) = true) :
    s.Answers event := by
  refine answers_of_quiet (by rw [hstep]; exact .inl rfl) (fun _ _ _ _ hnext => ?_)
    fun hcharged _ => ?_
  · rw [hstep] at hnext ⊢
    exact hguard hnext
  · rw [charged_eq ha] at hcharged
    rw [hstep]
    exact hcharges hcharged

/-- **How a step of the admission in flight ends.** -/
theorem answers_proceed (hs : s.Accounted) (ha : s.admitting = some a) (spurious : Bool)
    (lengths : List Nat) : s.Answers (.proceed spurious lengths) := by
  have hstep : s.step (.proceed spurious lengths) = s.proceed a spurious lengths := by rw [step, ha]
  have hsound := hs.phase a ha
  have hwalking := walking_eq ha
  have hcharged := charged_eq ha
  have hinFlight := inFlight_eq ha
  obtain ⟨kind, payloadBytes, phase⟩ := a
  unfold proceed at hstep
  dsimp only at hsound hstep hwalking hcharged hinFlight
  have hrefuse : ∀ {phase : AdmitPhase}, (s.walking = true ↔ phase = .walking) → phase ≠ .walking →
      s.walking = false :=
    fun hiff hne => Bool.not_eq_true _ ▸ fun h => hne (hiff.mp h)
  cases phase with
  | entered =>
    dsimp only at hstep
    split at hstep
    · exact answers_of_refuse hstep (hrefuse hwalking (by simp)) hcharged
    · exact answers_of_goto ha hstep (fun _ => rfl)
        (by simp [AdmitPhase.unpended, AdmitPhase.inFlight])
  | admissible =>
    exact answers_of_goto ha hstep (fun _ => rfl)
      (by simp [AdmitPhase.unpended, AdmitPhase.inFlight])
  | loaded cur =>
    dsimp only at hstep
    split at hstep
    · exact answers_of_refuse hstep (hrefuse hwalking (by simp)) hcharged
    · exact answers_of_goto ha hstep (fun _ => rfl)
        (by simp [AdmitPhase.unpended, AdmitPhase.inFlight])
  | projected cur =>
    dsimp only at hstep
    split at hstep
    · exact answers_of_refuse hstep (hrefuse hwalking (by simp)) hcharged
    · split at hstep
      · exact answers_of_goto ha hstep (by simp [AdmitPhase.unpended])
          (by simp [AdmitPhase.unpended])
      split at hstep
      · exact answers_of_refuse hstep (hrefuse hwalking (by simp)) hcharged
      · exact answers_of_goto ha hstep (fun _ => rfl)
          (by simp [AdmitPhase.unpended, AdmitPhase.inFlight])
  | charged cur =>
    exact answers_of_goto ha hstep (by simp [AdmitPhase.inFlight]) (by simp [AdmitPhase.inFlight])
  | pended cur =>
    dsimp only at hstep
    split at hstep
    · exact answers_of_goto ha hstep (fun _ => rfl) (by simp [AdmitPhase.inFlight])
    · exact answers_of_goto ha hstep (fun _ => rfl) (by simp [AdmitPhase.inFlight])
  | walking =>
    dsimp only at hstep
    have hpending := hs.pending
    rw [publish_eq (hs.pending_le.trans hs.bounded) hs.exact] at hstep
    dsimp only at hstep
    split at hstep
    · -- the baseline is new, and the admission has taken back what it has charged
      refine ⟨fun h => ?_, fun used ceiling _ h => ?_, fun used ceiling hanswer _ => ?_,
        fun _ _ _ h => ?_, fun _ h => ?_⟩
      · rw [hstep] at h
        cases h
      · rw [hwalking.mpr rfl] at h
        cases h
      · rw [hstep] at hanswer ⊢
        cases hanswer
        have htaken : payloadBytes ≤ s.guard.pendingReserved := by
          rw [hpending, hinFlight]
          exact Nat.le_add_left _ _
        refine ⟨rfl, rfl, ?_⟩
        rw [hinFlight]
        exact Nat.sub_add_cancel htaken
      · rw [hcharged] at h
        cases h
      · rw [hstep] at h
        cases h
    · refine answers_of_quiet (by rw [hstep]; exact .inl rfl) (fun _ _ _ h => ?_) fun _ _ => ?_
      · rw [hcharged] at h
        cases h
      · rw [hstep]
        rfl
  | passed =>
    dsimp only at hstep
    rw [if_neg (by simp [hsound.1])] at hstep
    refine ⟨fun _ hlt => ?_, fun used ceiling h => ?_, fun used ceiling h => ?_, fun _ _ _ h => ?_,
      fun _ h => ?_⟩
    · rw [hstep]
      have hle := hsound.2
      show s.guard.lastMeasured + s.guard.reserved ≤ s.guard.ceiling
      unfold saturatingAdd at hle
      omega
    · rw [hstep] at h
      cases h
    · rw [hstep] at h
      cases h
    · rw [hcharged] at h
      cases h
    · rw [hstep] at h
      cases h

theorem Accounted.answers (hs : s.Accounted) (event : QuotaEvent) : s.Answers event := by
  have hquiet : ∀ i, event.owner = some i →
      (∀ spurious lengths, event ≠ .proceed spurious lengths) →
      s.Answers event := by
    intro i hi hother
    rcases step_owner s event hi with hstep | ⟨h, hliving, hstep⟩
    · exact answers_of_frame (by rw [hstep]) (by rw [hstep]; exact .inr (.inr rfl)) hother
    · obtain ⟨hadmitting, hanswer⟩ := ownerStep_frame s i h event
      exact answers_of_frame (by rw [hstep]; exact hadmitting) (by rw [hstep]; exact hanswer) hother
  cases event with
  | tryAdmit kind payloadBytes =>
    have hstep : s.step (.tryAdmit kind payloadBytes) = if s.admitting.isSome then (s, .blocked)
        else ({ s with admitting := some ⟨kind, payloadBytes, .entered⟩ }, .none) := rfl
    split at hstep
    · exact answers_of_frame (by rw [hstep]) (by rw [hstep]; exact .inr (.inl rfl)) (by simp)
    · rename_i hnone
      rw [Option.not_isSome_iff_eq_none] at hnone
      refine answers_of_quiet (by rw [hstep]; exact .inl rfl) (fun _ _ h => by cases h)
        fun hcharged _ => ?_
      rw [charged, hnone] at hcharged
      cases hcharged
  | proceed spurious lengths =>
    cases ha : s.admitting with
    | none =>
      have hstep : s.step (.proceed spurious lengths) = (s, .inapplicable) := by rw [step, ha]
      refine answers_of_quiet (by rw [hstep]; exact .inr (.inr rfl)) (fun _ _ _ _ _ => ?_)
        fun hcharged _ => ?_
      · rw [hstep]
      · rw [hstep]
        exact hcharged
    | some a => exact answers_proceed hs ha spurious lengths
  | reset =>
    have hstep : s.step .reset = if s.admitting.isSome then (s, .blocked)
        else ({ s with guard := s.guard.reset }, .none) :=
      rfl
    split at hstep
    · exact answers_of_frame (by rw [hstep]) (by rw [hstep]; exact .inr (.inl rfl)) (by simp)
    · exact answers_of_frame (by rw [hstep]) (by rw [hstep]; exact .inl rfl) (by simp)
  | «foreign» bytes => exact answers_of_frame rfl (.inl rfl) (by simp)
  | remove bytes => exact answers_of_frame rfl (.inl rfl) (by simp)
  | enqueue i => exact hquiet i rfl (by simp)
  | releaseUnqueued i => exact hquiet i rfl (by simp)
  | drop i => exact hquiet i rfl (by simp)
  | armFailClosed i => exact hquiet i rfl (by simp)
  | consume i bytes => exact hquiet i rfl (by simp)
  | splitComponent i maxBytes => exact hquiet i rfl (by simp)
  | reconcile i retained reclaimedDebt baselineReclaimed failureDebt => exact hquiet i rfl (by simp)
  | markBytesMayPersist i bytes => exact hquiet i rfl (by simp)
  | clearAfterConfirmedCleanup i => exact hquiet i rfl (by simp)
  | write i bytes => exact hquiet i rfl (by simp)

/-- **The quota is accounted for** in every run whose transactions report what they have done: the
counters are the sums of what is held, none has been short, and an admission is taken within the
ceiling or refused for nothing. -/
theorem quota_is_accounted (ceilingBytes stable : Nat) (events : List QuotaEvent)
    (hreported : ReportedRun ceilingBytes stable events) :
    (after ceilingBytes stable events).Balanced ∧ ∀ event,
      (after ceilingBytes stable events).Answers event := by
  have hs := accounted_after hreported
  exact ⟨hs.balanced, fun event => hs.answers event⟩

/-! ## Runs on fixed inputs -/

/-- The steps of an admission whose walk finds the files. -/
def sampleAdmission (kind : OwnerKind) (payloadBytes : Nat) (lengths : List Nat) :
    List QuotaEvent :=
  .tryAdmit kind payloadBytes :: List.replicate 7 (.proceed false lengths)

/-- A receipt transaction whose rotation has a part of its own, and both write. -/
def sampleReceipt : List QuotaEvent :=
  sampleAdmission .receipt 300 [2000] ++ [.proceed false [], .enqueue 0, .splitComponent 0 100,
    .markBytesMayPersist 1 60, .write 1 60, .armFailClosed 0, .write 0 150,
    .reconcile 0 150 0 0 false, .drop 0]

theorem quota_is_accounted_sample :
    (after 10000 2000 sampleReceipt).guard.reserved = 210 ∧
    (after 10000 2000 sampleReceipt).Balanced ∧
      ∀ event, (after 10000 2000 sampleReceipt).Answers event := by
  refine ⟨by decide, quota_is_accounted 10000 2000 sampleReceipt ?_⟩
  have hreported : QuotaEvent.Reported (after 10000 2000 (sampleReceipt.take 15))
      (.reconcile 0 150 0 0 false) := by
    have hliving : living (after 10000 2000 (sampleReceipt.take 15)) 0 =
        some ⟨.receipt ⟨200, 200, 1, 0, true⟩, true, 150, false⟩ := rfl
    rintro h hh r hr
    rw [hliving] at hh
    cases hh
    cases hr
    decide
  iterate 15 refine meets_cons (M := QuotaEvent.Reported) trivial ?_
  refine meets_cons (M := QuotaEvent.Reported) hreported ?_
  exact meets_cons (M := QuotaEvent.Reported) trivial meets_nil

/-- A fresh guard whose first walk finds the home over the ceiling: the admission is refused, and
the baseline is new. Before that walk the guard knew nothing of the home. -/
theorem refused_admission_rebases :
    (run step (fresh 1000 2000) (sampleAdmission .request 500 [2000])).2.getLast? =
      some (.refused 2000 1000) ∧
      (after 1000 2000 (sampleAdmission .request 500 [2000])).guard.lastMeasured ≠
        (fresh 1000 2000).guard.lastMeasured ∧
      ¬ (fresh 1000 2000).onDisk + (fresh 1000 2000).owed ≤
        (fresh 1000 2000).guard.lastMeasured + (fresh 1000 2000).guard.reserved := by
  decide

end QuotaSystem

end Neoth.Wal.Quota
