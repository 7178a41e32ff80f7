import Neoth.Lib.Machine

/-!
# The disk quota

`wal/writer.rs`: the guard that admits a payload before it is written, and the owners of what has
been admitted.

The steps of an admission are those between which others may act: it holds the lock of admissions
throughout, and the lock of the accounts while it walks the home.  Everything else that touches a
counter takes the lock of the accounts for one step.

* `QuotaGuard`: the counters, and what is done to them under the locks;
* `Owner`: a request, a receipt transaction, a part of one;
* `QuotaSystem.step`: an owner or the admission in flight takes a step, or the disk changes.
-/

open Lib.Machine

namespace Neoth.Wal.Quota

/-! ## Counters -/

def maxU64 : Nat := 2 ^ 64 - 1

def saturatingAdd (a b : Nat) : Nat := min (a + b) maxU64

def checkedAdd (a b : Nat) : Option Nat := if a + b ≤ maxU64 then some (a + b) else none

structure QuotaGuard where
  ceiling : Nat
  remeasureThreshold : Nat
  reserved : Nat
  pendingReserved : Nat
  measurementEpoch : Nat
  receiptDebtReserved : Nat
  needsMeasurement : Bool
  lastMeasured : Nat
  breached : Bool
  /-- Not in the source: every subtraction so far has found what it takes, and every addition
  room. -/
  exact : Bool

namespace QuotaGuard

def new (ceilingBytes : Nat) : QuotaGuard where
  ceiling := ceilingBytes
  remeasureThreshold := 1024 * 1024
  reserved := 0
  pendingReserved := 0
  measurementEpoch := 0
  receiptDebtReserved := 0
  needsMeasurement := true
  lastMeasured := 0
  breached := false
  exact := true

def releaseReservedLocked (g : QuotaGuard) (bytes : Nat) : QuotaGuard :=
  { g with reserved := g.reserved - bytes, exact := g.exact && decide (bytes ≤ g.reserved) }

def settlePendingAdmissionLocked (g : QuotaGuard) (bytes : Nat) : QuotaGuard :=
  { g with
    pendingReserved := g.pendingReserved - bytes,
    exact := g.exact && decide (bytes ≤ g.pendingReserved) }

def rearmIfMeasurementCrossedLocked (g : QuotaGuard) (admittedEpoch : Nat) : QuotaGuard :=
  if g.measurementEpoch ≠ admittedEpoch ∨ g.measurementEpoch = maxU64
    then { g with needsMeasurement := true } else g

def settlePendingAdmission (g : QuotaGuard) (bytes admittedEpoch : Nat) : QuotaGuard :=
  (g.settlePendingAdmissionLocked bytes).rearmIfMeasurementCrossedLocked admittedEpoch

def releaseUnqueuedAdmissionLocked (g : QuotaGuard) (bytes : Nat) : QuotaGuard :=
  (g.settlePendingAdmissionLocked bytes).releaseReservedLocked bytes

def settleComponentAdmission (g : QuotaGuard) (reservedBytes retainedBytes admittedEpoch : Nat) :
    QuotaGuard :=
  (g.settlePendingAdmission reservedBytes admittedEpoch).releaseReservedLocked
    (reservedBytes - retainedBytes)

def markReceiptDebtLocked (g : QuotaGuard) (bytes : Nat) : QuotaGuard :=
  if bytes = 0 then g
  else { g with
    receiptDebtReserved := saturatingAdd g.receiptDebtReserved bytes,
    exact := g.exact && decide (g.receiptDebtReserved + bytes ≤ maxU64) }

def invalidateMeasuredBaselineLocked (g : QuotaGuard) (reclaimedBytes : Nat) : QuotaGuard :=
  if reclaimedBytes ≠ 0 then { g with needsMeasurement := true } else g

def releaseReceiptDebtLocked (g : QuotaGuard) (bytes : Nat) : QuotaGuard :=
  if bytes = 0 then g
  else
    let releasable := min g.receiptDebtReserved bytes
    let stored := { g with receiptDebtReserved := g.receiptDebtReserved - releasable }
    let released := if releasable ≠ 0 then stored.releaseReservedLocked releasable else stored
    if releasable ≠ bytes then released.invalidateMeasuredBaselineLocked (bytes - releasable)
    else released

/-- What is stored, and returned. -/
def rebasedReserved (g : QuotaGuard) (postWalk pendingFloor : Nat) : Nat :=
  saturatingAdd (max g.pendingReserved pendingFloor) (g.reserved - postWalk)

/-- The end of a walk that has found `used` bytes, under both locks: the new baseline, and whether
it is over the ceiling; the admission that has walked is taken back then. -/
def publish (g : QuotaGuard) (used payloadBytes : Nat) : QuotaGuard × Bool :=
  let published := g.rebasedReserved g.reserved g.pendingReserved
  let exceeded := decide (saturatingAdd used published > g.ceiling)
  let rebased := { g with
    lastMeasured := used, reserved := published,
    measurementEpoch := saturatingAdd g.measurementEpoch 1,
    breached := exceeded, needsMeasurement := false, receiptDebtReserved := 0,
    exact := g.exact && decide (g.pendingReserved + (g.reserved - g.reserved) ≤ maxU64) }
  (if exceeded then rebased.releaseUnqueuedAdmissionLocked payloadBytes else rebased, exceeded)

/-- `breached` is set before `needs_measurement` and cleared behind it, under the lock of those who
read it. -/
def reset (g : QuotaGuard) : QuotaGuard := { g with needsMeasurement := true, breached := false }

end QuotaGuard

/-- The files that the walk reads, by their lengths. -/
def measureDir (lengths : List Nat) : Nat := lengths.foldl saturatingAdd 0

/-! ## Owners -/

structure QuotaPendingAdmission where
  bytes : Nat
  measurementEpoch : Nat

structure ContextEvidenceQuotaReservation where
  ownedBytes : Nat
  pendingBytes : Nat
  measurementEpoch : Nat
  releasableBytes : Nat
  failClosed : Bool

structure ContextEvidenceQuotaComponent where
  reservedBytes : Nat
  retainedBytes : Nat
  measurementEpoch : Nat

namespace ContextEvidenceQuotaReservation

def new (payloadBytes measurementEpoch : Nat) : ContextEvidenceQuotaReservation :=
  ⟨payloadBytes, payloadBytes, measurementEpoch, payloadBytes, false⟩

def armFailClosed (r : ContextEvidenceQuotaReservation) : ContextEvidenceQuotaReservation :=
  { r with failClosed := true, releasableBytes := 0 }

def consume (r : ContextEvidenceQuotaReservation) (bytes : Nat) : ContextEvidenceQuotaReservation :=
  { r with releasableBytes := r.releasableBytes - bytes }

def splitComponent (r : ContextEvidenceQuotaReservation) (maxBytes : Nat) :
    Option (ContextEvidenceQuotaReservation × ContextEvidenceQuotaComponent) :=
  if maxBytes > r.releasableBytes then none
  else some
    ({ r with
        releasableBytes := r.releasableBytes - maxBytes, ownedBytes := r.ownedBytes - maxBytes,
        pendingBytes := r.pendingBytes - maxBytes },
      ⟨maxBytes, 0, r.measurementEpoch⟩)

/-- The reservation is dropped behind it, and has nothing left to give back. -/
def reconcileAfterTerminalLocked (r : ContextEvidenceQuotaReservation) (g : QuotaGuard)
    (retainedBytes : Nat) : QuotaGuard :=
  ((g.settlePendingAdmissionLocked r.pendingBytes).rearmIfMeasurementCrossedLocked
    r.measurementEpoch).releaseReservedLocked (r.ownedBytes - retainedBytes)

def drop (r : ContextEvidenceQuotaReservation) (g : QuotaGuard) : QuotaGuard :=
  if r.failClosed then g
  else if r.pendingBytes ≠ 0 then
    ((g.settlePendingAdmissionLocked r.pendingBytes).rearmIfMeasurementCrossedLocked
      r.measurementEpoch).releaseReservedLocked r.releasableBytes
  else g

/-- Whether `drop` takes the lock of the accounts. -/
def dropLocks (r : ContextEvidenceQuotaReservation) : Bool := !r.failClosed && r.pendingBytes != 0

end ContextEvidenceQuotaReservation

namespace ContextEvidenceQuotaComponent

def markBytesMayPersist (c : ContextEvidenceQuotaComponent) (bytes : Nat) :
    ContextEvidenceQuotaComponent :=
  { c with retainedBytes := max c.retainedBytes (min bytes c.reservedBytes) }

def clearAfterConfirmedCleanup (c : ContextEvidenceQuotaComponent) :
    ContextEvidenceQuotaComponent :=
  { c with retainedBytes := 0 }

end ContextEvidenceQuotaComponent

inductive Owner
  | request (a : QuotaPendingAdmission)
  | receipt (r : ContextEvidenceQuotaReservation)
  | component (c : ContextEvidenceQuotaComponent)

/-- What the owner holds of `pending_reserved`. -/
def Owner.pending : Owner → Nat
  | .request a => a.bytes
  | .receipt r => r.pendingBytes
  | .component c => c.reservedBytes

/-- What of that it may have put on the disk: the rest is given back when it is dropped. -/
def Owner.mayPersist : Owner → Nat
  | .request a => a.bytes
  | .receipt r => r.pendingBytes - r.releasableBytes
  | .component c => c.retainedBytes

/-- An owner and what it has written.  One that was armed when it was dropped stays charged, and is
`abandoned`. -/
structure Held where
  owner : Owner
  queued : Bool
  landed : Nat
  abandoned : Bool

def Held.pending (h : Held) : Nat := h.owner.pending

/-! ## Admissions -/

inductive OwnerKind
  | request
  | receipt

/-- Where an admission stands; a number is the value of `cur_reserved`. -/
inductive AdmitPhase
  | entered
  | admissible
  | loaded (cur : Nat)
  | projected (cur : Nat)
  | charged (cur : Nat)
  | pended (cur : Nat)
  | walking
  | passed

structure Admitting where
  kind : OwnerKind
  payloadBytes : Nat
  phase : AdmitPhase

inductive QuotaAnswer
  | none
  | admitted
  | refused (used ceiling : Nat)
  /-- The lock is held by another. -/
  | blocked
  /-- There is no such owner, or it is at another point of its life. -/
  | inapplicable
  deriving DecidableEq

structure QuotaSystem where
  guard : QuotaGuard
  owners : List Held
  admitting : Option Admitting
  /-- What the home holds besides what the owners have written. -/
  stable : Nat
  /-- What has come to the home since the last walk without having been admitted, or has not been
  read by it. -/
  outside : Nat

inductive QuotaEvent
  | tryAdmit (kind : OwnerKind) (payloadBytes : Nat)
  /-- The next step of the admission in flight: its exchange fails without a reason, or its walk
  reads these files. -/
  | proceed (spurious : Bool) (lengths : List Nat)
  | reset
  | enqueue (i : Nat)
  | releaseUnqueued (i : Nat)
  | drop (i : Nat)
  | armFailClosed (i : Nat)
  | consume (i bytes : Nat)
  | splitComponent (i maxBytes : Nat)
  | reconcile (i retainedBytes reclaimedDebtBytes baselineReclaimedBytes : Nat)
    (retainedIsFailureDebt : Bool)
  | markBytesMayPersist (i bytes : Nat)
  | clearAfterConfirmedCleanup (i : Nat)
  | write (i bytes : Nat)
  | foreign (bytes : Nat)
  | remove (bytes : Nat)

namespace QuotaSystem

def fresh (ceilingBytes stable : Nat) : QuotaSystem := ⟨.new ceilingBytes, [], none, stable, 0⟩

def refuse (s : QuotaSystem) (g : QuotaGuard) : QuotaSystem × QuotaAnswer :=
  ({ s with guard := g, admitting := none }, .refused g.lastMeasured g.ceiling)

def newOwner (g : QuotaGuard) (a : Admitting) : Owner :=
  match a.kind with
  | .request => .request ⟨a.payloadBytes, g.measurementEpoch⟩
  | .receipt => .receipt (.new a.payloadBytes g.measurementEpoch)

/-- `try_admit_locked`, step by step, and the owner that is made behind it. -/
def proceed (s : QuotaSystem) (a : Admitting) (spurious : Bool) (lengths : List Nat) :
    QuotaSystem × QuotaAnswer :=
  let g := s.guard
  let goto := fun (g : QuotaGuard) phase =>
    ({ s with guard := g, admitting := some { a with phase } }, QuotaAnswer.none)
  match a.phase with
  | .entered => if g.breached && !g.needsMeasurement then s.refuse g else goto g .admissible
  | .admissible => goto g (.loaded g.reserved)
  | .loaded cur =>
    if saturatingAdd (saturatingAdd g.lastMeasured cur) a.payloadBytes > g.ceiling ∧
    g.needsMeasurement = false then
      s.refuse g
    else goto g (.projected cur)
  | .projected cur =>
    match checkedAdd cur a.payloadBytes with
    | none => s.refuse g
    | some sum =>
      if g.reserved = cur ∧ spurious = false then goto { g with reserved := sum } (.charged sum)
      else if g.breached then s.refuse g
      else goto g (.loaded g.reserved)
  | .charged cur =>
    goto { g with
      pendingReserved := saturatingAdd g.pendingReserved a.payloadBytes,
      exact := g.exact && decide (g.pendingReserved + a.payloadBytes ≤ maxU64) } (.pended cur)
  | .pended cur => if g.needsMeasurement || decide (cur ≥ g.remeasureThreshold) then goto g .walking
    else goto g .passed
  | .walking =>
    let used := measureDir lengths
    let published := g.publish used a.payloadBytes
    let s' := { s with outside := s.stable - used }
    if published.2 then s'.refuse published.1
    else ({ s' with guard := published.1, admitting := some { a with phase := .passed } }, .none)
  | .passed =>
    if g.breached then s.refuse (g.releaseUnqueuedAdmissionLocked a.payloadBytes)
    else ({ s with owners := s.owners ++ [⟨newOwner g a, false, 0, false⟩], admitting := none },
      .admitted)

/-- Whether the lock of the accounts is held through a walk. -/
def walking (s : QuotaSystem) : Bool :=
  match s.admitting with
  | some ⟨_, _, .walking⟩ => true
  | _ => false

/-- An owner is gone, and what it has written is like everything else in the home. -/
def discard (s : QuotaSystem) (i : Nat) (h : Held) (g : QuotaGuard) : QuotaSystem :=
  { s with guard := g, owners := s.owners.eraseIdx i, stable := s.stable + h.landed }

def setOwner (s : QuotaSystem) (i : Nat) (h : Held) : QuotaSystem :=
  { s with owners := s.owners.set i h }

def dropOwner (s : QuotaSystem) (i : Nat) (h : Held) : QuotaSystem × QuotaAnswer :=
  let g := s.guard
  match h.owner with
  | .request a =>
    if s.walking then (s, .blocked)
    else (s.discard i h (g.settlePendingAdmission a.bytes a.measurementEpoch), .none)
  | .receipt r =>
    if s.walking && r.dropLocks then (s, .blocked)
    else if r.failClosed then (s.setOwner i { h with abandoned := true }, .none)
    else (s.discard i h (r.drop g), .none)
  | .component c =>
    if s.walking then (s, .blocked)
    else
      (s.discard i h
        (g.settleComponentAdmission c.reservedBytes c.retainedBytes c.measurementEpoch), .none)

/-- `reconcile_quota_after_terminal`, and the drop behind it.  The transaction has removed what it
reports. -/
def reconcile (s : QuotaSystem) (i : Nat) (h : Held) (r : ContextEvidenceQuotaReservation)
    (retainedBytes reclaimedDebtBytes baselineReclaimedBytes : Nat) (retainedIsFailureDebt : Bool) :
      QuotaSystem :=
  let reclaimed :=
    (s.guard.releaseReceiptDebtLocked reclaimedDebtBytes).invalidateMeasuredBaselineLocked
    baselineReclaimedBytes
  let reconciled := r.reconcileAfterTerminalLocked reclaimed retainedBytes
  let marked := if retainedIsFailureDebt then reconciled.markReceiptDebtLocked retainedBytes
    else reconciled
  { s with stable := s.stable - (reclaimedDebtBytes + baselineReclaimedBytes) }.discard i h marked

/-- What an owner writes beyond what is charged to it comes from outside the admissions. -/
def write (s : QuotaSystem) (i : Nat) (h : Held) (bytes : Nat) : QuotaSystem :=
  let landed := min (h.landed + bytes) h.owner.mayPersist
  let excess := h.landed + bytes - landed
  { s.setOwner i { h with landed } with stable := s.stable + excess, outside := s.outside + excess }

/-- A step of a living owner. -/
def ownerStep (s : QuotaSystem) (i : Nat) (h : Held) (event : QuotaEvent) :
    QuotaSystem × QuotaAnswer :=
  match event, h.owner with
  | .enqueue _, .component _ => (s, .inapplicable)
  | .enqueue _, _ => (s.setOwner i { h with queued := true }, .none)
  | .releaseUnqueued _, .component _ => (s, .inapplicable)
  | .releaseUnqueued _, owner =>
    if h.queued then (s, .inapplicable)
    else if s.walking then (s, .blocked)
    else (s.discard i h (s.guard.releaseUnqueuedAdmissionLocked owner.pending), .none)
  | .drop _, _ => s.dropOwner i h
  | .armFailClosed _, .receipt r =>
    if h.queued then (s.setOwner i { h with owner := .receipt r.armFailClosed }, .none)
    else (s, .inapplicable)
  | .consume _ bytes, .receipt r =>
    if h.queued then (s.setOwner i { h with owner := .receipt (r.consume bytes) }, .none)
    else (s, .inapplicable)
  | .splitComponent _ maxBytes, .receipt r =>
    if h.queued then
      match r.splitComponent maxBytes with
      | none => (s, .none)
      | some (rest, part) =>
        ({ s with
          owners := s.owners.set i { h with owner := .receipt rest } ++
            [⟨.component part, true, 0, false⟩] },
          .none)
    else (s, .inapplicable)
  | .reconcile _ retained reclaimedDebt baselineReclaimed failureDebt, .receipt r =>
    if !h.queued then (s, .inapplicable)
    else if s.walking then (s, .blocked)
    else (s.reconcile i h r retained reclaimedDebt baselineReclaimed failureDebt, .none)
  | .markBytesMayPersist _ bytes, .component c =>
    (s.setOwner i { h with owner := .component (c.markBytesMayPersist bytes) }, .none)
  | .clearAfterConfirmedCleanup _, .component c =>
    (s.setOwner i { h with owner := .component c.clearAfterConfirmedCleanup, landed := 0 }, .none)
  | .write _ bytes, _ => if h.queued then (s.write i h bytes, .none) else (s, .inapplicable)
  | _, _ => (s, .inapplicable)

end QuotaSystem

def QuotaEvent.owner : QuotaEvent → Option Nat
  | .enqueue i | .releaseUnqueued i | .drop i | .armFailClosed i | .consume i _
    | .splitComponent i _
  | .reconcile i _ _ _ _ | .markBytesMayPersist i _ | .clearAfterConfirmedCleanup i
    | .write i _ => some i
  | .tryAdmit _ _ | .proceed _ _ | .reset | .foreign _ | .remove _ => none

namespace QuotaSystem

/-- The owner that an event is about, while it lives. -/
def living (s : QuotaSystem) (i : Nat) : Option Held := s.owners[i]?.filter fun h => !h.abandoned

def step (s : QuotaSystem) (event : QuotaEvent) : QuotaSystem × QuotaAnswer :=
  match event with
  | .tryAdmit kind payloadBytes =>
    if s.admitting.isSome then (s, .blocked)
    else ({ s with admitting := some ⟨kind, payloadBytes, .entered⟩ }, .none)
  | .proceed spurious lengths =>
    match s.admitting with
    | some a => s.proceed a spurious lengths
    | none => (s, .inapplicable)
  | .reset => if s.admitting.isSome then (s, .blocked)
    else ({ s with guard := s.guard.reset }, .none)
  | .foreign bytes => ({ s with stable := s.stable + bytes, outside := s.outside + bytes }, .none)
  | .remove bytes => ({ s with stable := s.stable - bytes }, .none)
  | event =>
    match event.owner.bind s.living, event.owner with
    | some h, some i => s.ownerStep i h event
    | _, _ => (s, .inapplicable)

def after (ceilingBytes stable : Nat) (events : List QuotaEvent) : QuotaSystem :=
  (run step (fresh ceilingBytes stable) events).1

end QuotaSystem

end Neoth.Wal.Quota
