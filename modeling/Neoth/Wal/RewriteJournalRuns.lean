import Neoth.Lib.Machine
import Neoth.Wal.RewriteJournal

/-!
# Rewrites that crash

The operations on the journal of a redaction rewrite, each with the attempts at the file system that
it makes, and the runs of them: in any order and with any arguments, segments being replaced in
between, and with a crash at any place.

* `Effect`, `effect_of_run`: what an operation may do to the file;
* `classify_prepared`, `classify_delivered`: the decisions;
* `journal_kept_until_settled`: the runs.
-/

open Lib.Effects Lib.Encoding Lib.Transaction

namespace Neoth.Wal.RewriteJournal

variable [Crates] [Sha256]

/-! ## Attempts -/

open Crates (SigningKey)

/-- What an attempt at the file system comes to; one that fails may have had its effect. -/
inductive Attempt
  | done
  | failed (effective : Bool)

/-- What an operation meets with: the file, what its attempts come to, and the keys that it loads,
one of which may fail to load.  A crash in the middle of an operation is an attempt that fails, as
nothing comes after one. -/
structure Session where
  journal : Option (List UInt8)
  attempts : List Attempt
  keys : List (Option SigningKey)

abbrev Task (A : Type) : Type := Prog Session String A

def nextAttempt : Task Attempt := fun s =>
  match s.attempts with
  | [] => (.ok .done, s)
  | attempt :: attempts => (.ok attempt, { s with attempts })

def signingKey : Task SigningKey := fun s =>
  match s.keys with
  | some key :: keys => (.ok key, { s with keys })
  | none :: keys => (.error "load existing redaction rewrite signing anchor", { s with keys })
  | [] => (.error "load existing redaction rewrite signing anchor", s)

def lift {A : Type} : Except String A → Task A
  | .ok a => pure a
  | .error e => Prog.throw e

/-- The file is there with these bytes, or is not there any more. -/
def commit (journal : Option (List UInt8)) (message : String) : Task Unit := do
  match ← nextAttempt with
  | .done => Prog.modify fun s => { s with journal }
  | .failed effective => do
    Prog.when (Prog.modify fun s => { s with journal }) effective
    Prog.throw message

def tryIo (message : String) : Task Unit := do
  match ← nextAttempt with
  | .done => pure ()
  | .failed _ => Prog.throw message

/-- `read_regular_file_bounded`. -/
def readJournal : Task (Option (List UInt8)) := do
  tryIo "read redaction rewrite journal"
  let s ← Prog.get
  match s.journal with
  | none => pure none
  | some bytes => do
    Prog.check (decide (bytes.length ≤ maxJournalBytes)) "read redaction rewrite journal"
    pure (some bytes)

/-- `atomic_write_private_child_create_new`. -/
def createNew (body : List UInt8) : Task Unit := do
  let s ← Prog.get
  Prog.check s.journal.isNone "durably create redaction rewrite journal"
  commit (some body) "durably create redaction rewrite journal"

/-- The file is removed, and its directory is made durable. -/
def removeJournal (message durably : String) : Task Unit := do
  commit none message
  tryIo durably

/-! ## Operations -/

structure PendingRewriteJournal where
  targetBasename : String
  descriptor : Descriptor
  deliveredReceiptProofSha256 : Option Hash

inductive RecoveryDecision
  | oldUnchanged
  | newPublished (descriptor : Descriptor)
  | delivered (descriptor : Descriptor) (receiptProofSha256 : Hash)
  | conflict
  deriving DecidableEq

/-- `home` is the binding of the authority. -/
def loadPending (home : Hash) : Task (Option PendingRewriteJournal) := do
  match ← readJournal with
  | none => pure none
  | some bytes => do
    let journal ← lift (context (Crates.fromSlice bytes) "parse redaction rewrite journal")
    let key ← signingKey
    let d ← lift (journal.validate key)
    lift (validateHomeBinding d home)
    let delivered ← lift journal.deliveredReceiptProof
    pure (some ⟨journal.targetBasename, d, delivered⟩)

def prepare (home : Hash) (targetBasename : String) (expected : Descriptor)
    (derivedTargetIdentitySha256 : Hash) (current : TargetImage) : Task Unit := do
  lift (validateTargetBasename targetBasename)
  lift (validateTargetIdentity expected derivedTargetIdentitySha256)
  lift (validateHomeBinding expected home)
  Prog.check (current == expected.oldImage)
    "redaction rewrite prepare target is not the descriptor old image"
  match ← loadPending home with
  | some pending => do
    Prog.check (pending.targetBasename == targetBasename && pending.descriptor == expected)
      "different pending redaction rewrite journal already owns this home"
    Prog.check pending.deliveredReceiptProofSha256.isNone
      "pending redaction rewrite is already delivered"
  | none => do
    let key ← signingKey
    let body := Crates.toVec (preparedJournal key targetBasename expected)
    Prog.check (decide (body.length ≤ maxJournalBytes))
      "redaction rewrite journal exceeds bounded size"
    createNew body

def classifyPending (pending : PendingRewriteJournal) (current : TargetImage) : RecoveryDecision :=
  match pending.deliveredReceiptProofSha256 with
  | some proof => if current = pending.descriptor.newImage then .delivered pending.descriptor proof
    else .conflict
  | none =>
    if current = pending.descriptor.oldImage then .oldUnchanged
    else if current = pending.descriptor.newImage then .newPublished pending.descriptor
    else .conflict

def recover (home : Hash) (current : TargetImage) : Task (Option RecoveryDecision) := do
  let pending ← loadPending home
  pure (pending.map fun pending => classifyPending pending current)

def markDelivered (home : Hash) (expected : Descriptor) (receiptProofSha256 : Hash) :
    Task Unit := do
  match ← loadPending home with
  | none => Prog.throw "redaction rewrite delivery has no prepared journal"
  | some pending => do
    Prog.check (pending.descriptor == expected && pending.deliveredReceiptProofSha256.isNone)
      "redaction rewrite delivery differs from saved prepared binding"
    match ← readJournal with
    | none => Prog.throw "read redaction rewrite journal"
    | some bytes => do
      let journal ← lift
          (context (Crates.fromSlice bytes) "parse prepared redaction rewrite journal")
      let key ← signingKey
      let rebound ← lift (journal.validate key)
      lift (validateHomeBinding rebound home)
      Prog.check (rebound == expected) "redaction rewrite journal changed before delivery commit"
      Prog.check (journal.phase == .prepared) "redaction rewrite journal is already delivered"
      let body := Crates.toVec (journal.markedDelivered key receiptProofSha256)
      Prog.check (decide (body.length ≤ maxJournalBytes))
        "delivered redaction rewrite journal exceeds bounded size"
      commit (some body) "durably record redaction rewrite delivery"

def finalizeDelivered (home : Hash) (expected : Descriptor) (derivedTargetIdentitySha256 : Hash)
    (current : TargetImage) (exactReceiptProofSha256 : Hash) : Task Unit := do
  lift (validateHomeBinding expected home)
  lift (validateTargetIdentity expected derivedTargetIdentitySha256)
  Prog.check (current == expected.newImage)
    "redaction rewrite delivered target is not the descriptor new image"
  match ← loadPending home with
  | none => Prog.throw "redaction rewrite finalization has no delivered journal"
  | some pending => do
    Prog.check (pending.descriptor == expected)
      "redaction rewrite finalization differs from saved binding"
    Prog.check (pending.deliveredReceiptProofSha256 == some exactReceiptProofSha256)
      "redaction rewrite finalization receipt proof differs from saved delivery"
    let decision ← recover home current
    Prog.check (decision == some (.delivered expected exactReceiptProofSha256))
      "redaction rewrite delivered journal is not safely finalizable"
    removeJournal "remove delivered redaction rewrite journal"
      "durably finalize delivered redaction rewrite journal"

def abandonOldUnchanged (home : Hash) (current : TargetImage) : Task Unit := do
  match ← recover home current with
  | none => pure ()
  | some decision => do
    Prog.check (decision == .oldUnchanged)
      "redaction rewrite journal may describe a published or delivered effect"
    removeJournal "remove unchanged redaction rewrite journal"
      "durably abandon unchanged redaction rewrite journal"

inductive Operation
  | prepare (targetBasename : String) (expected : Descriptor) (derivedTargetIdentitySha256 : Hash)
    (current : TargetImage)
  | recover (current : TargetImage)
  | markDelivered (expected : Descriptor) (receiptProofSha256 : Hash)
  | finalizeDelivered (expected : Descriptor) (derivedTargetIdentitySha256 : Hash)
    (current : TargetImage) (exactReceiptProofSha256 : Hash)
  | abandonOldUnchanged (current : TargetImage)

/-- What the operation answers, but for the decision of a recovery nothing. -/
def Operation.run (home : Hash) : Operation → Task (Option RecoveryDecision)
  | .prepare name expected identity current => do
    RewriteJournal.prepare home name expected identity current
    pure none
  | .recover current => RewriteJournal.recover home current
  | .markDelivered expected proof => do
    RewriteJournal.markDelivered home expected proof
    pure none
  | .finalizeDelivered expected identity current proof => do
    RewriteJournal.finalizeDelivered home expected identity current proof
    pure none
  | .abandonOldUnchanged current => do
    RewriteJournal.abandonOldUnchanged home current
    pure none

/-! ## What is pending -/

/-- The file is one that `load_pending` takes, under some key. -/
structure Pending (home : Hash) (bytes : List UInt8) (p : PendingRewriteJournal) : Prop where
  short : bytes.length ≤ maxJournalBytes
  parsed : ∃ journal key, Crates.fromSlice bytes = some journal ∧
    journal.validate key = .ok p.descriptor ∧
    journal.targetBasename = p.targetBasename ∧
    journal.deliveredReceiptProof = .ok p.deliveredReceiptProofSha256
  bound : p.descriptor.val.homeBindingSha256 = home

variable {home : Hash} {bytes : List UInt8} {p q : PendingRewriteJournal} {j : Journal}
  {key : SigningKey} {d : Descriptor}

/-- A journal is one rewrite, whichever key it is validated with. -/
theorem Pending.unique (hp : Pending home bytes p) (hq : Pending home bytes q) : p = q := by
  obtain ⟨-, ⟨j, key, hj, hd, hname, hproof⟩, -⟩ := hp
  obtain ⟨-, ⟨j', key', hj', hd', hname', hproof'⟩, -⟩ := hq
  cases hj.symm.trans hj'
  have hdescriptor :=
    (validate_eq_ok_iff.mp hd).descriptor.symm.trans (validate_eq_ok_iff.mp hd').descriptor
  cases p
  cases q
  simp_all

theorem pending_prepared (key : SigningKey) {name : String}
    (hname : validateTargetBasename name = .ok ()) (hhome : d.val.homeBindingSha256 = home)
    (hshort : (Crates.toVec (preparedJournal key name d)).length ≤ maxJournalBytes) :
    Pending home (Crates.toVec (preparedJournal key name d)) ⟨name, d, none⟩ :=
  ⟨hshort, ⟨_, key, Crates.fromSlice_toVec _, validate_prepared hname, rfl, rfl⟩, hhome⟩

theorem pending_delivered {proof : Hash} (hvalid : j.validate key = .ok d)
    (hhome : d.val.homeBindingSha256 = home)
    (hshort : (Crates.toVec (j.markedDelivered key proof)).length ≤ maxJournalBytes) :
    Pending home (Crates.toVec (j.markedDelivered key proof)) ⟨j.targetBasename, d,
      some proof⟩ := by
  refine ⟨hshort, ⟨_, key, Crates.fromSlice_toVec _, validate_delivered hvalid proof, rfl, ?_⟩,
    hhome⟩
  show (parseHex32 (hexEncode proof.val) _ >>= _) = _
  rw [parseHex32_hexEncode]
  rfl

/-! ## What an operation does to the file -/

/-- All that an operation may make of the file. -/
inductive Effect (home : Hash) : Operation → Option (List UInt8) → Option (List UInt8) → Prop
  | kept (op : Operation) (file : Option (List UInt8)) : Effect home op file file
  | prepared {name : String} {d : Descriptor} {identity : Hash} {current : TargetImage}
    {file : List UInt8}
      (pending : Pending home file ⟨name, d, none⟩) (image : current = d.oldImage)
      (target : d.val.targetIdentitySha256 = identity) :
      Effect home (.prepare name d identity current) none (some file)
  | delivered {name : String} {d : Descriptor} {proof : Hash} {file file' : List UInt8}
      (before : Pending home file ⟨name, d, none⟩)
      (after : Pending home file' ⟨name, d, some proof⟩) :
      Effect home (.markDelivered d proof) (some file) (some file')
  | finalized {name : String} {d : Descriptor} {identity proof : Hash} {current : TargetImage}
    {file : List UInt8}
      (pending : Pending home file ⟨name, d, some proof⟩) (image : current = d.newImage)
      (target : d.val.targetIdentitySha256 = identity) :
      Effect home (.finalizeDelivered d identity current proof) (some file) none
  | abandoned {name : String} {d : Descriptor} {current : TargetImage} {file : List UInt8}
      (pending : Pending home file ⟨name, d, none⟩) (image : current = d.oldImage) :
      Effect home (.abandonOldUnchanged current) (some file) none

/-- The file is still there as it was. -/
def Holds (file : Option (List UInt8)) (s : Session) : Prop := s.journal = file

def Loaded (home : Hash) (file : Option (List UInt8)) : Option PendingRewriteJournal → Prop
  | none => file = none
  | some p => ∃ bytes, file = some bytes ∧ Pending home bytes p

variable {file : Option (List UInt8)} {A : Type}

omit [Sha256] in
theorem meets_nextAttempt :
    Meets (Holds file) nextAttempt (fun _ => Holds file) (fun _ => Holds file) := by
  intro s h
  unfold nextAttempt
  split <;> exact h

omit [Sha256] in
theorem meets_signingKey :
    Meets (Holds file) signingKey (fun _ => Holds file) (fun _ => Holds file) := by
  intro s h
  unfold signingKey
  split <;> exact h

omit [Sha256] in
theorem meets_tryIo (message : String) :
    Meets (Holds file) (tryIo message) (fun _ => Holds file) (fun _ => Holds file) := by
  refine Meets.bind meets_nextAttempt fun attempt => ?_
  cases attempt with
  | done => exact Meets.pure fun s h => h
  | failed effective => exact Meets.throw fun s h => h

omit [Sha256] in
theorem meets_lift {P : Session → Prop} (x : Except String A) :
    Meets P (lift x) (fun a s => x = .ok a ∧ P s) (fun _ => P) := by
  cases x with
  | error e => exact Meets.throw fun s h => h
  | ok a => exact Meets.pure fun s h => ⟨rfl, h⟩

omit [Sha256] in
theorem meets_check {P : Session → Prop} (condition : Bool) (message : String) :
    Meets P (Prog.check condition message) (fun _ s => condition = true ∧ P s) (fun _ => P) :=
  Meets.check (fun hc _ h => ⟨hc, h⟩) fun _ _ h => h

/-- One of the two is what the file has come to. -/
def Either (file next : Option (List UInt8)) (s : Session) : Prop := Holds file s ∨ Holds next s

omit [Sha256] in
theorem meets_commit (next : Option (List UInt8)) (message : String) :
    Meets (Holds file) (commit next message) (fun _ => Holds next) (fun _ => Either file next) := by
  refine Meets.bind (meets_nextAttempt.fails fun _ _ h => .inl h) fun attempt => ?_
  cases attempt with
  | done => exact Meets.modify fun _ _ => rfl
  | failed effective =>
    refine Meets.bind (Q := fun _ => Either file next)
      (Meets.when (fun _ => ?_) fun _ _ h => .inl h) fun _ =>
      Meets.throw fun _ h => h
    exact Meets.modify fun _ _ => .inr rfl

omit [Sha256] in
theorem meets_readJournal : Meets (Holds file) readJournal
    (fun result s => (result = file ∧ ∀ bytes ∈ file, bytes.length ≤ maxJournalBytes) ∧
      Holds file s)
    (fun _ => Holds file) := by
  refine Meets.bind (meets_tryIo _) fun _ => ?_
  refine Meets.bind Meets.get fun s => Meets.forall_eq ?_
  rintro _ ⟨rfl, hfile⟩
  cases hjournal : s.journal with
  | none =>
    have hnone : file = none := hfile.symm.trans hjournal
    exact Meets.pure (by rintro _ rfl; exact ⟨⟨hnone.symm, by simp [hnone]⟩, hfile⟩)
  | some bytes =>
    have hsome : file = some bytes := hfile.symm.trans hjournal
    refine Meets.bind (meets_check _ _ |>.fails fun _ _ h => h ▸ hfile) fun _ => Meets.pure ?_
    rintro _ ⟨hle, rfl⟩
    exact ⟨⟨hsome.symm, by simpa [hsome] using hle⟩, hfile⟩

theorem meets_loadPending (home : Hash) : Meets (Holds file) (loadPending home)
    (fun pending s => Loaded home file pending ∧ Holds file s) (fun _ => Holds file) := by
  refine Meets.bind meets_readJournal fun result => Meets.given fun hresult => ?_
  obtain ⟨rfl, hshort⟩ := hresult
  cases result with
  | none => exact Meets.pure fun s h => ⟨rfl, h⟩
  | some bytes =>
    refine Meets.bind (meets_lift _) fun journal => Meets.given fun hparsed => ?_
    refine Meets.bind meets_signingKey fun key => ?_
    refine Meets.bind (meets_lift _) fun d => Meets.given fun hvalid => ?_
    refine Meets.bind (meets_lift _) fun _ => Meets.given fun hhome => ?_
    refine Meets.bind (meets_lift _) fun proof => Meets.given fun hproof =>
      Meets.pure fun s h => ⟨?_, h⟩
    exact ⟨bytes, rfl, hshort bytes rfl,
      ⟨journal, key, context_eq_ok_iff.mp hparsed, hvalid, rfl, hproof⟩,
      validateHomeBinding_eq_ok_iff.mp hhome⟩

theorem meets_recover (home : Hash) (current : TargetImage) :
    Meets (Holds file) (recover home current)
    (fun decision s => (∃ pending, Loaded home file pending ∧
      decision = pending.map fun pending => classifyPending pending current) ∧
      Holds file s) (fun _ => Holds file) :=
  Meets.bind (meets_loadPending home) fun pending => Meets.given fun hloaded =>
    Meets.pure fun _ h => ⟨⟨pending, hloaded, rfl⟩, h⟩

/-- The operation leaves the file in a way that it may. -/
def Leaves (home : Hash) (op : Operation) (file : Option (List UInt8)) (s : Session) : Prop :=
  Effect home op file s.journal

variable {op : Operation}

theorem leaves_of_holds (s : Session) (h : Holds file s) : Leaves home op file s := by
  unfold Leaves
  rw [show s.journal = file from h]
  exact .kept op file

theorem leaves_of_either {next : Option (List UInt8)} (heffect : Effect home op file next)
    (s : Session) (h : Either file next s) : Leaves home op file s := by
  rcases h with h | h
  · exact leaves_of_holds s h
  · unfold Leaves
    rw [show s.journal = next from h]
    exact heffect

/-- Up to its commitment an operation only looks at the file. -/
theorem looking {x : Task A} {Q : A → Session → Prop}
    (h : Meets (Holds file) x Q (fun _ => Holds file)) :
    Meets (Holds file) x Q (fun _ => Leaves home op file) := h.fails fun _ s hs =>
      leaves_of_holds s hs

theorem committing {next : Option (List UInt8)} (heffect : Effect home op file next)
    (message : String) :
    Meets (Holds file) (commit next message) (fun _ => Leaves home op file)
      (fun _ => Leaves home op file) :=
  (meets_commit next message).mono (fun _ h => h) (fun _ s h => leaves_of_either heffect s (.inr h))
    fun _ s h => leaves_of_either heffect s h

theorem removing (heffect : Effect home op file none) (message durably : String) :
    Meets (Holds file) (removeJournal message durably) (fun _ => Leaves home op file)
      (fun _ => Leaves home op file) := by
  refine Meets.bind (Q := fun _ => Holds none) ?_ fun _ => ?_
  · exact (meets_commit none message).fails fun _ s h => leaves_of_either heffect s h
  · refine (meets_tryIo durably).mono (fun _ h => h) ?_ ?_
    · exact fun _ s h => leaves_of_either heffect s (.inr h)
    · exact fun _ s h => leaves_of_either heffect s (.inr h)

theorem meets_prepare {name : String} {identity : Hash} {current : TargetImage} :
    Meets (Holds file) (prepare home name d identity current)
      (fun _ => Leaves home (.prepare name d identity current) file)
      (fun _ => Leaves home (.prepare name d identity current) file) := by
  refine Meets.bind (looking (meets_lift _)) fun _ => Meets.given fun hname => ?_
  refine Meets.bind (looking (meets_lift _)) fun _ => Meets.given fun htarget => ?_
  refine Meets.bind (looking (meets_lift _)) fun _ => Meets.given fun hhome => ?_
  refine Meets.bind (looking (meets_check _ _)) fun _ => Meets.given fun himage => ?_
  refine Meets.bind (looking (meets_loadPending home)) fun pending => Meets.given fun hloaded => ?_
  cases pending with
  | some pending =>
    refine Meets.bind (looking (meets_check _ _)) fun _ => Meets.given fun _ => ?_
    exact (looking (meets_check _ _)).mono (fun _ h => h) (fun _ s h => leaves_of_holds s h.2)
      fun _ _ h => h
  | none =>
    obtain rfl : file = none := hloaded
    refine Meets.bind (looking meets_signingKey) fun key => ?_
    refine Meets.bind (looking (meets_check _ _)) fun _ => Meets.given fun hshort => ?_
    refine Meets.bind (looking (Meets.get.mono (fun _ h => h) (fun _ s h => h.2) fun _ _ h => h))
      fun s => ?_
    refine Meets.bind (looking (meets_check _ _)) fun _ => Meets.given fun _ => ?_
    refine committing
      (.prepared (pending_prepared key hname (validateHomeBinding_eq_ok_iff.mp hhome) ?_)
      (beq_iff_eq.mp himage) (validateTargetIdentity_eq_ok_iff.mp htarget)) _
    exact of_decide_eq_true hshort

theorem meets_markDelivered {proof : Hash} :
    Meets (Holds file) (markDelivered home d proof)
      (fun _ => Leaves home (.markDelivered d proof) file)
      (fun _ => Leaves home (.markDelivered d proof) file) := by
  refine Meets.bind (looking (meets_loadPending home)) fun pending => Meets.given fun hloaded => ?_
  cases pending with
  | none => exact Meets.throw fun s h => leaves_of_holds s h
  | some pending =>
    obtain ⟨bytes, rfl, hpending⟩ := hloaded
    refine Meets.bind (looking (meets_check _ _)) fun _ => Meets.given fun hsaved => ?_
    rw [Bool.and_eq_true, beq_iff_eq, Option.isNone_iff_eq_none] at hsaved
    refine Meets.bind (looking meets_readJournal) fun result => Meets.given fun hresult => ?_
    obtain ⟨rfl, -⟩ := hresult
    refine Meets.bind (looking (meets_lift _)) fun journal => Meets.given fun hparsed => ?_
    refine Meets.bind (looking meets_signingKey) fun key => ?_
    refine Meets.bind (looking (meets_lift _)) fun rebound => Meets.given fun hvalid => ?_
    refine Meets.bind (looking (meets_lift _)) fun _ => Meets.given fun hhome => ?_
    refine Meets.bind (looking (meets_check _ _)) fun _ => Meets.given fun hrebound => ?_
    refine Meets.bind (looking (meets_check _ _)) fun _ => Meets.given fun _ => ?_
    refine Meets.bind (looking (meets_check _ _)) fun _ => Meets.given fun hshort => ?_
    obtain rfl := beq_iff_eq.mp hrebound
    have hjournal := context_eq_ok_iff.mp hparsed
    obtain ⟨hlength, ⟨j, key', hj, hd, hname, hproof⟩, hbound⟩ := hpending
    cases hj.symm.trans hjournal
    have hrebound := validateHomeBinding_eq_ok_iff.mp hhome
    have hbefore : Pending home bytes ⟨journal.targetBasename, rebound, none⟩ :=
      ⟨hlength, ⟨journal, key, hjournal, hvalid, rfl, by rw [hproof, hsaved.2]⟩, hrebound⟩
    exact committing
      (.delivered hbefore (pending_delivered hvalid hrebound (of_decide_eq_true hshort))) _

theorem meets_finalizeDelivered {identity proof : Hash} {current : TargetImage} :
    Meets (Holds file) (finalizeDelivered home d identity current proof)
      (fun _ => Leaves home (.finalizeDelivered d identity current proof) file)
      (fun _ => Leaves home (.finalizeDelivered d identity current proof) file) := by
  refine Meets.bind (looking (meets_lift _)) fun _ => Meets.given fun _ => ?_
  refine Meets.bind (looking (meets_lift _)) fun _ => Meets.given fun htarget => ?_
  refine Meets.bind (looking (meets_check _ _)) fun _ => Meets.given fun himage => ?_
  refine Meets.bind (looking (meets_loadPending home)) fun pending => Meets.given fun hloaded => ?_
  cases pending with
  | none => exact Meets.throw fun s h => leaves_of_holds s h
  | some pending =>
    obtain ⟨bytes, rfl, hpending⟩ := hloaded
    refine Meets.bind (looking (meets_check _ _)) fun _ => Meets.given fun hdescriptor => ?_
    refine Meets.bind (looking (meets_check _ _)) fun _ => Meets.given fun hproof => ?_
    refine Meets.bind (looking (meets_recover home current)) fun decision => Meets.given fun _ => ?_
    refine Meets.bind (looking (meets_check _ _)) fun _ => Meets.given fun _ => ?_
    obtain ⟨name, saved, delivered⟩ := pending
    obtain rfl : saved = d := beq_iff_eq.mp hdescriptor
    obtain rfl : delivered = some proof := beq_iff_eq.mp hproof
    exact removing
      (.finalized hpending (beq_iff_eq.mp himage) (validateTargetIdentity_eq_ok_iff.mp htarget)) _ _

/-! ## Decisions -/

omit [Crates] [Sha256] in
/-- For an intent each of the two images is recognised, and only one of them. -/
theorem classify_prepared (hprepared : p.deliveredReceiptProofSha256 = none)
    (current : TargetImage) :
    (classifyPending p current = .oldUnchanged ↔ current = p.descriptor.oldImage) ∧
      (classifyPending p current = .newPublished p.descriptor ↔
        current = p.descriptor.newImage) := by
  have hne : p.descriptor.oldImage ≠ p.descriptor.newImage := fun h =>
    p.descriptor.old_ne_new (congrArg TargetImage.sha256 h)
  unfold classifyPending
  rw [hprepared]
  dsimp only
  split_ifs with hold hnew
  · subst hold
    simp [hne]
  · subst hnew
    simp [hold]
  · simp [hold, hnew]

omit [Crates] [Sha256] in
/-- Once the receipt is delivered every image but the new one is a conflict. -/
theorem classify_delivered {proof : Hash} (hdelivered : p.deliveredReceiptProofSha256 = some proof)
    (current : TargetImage) : classifyPending p current =
      if current = p.descriptor.newImage then .delivered p.descriptor proof else .conflict := by
  unfold classifyPending
  rw [hdelivered]

theorem meets_abandonOldUnchanged {current : TargetImage} :
    Meets (Holds file) (abandonOldUnchanged home current)
      (fun _ => Leaves home (.abandonOldUnchanged current) file)
      (fun _ => Leaves home (.abandonOldUnchanged current) file) := by
  refine Meets.bind (looking (meets_recover home current)) fun decision =>
    Meets.given fun hdecision => ?_
  obtain ⟨pending, hloaded, rfl⟩ := hdecision
  cases pending with
  | none => exact Meets.pure fun s h => leaves_of_holds s h
  | some pending =>
    obtain ⟨bytes, rfl, hpending⟩ := hloaded
    refine Meets.bind (looking (meets_check _ _)) fun _ => Meets.given fun hunchanged => ?_
    have hclass : classifyPending pending current = .oldUnchanged := beq_iff_eq.mp hunchanged
    obtain ⟨name, d, delivered⟩ := pending
    cases delivered with
    | none => exact removing (.abandoned hpending ((classify_prepared rfl current).1.mp hclass)) _ _
    | some proof =>
      rw [classify_delivered rfl] at hclass
      split at hclass <;> cases hclass

/-- **What an operation does to the file**, whatever its attempts come to. -/
theorem effect_of_run (home : Hash) (op : Operation) (s : Session) :
    Effect home op s.journal ((op.run home) s).2.journal := by
  have hrun : Meets (Holds s.journal) (op.run home) (fun _ => Leaves home op s.journal)
      (fun _ => Leaves home op s.journal) := by
    cases op with
    | prepare name expected identity current =>
      exact Meets.bind meets_prepare fun _ => Meets.pure fun s h => h
    | recover current =>
      exact (looking (meets_recover home current)).mono (fun _ h => h)
        (fun _ s h => leaves_of_holds s h.2) fun _ _ h => h
    | markDelivered expected proof =>
      exact Meets.bind meets_markDelivered fun _ => Meets.pure fun s h => h
    | finalizeDelivered expected identity current proof =>
      exact Meets.bind meets_finalizeDelivered fun _ => Meets.pure fun s h => h
    | abandonOldUnchanged current =>
      exact Meets.bind meets_abandonOldUnchanged fun _ => Meets.pure fun s h => h
  have hafter := hrun s rfl
  revert hafter
  rcases (op.run home) s with ⟨e | a, s'⟩ <;> exact fun h => h

/-! ## Runs -/

/-- What is on the disk of a home. -/
structure Home where
  journal : Option (List UInt8)
  segments : String → Option (List UInt8)

/-- The operations read the journal anew, so that a crash between them leaves all as it is. -/
inductive Input
  | call (op : Operation) (attempts : List Attempt) (keys : List (Option SigningKey))
  | replace (basename : String) (bytes : List UInt8)
  | crash

def step (home : Hash) (h : Home) : Input → Home × Except String (Option RecoveryDecision)
  | .call op attempts keys =>
    let outcome := op.run home ⟨h.journal, attempts, keys⟩
    ({ h with journal := outcome.2.journal }, outcome.1)
  | .replace basename bytes =>
    ({ h with segments := Function.update h.segments basename (some bytes) }, .ok none)
  | .crash => (h, .ok none)

def after (home : Hash) (start : Home) (inputs : List Input) : Home :=
  (Lib.Machine.run (step home) start inputs).1

def imageOf (bytes : List UInt8) : TargetImage := ⟨Sha256.digest bytes, UInt64.ofNat bytes.length⟩

/-- The image that the operation is given is that of the segment which the journal names. -/
def Measured (h : Home) (p : PendingRewriteJournal) : Operation → Prop
  | .finalizeDelivered _ _ current _ | .abandonOldUnchanged current =>
    ∃ bytes, h.segments p.targetBasename = some bytes ∧ current = imageOf bytes
  | _ => True

/-- The operation may remove the journal: an intent is abandoned on the old image, or a delivery is
finalized on the new one, with the receipt that is proven. -/
def Settles (p : PendingRewriteJournal) (op : Operation) : Prop :=
  (p.deliveredReceiptProofSha256 = none ∧ op = .abandonOldUnchanged p.descriptor.oldImage) ∨
    ∃ proof, p.deliveredReceiptProofSha256 = some proof ∧
      op = .finalizeDelivered p.descriptor p.descriptor.val.targetIdentitySha256
        p.descriptor.newImage proof

/-- The image of the segment on the disk that settles the journal. -/
def settledImage (p : PendingRewriteJournal) : TargetImage :=
  if p.deliveredReceiptProofSha256.isSome then p.descriptor.newImage else p.descriptor.oldImage

/-- The journal has been removed as it may be. -/
def Removed (home : Hash) (h : Home) (input : Input) : Prop :=
  ∃ file p op attempts keys, h.journal = some file ∧ Pending home file p ∧
  input = .call op attempts keys ∧
    Settles p op ∧
    (Measured h p op → ∃ bytes, h.segments p.targetBasename = some bytes ∧
      imageOf bytes = settledImage p)

/-- The journal is still that of the rewrite, and the same file if it was delivered. -/
def Carries (home : Hash) (file : List UInt8) (p : PendingRewriteJournal) (h : Home) : Prop :=
  ∃ file' p', h.journal = some file' ∧ Pending home file' p' ∧
  p'.targetBasename = p.targetBasename ∧
    p'.descriptor = p.descriptor ∧ (p.deliveredReceiptProofSha256 ≠ none → file' = file)

theorem carries_self {h : Home} (hfile : h.journal = some bytes) (hp : Pending home bytes p) :
    Carries home bytes p h :=
  ⟨bytes, p, hfile, hp, rfl, rfl, fun _ => rfl⟩

/-- **What one input does** to the journal that is there. -/
theorem removed_of_step {h : Home} {input : Input} (hfile : h.journal = some bytes)
    (hnone : (step home h input).1.journal = none) : Removed home h input := by
  cases input with
  | replace basename replaced => exact absurd (hfile.symm.trans hnone) (by simp)
  | crash => exact absurd (hfile.symm.trans hnone) (by simp)
  | call op attempts keys =>
    have heffect : Effect home op h.journal none := by
      rw [← hnone]
      exact effect_of_run home op ⟨h.journal, attempts, keys⟩
    rw [hfile] at heffect
    cases heffect with
    | finalized hpending himage htarget =>
      subst himage htarget
      refine ⟨_, _, _, _, _, hfile, hpending, rfl, .inr ⟨_, rfl, rfl⟩, ?_⟩
      rintro ⟨segment, hsegment, hmeasured⟩
      exact ⟨segment, hsegment, hmeasured.symm⟩
    | abandoned hpending himage =>
      subst himage
      refine ⟨_, _, _, _, _, hfile, hpending, rfl, .inl ⟨rfl, rfl⟩, ?_⟩
      rintro ⟨segment, hsegment, hmeasured⟩
      exact ⟨segment, hsegment, hmeasured.symm⟩

theorem carries_of_step {h : Home} (input : Input) (hfile : h.journal = some bytes)
    (hp : Pending home bytes p) :
    Carries home bytes p (step home h input).1 ∨ (step home h input).1.journal = none := by
  cases input with
  | replace basename replaced => exact .inl (carries_self hfile hp)
  | crash => exact .inl (carries_self hfile hp)
  | call op attempts keys =>
    have heffect := effect_of_run home op ⟨h.journal, attempts, keys⟩
    change Effect home op h.journal (step home h (.call op attempts keys)).1.journal at heffect
    generalize step home h (.call op attempts keys) = next at heffect ⊢
    rw [hfile] at heffect
    generalize hnext : next.1.journal = file' at heffect ⊢
    cases heffect with
    | kept => exact .inl (carries_self hnext hp)
    | delivered hbefore hafter =>
      cases hp.unique hbefore
      exact .inl ⟨_, _, hnext, hafter, rfl, rfl, fun h => absurd rfl h⟩
    | finalized => exact .inr rfl
    | abandoned => exact .inr rfl

theorem Carries.trans {h : Home} {bytes' : List UInt8} {q : PendingRewriteJournal}
    (hp : Carries home bytes' q h)
    (hname : q.targetBasename = p.targetBasename) (hd : q.descriptor = p.descriptor)
    (hsame : p.deliveredReceiptProofSha256 ≠ none → bytes' = bytes ∧ q = p) :
      Carries home bytes p h := by
  obtain ⟨file', p', hfile, hpending, hname', hd', hkept⟩ := hp
  refine ⟨file', p', hfile, hpending, hname'.trans hname, hd'.trans hd, fun hdelivered => ?_⟩
  obtain ⟨rfl, rfl⟩ := hsame hdelivered
  exact hkept hdelivered

/-- From a journal that is pending every run leads to one of the same rewrite, unless the journal
has been removed. -/
theorem carries_of_run {start : Home} (hfile : start.journal = some bytes)
    (hp : Pending home bytes p)
    (inputs : List Input) : Carries home bytes p (after home start inputs) ∨
      ∃ before input rest, inputs = before ++ input :: rest ∧
      Removed home (after home start before) input := by
  induction inputs generalizing start bytes p with
  | nil => exact .inl (carries_self hfile hp)
  | cons input inputs ih =>
    rcases carries_of_step input hfile hp with hcarries | hnone
    · obtain ⟨file', p', hfile', hp', hname, hd, hsame⟩ := hcarries
      rcases ih hfile' hp' with hrest | ⟨before, other, rest, rfl, hremoved⟩
      · refine .inl (Carries.trans hrest hname hd fun hdelivered => ?_)
        obtain rfl := hsame hdelivered
        exact ⟨rfl, hp'.unique hp⟩
      · exact .inr ⟨input :: before, other, rest, rfl, hremoved⟩
    · exact .inr ⟨[], input, inputs, rfl, removed_of_step hfile hnone⟩

/-- **The journal is kept until it is settled.**  In every run it is removed only where an intent is
abandoned on the old image or a proven delivery is finalized on the new one; until then it stays the
journal of one rewrite, and once delivered the same file; of an intent the decisions tell the two
images apart, and for a delivery only the new one is no conflict. -/
theorem journal_kept_until_settled (home : Hash) (start : Home) (inputs : List Input) :
    (∀ before input rest, inputs = before ++ input :: rest →
      (after home start before).journal ≠ none →
      (after home start (before ++ [input])).journal = none →
        Removed home (after home start before) input) ∧
    (∀ file p, start.journal = some file → Pending home file p →
      Carries home file p (after home start inputs) ∨
      ∃ before input rest, inputs = before ++ input :: rest ∧
      Removed home (after home start before) input) ∧
    (∀ file p q, Pending home file p → Pending home file q → p = q) ∧
    (∀ p current, p.deliveredReceiptProofSha256 = none →
      (classifyPending p current = .oldUnchanged ↔ current = p.descriptor.oldImage) ∧
        (classifyPending p current = .newPublished p.descriptor ↔
          current = p.descriptor.newImage)) ∧
    ∀ p proof current, p.deliveredReceiptProofSha256 = some proof → classifyPending p current =
      if current = p.descriptor.newImage then .delivered p.descriptor proof else .conflict := by
  refine ⟨?_, fun file p hfile hp => carries_of_run hfile hp inputs, fun file p q => Pending.unique,
    fun p current hprepared => classify_prepared hprepared current,
    fun p proof current hdelivered => classify_delivered hdelivered current⟩
  rintro before input rest - hsome hnone
  obtain ⟨file, hfile⟩ := Option.ne_none_iff_exists'.mp hsome
  unfold after at hnone
  rw [Lib.Machine.run_append] at hnone
  exact removed_of_step hfile hnone

end Neoth.Wal.RewriteJournal

namespace Neoth.Wal.RewriteJournal

/-! ## The old image behind a delivery -/

/-- Thirty-two times the byte. -/
def sampleHash (b : UInt8) : Hash := ⟨List.replicate 32 b, List.length_replicate⟩

def sampleDescriptor : Descriptor :=
  ⟨⟨sampleHash 1, sampleHash 2, sampleHash 3, sampleHash 4, sampleHash 5, sampleHash 6, 7, 80,
    72⟩, by decide +kernel⟩

def sampleDelivered : PendingRewriteJournal :=
  ⟨"leaf-000001.wal", sampleDescriptor, some (sampleHash 9)⟩

/-- The image is one of the two, and the decision says neither. -/
theorem delivered_old_image_conflicts :
    ¬ ∀ (p : PendingRewriteJournal) (current : TargetImage),
      current = p.descriptor.oldImage ∨ current = p.descriptor.newImage →
      classifyPending p current ≠ .conflict := by
  intro h
  exact h sampleDelivered sampleDescriptor.oldImage (.inl rfl) (by decide +kernel)

end Neoth.Wal.RewriteJournal
