import Neoth.MeshSync.Invariant

/-!
# What the cursor has passed

`Covers`: the acknowledged cursor, the cursor behind the pending frame and the position
of every carrier have passed no event of the mesh that was not staged, and those that
the acknowledged cursor has passed are committed by the receiver.  It is kept by every
step but one: a write to the WAL behind one of these positions
(`Mesh.AdmitsWrite`, `Covers.step`).
-/

open Std Lib.FrameLog Lib.TreeMap Lib.Machine

namespace Neoth.MeshSync

/-! ## Positions -/

/-- The event at this place was staged under the number `seq`. -/
def StagedAt (history : List Staged) (seg : String) (off : Nat) (d : DecodedFrame) (seq : Nat) :
    Prop :=
  ∃ r ∈ history, r.found.segment = seg ∧ r.found.offset = off ∧ decodeFrame r.found.raw = .ok d ∧
    r.frame.eventSeq = seq

/-- The event at this place was staged, and its number is committed. -/
def Mesh.Delivered (s : Mesh) (seg : String) (off : Nat) (d : DecodedFrame) : Prop :=
  ∃ seq, StagedAt s.history seg off d seq ∧ seq < s.receiver.inbox.nextExpected

/-- The position is between two frames, and of the events of `R` it has passed only those of `P`. -/
def Passed (wal : Wal) (R : DecodedFrame → Prop) (P : String → Nat → DecodedFrame → Prop)
    (position : GossipWalCursor) : Prop :=
  ∀ segment, position.segment = some segment → OnFrame wal segment position.offset ∧
    ∀ seg off d, EventAt wal seg off d → R d → Precedes seg off segment position.offset →
    P seg off d

/-- The policy lets every event of `R` through. -/
def Allows (R : DecodedFrame → Prop) (policy : GossipPolicy) : Prop :=
  ∀ d, R d → d.replicable policy = true

/-- The frame a scan found, at the place of the event it is. -/
def FoundAt (found : Option Found) (seg : String) (off : Nat) (d : DecodedFrame) : Prop :=
  ∃ f, found = some f ∧ f.segment = seg ∧ f.offset = off ∧ decodeFrame f.raw = .ok d

def Carrier.Sound (R : DecodedFrame → Prop) (s : Mesh) : Carrier → Prop
  | .loaded policy cursor => Allows R policy ∧ Passed s.sender.wal R s.Delivered cursor
  | .scanning policy path rest offset =>
    Allows R policy ∧ Listed s.sender.wal path rest ∧
      Passed s.sender.wal R s.Delivered ⟨some path, offset⟩
  | .scanned _ found next =>
    Passed s.sender.wal R (fun seg off d => s.Delivered seg off d ∨ FoundAt found seg off d) next

structure Covers (R : DecodedFrame → Prop) (s : Mesh) : Prop where
  cursor : Passed s.sender.wal R s.Delivered s.sender.outbox.cursor
  pending : ∀ p, s.sender.outbox.pending = some p →
    Passed s.sender.wal R
      (fun seg off d => s.Delivered seg off d ∨ StagedAt s.history seg off d p.originSeq)
        p.nextCursor
  carriers : ∀ (carrier : Nat) (c : Carrier), s.sender.carriers[carrier]? = some c → c.Sound R s

section Positions
variable {R : DecodedFrame → Prop} {s s' : Mesh} {wal : Wal}

variable {position : GossipWalCursor}

theorem Passed.mono {P Q : String → Nat → DecodedFrame → Prop} (h : Passed wal R P position)
    (hle : ∀ seg off d, P seg off d → Q seg off d) : Passed wal R Q position := by
  intro segment hsegment
  obtain ⟨hon, hpassed⟩ := h segment hsegment
  exact ⟨hon, fun seg off d he hr hbefore => hle seg off d (hpassed seg off d he hr hbefore)⟩

variable {seg : String} {off : Nat} {d : DecodedFrame}

theorem StagedAt.mono {history history' : List Staged} (hle : ∀ r ∈ history, r ∈ history')
    {seq : Nat} (h : StagedAt history seg off d seq) : StagedAt history' seg off d seq := by
  obtain ⟨r, hr, hplace⟩ := h
  exact ⟨r, hle r hr, hplace⟩

/-- What may happen besides: more is staged, and more is committed. -/
structure Later (s s' : Mesh) : Prop where
  wal : s'.sender.wal = s.sender.wal
  history : ∀ r ∈ s.history, r ∈ s'.history
  next : s.receiver.inbox.nextExpected ≤ s'.receiver.inbox.nextExpected

theorem Later.delivered (h : Later s s') (hd : s.Delivered seg off d) : s'.Delivered seg off d := by
  obtain ⟨seq, hstaged, hlt⟩ := hd
  exact ⟨seq, hstaged.mono h.history, hlt.trans_le h.next⟩

theorem Later.passed (h : Later s s') (hp : Passed s.sender.wal R s.Delivered position) :
    Passed s'.sender.wal R s'.Delivered position := by
  rw [h.wal]
  exact hp.mono fun _ _ _ hd => h.delivered hd

theorem Later.sound (h : Later s s') {c : Carrier} (hc : c.Sound R s) : c.Sound R s' := by
  cases c with
  | loaded policy cursor => exact ⟨hc.1, h.passed hc.2⟩
  | scanning policy path rest offset => exact ⟨hc.1, h.wal ▸ hc.2.1, h.passed hc.2.2⟩
  | scanned policy found next =>
    unfold Carrier.Sound at hc ⊢
    rw [h.wal]
    exact hc.mono fun _ _ _ hd => hd.imp_left h.delivered

/-- Steps that leave the outbox, the WAL and the carriers alone. -/
theorem Covers.later (hc : Covers R s) (h : Later s s')
    (houtbox : s'.sender.outbox = s.sender.outbox)
    (hcarriers : s'.sender.carriers = s.sender.carriers) : Covers R s' where
  cursor := by
    rw [houtbox]
    exact h.passed hc.cursor
  pending p hp := by
    rw [h.wal]
    exact (hc.pending p (houtbox ▸ hp)).mono fun _ _ _ hd => hd.imp h.delivered (.mono h.history)
  carriers carrier c hget := h.sound (hc.carriers carrier c (hcarriers ▸ hget))

theorem Later.refl_of (hwal : s'.sender.wal = s.sender.wal) (hhistory : s'.history = s.history)
    (hinbox : s'.receiver.inbox.nextExpected = s.receiver.inbox.nextExpected) : Later s s' :=
  ⟨hwal, fun _ hr => hhistory ▸ hr, hinbox.ge⟩

/-! ## Writing -/

variable {segment : String}

theorem Wal.getElem?_write_of_ne (wal : Wal) (bytes : List UInt8) (h : segment ≠ seg) :
    (Wal.write wal segment bytes)[seg]? = wal[seg]? :=
  getElem?_insert_of_ne _ h

theorem Wal.getElem?_write_of_some (wal : Wal) {body : List UInt8} (bytes : List UInt8)
    (h : wal[segment]? = some body) :
      (Wal.write wal segment bytes)[segment]? = some (body ++ bytes) := by
  unfold Wal.write
  rw [ExtTreeMap.getElem?_insert_self, h]
  rfl

variable {bytes : List UInt8}

theorem Wal.mem_write {wal : Wal} : seg ∈ Wal.write wal segment bytes ↔
    segment = seg ∨ seg ∈ wal := by
  unfold Wal.write
  rw [ExtTreeMap.mem_insert, Std.compare_eq_iff_eq]

theorem OnFrame.write {offset : Nat} (h : OnFrame wal segment offset) (written : String)
    (bytes : List UInt8) : OnFrame (Wal.write wal written bytes) segment offset := by
  obtain ⟨body, hbody, hwalk⟩ := h
  by_cases e : written = segment
  · subst e
    exact ⟨body ++ bytes, Wal.getElem?_write_of_some wal bytes hbody, hwalk.append bytes⟩
  · exact ⟨body, (Wal.getElem?_write_of_ne wal bytes e).trans hbody, hwalk⟩

variable {written : String}

/-- A write that does not fall behind a position adds no event before it. -/
theorem EventAt.of_write {offset off : Nat} (hon : OnFrame wal segment offset)
    (hwritten : ¬ compare written segment = .lt)
    (h : EventAt (Wal.write wal written bytes) seg off d)
    (hbefore : Precedes seg off segment offset) :
    EventAt wal seg off d := by
  obtain ⟨body', hbody', hwalk', hd⟩ := h
  by_cases e : written = seg
  · subst e
    rcases hbefore with hlt | ⟨rfl, hoff⟩
    · exact absurd hlt hwritten
    · obtain ⟨body, hbody, hwalk⟩ := hon
      cases (Wal.getElem?_write_of_some wal bytes hbody).symm.trans hbody'
      obtain ⟨hwalkOff, f, hf⟩ := hwalk.of_append hwalk' hoff
      cases (walFraming.decode_drop_append hf bytes).symm.trans hd
      exact ⟨body, hbody, hwalkOff, hf⟩
  · rw [Wal.getElem?_write_of_ne wal bytes e] at hbody'
    exact ⟨body', hbody', hwalk', hd⟩

/-- The cursor does not lie behind a segment that is written to. -/
def GossipWalCursor.AdmitsWrite (cursor : GossipWalCursor) (written : String) : Prop :=
  ∀ segment, cursor.segment = some segment → ¬ compare written segment = .lt

theorem Passed.write {P : String → Nat → DecodedFrame → Prop} (h : Passed wal R P position)
    (hadmits : position.AdmitsWrite written) (bytes : List UInt8) :
    Passed (Wal.write wal written bytes) R P position := by
  intro segment hsegment
  obtain ⟨hon, hpassed⟩ := h segment hsegment
  refine ⟨hon.write written bytes, ?_⟩
  intro seg off d hevent hr hbefore
  exact hpassed seg off d (hevent.of_write hon (hadmits segment hsegment) hbefore) hr hbefore

/-- A scan that is under way reads the segments it has listed: a write may go to one that is
still to be read, or behind them all. -/
def Carrier.AdmitsWrite (written : String) : Carrier → Prop
  | .loaded _ cursor => cursor.AdmitsWrite written
  | .scanning _ path rest _ =>
    written ∈ path :: rest ∨ ∀ listed ∈ path :: rest, compare listed written = .lt
  | .scanned _ _ next => next.AdmitsWrite written

/-- No position the sender holds lies behind the segment that is written to. -/
def Mesh.AdmitsWrite (s : Mesh) (written : String) : Prop :=
  s.sender.outbox.cursor.AdmitsWrite written ∧
    (∀ p, s.sender.outbox.pending = some p → p.nextCursor.AdmitsWrite written) ∧
    ∀ (carrier : Nat) (c : Carrier), s.sender.carriers[carrier]? = some c → c.AdmitsWrite written

variable {rest : List String}

theorem Listed.write {path written : String} (h : Listed wal path rest)
    (hadmits : written ∈ path :: rest ∨ ∀ listed ∈ path :: rest, compare listed written = .lt)
    (bytes : List UInt8) : Listed (Wal.write wal written bytes) path rest := by
  refine ⟨h.sorted, fun seg hseg => Wal.mem_write.mpr (.inr (h.rest_mem seg hseg)), ?_⟩
  intro seg hseg hlt
  rcases Wal.mem_write.mp hseg with rfl | hseg
  · rcases hadmits with hmem | hafter
    · rcases List.mem_cons.mp hmem with rfl | hmem
      · exact absurd hlt compare_lt_irrefl
      · exact .inl hmem
    · exact .inr hafter
  · exact h.complete seg hseg hlt

theorem Listed.not_lt_of_admits {path written : String} (h : Listed wal path rest)
    (hadmits : written ∈ path :: rest ∨ ∀ listed ∈ path :: rest, compare listed written = .lt) :
    ¬ compare written path = .lt := by
  intro hlt
  rcases hadmits with hmem | hafter
  · rcases List.mem_cons.mp hmem with rfl | hmem
    · exact compare_lt_irrefl hlt
    · have hpath := (List.pairwise_cons.mp h.sorted).1 written hmem
      exact compare_lt_irrefl (TransCmp.lt_trans hlt hpath)
  · exact compare_lt_irrefl (TransCmp.lt_trans hlt (hafter path (List.mem_cons_self ..)))

theorem Covers.write (hc : Covers R s) (hadmits : s.AdmitsWrite written) (bytes : List UInt8) :
    Covers R { s with sender.wal := s.sender.wal.write written bytes } where
  cursor := hc.cursor.write hadmits.1 bytes
  pending p hp := (hc.pending p hp).write (hadmits.2.1 p hp) bytes
  carriers carrier c hget := by
    have hsound := hc.carriers carrier c hget
    have hadmit := hadmits.2.2 carrier c hget
    cases c with
    | loaded policy cursor => exact ⟨hsound.1, hsound.2.write hadmit bytes⟩
    | scanning policy path rest offset =>
      obtain ⟨hallows, hlisted, hpassed⟩ := hsound
      refine ⟨hallows, hlisted.write hadmit bytes, hpassed.write ?_ bytes⟩
      intro segment hsegment
      cases hsegment
      exact hlisted.not_lt_of_admits hadmit
    | scanned policy found next => exact Passed.write hsound hadmit bytes

/-! ## Scanning -/

theorem EventAt.unique {d d' : DecodedFrame} (h : EventAt wal seg off d)
    (h' : EventAt wal seg off d') : d = d' := by
  obtain ⟨body, hbody, -, hd⟩ := h
  obtain ⟨body', hbody', -, hd'⟩ := h'
  cases hbody.symm.trans hbody'
  exact Except.ok.inj (hd.symm.trans hd')

theorem Covers.setCarrier (hc : Covers R s) {c : Carrier} (hsound : c.Sound R s) (carrier : Nat) :
    Covers R (s.setCarrier carrier c) where
  cursor := hc.cursor
  pending := hc.pending
  carriers other c' hget := by
    have hlater : Later s (s.setCarrier carrier c) := .refl_of rfl rfl rfl
    by_cases e : carrier = other
    · subst e
      unfold Mesh.setCarrier at hget
      rw [ExtTreeMap.getElem?_insert_self] at hget
      cases hget
      exact hlater.sound hsound
    · unfold Mesh.setCarrier at hget
      rw [getElem?_insert_of_ne c e] at hget
      exact hlater.sound (hc.carriers other c' hget)

theorem Covers.dropCarrier (hc : Covers R s) (carrier : Nat) :
    Covers R (s.dropCarrier carrier) where
  cursor := hc.cursor
  pending := hc.pending
  carriers other c hget := by
    have hlater : Later s (s.dropCarrier carrier) := .refl_of rfl rfl rfl
    unfold Mesh.dropCarrier at hget
    rw [ExtTreeMap.getElem?_erase] at hget
    split at hget
    · cases hget
    · exact hlater.sound (hc.carriers other c hget)

/-- A listing starts where the cursor stands, or before everything. -/
theorem Passed.openSegments {P : String → Nat → DecodedFrame → Prop} {cursor : GossipWalCursor}
    {path : String} {offset : Nat} (h : Passed wal R P cursor)
    (hopen : MeshSync.openSegments wal cursor = .ok (some (path, rest, offset))) :
    Listed wal path rest ∧ Passed wal R P ⟨some path, offset⟩ := by
  obtain ⟨hlisted, hmem, hstart⟩ := openSegments_listed hopen
  refine ⟨hlisted, ?_⟩
  rcases hstart with ⟨hsegment, rfl⟩ | ⟨-, rfl, hfirst⟩
  · intro segment hpath
    exact h segment (hsegment.trans hpath)
  · intro segment hpath
    cases hpath
    obtain ⟨body, hbody⟩ := exists_getElem?_of_mem hmem
    refine ⟨⟨body, hbody, .refl 0⟩, ?_⟩
    intro seg off d hevent _ hbefore
    obtain ⟨segBody, hseg, -⟩ := hevent
    rcases hbefore with hlt | ⟨-, hlt⟩
    · exact absurd hlt (hfirst seg (mem_of_getElem? hseg))
    · exact absurd hlt (Nat.not_lt_zero off)

theorem Covers.openScan (hc : Covers R s) (carrier : Nat) : Covers R (s.openScan carrier).1 := by
  unfold Mesh.openScan
  split
  · rename_i policy cursor hcarrier
    obtain ⟨hallows, hpassed⟩ := hc.carriers carrier _ hcarrier
    split
    · exact hc.dropCarrier carrier
    · refine hc.setCarrier ?_ carrier
      intro segment hsegment
      cases hsegment
    · rename_i path rest offset hopen
      refine hc.setCarrier ?_ carrier
      exact ⟨hallows, hpassed.openSegments hopen⟩
  · exact hc

theorem Covers.scan (hc : Covers R s) (carrier : Nat) : Covers R (s.scan carrier).1 := by
  unfold Mesh.scan
  split
  · rename_i policy path rest offset hcarrier
    obtain ⟨hallows, hlisted, hpassed⟩ := hc.carriers carrier _ hcarrier
    obtain ⟨⟨body, hbody, hwalk⟩, hbefore⟩ := hpassed path rfl
    rw [hbody]
    dsimp only
    split
    · rename_i found next hscan
      obtain ⟨segment, hsegment, hon, hnext⟩ := scanSegment_done hlisted hbody hwalk hscan
      refine hc.setCarrier ?_ carrier
      intro segment' hsegment'
      cases hsegment.symm.trans hsegment'
      refine ⟨hon, ?_⟩
      intro seg off d hevent hr hprec
      rcases hnext seg off d hevent hprec (hallows d hr) with hold | ⟨f, rfl, rfl, rfl⟩
      · exact .inl (hbefore seg off d hevent hr hold)
      · obtain ⟨d', hevent', hraw⟩ := scanSegment_found hbody hwalk hscan
        rw [hevent'.unique hevent] at hraw
        exact .inr ⟨f, rfl, rfl, rfl, hraw⟩
    · rename_i next later hscan
      obtain ⟨hlater, hon, hnext⟩ := scanSegment_more hlisted hbody hwalk hscan
      refine hc.setCarrier ?_ carrier
      refine ⟨hallows, hlater, ?_⟩
      intro segment hsegment
      cases hsegment
      refine ⟨hon, ?_⟩
      intro seg off d hevent hr hprec
      exact hbefore seg off d hevent hr (hnext seg off d hevent hprec (hallows d hr))
  · exact hc

/-! ## The sender's transactions -/

theorem Covers.idle (hc : Covers R s) {next : GossipWalCursor}
    (hnext : Passed s.sender.wal R s.Delivered next) : Covers R (s.idle next).1 := by
  unfold Mesh.idle
  split
  · exact hc
  · rename_i outbox u hidle
    obtain ⟨hnone, rfl⟩ := persistIdleCursor_spec hidle
    refine ⟨hnext, ?_, ?_⟩
    · intro p hp
      cases hnone.symm.trans hp
    · intro carrier c hget
      have hlater : Later s { s with sender.outbox := { s.sender.outbox with
          outbound := some { s.sender.outbox.outbound.getD .fresh with cursor := next } } } :=
        .refl_of rfl rfl rfl
      exact hlater.sound (hc.carriers carrier c hget)

end Positions

section Transactions
variable [Sha256] [SerdeJson] {R : DecodedFrame → Prop} {s : Mesh} {origin peer : PeerPubkey}

variable {policy : GossipPolicy}

theorem Covers.stage (hc : Covers R s) {found : Found} {next : GossipWalCursor}
    (hnext : Passed s.sender.wal R
      (fun seg off d => s.Delivered seg off d ∨ FoundAt (some found) seg off d) next) :
    Covers R (s.stage origin policy found next).1 := by
  unfold Mesh.stage
  split
  · exact hc
  · split
    · exact hc
    · split
      · exact hc
      · rename_i outbox frontier prepared hstage
        rcases stageFrame_spec hstage with ⟨pending, hpending, rfl, rfl, rfl⟩ |
          ⟨hpending, hfresh, hstaging⟩
        · exact hc.later (.refl_of rfl rfl rfl) rfl rfl
        · rw [hfresh]
          have hlater : Later s { s with
              sender := { s.sender with outbox := outbox, frontier := frontier }
              wire := prepared.frame :: s.wire
              history := ⟨found, policy, s.sender.views, prepared.frame⟩ :: s.history } :=
            ⟨rfl, fun r hr => List.mem_cons_of_mem _ hr, Nat.le_refl _⟩
          refine ⟨?_, ?_, fun carrier c hget => hlater.sound (hc.carriers carrier c hget)⟩
          · have hcursor : outbox.cursor = s.sender.outbox.cursor := by
              unfold Outbox.cursor
              rw [hstaging.outbound_eq]
              rfl
            dsimp only
            rw [hcursor]
            exact hlater.passed hc.cursor
          · intro p hp
            cases hstaging.pending_eq.symm.trans hp
            refine hnext.mono fun seg off d hd => hd.imp hlater.delivered ?_
            rintro ⟨f, hf, hseg, hoff, hraw⟩
            cases hf
            exact ⟨_, List.mem_cons_self .., hseg, hoff, hraw, rfl⟩

theorem Covers.acknowledge (hc : Covers R s) (hlinked : Linked origin peer s.core) (index : Nat) :
    Covers R (s.acknowledge origin index).1 := by
  unfold Mesh.acknowledge
  split
  · exact hc
  · rename_i ack hack
    split
    · exact hc
    · rename_i outbox outcome hacknowledge
      rcases acknowledgeOutbound_spec hacknowledge with ⟨rfl, -⟩ |
        ⟨pending, hpending, hmatches, -, hnone, -, hcursor⟩
      · exact hc
      · have hlater : Later s { s with sender.outbox := outbox } := .refl_of rfl rfl rfl
        have hcommitted : pending.originSeq < s.receiver.inbox.nextExpected := by
          rw [← hmatches.2.1]
          exact hlinked.acked ack (List.mem_of_getElem? hack)
        refine ⟨?_, ?_, fun carrier c hget => hlater.sound (hc.carriers carrier c hget)⟩
        · dsimp only
          rw [hcursor]
          refine (hc.pending pending hpending).mono fun seg off d hd => ?_
          rcases hd with hd | hd
          · exact hd
          · exact ⟨pending.originSeq, hd, hcommitted⟩
        · intro p hp
          cases hnone.symm.trans hp

omit [SerdeJson] in
theorem Covers.load (hc : Covers R s) (carrier : Nat) (hallows : Allows R policy) :
    Covers R (s.load origin carrier policy).1 := by
  unfold Mesh.load
  split
  · exact hc
  · exact hc.later (.refl_of rfl rfl rfl) rfl rfl
  · rename_i cursor hload
    obtain ⟨-, rfl⟩ := loadState_of_cursor hload
    refine hc.setCarrier ?_ carrier
    exact ⟨hallows, hc.cursor⟩

variable [UnicodeText]

theorem Covers.deliver (hc : Covers R s) (index : Nat) (policy : GossipPolicy) (now : Int) :
    Covers R (s.deliver origin index policy now).1 := by
  unfold Mesh.deliver
  split
  · exact hc
  · split
    · exact hc
    · rename_i inbox frontier commit hpersist
      have hnext : s.receiver.inbox.nextExpected ≤ inbox.nextExpected := by
        rcases (persistInbound_spec hpersist).2 with ⟨rfl, -⟩ | ⟨-, eventType, hcommits⟩
        · exact Nat.le_refl _
        · rw [hcommits.next, hcommits.expected]
          exact Nat.le_succ _
      exact hc.later ⟨rfl, fun r hr => hr, hnext⟩ rfl rfl

/-! ## Runs -/

/-- What a step has to meet: a write falls behind no position of the sender, and a carrier
sets out with a policy that lets the events of `R` through. -/
def Mesh.Meets (R : DecodedFrame → Prop) (s : Mesh) : Action → Prop
  | .write segment _ => s.AdmitsWrite segment
  | .load _ policy => Allows R policy
  | _ => True

theorem Covers.step (hc : Covers R s) (hlinked : Linked origin peer s.core) {action : Action}
    (hmeets : s.Meets R action) : Covers R (s.step origin peer action).1 := by
  cases action with
  | write segment bytes => exact hc.write hmeets bytes
  | setViews views => exact hc.later (.refl_of rfl rfl rfl) rfl rfl
  | load carrier policy => exact hc.load carrier hmeets
  | openScan carrier => exact hc.openScan carrier
  | scan carrier => exact hc.scan carrier
  | settle carrier =>
    unfold Mesh.step Mesh.settle
    have hdrop := hc.dropCarrier carrier
    dsimp only
    split
    · rename_i policy next hcarrier
      refine hdrop.idle (Passed.mono (hc.carriers carrier _ hcarrier) fun seg off d hd => ?_)
      rcases hd with hd | ⟨f, hf, -⟩
      · exact hd
      · cases hf
    · rename_i policy found next hcarrier
      exact hdrop.stage (hc.carriers carrier _ hcarrier)
    · exact hc
  | crash =>
    refine ⟨hc.cursor, hc.pending, ?_⟩
    intro carrier c hget
    cases ExtTreeMap.getElem?_empty.symm.trans hget
  | deliver index policy now => exact hc.deliver index policy now
  | acknowledge index => exact hc.acknowledge hlinked index
  | senderReceives clock =>
    unfold Mesh.step Mesh.senderReceives
    dsimp only
    split
    · exact hc
    · exact hc.later (.refl_of rfl rfl rfl) rfl rfl
  | receiverStages =>
    unfold Mesh.step Mesh.receiverStages
    dsimp only
    split
    · exact hc
    · split
      · exact hc
      · exact hc.later (.refl_of rfl rfl rfl) rfl rfl
  | setSurroundings around => exact hc.later (.refl_of rfl rfl rfl) rfl rfl
  | forget seq => exact hc.later (.refl_of rfl rfl rfl) rfl rfl

end Transactions

theorem Covers.start (R : DecodedFrame → Prop) (wal : Wal) (views : Views) (around : Surroundings) :
    Covers R (Mesh.start wal views around) where
  cursor segment hsegment := by cases hsegment
  pending p hp := by cases hp
  carriers carrier c hget := by cases ExtTreeMap.getElem?_empty.symm.trans hget

/-- **Nothing is passed over**, in a run whose writes fall behind no position of the sender. -/
theorem Covers.run [Sha256] [SerdeJson] [UnicodeText] {origin peer : PeerPubkey}
    {R : DecodedFrame → Prop} (wal : Wal) (views : Views) (around : Surroundings)
    (actions : List Action)
    (meets : ∀ before action later, actions = before ++ action :: later →
      ((Mesh.start wal views around).after origin peer before).Meets R action) :
    Covers R ((Mesh.start wal views around).after origin peer actions) := by
  have hboth := run_invariant_of_meets (P := fun s : Mesh => Linked origin peer s.core ∧ Covers R s)
    (fun s action h hmeets => ⟨h.1.step action, h.2.step h.1 hmeets⟩) (Mesh.start wal views around)
    ⟨.start wal views around, .start R wal views around⟩ actions meets
  exact hboth.2

end Neoth.MeshSync
