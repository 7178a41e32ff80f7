import Neoth.SyncRequests.Fences

/-!
# Runs of the request queue

* `ClockAheadIn`: no request that finds no row is behind a generation the peer has had;
* `run_keeps`: the induction rule of the runs that meet it;
* `sync_leases`: what holds in these runs;
* `lease_issued_twice`: two claims with one lease, when a day-old row has been dropped and the clock
  is set back.
-/

open Lib Lib.Transaction

namespace Neoth.SyncRequests

open Neoth.Authority

section Runs
variable [Sha256] [Ed25519] {path : String}

/-! ## The rule -/

theorem SyncQueue.after_append (before later : List SyncEvent) :
    SyncQueue.after path (before ++ later) =
    (Lib.Machine.run (SyncQueue.step path) (SyncQueue.after path before) later).1 := by
  simp only [SyncQueue.after, Lib.Machine.run_append]

theorem SyncQueue.after_concat (before : List SyncEvent) (event : SyncEvent) :
    SyncQueue.after path (before ++ [event]) =
      ((SyncQueue.after path before).step path event).1 := by
  rw [after_append]
  rfl

theorem SyncQueue.answers_concat (before : List SyncEvent) (event : SyncEvent) :
    SyncQueue.answers path (before ++ [event]) =
      SyncQueue.answers path before ++ [((SyncQueue.after path before).step path event).2] := by
  simp only [SyncQueue.answers, SyncQueue.after, Lib.Machine.run_append]
  rfl

/-- Every event of the run meets the condition on the clock. -/
def ClockAheadIn (path : String) (events : List SyncEvent) : Prop :=
  ∀ before event later, events = before ++ event :: later →
    ClockAhead (SyncQueue.answers path before) (SyncQueue.after path before) event

theorem ClockAheadIn.init {before later : List SyncEvent}
    (h : ClockAheadIn path (before ++ later)) : ClockAheadIn path before := by
  rintro pre event post rfl
  exact h pre event (post ++ later) (by simp)

/-- What every step keeps on the condition holds in all states that follow. -/
theorem run_keeps {P : List SyncAnswer → SyncQueue → Prop} {before : List SyncEvent}
    (init : P (SyncQueue.answers path before) (SyncQueue.after path before))
    (keep : ∀ pre event, ClockAheadIn path pre →
      ClockAhead (SyncQueue.answers path pre) (SyncQueue.after path pre) event →
      P (SyncQueue.answers path pre) (SyncQueue.after path pre) →
      P (SyncQueue.answers path pre ++ [((SyncQueue.after path pre).step path event).2])
        ((SyncQueue.after path pre).step path event).1)
    (later : List SyncEvent) (hclock : ClockAheadIn path (before ++ later)) :
    P (SyncQueue.answers path (before ++ later)) (SyncQueue.after path (before ++ later)) := by
  induction later using List.reverseRecOn with
  | nil =>
    rw [List.append_nil]
    exact init
  | append_singleton later event ih =>
    rw [← List.append_assoc] at hclock ⊢
    have hpre := hclock.init
    rw [SyncQueue.after_concat, SyncQueue.answers_concat]
    exact keep _ event hpre (hclock _ event [] rfl) (ih hpre)

/-- What holds of a queue in the course of a run. -/
structure Sound (answers : List SyncAnswer) (q : SyncQueue) : Prop where
  leases : Leases answers q
  consistent : Consistent q.authority
  fenced : ∀ c ∈ issued answers, Fenced q c
  timed : Timed q.requests

theorem sound_after (events : List SyncEvent) (hclock : ClockAheadIn path events) :
    Sound (SyncQueue.answers path events) (SyncQueue.after path events) := by
  have hfresh : Sound [] SyncQueue.fresh :=
    ⟨leases_fresh, consistent_fresh, by simp [issued], by simp [Timed, SyncQueue.fresh]⟩
  refine @run_keeps _ _ _ _ [] hfresh (fun pre event _ hclock h => ?_) events hclock
  have hstep := SyncQueue.step_spec path (SyncQueue.after path pre) event
  have hconsistent := SyncQueue.step_consistent path h.consistent event
  refine ⟨hstep.leases h.leases hclock, hconsistent, fun c hc => ?_, hstep.timed h.timed⟩
  rcases mem_issued_append.mp hc with hc | hc
  · exact (h.fenced c hc).kept (SyncQueue.step_fences path _ event) h.consistent.stamped
      hconsistent.stamped
  · exact SyncQueue.step_claims_fenced path _ event c hc

/-- What moves cannot undo holds of a generation in all states that follow. -/
theorem marked_after {generation : String × Nat × Int} {p : SyncRequestRow → Prop}
    (hp : ∀ row row', RowMoves row row' → p row → p row') {before : List SyncEvent}
    (later : List SyncEvent)
    (h : Marked (SyncQueue.answers path before) (SyncQueue.after path before).requests generation p)
    (hclock : ClockAheadIn path (before ++ later)) :
    Marked (SyncQueue.answers path (before ++ later))
      (SyncQueue.after path (before ++ later)).requests generation p :=
  run_keeps (P := fun answers q => Marked answers q.requests generation p) h
    (fun pre event hpre hclock h =>
      h.step hp (SyncQueue.step_spec path _ event) (sound_after pre hpre).leases.history hclock)
        later hclock

/-- A superseded claim is used no more. -/
theorem superseded_refused {before later : List SyncEvent} {event : SyncEvent} {c : MeshSyncRequest}
    (hclock : ClockAheadIn path (before ++ event :: later))
    (hc : c ∈ issued (SyncQueue.answers path before))
    (ha : (((SyncQueue.after path before).step path event).2).supersedes c.peerPk) :
    ∀ pre event' post, later = pre ++ event' :: post →
      let a := ((SyncQueue.after path (before ++ event :: pre)).step path event').2
      a ≠ .sent c ∧ a ≠ .resolved c := by
  rintro pre event' post rfl
  have hbefore := sound_after before hclock.init
  have hmarked := (SyncQueue.step_spec path (SyncQueue.after path before) event).superseded
    hbefore.leases (hclock before event _ rfl) hc ha
  rw [← SyncQueue.answers_concat, ← SyncQueue.after_concat] at hmarked
  have hsplit : before ++ event :: (pre ++ event' :: post) = (before ++ [event] ++ pre) ++ event' ::
      post := by simp
  rw [hsplit] at hclock
  have hlater := marked_after (fun _ _ hmoves hlt => hlt.trans_le hmoves.attempt) pre hmarked
    hclock.init
  have happend : before ++ [event] ++ pre = before ++ event :: pre := by simp
  rw [happend] at hlater
  exact (SyncQueue.step_spec path _ event').refuses hlater

/-- A row that is open again is of a later generation, which a request in between has been given. -/
theorem reopened_later {before later : List SyncEvent}
    (hclock : ClockAheadIn path (before ++ later))
    {row row' : SyncRequestRow} (hrow : row ∈ (SyncQueue.after path before).requests)
    (hterminal : row.state.isOpen = false)
    (hrow' : row' ∈ (SyncQueue.after path (before ++ later)).requests)
    (hopen : row'.state.isOpen = true) (hpeer : row'.peerPk = row.peerPk)
    (hauth : row'.authEpoch = row.authEpoch) : row.requestedAt < row'.requestedAt ∧
      ∃ receipt, .requested receipt ∈ SyncQueue.answers path (before ++ later) ∧
        .requested receipt ∉ SyncQueue.answers path before ∧
        receipt.generation = row'.generation := by
  have hbefore := (sound_after before hclock.init).leases.history
  have hafter := (sound_after (before ++ later) hclock).leases.history
  have hmarked : Marked (SyncQueue.answers path before) (SyncQueue.after path before).requests
      row.generation (·.state.isOpen = false) := by
    refine ⟨hbefore.rows row hrow, fun other hother hsame => ?_⟩
    cases Table.eq_of_key_eq hother hrow (congrArg Prod.fst hsame)
    exact hterminal
  have hlater := marked_after (fun _ _ hmoves hterminal => hmoves.terminal hterminal) later
    hmarked hclock
  obtain ⟨given, hgiven, hgeneration⟩ := hlater.1
  obtain ⟨hgivenPeer, hgivenAuth, hgivenAt⟩ : given.peerPk = row.peerPk ∧
      given.authEpoch = row.authEpoch ∧
      given.requestedAt = row.requestedAt := by
    simpa [MeshSyncRequest.generation, SyncRequestRow.generation] using hgeneration
  have hle := hafter.latest given hgiven row' hrow' (hpeer.trans hgivenPeer.symm)
    (hauth.trans hgivenAuth.symm)
  have hne : row'.requestedAt ≠ row.requestedAt := by
    intro hsame
    have hclosed : row'.state.isOpen = false :=
      hlater.2 row' hrow' (generation_eq_iff.mpr ⟨hpeer, hauth, hsame⟩)
    rw [hopen] at hclosed
    cases hclosed
  have hlt : row.requestedAt < row'.requestedAt := by omega
  obtain ⟨receipt, hreceipt, hsame⟩ := hafter.rows row' hrow'
  refine ⟨hlt, receipt, hreceipt, fun hearlier => ?_, hsame⟩
  obtain ⟨hreceiptPeer, hreceiptAuth, hreceiptAt⟩ : receipt.peerPk = row'.peerPk ∧
      receipt.authEpoch = row'.authEpoch ∧ receipt.requestedAt = row'.requestedAt := by
    simpa [MeshSyncRequest.generation, SyncRequestRow.generation] using hsame
  have hbound := hbefore.latest receipt hearlier row hrow (by rw [hreceiptPeer, hpeer])
    (by rw [hreceiptAuth, hauth])
  omega

/-! ## Runs that begin with calls of the authority -/

theorem run_calls (q : SyncQueue) (actions : List Action) :
    Lib.Machine.run (SyncQueue.step path) q (actions.map .call) =
      ({ q with authority := (Lib.Machine.run (AuthorityDb.step path) q.authority actions).1 },
        actions.map fun _ => .quiet) := by
  induction actions generalizing q with
  | nil => rfl
  | cons action actions ih => simp [ih, SyncQueue.step]

theorem SyncQueue.answers_calls (actions : List Action) (events : List SyncEvent) :
    SyncQueue.answers path (actions.map .call ++ events) = actions.map (fun _ => .quiet) ++
      (Lib.Machine.run (SyncQueue.step path) ⟨AuthorityDb.after path actions, ∅⟩ events).2 := by
  simp only [SyncQueue.answers, Lib.Machine.run_append, run_calls]
  rfl

def SyncEvent.isRequest : SyncEvent → Bool
  | .requestSync .. => true
  | _ => false

theorem SyncQueue.step_requested {q : SyncQueue} {event : SyncEvent} {receipt : MeshSyncRequest}
    (h : (q.step path event).2 = .requested receipt) : event.isRequest = true := by
  have hstep := SyncQueue.step_spec path q event
  rw [h] at hstep
  cases hstep with
  | moved _ ha => rcases ha with ha | ⟨_, ha⟩ | ⟨_, ha⟩ <;> cases ha
  | requested _ _ _ => rfl

/-- A first request is ahead of all before it. -/
theorem clockAheadIn_of_once {events : List SyncEvent} (h : events.countP SyncEvent.isRequest ≤ 1) :
    ClockAheadIn path events := by
  rintro before event later rfl effect now authorityNow rfl - receipt hreceipt
  obtain ⟨pre, earlier, post, rfl, hanswer⟩ := Lib.Machine.exists_step_of_mem_run hreceipt
  have hrequest := SyncQueue.step_requested hanswer
  have hself : SyncEvent.isRequest (.requestSync effect now authorityNow) = true := rfl
  simp only [List.countP_append, List.countP_cons, hrequest, hself, if_true] at h
  omega

end Runs

/-- **Leases of sync requests.** In every run in which a request that finds no row of its peer reads
a clock ahead of all generations the peer has had in the auth epoch: no two claims have the same
lease; a claim is sent at most once, and resolved at most once; a claim is neither sent nor resolved
after a newer request or claim of its peer; a call that answers `false` for a claim changes nothing;
a row is only open again for a later request, with a larger `requested_at`; and the claims of a poll
that has read the due requests all find their rows. -/
theorem sync_leases [Sha256] [Ed25519] (path : String) (events : List SyncEvent)
    (hclock : ClockAheadIn path events) :
    ((issued (SyncQueue.answers path events)).map (·.lease)).Nodup ∧
    ((SyncQueue.answers path events).filterMap SyncAnswer.sentClaim).Nodup ∧
    (((SyncQueue.answers path events).filterMap SyncAnswer.resolvedClaim).map (·.lease)).Nodup ∧
    (∀ before event later, events = before ++ event :: later →
      ∀ c ∈ issued (SyncQueue.answers path before),
      (((SyncQueue.after path before).step path event).2).supersedes c.peerPk →
      ∀ pre event' post, later = pre ++ event' :: post →
        let a := ((SyncQueue.after path (before ++ event :: pre)).step path event').2
        a ≠ .sent c ∧ a ≠ .resolved c) ∧
    (∀ before event later, events = before ++ event :: later →
      ∀ c ∈ issued (SyncQueue.answers path before),
      ((SyncQueue.after path before).step path event).2 = .stale c →
        ((SyncQueue.after path before).step path event).1 = SyncQueue.after path before) ∧
    (∀ before later, events = before ++ later → ∀ row ∈ (SyncQueue.after path before).requests,
      row.state.isOpen = false → ∀ row' ∈ (SyncQueue.after path events).requests,
        row'.state.isOpen = true →
      row'.peerPk = row.peerPk → row'.authEpoch = row.authEpoch →
      row.requestedAt < row'.requestedAt ∧
        ∃ receipt, .requested receipt ∈ SyncQueue.answers path events ∧
          .requested receipt ∉ SyncQueue.answers path before ∧
          receipt.generation = row'.generation) ∧
    (∀ effects now eligible due,
      SyncQueue.listDueSyncRequests ((SyncQueue.after path events).beforeClaims effects now) now =
        .ok due →
        ∃ r, SyncQueue.claimLoop eligible now due
          ((SyncQueue.after path events).beforeClaims effects now) [] = .ok r) := by
  have hsound := sound_after events hclock
  refine ⟨hsound.leases.distinct, hsound.leases.sentOnce, hsound.leases.resolvedOnce, ?_,
    ?_, ?_, ?_⟩
  · rintro before event later rfl c hc ha
    exact superseded_refused hclock hc ha
  · rintro before event later rfl c hc hstale
    exact SyncQueue.stale_unchanged ((sound_after before hclock.init).fenced c hc) hstale
  · rintro before later rfl row hrow hterminal row' hrow' hopen hpeer hauth
    exact reopened_later hclock hrow hterminal hrow' hopen hpeer hauth
  · intro effects now eligible due hlist
    exact claims_total eligible (hsound.timed.rowsFrom (.beforeClaims _ effects now)) hlist

/-! ## A day-old row is dropped, and the clock set back -/

def sampleGrant (a : EndpointAttestation) : MembershipGrant :=
  { stableNodeId := a.stableNodeId, carrier := a.carrier, transportIdentity := a.transportIdentity
    authEpoch := 1, membershipEpoch := 3, expiresAtUnix := some 2000 }

/-- An effect of the node, registered and not cancelled. -/
def sampleEffect (a : EndpointAttestation) : SyncEffect :=
  { registry :=
      { GenerationEffectState.empty with
        nextId := 1
        effects := ⟨[⟨1, ⟨a.stableNodeId, 1, 3⟩, a.carrier, .queuedProvider, none⟩],
          List.nodup_singleton _⟩ }
    lease := some 1, grant := sampleGrant a }

/-- The claim of the request of time 1000. -/
def sampleClaim : MeshSyncRequest :=
  { (SyncQueue.requestRow (sampleGrant sampleEnrollment) 1000 1900).request with
    state := .active, lastAttemptAt := some 1000 }

/-- A request is claimed and completed. -/
def sampleServed : List SyncEvent :=
  [.requestSync (sampleEffect sampleEnrollment) 1000 1002,
    .claimDue [sampleEffect sampleEnrollment] 1000 1002,
    .markSending (sampleEffect sampleEnrollment) sampleClaim 1000 1002,
    .markComplete (sampleEffect sampleEnrollment) sampleClaim 1000 1002]

/-- A day later another node is asked for; then the clock is set back, and the first is asked for
again. -/
def sampleSetBack : List SyncEvent :=
  sampleTwoEnrolled.map .call ++ (sampleServed ++
    [.requestSync (sampleEffect sampleOtherEnrollment) 87401 1002,
      .requestSync (sampleEffect sampleEnrollment) 1000 1002,
      .claimDue [sampleEffect sampleEnrollment] 1000 1002])

theorem lease_issued_twice :
    ¬ ∀ (path : String) (events : List SyncEvent),
      ((issued (@SyncQueue.answers Sha256.fips sampleEd25519 path events)).map
        (·.lease)).Nodup := by
  intro h
  have hsample := h samplePath sampleSetBack
  rw [sampleSetBack, @SyncQueue.answers_calls Sha256.fips sampleEd25519,
    after_sampleTwoEnrolled] at hsample
  revert hsample
  rw [Sha256.fips_eq]
  decide +kernel

/-- In the run that asks for the node once, its claim is issued, sent and resolved, once each. -/
theorem sync_leases_sample :
    let answers := @SyncQueue.answers Sha256.fips sampleEd25519 samplePath
      (sampleTwoEnrolled.map .call ++ sampleServed)
    (.claimed [sampleClaim] ∈ answers ∧ .sent sampleClaim ∈ answers ∧
      .resolved sampleClaim ∈ answers) ∧
      ((issued answers).map (·.lease)).Nodup ∧ (answers.filterMap SyncAnswer.sentClaim).Nodup := by
  have hclock : @ClockAheadIn Sha256.fips sampleEd25519 samplePath
      (sampleTwoEnrolled.map .call ++ sampleServed) :=
    @clockAheadIn_of_once Sha256.fips sampleEd25519 _ _ (by decide)
  have hleases := @sync_leases Sha256.fips sampleEd25519 samplePath _ hclock
  refine ⟨?_, hleases.1, hleases.2.1⟩
  rw [@SyncQueue.answers_calls Sha256.fips sampleEd25519, after_sampleTwoEnrolled, Sha256.fips_eq]
  decide +kernel

end Neoth.SyncRequests
