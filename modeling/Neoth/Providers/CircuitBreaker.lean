import Neoth.Lib.Lists
import Neoth.Lib.Machine

/-!
# The circuit breaker

`providers/circuit_breaker.rs`: a breaker opens after a number of failures in a row, lets a probe
through when it has been open for a while, and closes again when enough probes succeed.  A permit
carries nothing but its breaker, so what its outcome does depends on the state in which the breaker
happens to be.

* `Inner.tryAcquire`, `Inner.recordSuccess`, `Inner.recordFailure`: the three critical sections;
* `Circuit.step`: calls that are admitted and settled, in any order;
* `Circuit.Timely`: no outcome of a call reaches the breaker in a state that it was not admitted
  for;
* **`circuit_breaker`**: in a run of timely outcomes an open breaker admits nothing before the time,
  there is one probe at most, and only the probes of a half-open period close the breaker;
* `stale_success_closes`: the outcome of a call from before does;
* **`breaker_never_wedges`**: whatever the order of the outcomes, a breaker whose permits are
  settled admits again.
-/

open Lib.Lists Lib.Machine

namespace Neoth.Providers

/-! ## The breaker -/

inductive BreakerState
  | closed
  | opened
  | halfOpen
  deriving DecidableEq

/-- Times are nanoseconds. -/
structure BreakerConfig where
  failureThreshold : Nat
  resetAfter : Nat
  successThreshold : Nat

def BreakerConfig.default : BreakerConfig := ⟨5, 30 * 10 ^ 9, 1⟩

inductive BreakerError
  | opened (retryAfter : Nat)
  | halfOpenBusy

structure Inner where
  state : BreakerState
  consecutiveFailures : Nat
  consecutiveSuccesses : Nat
  openedAt : Option Nat
  halfOpenProbeInflight : Bool

/-- `saturating_add(1)` of a `u32`. -/
def saturatingSucc (n : Nat) : Nat := min (n + 1) (2 ^ 32 - 1)

inductive Admission
  | permit
  | error (e : BreakerError)
  | panicked

namespace Inner

def fresh : Inner := ⟨.closed, 0, 0, none, false⟩

/-- `try_acquire` and `acquire_for`.  The clock never shows a negative duration. -/
def tryAcquire (config : BreakerConfig) (now : Nat) (g : Inner) : Inner × Admission :=
  match g.state with
  | .closed => (g, .permit)
  | .halfOpen =>
    if g.halfOpenProbeInflight then (g, .error .halfOpenBusy)
    else ({ g with halfOpenProbeInflight := true }, .permit)
  | .opened =>
    match g.openedAt with
    | none => (g, .panicked)
    | some openedAt =>
      let elapsed := now - openedAt
      if config.resetAfter ≤ elapsed then
        ({ g with state := .halfOpen, halfOpenProbeInflight := true }, .permit)
      else (g, .error (.opened (config.resetAfter - elapsed)))

def recordSuccess (config : BreakerConfig) (g : Inner) : Inner :=
  let g := { g with consecutiveFailures := 0 }
  match g.state with
  | .closed => g
  | .halfOpen =>
    let g :=
      { g with
        consecutiveSuccesses := saturatingSucc g.consecutiveSuccesses
        halfOpenProbeInflight := false }
    if config.successThreshold ≤ g.consecutiveSuccesses then
      { g with state := .closed, openedAt := none, consecutiveSuccesses := 0 }
    else g
  | .opened => { g with state := .closed, openedAt := none }

def recordFailure (config : BreakerConfig) (now : Nat) (g : Inner) : Inner :=
  let g := { g with consecutiveSuccesses := 0 }
  match g.state with
  | .closed =>
    let g := { g with consecutiveFailures := saturatingSucc g.consecutiveFailures }
    if config.failureThreshold ≤ g.consecutiveFailures
      then { g with state := .opened, openedAt := some now } else g
  | .halfOpen =>
    { g with
      state := .opened, openedAt := some now, halfOpenProbeInflight := false
      consecutiveFailures := saturatingSucc g.consecutiveFailures }
  | .opened => g

/-- An attempt to acquire never closes the breaker. -/
theorem tryAcquire_closed {config : BreakerConfig} {now : Nat} {g : Inner}
    (h : (g.tryAcquire config now).1.state = .closed) : g.state = .closed := by
  unfold tryAcquire at h
  split at h
  · assumption
  · split at h
    · exact h
    · simp_all
  · split at h
    · exact h
    · dsimp only at h
      split at h
      · cases h
      · exact h

end Inner

/-! ## Calls -/

/-- An admitted call, and what the breaker was when it was admitted: how often it had opened, and
whether the call is a probe. -/
structure Permit where
  id : Nat
  openings : Nat
  probe : Bool

/-- A breaker with the permits that are not settled.  `succeeded` are the probes of the last
half-open period that have succeeded. -/
structure Circuit where
  inner : Inner
  permits : List Permit
  issued : Nat
  openings : Nat
  succeeded : List Permit

inductive BreakerEvent
  | acquire (now : Nat)
  | success (id : Nat)
  | failure (id now : Nat)
  /-- A permit is dropped without an outcome. -/
  | drop (id now : Nat)

inductive BreakerAnswer
  | admitted (permit : Permit)
  | rejected (e : BreakerError)
  | settled (permit : Permit)
  | unknown
  | panicked

namespace Circuit

def fresh : Circuit := ⟨.fresh, [], 0, 0, []⟩

def acquire (config : BreakerConfig) (s : Circuit) (now : Nat) : Circuit × BreakerAnswer :=
  match s.inner.tryAcquire config now with
  | (inner, .permit) =>
    let permit : Permit := ⟨s.issued, s.openings, inner.state = .halfOpen⟩
    ({ s with
      inner := inner, permits := s.permits ++ [permit], issued := s.issued + 1
      succeeded := if s.inner.state = .opened then [] else s.succeeded }, .admitted permit)
  | (inner, .error e) => ({ s with inner := inner }, .rejected e)
  | (inner, .panicked) => ({ s with inner := inner }, .panicked)

/-- The outcome of a permit, which is moved. -/
def settle (s : Circuit) (id : Nat) (success : Bool) (record : Inner → Inner) :
    Circuit × BreakerAnswer :=
  match s.permits.find? fun p => p.id = id with
  | none => (s, .unknown)
  | some permit =>
    let inner := record s.inner
    ({ s with
      inner := inner, permits := s.permits.filter fun p => p.id ≠ id
      openings := if s.inner.state ≠ .opened ∧ inner.state = .opened then s.openings + 1
        else s.openings
      succeeded := if success ∧ s.inner.state = .halfOpen then s.succeeded ++ [permit]
        else s.succeeded },
      .settled permit)

def step (config : BreakerConfig) (s : Circuit) : BreakerEvent → Circuit × BreakerAnswer
  | .acquire now => s.acquire config now
  | .success id => s.settle id true (Inner.recordSuccess config)
  | .failure id now => s.settle id false (Inner.recordFailure config now)
  | .drop id now => s.settle id false (Inner.recordFailure config now)

def after (config : BreakerConfig) (events : List BreakerEvent) : Circuit :=
  (run (step config) fresh events).1

/-- The probe of the present half-open period. -/
def IsProbe (s : Circuit) (permit : Permit) : Prop :=
  s.inner.state = .halfOpen ∧ permit.probe = true ∧ permit.openings = s.openings

/-- No outcome is recorded in an open breaker as a success, or in a half-open one but for its
probe. -/
def Timely (s : Circuit) : BreakerEvent → Prop
  | .acquire _ => True
  | .success id => ∀ p ∈ s.permits, p.id = id → s.inner.state = .closed ∨ s.IsProbe p
  | .failure id _ | .drop id _ => ∀ p ∈ s.permits, p.id = id →
    s.inner.state ≠ .halfOpen ∨ s.IsProbe p

/-! ## The invariant -/

structure Sound (s : Circuit) : Prop where
  nodup : ((s.succeeded ++ s.permits).map (·.id)).Nodup
  issued : ∀ p ∈ s.succeeded ++ s.permits, p.id < s.issued
  probes : (s.permits.filter (·.probe)).length = if s.inner.halfOpenProbeInflight then 1 else 0
  current : ∀ p ∈ s.permits, p.probe = true → s.IsProbe p
  openedAt : s.inner.state = .opened → ∃ t, s.inner.openedAt = some t
  idle : s.inner.state ≠ .halfOpen → s.inner.consecutiveSuccesses = 0
  counted : s.inner.state = .halfOpen →
    s.inner.consecutiveSuccesses ≤ s.succeeded.length ∧ ∀ p ∈ s.succeeded, s.IsProbe p

theorem sound_fresh : fresh.Sound :=
  ⟨by simp [fresh], by simp [fresh], rfl, by simp [fresh], by simp [fresh, Inner.fresh],
    fun _ => rfl,
    by simp [fresh, Inner.fresh]⟩

variable {s : Circuit}

/-- There is a probe only in a half-open breaker. -/
theorem Sound.probeInflight (h : s.Sound) (hstate : s.inner.state ≠ .halfOpen) :
    s.inner.halfOpenProbeInflight = false ∧ ∀ p ∈ s.permits, p.probe = false := by
  have hnone : ∀ p ∈ s.permits, p.probe = false := by
    intro p hp
    by_contra hprobe
    exact hstate (h.current p hp (by simpa using hprobe)).1
  refine ⟨?_, hnone⟩
  have hprobes := h.probes
  rw [List.filter_eq_nil_iff.mpr fun p hp => by simp [hnone p hp]] at hprobes
  by_contra hinflight
  simp [hinflight] at hprobes

theorem Sound.fresh_id (h : s.Sound) : ∀ p ∈ s.succeeded ++ s.permits, p.id ≠ s.issued :=
  fun p hp => (h.issued p hp).ne

/-- A new permit beside those there are. -/
theorem Sound.add (h : s.Sound) {succeeded : List Permit} (hsub : succeeded.Sublist s.succeeded)
    (openings : Nat) (probe : Bool) :
    ((succeeded ++ (s.permits ++ [(⟨s.issued, openings, probe⟩ : Permit)])).map (·.id)).Nodup ∧
      ∀ p ∈ succeeded ++ (s.permits ++ [(⟨s.issued, openings, probe⟩ : Permit)]),
      p.id < s.issued + 1 := by
  have hsublist : (succeeded ++ s.permits).Sublist (s.succeeded ++ s.permits) :=
    hsub.append_right s.permits
  rw [← List.append_assoc]
  constructor
  · rw [List.map_append, List.nodup_append]
    refine ⟨(hsublist.map _).nodup h.nodup, by simp, ?_⟩
    rintro a ha b hb rfl
    obtain ⟨p, hp, rfl⟩ := List.mem_map.mp ha
    exact h.fresh_id p (hsublist.subset hp) (by simpa using hb)
  · intro p hp
    rcases List.mem_append.mp hp with hp | hp
    · exact (h.issued p (hsublist.subset hp)).trans (Nat.lt_succ_self _)
    · rw [List.mem_singleton.mp hp]
      exact Nat.lt_succ_self _

variable {config : BreakerConfig}

theorem Sound.acquire (h : s.Sound) (now : Nat) : (s.acquire config now).1.Sound := by
  unfold Circuit.acquire Inner.tryAcquire
  cases hstate : s.inner.state with
  | closed =>
    dsimp only
    obtain ⟨hinflight, hnone⟩ := h.probeInflight (by simp [hstate])
    obtain ⟨hnodup, hissued⟩ := h.add (List.Sublist.refl _) s.openings false
    simp only [hstate, reduceCtorEq, decide_false, if_false]
    refine ⟨hnodup, hissued, ?_, ?_, by simp [hstate], h.idle, by simp [hstate]⟩
    · rw [List.filter_append, List.length_append, h.probes]
      rfl
    · intro p hp hprobe
      rcases List.mem_append.mp hp with hp | hp
      · exact absurd hprobe (by simp [hnone p hp])
      · rw [List.mem_singleton.mp hp] at hprobe
        cases hprobe
  | halfOpen =>
    dsimp only
    cases hinflight : s.inner.halfOpenProbeInflight with
    | true => simpa [hinflight] using h
    | false =>
      obtain ⟨hnodup, hissued⟩ := h.add (List.Sublist.refl _) s.openings true
      have hprobes := h.probes
      rw [hinflight] at hprobes
      simp only [Bool.false_eq_true, if_false, reduceCtorEq, decide_true]
      refine ⟨hnodup, hissued, ?_, ?_, by simp, by simp, fun _ => ?_⟩
      · rw [List.filter_append, List.length_append, hprobes]
        rfl
      · intro p hp hprobe
        rcases List.mem_append.mp hp with hp | hp
        · exact ⟨rfl, hprobe, (h.current p hp hprobe).2.2⟩
        · rw [List.mem_singleton.mp hp]
          exact ⟨rfl, rfl, rfl⟩
      · obtain ⟨hle, hall⟩ := h.counted hstate
        exact ⟨hle, fun p hp => ⟨rfl, (hall p hp).2⟩⟩
  | opened =>
    dsimp only
    obtain ⟨t, ht⟩ := h.openedAt hstate
    obtain ⟨hinflight, hnone⟩ := h.probeInflight (by simp [hstate])
    rw [ht]
    dsimp only
    by_cases helapsed : config.resetAfter ≤ now - t
    · obtain ⟨hnodup, hissued⟩ := h.add (List.nil_sublist _) s.openings true
      have hprobes := h.probes
      rw [hinflight] at hprobes
      simp only [helapsed, if_true, decide_true]
      refine ⟨hnodup, hissued, ?_, ?_, by simp, by simp, fun _ => ⟨?_, by simp⟩⟩
      · rw [List.filter_append, List.length_append, hprobes]
        rfl
      · intro p hp hprobe
        rcases List.mem_append.mp hp with hp | hp
        · exact absurd hprobe (by simp [hnone p hp])
        · rw [List.mem_singleton.mp hp]
          exact ⟨rfl, rfl, rfl⟩
      · exact (h.idle (by simp [hstate])).le
    · simpa [helapsed] using h

/-! ## Outcomes -/

/-- What the outcome of a permit does, if there is such a permit. -/
theorem settle_cases (s : Circuit) (id : Nat) (success : Bool) (record : Inner → Inner) :
    ((∀ p ∈ s.permits, p.id ≠ id) ∧ s.settle id success record = (s, .unknown)) ∨
      ∃ p ∈ s.permits, p.id = id ∧ s.settle id success record =
        ({ s with
          inner := record s.inner, permits := s.permits.filter fun q => q.id ≠ p.id
          openings := if s.inner.state ≠ .opened ∧ (record s.inner).state = .opened
            then s.openings + 1 else s.openings
          succeeded := if success ∧ s.inner.state = .halfOpen then s.succeeded ++ [p]
            else s.succeeded },
          .settled p) := by
  unfold settle
  cases hfind : s.permits.find? fun p => p.id = id with
  | none => exact .inl ⟨by simpa using hfind, rfl⟩
  | some p =>
    have hid : p.id = id := by
      simpa using List.find?_some (p := fun p : Permit => decide (p.id = id)) hfind
    subst hid
    exact .inr ⟨p, List.mem_of_find?_eq_some hfind, rfl, rfl⟩

variable {p : Permit}

/-- The permits without one of them. -/
theorem Sound.rest (h : s.Sound) (hp : p ∈ s.permits) :
    s.permits.Perm (p :: s.permits.filter fun q => q.id ≠ p.id) := by
  have hnodup := h.nodup
  rw [List.map_append] at hnodup
  exact perm_cons_filter (List.nodup_append.mp hnodup).2.1 hp

theorem Sound.probes_rest (h : s.Sound) (hp : p ∈ s.permits) :
    ((s.permits.filter fun q => q.id ≠ p.id).filter (·.probe)).length + (if p.probe then 1 else 0) =
      if s.inner.halfOpenProbeInflight then 1 else 0 := by
  rw [← h.probes, ((h.rest hp).filter (·.probe)).length_eq, List.filter_cons]
  split <;> simp

/-- Permits are moved from those that are not settled to those that have succeeded, or go. -/
theorem Sound.ids_settled (h : s.Sound) (hp : p ∈ s.permits) :
    (((s.succeeded ++ [p]) ++ s.permits.filter fun q => q.id ≠ p.id).map (·.id)).Nodup ∧
      (∀ q ∈ (s.succeeded ++ [p]) ++ s.permits.filter (fun q => q.id ≠ p.id), q.id < s.issued) := by
  have hperm : (s.succeeded ++ s.permits).Perm
      ((s.succeeded ++ [p]) ++ s.permits.filter fun q => q.id ≠ p.id) := by
    rw [List.append_assoc]
    exact (h.rest hp).append_left s.succeeded
  exact ⟨(hperm.map _).nodup_iff.mp h.nodup, fun q hq => h.issued q (hperm.mem_iff.mpr hq)⟩

theorem Sound.ids_dropped (h : s.Sound) (p : Permit) :
    ((s.succeeded ++ s.permits.filter fun q => q.id ≠ p.id).map (·.id)).Nodup ∧
      (∀ q ∈ s.succeeded ++ s.permits.filter (fun q => q.id ≠ p.id), q.id < s.issued) := by
  have hsub : (s.succeeded ++ s.permits.filter fun q => q.id ≠ p.id).Sublist
      (s.succeeded ++ s.permits) :=
    List.filter_sublist.append_left s.succeeded
  exact ⟨(hsub.map _).nodup h.nodup, fun q hq => h.issued q (hsub.subset hq)⟩

theorem mem_rest {p q : Permit} (hq : q ∈ s.permits.filter fun q => q.id ≠ p.id) : q ∈ s.permits :=
  (List.mem_filter.mp hq).1

/-- When the probe is settled no other is left. -/
theorem Sound.none_rest (h : s.Sound) (hp : p ∈ s.permits) (hprobe : p.probe = true) :
    ((s.permits.filter fun q => q.id ≠ p.id).filter (·.probe)).length = 0 := by
  have hrest := h.probes_rest hp
  rw [if_pos hprobe] at hrest
  split at hrest <;> omega

theorem none_of_filter {l : List Permit} (h : (l.filter (·.probe)).length = 0) :
    ∀ p ∈ l, p.probe = false := by
  intro p hp
  by_contra hprobe
  have hmem : p ∈ l.filter (·.probe) := List.mem_filter.mpr ⟨hp, by simpa using hprobe⟩
  rw [List.length_eq_zero_iff.mp h] at hmem
  cases hmem

theorem Sound.success (h : s.Sound) {id : Nat} (htimely : s.Timely (.success id)) :
    (s.settle id true (Inner.recordSuccess config)).1.Sound := by
  obtain ⟨-, heq⟩ | ⟨p, hp, hid, heq⟩ := s.settle_cases id true (Inner.recordSuccess config)
  · rw [heq]
    exact h
  rw [heq]
  obtain hstate | ⟨hstate, hprobe, hopenings⟩ := htimely p hp hid
  · -- a closed breaker only forgets the failures
    obtain ⟨hinflight, hnone⟩ := h.probeInflight (by simp [hstate])
    obtain ⟨hnodup, hissued⟩ := h.ids_dropped p
    have hprobes := h.probes_rest hp
    rw [hnone p hp, hinflight] at hprobes
    simp only [Inner.recordSuccess, hstate, reduceCtorEq, and_false, if_false]
    refine ⟨hnodup, hissued, by simpa [hinflight] using hprobes, ?_, by
      simp, fun _ => h.idle (by simp [hstate]),
      by simp⟩
    intro q hq hqprobe
    exact absurd hqprobe (by simp [hnone q (mem_rest hq)])
  · obtain ⟨hnodup, hissued⟩ := h.ids_settled hp
    have hnone := none_of_filter (h.none_rest hp hprobe)
    have hlength := h.none_rest hp hprobe
    obtain ⟨hle, hall⟩ := h.counted hstate
    have hsucc : saturatingSucc s.inner.consecutiveSuccesses ≤ (s.succeeded ++ [p]).length := by
      simp only [saturatingSucc, List.length_append, List.length_singleton]
      omega
    simp only [Inner.recordSuccess, hstate, and_self, if_true]
    by_cases hthreshold : config.successThreshold ≤ saturatingSucc s.inner.consecutiveSuccesses
    · simp only [hthreshold, if_true, reduceCtorEq, and_false, if_false]
      refine ⟨hnodup, hissued, by simpa using hlength, ?_, by simp, by simp, by simp⟩
      intro q hq hqprobe
      exact absurd hqprobe (by simp [hnone q hq])
    · simp only [hthreshold, if_false, reduceCtorEq, and_false]
      refine ⟨hnodup, hissued, by simpa using hlength, ?_, by simp, by simp, fun _ => ⟨hsucc, ?_⟩⟩
      · intro q hq hqprobe
        exact absurd hqprobe (by simp [hnone q hq])
      · intro q hq
        rcases List.mem_append.mp hq with hq | hq
        · exact ⟨rfl, (hall q hq).2⟩
        · rw [List.mem_singleton.mp hq]
          exact ⟨rfl, hprobe, hopenings⟩

theorem Sound.failure (h : s.Sound) {id now : Nat} (htimely : s.Timely (.failure id now)) :
    (s.settle id false (Inner.recordFailure config now)).1.Sound := by
  obtain ⟨-, heq⟩ | ⟨p, hp, hid, heq⟩ := s.settle_cases id false (Inner.recordFailure config now)
  · rw [heq]
    exact h
  rw [heq]
  obtain ⟨hnodup, hissued⟩ := h.ids_dropped p
  have hprobes := h.probes_rest hp
  cases hstate : s.inner.state with
  | closed =>
    obtain ⟨hinflight, hnone⟩ := h.probeInflight (by simp [hstate])
    rw [hnone p hp, hinflight] at hprobes
    have hrest : ∀ q ∈ s.permits.filter (fun q => q.id ≠ p.id), q.probe ≠ true := by
      intro q hq
      simp [hnone q (mem_rest hq)]
    simp only [Inner.recordFailure, hstate, Bool.false_eq_true, false_and, if_false]
    by_cases hthreshold : config.failureThreshold ≤ saturatingSucc s.inner.consecutiveFailures
    · simp only [hthreshold, if_true]
      exact ⟨hnodup, hissued, by simpa [hinflight] using hprobes,
        fun q hq hqprobe => absurd hqprobe (hrest q hq), fun _ => ⟨now, rfl⟩, by simp, by simp⟩
    · simp only [hthreshold, if_false]
      exact ⟨hnodup, hissued, by simpa [hinflight] using hprobes,
        fun q hq hqprobe => absurd hqprobe (hrest q hq),
        by simp, by simp, by simp⟩
  | halfOpen =>
    obtain hother | ⟨-, hprobe, -⟩ := htimely p hp hid
    · exact absurd hstate hother
    have hnone := none_of_filter (h.none_rest hp hprobe)
    have hlength := h.none_rest hp hprobe
    simp only [Inner.recordFailure, hstate, Bool.false_eq_true, false_and, if_false]
    exact ⟨hnodup, hissued, by simpa using hlength,
      fun q hq hqprobe => absurd hqprobe (by simp [hnone q hq]), fun _ => ⟨now, rfl⟩, by
        simp, by simp⟩
  | opened =>
    obtain ⟨hinflight, hnone⟩ := h.probeInflight (by simp [hstate])
    obtain ⟨t, ht⟩ := h.openedAt hstate
    rw [hnone p hp, hinflight] at hprobes
    simp only [Inner.recordFailure, hstate, Bool.false_eq_true, false_and, if_false]
    exact ⟨hnodup, hissued, by simpa [hinflight] using hprobes,
      fun q hq hqprobe => absurd hqprobe (by simp [hnone q (mem_rest hq)]), fun _ => ⟨t, ht⟩, by
        simp, by simp⟩

variable {event : BreakerEvent}

theorem Sound.step (h : s.Sound) (htimely : s.Timely event) : (s.step config event).1.Sound := by
  cases event with
  | acquire now => exact h.acquire now
  | success id => exact h.success htimely
  | failure id now => exact h.failure htimely
  | drop id now => exact h.failure htimely

/-! ## Runs -/

/-- Every event of the run is timely. -/
def TimelyIn (config : BreakerConfig) (events : List BreakerEvent) : Prop :=
  ∀ before event later, events = before ++ event :: later → (after config before).Timely event

variable {events : List BreakerEvent}

theorem sound_after (htimely : TimelyIn config events) : (after config events).Sound :=
  run_invariant_of_meets (fun _ _ h hmeets => h.step hmeets) fresh sound_fresh events htimely

theorem after_append (config : BreakerConfig) (before later : List BreakerEvent) :
    after config (before ++ later) = (run (step config) (after config before) later).1 := by
  simp only [after, run_append]

/-- The event opens the breaker at `t`. -/
def OpensAt (config : BreakerConfig) (s : Circuit) (event : BreakerEvent) (t : Nat) : Prop :=
  s.inner.state ≠ .opened ∧ (s.step config event).1.inner.state = .opened ∧
    (s.step config event).1.inner.openedAt = some t

/-- No reading of the clock shows the time to be over. -/
def Early (config : BreakerConfig) (t : Nat) : BreakerEvent → Prop
  | .acquire now => now - t < config.resetAfter
  | _ => True

/-- An open breaker stays open, and answers with a rejection. -/
theorem stays_open {t : Nat} (hstate : s.inner.state = .opened) (ht : s.inner.openedAt = some t)
    (htimely : s.Timely event) (hearly : Early config t event) :
    (s.step config event).1.inner.state = .opened ∧
    (s.step config event).1.inner.openedAt = some t ∧
      ∀ permit, (s.step config event).2 ≠ .admitted permit := by
  have hfailure : ∀ id now, (s.settle id false (Inner.recordFailure config now)).1.inner.state =
      .opened ∧
      (s.settle id false (Inner.recordFailure config now)).1.inner.openedAt = some t ∧
      ∀ permit, (s.settle id false (Inner.recordFailure config now)).2 ≠ .admitted permit := by
    intro id now
    obtain ⟨-, heq⟩ | ⟨p, -, -, heq⟩ := s.settle_cases id false (Inner.recordFailure config now)
    · rw [heq]
      exact ⟨hstate, ht, by simp⟩
    · rw [heq]
      simp [Inner.recordFailure, hstate, ht]
  cases event with
  | acquire now =>
    have hnot : ¬ config.resetAfter ≤ now - t := Nat.not_le.mpr hearly
    simp [step, acquire, Inner.tryAcquire, hstate, ht, hnot]
  | success id =>
    obtain ⟨-, heq⟩ | ⟨p, hp, hid, -⟩ := s.settle_cases id true (Inner.recordSuccess config)
    · simp only [step, heq]
      exact ⟨hstate, ht, by simp⟩
    · obtain hclosed | ⟨hhalf, -, -⟩ := htimely p hp hid
      · rw [hstate] at hclosed
        cases hclosed
      · rw [hstate] at hhalf
        cases hhalf
  | failure id now => exact hfailure id now
  | drop id now => exact hfailure id now

theorem acquire_inner (config : BreakerConfig) (s : Circuit) (now : Nat) :
    (s.acquire config now).1.inner = (s.inner.tryAcquire config now).1 := by
  unfold acquire
  split <;> rename_i heq <;> rw [heq]

/-- The breaker closes in a half-open period only, by the last of enough probes of that period. -/
theorem closes_by_probes (h : s.Sound) (htimely : s.Timely event) (hstate : s.inner.state ≠ .closed)
    (hcloses : (s.step config event).1.inner.state = .closed) :
    ∃ p ∈ s.permits, event = .success p.id ∧
    (s.step config event).1.succeeded = s.succeeded ++ [p] ∧
      (∀ q ∈ s.succeeded ++ [p], s.IsProbe q) ∧ ((s.succeeded ++ [p]).map (·.id)).Nodup ∧
      config.successThreshold ≤ (s.succeeded ++ [p]).length := by
  have hfailure : ∀ id now, (s.settle id false (Inner.recordFailure config now)).1.inner.state ≠
      .closed := by
    intro id now
    obtain ⟨-, heq⟩ | ⟨p, -, -, heq⟩ := s.settle_cases id false (Inner.recordFailure config now)
    · rwa [heq]
    · rw [heq]
      cases hinner : s.inner.state <;> simp_all [Inner.recordFailure]
  cases event with
  | acquire now =>
    simp only [step, acquire_inner] at hcloses
    exact absurd (Inner.tryAcquire_closed hcloses) hstate
  | success id =>
    obtain ⟨-, heq⟩ | ⟨p, hp, hid, heq⟩ := s.settle_cases id true (Inner.recordSuccess config)
    · simp only [step, heq] at hcloses
      exact absurd hcloses hstate
    obtain hclosed | hprobe := htimely p hp hid
    · exact absurd hclosed hstate
    subst hid
    obtain ⟨hle, hall⟩ := h.counted hprobe.1
    have hids := (h.ids_settled hp).1
    rw [List.map_append] at hids
    refine ⟨p, hp, rfl, ?_, ?_, (List.nodup_append.mp hids).1, ?_⟩
    · simp [step, heq, hprobe.1]
    · intro q hq
      rcases List.mem_append.mp hq with hq | hq
      · exact hall q hq
      · rwa [List.mem_singleton.mp hq]
    · simp only [step, heq, Inner.recordSuccess, hprobe.1] at hcloses
      split at hcloses
      · rename_i hthreshold
        simp only [List.length_append, List.length_singleton]
        simp only [saturatingSucc] at hthreshold
        omega
      · simp at hcloses
  | failure id now => exact absurd hcloses (hfailure id now)
  | drop id now => exact absurd hcloses (hfailure id now)

/-- What a circuit breaker is for: between its opening and the end of the time no call is admitted,
one probe is under way at most, and it closes only when enough probes of the half-open period have
succeeded. -/
structure Protects (config : BreakerConfig) (events : List BreakerEvent) : Prop where
  rejects : ∀ before opening mid event later t,
    events = before ++ opening :: (mid ++ event :: later) →
    OpensAt config (after config before) opening t → (∀ e ∈ mid ++ [event], Early config t e) →
    ∀ permit, ((after config (before ++ opening :: mid)).step config event).2 ≠ .admitted permit
  oneProbe : ((after config events).permits.filter (·.probe)).length ≤ 1
  closes : ∀ before event later, events = before ++ event :: later →
    (after config before).inner.state ≠ .closed →
    ((after config before).step config event).1.inner.state = .closed →
    ∃ probes : List Permit, config.successThreshold ≤ probes.length ∧ (probes.map (·.id)).Nodup ∧
      (∀ p ∈ probes, (after config before).IsProbe p) ∧
      ((after config before).step config event).1.succeeded = probes ∧
      ∃ p ∈ probes, event = .success p.id ∧ p ∈ (after config before).permits

/-- **A breaker protects in a run of timely outcomes.** -/
theorem circuit_breaker (config : BreakerConfig) (events : List BreakerEvent)
    (htimely : TimelyIn config events) : Protects config events := by
  refine ⟨?_, ?_, ?_⟩
  · rintro before opening mid event later t rfl ⟨-, hopened, ht⟩ hearly
    have hstep : after config (before ++ [opening]) =
        ((after config before).step config opening).1 := by
      rw [after_append]
      rfl
    have hopen : (after config (before ++ opening :: mid)).inner.state = .opened ∧
        (after config (before ++ opening :: mid)).inner.openedAt = some t := by
      rw [List.append_cons, after_append]
      refine run_invariant_of_meets
        (P := fun s : Circuit => s.inner.state = .opened ∧ s.inner.openedAt = some t)
        (M := fun s e => s.Timely e ∧ Early config t e) ?_ _
          (by rw [hstep]; exact ⟨hopened, ht⟩) mid ?_
      · intro s e hs hmeets
        obtain ⟨hstate, ht, -⟩ := stays_open hs.1 hs.2 hmeets.1 hmeets.2
        exact ⟨hstate, ht⟩
      · rintro pre e post rfl
        rw [← after_append]
        exact ⟨htimely (before ++ [opening] ++ pre) e (post ++ event :: later) (by simp),
          hearly e (by simp)⟩
    have hnow := htimely (before ++ opening :: mid) event later (by simp)
    exact (stays_open hopen.1 hopen.2 hnow (hearly event (by simp))).2.2
  · rw [(sound_after htimely).probes]
    split <;> omega
  · rintro before event later rfl hstate hcloses
    have hbefore : TimelyIn config before := by
      rintro pre e post rfl
      exact htimely pre e (post ++ event :: later) (by simp)
    obtain ⟨p, hp, hevent, hsucceeded, hprobes, hnodup, hthreshold⟩ :=
      closes_by_probes (sound_after hbefore) (htimely before event later rfl) hstate hcloses
    exact ⟨_, hthreshold, hnodup, hprobes, hsucceeded, p, by simp, hevent, hp⟩

/-! ## A call from before the opening -/

/-- The breaker opens after five failures in a row, recovers through a probe, and closes. -/
def sampleRecovery : List BreakerEvent :=
  [.acquire 0, .acquire 0, .acquire 0, .acquire 0, .acquire 0, .failure 0 1, .failure 1 1,
    .failure 2 1, .failure 3 1, .failure 4 1, .acquire (30 * 10 ^ 9 + 1), .success 5]

/-- Timeliness as a check. -/
def timely (s : Circuit) : BreakerEvent → Bool
  | .acquire _ => true
  | .success id => s.permits.all fun p => p.id != id || s.inner.state == .closed ||
      (s.inner.state == .halfOpen && p.probe && p.openings == s.openings)
  | .failure id _ | .drop id _ => s.permits.all fun p => p.id != id || s.inner.state != .halfOpen ||
      (s.inner.state == .halfOpen && p.probe && p.openings == s.openings)

theorem timely_iff (s : Circuit) (event : BreakerEvent) : s.timely event = true ↔
    s.Timely event := by
  cases event <;> simp [timely, Timely, IsProbe, imp_iff_not_or, or_assoc, and_assoc]

def timelyRun (config : BreakerConfig) : Circuit → List BreakerEvent → Bool
  | _, [] => true
  | s, event :: events => s.timely event && timelyRun config (s.step config event).1 events

theorem timelyIn_of_timelyRun (h : timelyRun config fresh events = true) :
    TimelyIn config events := by
  suffices hrun : ∀ (s : Circuit), timelyRun config s events = true → ∀ before event later,
      events = before ++ event :: later →
      (run (step config) s before).1.Timely event from hrun fresh h
  clear h
  induction events with
  | nil => exact fun _ _ => meets_nil
  | cons first events ih =>
    intro s h
    obtain ⟨hfirst, hrest⟩ := Bool.and_eq_true_iff.mp h
    exact meets_cons ((timely_iff s first).mp hfirst) (ih _ hrest)

theorem circuit_breaker_sample :
    Protects .default sampleRecovery ∧ (after .default sampleRecovery).inner.state = .closed :=
  ⟨circuit_breaker .default sampleRecovery (timelyIn_of_timelyRun (by decide)), by decide⟩

/-- The sixth of six calls is answered when the other five have opened the breaker. -/
def sampleStale : List BreakerEvent :=
  [.acquire 0, .acquire 0, .acquire 0, .acquire 0, .acquire 0, .acquire 0, .failure 0 1,
    .failure 1 1, .failure 2 1, .failure 3 1, .failure 4 1, .success 5, .acquire 2]

theorem stale_success_closes :
    ¬ ∀ (config : BreakerConfig) (events : List BreakerEvent), Protects config events := by
  intro h
  have hclosed := (h .default sampleStale).closes (sampleStale.take 11) (.success 5)
    [.acquire 2] rfl (by decide) (by decide)
  obtain ⟨probes, -, -, hprobes, -, p, hp, -⟩ := hclosed
  have hhalf := (hprobes p hp).1
  revert hhalf
  decide

end Circuit

/-! ## Whatever the order of the outcomes -/

namespace Inner

/-- An open breaker has been so, and since the same time, or the time has just been noted. -/
def NotesOpening (g g' : Inner) : Prop :=
  g'.state = .opened →
    (g.state = .opened ∧ g'.openedAt = g.openedAt) ∨ (g.state ≠ .opened ∧ ∃ t, g'.openedAt = some t)

theorem notes_tryAcquire (config : BreakerConfig) (now : Nat) (g : Inner) :
    NotesOpening g (g.tryAcquire config now).1 := by
  intro hopened
  suffices hsame : (g.tryAcquire config now).1 = g by
    rw [hsame] at hopened ⊢
    exact .inl ⟨hopened, rfl⟩
  unfold tryAcquire at hopened ⊢
  split <;> rename_i hstate
  · rfl
  · simp only [hstate] at hopened
    split at hopened
    · rw [if_pos ‹_›]
    · cases hopened
  · simp only [hstate] at hopened
    split
    · rfl
    · rename_i t ht
      simp only [ht] at hopened ⊢
      split at hopened
      · cases hopened
      · rw [if_neg ‹_›]

theorem notes_success (config : BreakerConfig) (g : Inner) :
    NotesOpening g (g.recordSuccess config) := by
  intro hopened
  cases hstate : g.state with
  | closed => simp [recordSuccess, hstate] at hopened
  | halfOpen =>
    simp only [recordSuccess, hstate] at hopened
    split at hopened <;> cases hopened
  | opened => simp [recordSuccess, hstate] at hopened

theorem notes_failure (config : BreakerConfig) (now : Nat) (g : Inner) :
    NotesOpening g (g.recordFailure config now) := by
  intro hopened
  cases hstate : g.state with
  | closed =>
    simp only [recordFailure, hstate] at hopened ⊢
    split at hopened
    · rename_i hthreshold
      simp [hthreshold]
    · cases hopened
  | halfOpen => simp [recordFailure, hstate]
  | opened => simp [recordFailure, hstate]

variable {config : BreakerConfig}

/-- An outcome in a half-open breaker ends the probe, whatever permit it is the outcome of. -/
theorem ends_of_success {g : Inner} (h : g.halfOpenProbeInflight = true → g.state = .halfOpen) :
    (g.recordSuccess config).halfOpenProbeInflight = false := by
  cases hstate : g.state with
  | closed => simpa [recordSuccess, hstate] using h
  | halfOpen =>
    simp only [recordSuccess, hstate]
    split <;> rfl
  | opened => simpa [recordSuccess, hstate] using h

theorem ends_of_failure {now : Nat} {g : Inner}
    (h : g.halfOpenProbeInflight = true → g.state = .halfOpen) :
    (g.recordFailure config now).halfOpenProbeInflight = false := by
  cases hstate : g.state with
  | closed =>
    have hnone : g.halfOpenProbeInflight = false := by simpa [hstate] using h
    simp only [recordFailure, hstate]
    split <;> exact hnone
  | halfOpen => simp only [recordFailure, hstate]
  | opened => simpa [recordFailure, hstate] using h

end Inner

namespace Circuit

/-- The last time that the breaker has opened in a run. -/
def LastOpening (config : BreakerConfig) (events : List BreakerEvent) (t : Nat) : Prop :=
  ∃ before opening later, events = before ++ opening :: later ∧
  OpensAt config (after config before) opening t ∧
    ∀ pre event post t', later = pre ++ event :: post →
      ¬ OpensAt config (after config (before ++ opening :: pre)) event t'

/-- A probe under way has a permit, and an open breaker knows when it has opened. -/
structure Unwedged (config : BreakerConfig) (events : List BreakerEvent) (s : Circuit) : Prop where
  inflight : s.inner.halfOpenProbeInflight = true → s.inner.state = .halfOpen ∧ s.permits ≠ []
  opened : s.inner.state = .opened → ∃ t, s.inner.openedAt = some t ∧ LastOpening config events t

theorem unwedged_fresh (config : BreakerConfig) : Unwedged config [] fresh :=
  ⟨by simp [fresh, Inner.fresh], by simp [fresh, Inner.fresh]⟩

variable {config : BreakerConfig} {event : BreakerEvent} {events : List BreakerEvent}

theorem LastOpening.of_opensAt {t : Nat} (h : OpensAt config (after config events) event t) :
    LastOpening config (events ++ [event]) t :=
  ⟨events, event, [], rfl, h, fun pre e post t' hnil => by simp at hnil⟩

/-- An event that finds the breaker open is no opening. -/
theorem LastOpening.snoc {t : Nat} (h : LastOpening config events t)
    (hopened : (after config events).inner.state = .opened) :
      LastOpening config (events ++ [event]) t := by
  obtain ⟨before, opening, later, rfl, hopens, hlast⟩ := h
  refine ⟨before, opening, later ++ [event], by simp, hopens, ?_⟩
  intro pre e post t' hsplit hopens'
  rcases List.eq_nil_or_concat post with rfl | ⟨post, last, rfl⟩
  · obtain ⟨rfl, -⟩ := List.append_inj' hsplit rfl
    exact hopens'.1 hopened
  · rw [List.concat_eq_append, ← List.cons_append, ← List.append_assoc] at hsplit
    obtain ⟨hlater, -⟩ := List.append_inj' hsplit rfl
    exact hlast pre e post t' hlater hopens'

variable {s : Circuit}

theorem notes_settle {record : Inner → Inner} (h : Inner.NotesOpening s.inner (record s.inner))
    (id : Nat)
    (success : Bool) : Inner.NotesOpening s.inner (s.settle id success record).1.inner := by
  obtain ⟨-, heq⟩ | ⟨p, -, -, heq⟩ := s.settle_cases id success record
  · rw [heq]
    exact fun hopened => .inl ⟨hopened, rfl⟩
  · rw [heq]
    exact h

/-- How a breaker comes to be open. -/
theorem notes_step (config : BreakerConfig) (s : Circuit) (event : BreakerEvent) :
    Inner.NotesOpening s.inner (s.step config event).1.inner := by
  cases event with
  | acquire now =>
    simp only [step, acquire_inner]
    exact s.inner.notes_tryAcquire config now
  | success id => exact notes_settle (s.inner.notes_success config) id true
  | failure id now | drop id now => exact notes_settle (s.inner.notes_failure config now) id false

theorem inflight_of_step
    (h : s.inner.halfOpenProbeInflight = true → s.inner.state = .halfOpen ∧ s.permits ≠ [])
    (hinflight : (s.step config event).1.inner.halfOpenProbeInflight = true) :
    (s.step config event).1.inner.state = .halfOpen ∧ (s.step config event).1.permits ≠ [] := by
  have hsettle : ∀ id success (record : Inner → Inner),
      (record s.inner).halfOpenProbeInflight = false →
      (s.settle id success record).1.inner.halfOpenProbeInflight = true →
      (s.settle id success record).1.inner.state = .halfOpen ∧
      (s.settle id success record).1.permits ≠ [] := by
    intro id success record hends hinflight
    obtain ⟨-, heq⟩ | ⟨p, -, -, heq⟩ := s.settle_cases id success record
    · rw [heq] at hinflight ⊢
      exact h hinflight
    · rw [heq] at hinflight
      cases hends.symm.trans hinflight
  cases event with
  | acquire now =>
    revert hinflight
    unfold step acquire Inner.tryAcquire
    cases hstate : s.inner.state with
    | closed => exact fun hinflight => absurd (h hinflight).1 (by simp [hstate])
    | halfOpen =>
      cases hprobe : s.inner.halfOpenProbeInflight with
      | true => exact fun _ => by simpa [hprobe, hstate] using h hprobe
      | false => simp
    | opened =>
      intro hinflight
      cases ht : s.inner.openedAt with
      | none =>
        simp only [ht] at hinflight
        exact absurd (h hinflight).1 (by simp [hstate])
      | some t =>
        by_cases hover : config.resetAfter ≤ now - t
        · simp [hover]
        · simp only [ht, hover, if_false] at hinflight
          exact absurd (h hinflight).1 (by simp [hstate])
  | success id => exact hsettle id true _ (Inner.ends_of_success fun hs => (h hs).1) hinflight
  | failure id now | drop id now =>
    exact hsettle id false _ (Inner.ends_of_failure fun hs => (h hs).1) hinflight

theorem unwedged_after (config : BreakerConfig) (events : List BreakerEvent) :
    Unwedged config events (after config events) := by
  refine run_history fresh (unwedged_fresh config) (fun events event h => ?_) events
  refine ⟨inflight_of_step h.inflight, fun hopened => ?_⟩
  obtain ⟨hstate, hsame⟩ | ⟨hstate, t, ht⟩ := notes_step config (after config events) event hopened
  · obtain ⟨t, ht, hlast⟩ := h.opened hstate
    exact ⟨t, hsame.trans ht, hlast.snoc hstate⟩
  · exact ⟨t, ht, .of_opensAt ⟨hstate, hopened, ht⟩⟩

theorem acquire_ne_panicked {now : Nat}
    (h : s.inner.state = .opened → ∃ t, s.inner.openedAt = some t) :
    (s.acquire config now).2 ≠ .panicked := by
  have hanswer : (s.inner.tryAcquire config now).2 ≠ .panicked := by
    unfold Inner.tryAcquire
    cases hstate : s.inner.state with
    | closed => simp
    | halfOpen =>
      dsimp only
      split <;> simp
    | opened =>
      obtain ⟨t, ht⟩ := h hstate
      simp only [ht]
      split <;> simp
  unfold acquire
  split
  · simp
  · simp
  · rename_i heq
    exact absurd (congrArg Prod.snd heq) hanswer

/-- No order of the outcomes keeps a provider out for ever. -/
structure NeverWedges (config : BreakerConfig) (events : List BreakerEvent) : Prop where
  inflight : (after config events).inner.halfOpenProbeInflight = true →
    (after config events).permits ≠ []
  openedAt : (after config events).inner.state = .opened → ∃ t,
    (after config events).inner.openedAt = some t
  neverPanics : ∀ now, ((after config events).acquire config now).2 ≠ .panicked
  admits : (after config events).permits = [] → ∀ now,
    (∀ t, LastOpening config events t → t + config.resetAfter ≤ now) →
    ∃ permit, ((after config events).acquire config now).2 = .admitted permit

/-- **A breaker never wedges, in a run of outcomes of any calls.** -/
theorem breaker_never_wedges (config : BreakerConfig) (events : List BreakerEvent) :
    NeverWedges config events := by
  have h := unwedged_after config events
  refine ⟨fun hinflight => (h.inflight hinflight).2, fun hopened => ?_, fun now => ?_,
    fun hsettled now hnow => ?_⟩
  · obtain ⟨t, ht, -⟩ := h.opened hopened
    exact ⟨t, ht⟩
  · refine acquire_ne_panicked fun hopened => ?_
    obtain ⟨t, ht, -⟩ := h.opened hopened
    exact ⟨t, ht⟩
  · have hidle : (after config events).inner.halfOpenProbeInflight = false := by
      by_contra hinflight
      exact (h.inflight (by simpa using hinflight)).2 hsettled
    unfold acquire Inner.tryAcquire
    cases hstate : (after config events).inner.state with
    | closed => simp
    | halfOpen => simp [hidle]
    | opened =>
      obtain ⟨t, ht, hlast⟩ := h.opened hstate
      have hover : config.resetAfter ≤ now - t := Nat.le_sub_of_add_le' (hnow t hlast)
      simp [ht, hover]

end Circuit

end Neoth.Providers
