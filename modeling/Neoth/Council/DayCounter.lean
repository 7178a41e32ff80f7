import Neoth.Lib.Machine

/-!
# The rolling cap on convenes

`council/day_counter.rs`: the log lists the times of the convenes, and an attempt is admitted if
fewer than 500 of them lie in the last day.  A log that cannot be read or parsed is renamed, and the
attempt is refused; the attempt after it finds no log.

* `DayCounter.step`: attempts under the file lock, and changes of the log from outside;
* `Retains`: no step loses a time of the last day;
* `Sound`: the log lists these times, and no window holds more than the cap;
* **`convene_cap`**: in runs that retain the times, at most 500 attempts are admitted in a day;
* `cap_lost_by_quarantine`: the five hundred and first, after a log that did not parse.
-/

open Lib.Machine

namespace Neoth.Council

/-! ## The log -/

def maxConvenesPer24h : Nat := 500

def windowSecs : Int := 24 * 60 * 60

inductive AdmitResult
  | admitted
  | capped
  | stateInvalid

/-- The log as an attempt finds it: bytes that do not parse are all the same to it. -/
inductive ConveneLog
  | missing
  | unreadable
  | corrupt
  | times (timestamps : List Int)

/-- How the append ends: the new log is in place, the old one is, or the process dies when the new
one is. -/
inductive Append
  | written
  | failed
  | crashed

/-- What the system calls of an attempt do. -/
structure AttemptEnv where
  lock : Bool
  read : Bool
  rename : Bool
  append : Append

def minUnix : Int := -2 ^ 63

/-- `now_unix - WINDOW_SECS` in 64 bits. -/
def cutoff (now : Int) : Int := if now - windowSecs < minUnix then now - windowSecs + 2 ^ 64
    else now - windowSecs

inductive LoadFail
  | missing
  | corrupt

def loadStrict (log : ConveneLog) (env : AttemptEnv) (now : Int) : Except LoadFail (List Int) :=
  if env.read then
    match log with
    | .missing => .error .missing
    | .unreadable => .error .corrupt
    | .corrupt => .error .corrupt
    | .times timestamps => .ok (timestamps.filter fun t => cutoff now < t)
  else .error .corrupt

/-- `quarantine_corrupt`: when the rename fails the log stays. -/
def quarantineCorrupt (log : ConveneLog) (env : AttemptEnv) : ConveneLog :=
  if env.rename then .missing else log

/-- The log, the last reading of the clock, the times that were written to the log, and those of
them whose attempt was told so. -/
structure DayCounter where
  log : ConveneLog
  clock : Int
  recorded : List Int
  admitted : List Int

inductive ConveneEvent
  | attempt (now : Int) (env : AttemptEnv)
  /-- The log is changed from outside, or by a crash. -/
  | damage (log : ConveneLog)

namespace DayCounter

def fresh : DayCounter := ⟨.missing, minUnix, [], []⟩

/-- Steps 3 and 4 of an attempt, on the times of the window. -/
def append (s : DayCounter) (now : Int) (env : AttemptEnv) (timestamps : List Int) :
    DayCounter × Option AdmitResult :=
  if maxConvenesPer24h ≤ timestamps.length then ({ s with clock := now }, some .capped)
  else
    match env.append with
    | .written =>
      (⟨.times (timestamps ++ [now]), now, s.recorded ++ [now], s.admitted ++ [now]⟩,
        some .admitted)
    | .failed => ({ s with clock := now }, some .stateInvalid)
    | .crashed => (⟨.times (timestamps ++ [now]), now, s.recorded ++ [now], s.admitted⟩, none)

/-- An attempt; it has no result when the process dies. -/
def tryAdmitConvene (s : DayCounter) (now : Int) (env : AttemptEnv) :
    DayCounter × Option AdmitResult :=
  if env.lock then
    match loadStrict s.log env now with
    | .ok timestamps => s.append now env timestamps
    | .error .missing => s.append now env []
    | .error .corrupt =>
      ({ s with log := quarantineCorrupt s.log env, clock := now }, some .stateInvalid)
  else ({ s with clock := now }, some .stateInvalid)

def step (s : DayCounter) : ConveneEvent → DayCounter × Option AdmitResult
  | .attempt now env => s.tryAdmitConvene now env
  | .damage log => ({ s with log := log }, none)

def after (events : List ConveneEvent) : DayCounter := (run step fresh events).1

/-! ## The condition -/

/-- The times of the last day. -/
def live (s : DayCounter) (now : Int) : List Int := s.recorded.filter fun t => now - windowSecs < t

/-- The log cannot be read, or not parsed. -/
def Unusable (log : ConveneLog) (env : AttemptEnv) : Prop :=
  env.read = false ∨ log = .unreadable ∨ log = .corrupt

/-- The clock never goes back, and is no day away from its lowest reading; a log that is unusable is
not renamed while there is a time of the last day, and a log that is changed from outside and can be
used lists these times. -/
def Retains (s : DayCounter) : ConveneEvent → Prop
  | .attempt now env => s.clock ≤ now ∧ minUnix + windowSecs ≤ now ∧
      (env.lock = true → Unusable s.log env → env.rename = true → s.live now = [])
  | .damage .missing => False
  | .damage (.times timestamps) => (s.live s.clock).Subperm timestamps
  | .damage _ => True

def RetainsIn (events : List ConveneEvent) : Prop :=
  ∀ before event later, events = before ++ event :: later → (after before).Retains event

/-! ## The invariant -/

/-- The times in the day that begins after `w`. -/
def window (w : Int) (times : List Int) : List Int := times.filter fun t =>
  w < t ∧ t ≤ w + windowSecs

structure Sound (s : DayCounter) : Prop where
  told : s.admitted.Sublist s.recorded
  past : ∀ t ∈ s.recorded, t ≤ s.clock
  missing : s.log = .missing → s.live s.clock = []
  listed : ∀ timestamps, s.log = .times timestamps → (s.live s.clock).Subperm timestamps
  capped : ∀ w, (window w s.recorded).length ≤ maxConvenesPer24h

theorem sound_fresh : fresh.Sound :=
  ⟨List.Sublist.refl _, by simp [fresh], fun _ => rfl, by simp [fresh], by simp [window, fresh]⟩

theorem cutoff_eq {now : Int} (h : minUnix + windowSecs ≤ now) : cutoff now = now - windowSecs :=
  if_neg (by omega)

/-- As the clock goes on times leave the day, and none comes back. -/
theorem live_mono (s : DayCounter) {now now' : Int} (h : now ≤ now') :
    s.live now' = (s.live now).filter fun t => now' - windowSecs < t := by
  unfold live
  rw [List.filter_filter]
  refine List.filter_congr fun t _ => ?_
  simp only [← Bool.decide_and, decide_eq_decide]
  omega

/-- A step that records nothing and takes no time from the log. -/
theorem Sound.later {s : DayCounter} (h : s.Sound) {now : Int} (hnow : s.clock ≤ now)
    {log : ConveneLog} (hmissing : log = .missing → s.live now = [])
    (hlisted : ∀ timestamps, log = .times timestamps → (s.live now).Subperm timestamps) :
    Sound { s with log := log, clock := now } :=
  ⟨h.told, fun t ht => (h.past t ht).trans hnow, hmissing, hlisted, h.capped⟩

/-- A time joins the fewer than 500 of its day. -/
theorem Sound.record {s : DayCounter} (h : s.Sound) {now : Int} (hnow : s.clock ≤ now)
    {timestamps : List Int}
    (hlive : (s.live now).Subperm timestamps) (hcap : timestamps.length < maxConvenesPer24h)
    {admitted : List Int} (hadmitted : admitted.Sublist (s.recorded ++ [now])) :
    Sound ⟨.times (timestamps ++ [now]), now, s.recorded ++ [now], admitted⟩ := by
  refine ⟨hadmitted, ?_, by simp, ?_, ?_⟩
  · intro t ht
    rcases List.mem_append.mp ht with ht | ht
    · exact (h.past t ht).trans hnow
    · exact (List.mem_singleton.mp ht).le
  · rintro _ ⟨⟩
    have hself : now - windowSecs < now := by
      unfold windowSecs
      omega
    have happend : DayCounter.live ⟨.times (timestamps ++ [now]), now, s.recorded ++ [now],
        admitted⟩ now = s.live now ++ [now] := by
      simp [live, List.filter_append, hself]
    rw [happend]
    exact hlive.append (List.Subperm.refl _)
  · intro w
    have hsplit : window w (s.recorded ++ [now]) = window w s.recorded ++ window w [now] := by
      simp [window, List.filter_append]
    rw [hsplit, List.length_append]
    by_cases hin : w < now ∧ now ≤ w + windowSecs
    · -- the others of the window are of the day of `now`
      have hsub : (window w s.recorded).Sublist (s.live now) := by
        refine List.monotone_filter_right _ fun t ht => ?_
        simp only [decide_eq_true_eq] at ht ⊢
        omega
      have hle := hsub.length_le.trans hlive.length_le
      have hone : (window w [now]).length = 1 := by simp [window, hin]
      omega
    · have hnone : (window w [now]).length = 0 := by simpa [window] using hin
      have hold := h.capped w
      omega

theorem Sound.append {s : DayCounter} (h : s.Sound) {now : Int} (hnow : s.clock ≤ now)
    {env : AttemptEnv} {timestamps : List Int} (hlive : (s.live now).Subperm timestamps)
    (hmissing : s.log = .missing → s.live now = [])
    (hlisted : ∀ timestamps, s.log = .times timestamps → (s.live now).Subperm timestamps) :
    (s.append now env timestamps).1.Sound := by
  unfold DayCounter.append
  split
  · exact h.later hnow hmissing hlisted
  rename_i hcap
  split
  · exact h.record hnow hlive (Nat.not_le.mp hcap) (h.told.append (List.Sublist.refl _))
  · exact h.later hnow hmissing hlisted
  · exact h.record hnow hlive (Nat.not_le.mp hcap) (h.told.trans (List.sublist_append_left _ _))

theorem Sound.attempt {s : DayCounter} (h : s.Sound) {now : Int} {env : AttemptEnv}
    (hretains : s.Retains (.attempt now env)) : (s.tryAdmitConvene now env).1.Sound := by
  obtain ⟨hnow, hclock, hrename⟩ := hretains
  have hlive := s.live_mono hnow
  have hmissing : s.log = .missing → s.live now = [] := by
    intro hlog
    rw [hlive, h.missing hlog]
    rfl
  have hlisted : ∀ timestamps, s.log = .times timestamps → (s.live now).Subperm timestamps := by
    intro timestamps hlog
    rw [hlive]
    exact List.filter_sublist.subperm.trans (h.listed timestamps hlog)
  unfold tryAdmitConvene
  split
  swap
  · exact h.later hnow hmissing hlisted
  rename_i hlock
  split
  · rename_i timestamps hload
    refine h.append hnow ?_ hmissing hlisted
    unfold loadStrict at hload
    split at hload <;> try cases hload
    split at hload <;> try cases hload
    rename_i found hlog
    rw [cutoff_eq hclock, hlive]
    exact (h.listed found hlog).filter _
  · rename_i hload
    refine h.append hnow ?_ hmissing hlisted
    unfold loadStrict at hload
    split at hload <;> try cases hload
    split at hload <;> try cases hload
    rename_i hlog
    rw [hmissing hlog]
  · rename_i hload
    have hunusable : Unusable s.log env := by
      unfold loadStrict at hload
      split at hload
      · split at hload <;> try cases hload
        · exact .inr (.inl ‹_›)
        · exact .inr (.inr ‹_›)
      · rename_i hread
        exact .inl (by simpa using hread)
    unfold quarantineCorrupt
    split
    · rename_i hrenamed
      exact h.later hnow (fun _ => hrename hlock hunusable hrenamed) (by simp)
    · exact h.later hnow hmissing hlisted

theorem Sound.step {s : DayCounter} (h : s.Sound) {event : ConveneEvent}
    (hretains : s.Retains event) : (s.step event).1.Sound := by
  cases event with
  | attempt now env => exact h.attempt hretains
  | damage log =>
    cases log with
    | missing => exact hretains.elim
    | unreadable =>
      exact ⟨h.told, h.past, by simp [DayCounter.step], by simp [DayCounter.step], h.capped⟩
    | corrupt =>
      exact ⟨h.told, h.past, by simp [DayCounter.step], by simp [DayCounter.step], h.capped⟩
    | times timestamps =>
      refine ⟨h.told, h.past, by simp [DayCounter.step], ?_, h.capped⟩
      rintro _ ⟨⟩
      exact hretains

/-- **At most 500 attempts are admitted in a day** when the log is not lost. -/
theorem convene_cap (events : List ConveneEvent) (hretains : RetainsIn events) (w : Int) :
    (window w (after events).admitted).length ≤ maxConvenesPer24h := by
  have h : (after events).Sound :=
    run_invariant_of_meets (fun _ _ h hmeets => h.step hmeets) fresh sound_fresh events hretains
  exact (h.told.filter _).length_le.trans (h.capped w)

def sampleEnv : AttemptEnv := ⟨true, true, true, .written⟩

/-- Three attempts, the second a day later at a log that does not parse. -/
def sampleEvents : List ConveneEvent :=
  [.attempt 0 sampleEnv, .damage .corrupt, .attempt 86400 sampleEnv, .attempt 86401 sampleEnv]

theorem convene_cap_sample :
    (after sampleEvents).admitted = [0, 86401] ∧
      (window 0 (after sampleEvents).admitted).length ≤ maxConvenesPer24h := by
  refine ⟨by decide, convene_cap sampleEvents ?_ 0⟩
  refine meets_cons ⟨by decide, by decide, ?_⟩ (meets_cons trivial
    (meets_cons ⟨by decide, by decide, fun _ _ _ => by decide⟩
      (meets_cons ⟨by decide, by decide, ?_⟩ meets_nil)))
  · rintro - (h | h | h) <;> cases h
  · rintro - (h | h | h) <;> cases h

/-! ## A log that is renamed -/

/-- The clock never goes back, and the log is never deleted from outside. -/
def Undeleted (s : DayCounter) : ConveneEvent → Prop
  | .attempt now _ => s.clock ≤ now
  | .damage log => log ≠ .missing

theorem after_attempts (n : Nat) (hn : n < maxConvenesPer24h) :
    after (List.replicate (n + 1) (.attempt 0 sampleEnv)) =
      ⟨.times (List.replicate (n + 1) 0), 0, List.replicate (n + 1) 0,
        List.replicate (n + 1) 0⟩ := by
  induction n with
  | zero => rfl
  | succ n ih =>
    have hlive : (List.replicate (n + 1) (0 : Int)).filter (fun t => cutoff 0 < t) =
        List.replicate (n + 1) 0 :=
      List.filter_replicate_of_pos (by decide)
    have hload : loadStrict (.times (List.replicate (n + 1) 0)) sampleEnv 0 =
        .ok (List.replicate (n + 1) 0) := by
      simp [loadStrict, sampleEnv, hlive]
    have hlt : ¬ maxConvenesPer24h ≤ (List.replicate (n + 1) (0 : Int)).length := by
      rw [List.length_replicate]
      omega
    rw [List.replicate_succ', after, run_append]
    simp only [run_cons, run_nil]
    change (step (after (List.replicate (n + 1) (.attempt 0 sampleEnv))) (.attempt 0 sampleEnv)).1 =
      _
    rw [ih (by omega)]
    simp only [step, tryAdmitConvene, hload, append, if_neg hlt, ← List.replicate_succ']
    rfl

/-- After some attempts the log does not parse; the next attempt renames it, and the one after it is
admitted. -/
def lostEvents (n : Nat) : List ConveneEvent :=
  List.replicate n (.attempt 0 sampleEnv) ++ [.damage .corrupt, .attempt 0 sampleEnv,
    .attempt 0 sampleEnv]

theorem after_lostEvents (n : Nat) (hn : n < maxConvenesPer24h) :
    (after (lostEvents (n + 1))).admitted = List.replicate (n + 2) 0 := by
  have hrun : (after (lostEvents (n + 1))).admitted = List.replicate (n + 1) 0 ++ [0] := by
    rw [lostEvents, after, run_append]
    change (run step (after (List.replicate (n + 1) (.attempt 0 sampleEnv))) _).1.admitted = _
    rw [after_attempts n hn]
    rfl
  rw [hrun, ← List.replicate_succ']

theorem step_attempt_clock (s : DayCounter) (now : Int) (env : AttemptEnv) :
    (s.step (.attempt now env)).1.clock = now := by
  have happend : ∀ timestamps, (s.append now env timestamps).1.clock = now := by
    intro timestamps
    unfold append
    split
    · rfl
    · split <;> rfl
  simp only [step, tryAdmitConvene]
  split
  · split
    · exact happend _
    · exact happend _
    · rfl
  · rfl

theorem clock_after_le {events : List ConveneEvent}
    (h : ∀ event ∈ events, event = .attempt 0 sampleEnv ∨ event = .damage .corrupt) :
      (after events).clock ≤ 0 := by
  refine run_invariant_of_meets (P := fun s => s.clock ≤ 0)
    (M := fun _ event => event = .attempt 0 sampleEnv ∨ event = .damage .corrupt) ?_ fresh
      (by decide) events ?_
  · rintro s event hs (rfl | rfl)
    · exact (step_attempt_clock s 0 sampleEnv).le
    · exact hs
  · rintro before event later rfl
    exact h event (by simp)

theorem cap_lost_by_quarantine :
    ¬ ∀ events : List ConveneEvent,
      (∀ before event later, events = before ++ event :: later → (after before).Undeleted event) →
        ∀ w, (window w (after events).admitted).length ≤ maxConvenesPer24h := by
  intro h
  have hevents : ∀ event ∈ lostEvents 500, event = .attempt 0 sampleEnv ∨
      event = .damage .corrupt := by
    intro event hevent
    rcases List.mem_append.mp hevent with hattempt | hlast
    · exact .inl (List.eq_of_mem_replicate hattempt)
    · simp only [List.mem_cons, List.not_mem_nil, or_false] at hlast
      tauto
  have hcap := h (lostEvents 500) ?_ (-1)
  · rw [after_lostEvents 499 (by decide), window, List.filter_replicate_of_pos (by decide),
      List.length_replicate] at hcap
    exact absurd hcap (by decide)
  · intro before event later hsplit
    have hclock : (after before).clock ≤ 0 :=
      clock_after_le fun e he => hevents e (hsplit ▸ List.mem_append_left _ he)
    rcases hevents event (by simp [hsplit]) with rfl | rfl
    · exact hclock
    · simp [Undeleted]

end DayCounter

end Neoth.Council
