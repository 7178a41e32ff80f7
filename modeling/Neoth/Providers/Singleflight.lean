import Neoth.Lib.Lists
import Neoth.Lib.Machine
import Neoth.Lib.TreeMap

/-!
# Single-flight calls

`providers/singleflight.rs`: the first caller of a key runs the operation and publishes its value in
a slot, and the callers that come meanwhile wait for it.  A future runs from one `await` to the next
without interruption; it can be dropped at each of them.  The slot leaves the map when the operation
ends, and only then.

* `Singleflight.step`: a call, the end of an operation, the wake-up of a subscriber, a future that
  is dropped;
* `Sound`: what each caller and its slot look like, whatever is dropped;
* **`single_flight_iff`**: the map is clean in every state of a run if and only if no owner is
  dropped while its operation runs;
* `dropped_owner_leaves_slot`: the slot that stays when one is.
-/

open Std Lib.Lists Lib.Machine Lib.TreeMap

namespace Neoth.Providers

/-! ## Calls -/

inductive Role
  | owner
  | subscriber
  deriving DecidableEq

/-- What a call returns: a value, the error of its own operation, or "in-flight request failed,
retry at caller". -/
inductive FlightResult (V E : Type)
  | ok (value : V)
  | failed (error : E)
  | retry
  deriving DecidableEq

/-- A call is at its `await`, or has returned, or its future was dropped. -/
inductive FlightPhase (V E : Type)
  | awaiting
  | returned (result : FlightResult V E)
  | dropped
  deriving DecidableEq

/-- A call: the slot it got, which it keeps when the map forgets it, and why. -/
structure FlightCall (V E : Type) where
  key : Nat
  slot : Nat
  role : Role
  phase : FlightPhase V E

/-- A slot, and whether its waiters have been notified. -/
structure Slot (V : Type) where
  value : Option V
  notified : Bool

/-- The map of the keys in flight, all slots there have been, and all calls. -/
structure Singleflight (V E : Type) where
  slots : ExtTreeMap Nat Nat
  arena : List (Slot V)
  calls : List (FlightCall V E)

inductive FlightEvent (V E : Type)
  /-- The first poll of a call. -/
  | call (key : Nat)
  /-- The operation of an owner ends. -/
  | finish (call : Nat) (result : Except E V)
  /-- A subscriber is polled. -/
  | wake (call : Nat)
  /-- A future is dropped where it awaits. -/
  | drop (call : Nat)

inductive FlightAnswer (V E : Type)
  /-- The operation is started for the slot. -/
  | started (slot : Nat)
  | joined (slot : Nat)
  | returned (result : FlightResult V E)
  | pending
  | dropped
  | none

variable {V E : Type}

def Slot.fresh : Slot V := ⟨none, false⟩

/-- The slot for which the answer starts an operation. -/
def FlightAnswer.startedSlot : FlightAnswer V E → Option Nat
  | .started slot => some slot
  | _ => Option.none

namespace Singleflight

def fresh : Singleflight V E := ⟨∅, [], []⟩

def setPhase (s : Singleflight V E) (i : Nat) (call : FlightCall V E) (phase : FlightPhase V E) :
    List (FlightCall V E) :=
  s.calls.set i { call with phase := phase }

/-- Phase 1, and phase 2 up to the first `await`. -/
def doCall (s : Singleflight V E) (key : Nat) : Singleflight V E × FlightAnswer V E :=
  match s.slots[key]? with
  | none =>
    (⟨s.slots.insert key s.arena.length, s.arena ++ [.fresh],
      s.calls ++ [⟨key, s.arena.length, .owner, .awaiting⟩]⟩, .started s.arena.length)
  | some slot =>
    match s.arena[slot]?.bind (·.value) with
    | some value =>
      ({ s with calls := s.calls ++ [⟨key, slot, .subscriber, .returned (.ok value)⟩] },
        .returned (.ok value))
    | none => ({ s with calls := s.calls ++ [⟨key, slot, .subscriber, .awaiting⟩] }, .joined slot)

/-- The owner publishes, notifies and leaves the map, or leaves it and notifies. -/
def finish (s : Singleflight V E) (i : Nat) (result : Except E V) :
    Singleflight V E × FlightAnswer V E :=
  match s.calls[i]? with
  | some ⟨key, slot, .owner, .awaiting⟩ =>
    match result with
    | .ok value =>
      (⟨s.slots.erase key, s.arena.set slot ⟨some value, true⟩,
        s.setPhase i ⟨key, slot, .owner, .awaiting⟩ (.returned (.ok value))⟩, .returned (.ok value))
    | .error error =>
      (⟨s.slots.erase key, s.arena.set slot ⟨none, true⟩,
        s.setPhase i ⟨key, slot, .owner, .awaiting⟩ (.returned (.failed error))⟩,
        .returned (.failed error))
  | _ => (s, .none)

/-- A subscriber looks again once it is notified. -/
def wake (s : Singleflight V E) (i : Nat) : Singleflight V E × FlightAnswer V E :=
  match s.calls[i]? with
  | some ⟨key, slot, .subscriber, .awaiting⟩ =>
    match s.arena[slot]? with
    | some ⟨some value, true⟩ =>
      ({ s with calls := s.setPhase i ⟨key, slot, .subscriber, .awaiting⟩ (.returned (.ok value)) },
        .returned (.ok value))
    | some ⟨none, true⟩ =>
      ({ s with calls := s.setPhase i ⟨key, slot, .subscriber, .awaiting⟩ (.returned .retry) },
        .returned .retry)
    | _ => (s, .pending)
  | _ => (s, .none)

def drop (s : Singleflight V E) (i : Nat) : Singleflight V E × FlightAnswer V E :=
  match s.calls[i]? with
  | some ⟨key, slot, role, .awaiting⟩ =>
    ({ s with calls := s.setPhase i ⟨key, slot, role, .awaiting⟩ .dropped }, .dropped)
  | _ => (s, .none)

def step (s : Singleflight V E) : FlightEvent V E → Singleflight V E × FlightAnswer V E
  | .call key => s.doCall key
  | .finish i result => s.finish i result
  | .wake i => s.wake i
  | .drop i => s.drop i

def after (events : List (FlightEvent V E)) : Singleflight V E := (run step fresh events).1

def answers (events : List (FlightEvent V E)) : List (FlightAnswer V E) := (run step fresh events).2

/-! ## The invariant -/

/-- The slot of an owner in the phase. -/
def slotOf : FlightPhase V E → Slot V
  | .returned (.ok value) => ⟨some value, true⟩
  | .returned _ => ⟨none, true⟩
  | _ => .fresh

/-- What a call and its slot look like. -/
structure CallSound (s : Singleflight V E) (call : FlightCall V E) : Prop where
  owner : call.role = .owner → s.arena[call.slot]? = some (slotOf call.phase)
  mapped : call.role = .owner → (call.phase = .awaiting ∨ call.phase = .dropped) →
    s.slots[call.key]? = some call.slot
  own : call.role = .owner → call.phase ≠ .returned .retry
  joined : call.role = .subscriber → ∃ o ∈ s.calls, o.role = .owner ∧ o.slot = call.slot
  result : call.role = .subscriber → ∀ r, call.phase = .returned r →
    r = .retry ∨ ∃ value, r = .ok value ∧ s.arena[call.slot]? = some ⟨some value, true⟩

structure Sound (s : Singleflight V E) : Prop where
  calls : ∀ call ∈ s.calls, CallSound s call
  mapped : ∀ key slot : Nat, s.slots[key]? = some slot → ∃ o ∈ s.calls,
    o.role = .owner ∧ o.key = key ∧ o.slot = slot ∧
    (o.phase = .awaiting ∨ o.phase = .dropped)
  owners : (s.calls.filter (·.role = .owner)).map (·.slot) = List.range s.arena.length

theorem sound_fresh : (fresh : Singleflight V E).Sound :=
  ⟨by simp [fresh], by simp [fresh], rfl⟩

theorem Sound.slot_lt {s : Singleflight V E} (h : s.Sound) {o : FlightCall V E} (ho : o ∈ s.calls)
    (hrole : o.role = .owner) : o.slot < s.arena.length := by
  have hmem : o.slot ∈ (s.calls.filter (·.role = .owner)).map (·.slot) :=
    List.mem_map_of_mem (List.mem_filter.mpr ⟨ho, by simpa using hrole⟩)
  rw [h.owners] at hmem
  exact List.mem_range.mp hmem

/-- A slot has one owner. -/
theorem Sound.owner_unique {s : Singleflight V E} (h : s.Sound) {o o' : FlightCall V E}
    (ho : o ∈ s.calls)
    (ho' : o' ∈ s.calls) (hrole : o.role = .owner) (hrole' : o'.role = .owner)
    (hslot : o.slot = o'.slot) : o = o' := by
  have hnodup : ((s.calls.filter (·.role = .owner)).map (·.slot)).Nodup := by
    rw [h.owners]
    exact List.nodup_range
  exact List.inj_on_of_nodup_map hnodup (List.mem_filter.mpr ⟨ho, by simpa using hrole⟩)
    (List.mem_filter.mpr ⟨ho', by simpa using hrole'⟩) hslot

/-- A call that is added beside the others. -/
theorem CallSound.mono {s s' : Singleflight V E} {call : FlightCall V E} (h : CallSound s call)
    (harena : ∀ (slot : Nat) (value : Slot V), s.arena[slot]? = some value →
      s'.arena[slot]? = some value)
    (hslots : ∀ key slot : Nat, s.slots[key]? = some slot → s'.slots[key]? = some slot)
    (hcalls : ∀ o ∈ s.calls, ∃ o' ∈ s'.calls, o'.role = o.role ∧ o'.slot = o.slot) :
      CallSound s' call := by
  refine ⟨fun hrole => harena _ _ (h.owner hrole),
    fun hrole hphase => hslots _ _ (h.mapped hrole hphase), h.own, fun hrole =>
      ?_, fun hrole r hr => ?_⟩
  · obtain ⟨o, ho, howner, hslot⟩ := h.joined hrole
    obtain ⟨o', ho', hrole', hslot'⟩ := hcalls o ho
    exact ⟨o', ho', hrole'.trans howner, hslot'.trans hslot⟩
  · rcases h.result hrole r hr with hretry | ⟨value, hr, hvalue⟩
    · exact .inl hretry
    · exact .inr ⟨value, hr, harena _ _ hvalue⟩

theorem Sound.doCall {s : Singleflight V E} (h : s.Sound) (key : Nat) : (s.doCall key).1.Sound := by
  unfold Singleflight.doCall
  cases hkey : s.slots[key]? with
  | none =>
    dsimp only
    have hnew : s.arena.length < (s.arena ++ [Slot.fresh]).length := by simp
    refine ⟨?_, ?_, ?_⟩
    · intro call hcall
      rcases List.mem_append.mp hcall with hcall | hcall
      · refine (h.calls call hcall).mono (fun slot value hvalue => ?_) (fun k slot hslot => ?_)
          (fun o ho => ⟨o, List.mem_append_left _ ho, rfl, rfl⟩)
        · rw [List.getElem?_append_left (List.getElem?_eq_some_iff.mp hvalue).1]
          exact hvalue
        · have hne : key ≠ k := by
            rintro rfl
            rw [hkey] at hslot
            cases hslot
          exact (getElem?_insert_of_ne _ hne).trans hslot
      · rw [List.mem_singleton.mp hcall]
        refine ⟨fun _ => ?_, fun _ _ => ExtTreeMap.getElem?_insert_self, by simp, by simp, by simp⟩
        rw [List.getElem?_append_right (Nat.le_refl _), Nat.sub_self]
        rfl
    · intro k slot hslot
      by_cases hne : key = k
      · subst hne
        rw [ExtTreeMap.getElem?_insert_self] at hslot
        cases hslot
        exact ⟨_, List.mem_append_right _ (List.mem_singleton_self _), rfl, rfl, rfl, .inl rfl⟩
      · rw [getElem?_insert_of_ne _ hne] at hslot
        obtain ⟨o, ho, hrest⟩ := h.mapped k slot hslot
        exact ⟨o, List.mem_append_left _ ho, hrest⟩
    · rw [List.filter_append, List.map_append, h.owners, List.length_append, List.length_singleton,
        List.range_succ]
      rfl
  | some slot =>
    obtain ⟨o, ho, hrole, -, hslot, hphase⟩ := h.mapped key slot hkey
    have harena : s.arena[slot]? = some Slot.fresh := by
      have howner := (h.calls o ho).owner hrole
      rw [hslot] at howner
      rcases hphase with hphase | hphase <;> rw [howner, hphase] <;> rfl
    dsimp only
    rw [harena]
    dsimp only [Option.bind, Slot.fresh]
    refine ⟨?_, ?_, ?_⟩
    · intro call hcall
      rcases List.mem_append.mp hcall with hcall | hcall
      · exact (h.calls call hcall).mono (fun _ _ h => h) (fun _ _ h => h)
          (fun o ho => ⟨o, List.mem_append_left _ ho, rfl, rfl⟩)
      · rw [List.mem_singleton.mp hcall]
        exact ⟨by simp, by simp, by simp, fun _ => ⟨o, List.mem_append_left _ ho, hrole, hslot⟩, by
          simp⟩
    · intro k slot' hslot'
      obtain ⟨o, ho, hrest⟩ := h.mapped k slot' hslot'
      exact ⟨o, List.mem_append_left _ ho, hrest⟩
    · rw [List.filter_append, List.map_append, h.owners]
      simp

@[simp] theorem slotOf_awaiting : slotOf (.awaiting : FlightPhase V E) = .fresh := rfl

@[simp] theorem slotOf_dropped : slotOf (.dropped : FlightPhase V E) = .fresh := rfl

/-- A call takes a new phase: what has to be shown of it, of the other calls and of the map. -/
theorem Sound.replace {s s' : Singleflight V E} (h : s.Sound) {i : Nat} {call : FlightCall V E}
    (hi : s.calls[i]? = some call) (phase : FlightPhase V E)
    (hcalls : s'.calls = s.setPhase i call phase)
    (hlength : s'.arena.length = s.arena.length) (hself : CallSound s' { call with phase := phase })
    (hothers : ∀ o ∈ s.calls, (o.role = .owner → call.role = .owner → o.slot ≠ call.slot) →
      CallSound s o →
      CallSound s' o)
    (hmapped : ∀ key slot : Nat, s'.slots[key]? = some slot → s.slots[key]? = some slot ∧
      (call.role = .owner → slot = call.slot → phase = .awaiting ∨ phase = .dropped)) :
        s'.Sound := by
  obtain ⟨pre, post, hsplit, hset⟩ := exists_split_of_getElem? hi
  have hcalls' : s'.calls = pre ++ { call with phase := phase } :: post := by
    rw [hcalls, setPhase, hset]
  have howners := h.owners
  rw [hsplit] at howners
  refine ⟨?_, ?_, ?_⟩
  · intro c hc
    rw [hcalls'] at hc
    have hother : ∀ o, o ∈ pre ∨ o ∈ post → CallSound s' o := by
      intro o ho
      have hmem : o ∈ s.calls := by
        rw [hsplit]
        simp only [List.mem_append, List.mem_cons]
        tauto
      refine hothers o hmem (fun hrole hcall hslot => ?_) (h.calls o hmem)
      have hnodup : ((pre ++ call :: post).filter (·.role = .owner) |>.map (·.slot)).Nodup := by
        rw [howners]
        exact List.nodup_range
      rw [List.filter_append, List.filter_cons_of_pos (by simpa using hcall), List.map_append,
        List.map_cons, List.nodup_append, List.nodup_cons] at hnodup
      obtain ⟨-, ⟨hpost, -⟩, hpre⟩ := hnodup
      rcases ho with ho | ho
      · exact hpre o.slot (List.mem_map_of_mem (List.mem_filter.mpr ⟨ho, by simpa using hrole⟩))
          call.slot (List.mem_cons_self ..) hslot
      · exact hpost (hslot ▸ List.mem_map_of_mem (List.mem_filter.mpr ⟨ho, by simpa using hrole⟩))
    rcases List.mem_append.mp hc with hc | hc
    · exact hother c (.inl hc)
    rcases List.mem_cons.mp hc with rfl | hc
    · exact hself
    · exact hother c (.inr hc)
  · intro key slot hslot
    obtain ⟨hold, hphase⟩ := hmapped key slot hslot
    obtain ⟨o, ho, hrole, hokey, hoslot, hophase⟩ := h.mapped key slot hold
    rw [hsplit] at ho
    rw [hcalls']
    rcases List.mem_append.mp ho with ho | ho
    · exact ⟨o, List.mem_append_left _ ho, hrole, hokey, hoslot, hophase⟩
    rcases List.mem_cons.mp ho with rfl | ho
    · exact ⟨_, List.mem_append_right _ (List.mem_cons_self ..), hrole, hokey, hoslot,
        hphase hrole hoslot.symm⟩
    · exact ⟨o, List.mem_append_right _ (List.mem_cons_of_mem _ ho), hrole, hokey, hoslot, hophase⟩
  · rw [hcalls', hlength, ← howners, List.filter_append, List.filter_append, List.filter_cons,
      List.filter_cons]
    split <;> simp_all

/-- The calls keep their places, roles and slots. -/
theorem mem_setPhase {s : Singleflight V E} {i : Nat} {call : FlightCall V E}
    (hi : s.calls[i]? = some call)
    (phase : FlightPhase V E) : ∀ o ∈ s.calls, ∃ o' ∈ s.setPhase i call phase, o'.role = o.role ∧
    o'.slot = o.slot := by
  obtain ⟨pre, post, hsplit, hset⟩ := exists_split_of_getElem? hi
  intro o ho
  rw [hsplit] at ho
  rw [setPhase, hset]
  rcases List.mem_append.mp ho with ho | ho
  · exact ⟨o, List.mem_append_left _ ho, rfl, rfl⟩
  rcases List.mem_cons.mp ho with rfl | ho
  · exact ⟨_, List.mem_append_right _ (List.mem_cons_self ..), rfl, rfl⟩
  · exact ⟨o, List.mem_append_right _ (List.mem_cons_of_mem _ ho), rfl, rfl⟩

/-- The end of an operation, with what it leaves in the slot. -/
theorem Sound.finish_owner {s : Singleflight V E} (h : s.Sound) {i key slot : Nat}
    (hi : s.calls[i]? = some ⟨key, slot, .owner, .awaiting⟩) (result : FlightResult V E)
    (hresult : result ≠ .retry) :
    Sound ⟨s.slots.erase key, s.arena.set slot (slotOf (.returned result : FlightPhase V E)),
      s.setPhase i ⟨key, slot, .owner, .awaiting⟩ (.returned result)⟩ := by
  have hmem := List.mem_of_getElem? hi
  have hcall := h.calls _ hmem
  have hlt : slot < s.arena.length := h.slot_lt hmem rfl
  have hfresh : s.arena[slot]? = some Slot.fresh := hcall.owner rfl
  have hkey : s.slots[key]? = some slot := hcall.mapped rfl (.inl rfl)
  refine h.replace hi (.returned result) rfl (List.length_set ..) ?_ ?_ ?_
  · refine ⟨fun _ => ?_, by simp, fun _ => by simpa using hresult, by simp, by simp⟩
    exact List.getElem?_set_self hlt
  · intro o ho hother hsound
    refine ⟨fun hrole => ?_, fun hrole hphase => ?_, hsound.own, fun hrole => ?_,
      fun hrole r hr => ?_⟩
    · exact (List.getElem?_set_ne (hother hrole rfl).symm).trans (hsound.owner hrole)
    · have hmapped := hsound.mapped hrole hphase
      have hne : key ≠ o.key := by
        intro heq
        rw [← heq, hkey] at hmapped
        exact hother hrole rfl (Option.some.inj hmapped).symm
      dsimp only
      rw [ExtTreeMap.getElem?_erase, if_neg (by simpa using hne)]
      exact hmapped
    · obtain ⟨owner, howner, hownerRole, hslot⟩ := hsound.joined hrole
      obtain ⟨o', ho', hrole', hslot'⟩ := mem_setPhase hi (.returned result) owner howner
      exact ⟨o', ho', hrole'.trans hownerRole, hslot'.trans hslot⟩
    · rcases hsound.result hrole r hr with hretry | ⟨value, hr, hvalue⟩
      · exact .inl hretry
      · refine .inr ⟨value, hr, ?_⟩
        have hne : slot ≠ o.slot := by
          intro heq
          rw [← heq, hfresh] at hvalue
          simp [Slot.fresh] at hvalue
        exact (List.getElem?_set_ne hne).trans hvalue
  · intro k slot' hslot'
    dsimp only at hslot'
    rw [ExtTreeMap.getElem?_erase] at hslot'
    split at hslot'
    · cases hslot'
    rename_i hne
    refine ⟨hslot', fun _ heq => ?_⟩
    -- the slot has left the map with its key
    obtain ⟨o, ho, hrole, hokey, hoslot, -⟩ := h.mapped k slot' hslot'
    have hsame := h.owner_unique ho hmem hrole rfl (hoslot.trans heq)
    rw [hsame] at hokey
    exact absurd hokey (by simpa using hne)

theorem Sound.finish {s : Singleflight V E} (h : s.Sound) (i : Nat) (result : Except E V) :
    (s.finish i result).1.Sound := by
  unfold Singleflight.finish
  split
  · rename_i key slot hi
    cases result with
    | ok value => exact h.finish_owner hi (.ok value) (by simp)
    | error error => exact h.finish_owner hi (.failed error) (by simp)
  · exact h

/-- A subscriber returns, or a future is dropped: slots and map stay. -/
theorem Sound.quiet {s : Singleflight V E} (h : s.Sound) {i : Nat} {call : FlightCall V E}
    (hi : s.calls[i]? = some call) (hawaiting : call.phase = .awaiting) (phase : FlightPhase V E)
    (hphase : phase = .dropped ∨ call.role = .subscriber ∧ ∃ r, phase = .returned r ∧
      (r = .retry ∨ ∃ value, r = .ok value ∧ s.arena[call.slot]? = some ⟨some value, true⟩)) :
    Sound { s with calls := s.setPhase i call phase } := by
  have hcall := h.calls call (List.mem_of_getElem? hi)
  have hjoined := mem_setPhase hi phase
  refine h.replace hi phase rfl rfl ?_ ?_ ?_
  · have hown : call.role = .owner → phase = .dropped := by
      intro hrole
      rcases hphase with hdropped | ⟨hsubscriber, -⟩
      · exact hdropped
      · rw [hrole] at hsubscriber
        cases hsubscriber
    refine ⟨fun hrole => ?_, fun hrole _ => hcall.mapped hrole (.inl hawaiting), fun hrole => ?_,
      fun hrole => ?_, fun hrole r hr => ?_⟩
    · rw [hown hrole, slotOf_dropped]
      have howner := hcall.owner hrole
      rwa [hawaiting] at howner
    · rw [hown hrole]
      simp
    · obtain ⟨o, ho, hownerRole, hslot⟩ := hcall.joined hrole
      obtain ⟨o', ho', hrole', hslot'⟩ := hjoined o ho
      exact ⟨o', ho', hrole'.trans hownerRole, hslot'.trans hslot⟩
    · rcases hphase with hdropped | ⟨-, r', hr', hvalue⟩
      · rw [hdropped] at hr
        cases hr
      · rw [hr'] at hr
        cases hr
        exact hvalue
  · intro o ho _ hsound
    exact hsound.mono (fun _ _ h => h) (fun _ _ h => h) hjoined
  · intro key slot hslot
    refine ⟨hslot, fun hrole _ => ?_⟩
    rcases hphase with hdropped | ⟨hsubscriber, -⟩
    · exact .inr hdropped
    · rw [hrole] at hsubscriber
      cases hsubscriber

theorem Sound.wake {s : Singleflight V E} (h : s.Sound) (i : Nat) : (s.wake i).1.Sound := by
  unfold Singleflight.wake
  split
  · rename_i key slot hi
    split
    · rename_i value hvalue
      exact h.quiet hi rfl _ (.inr ⟨rfl, _, rfl, .inr ⟨value, rfl, hvalue⟩⟩)
    · exact h.quiet hi rfl _ (.inr ⟨rfl, _, rfl, .inl rfl⟩)
    · exact h
  · exact h

theorem Sound.drop {s : Singleflight V E} (h : s.Sound) (i : Nat) : (s.drop i).1.Sound := by
  unfold Singleflight.drop
  split
  · rename_i key slot role hi
    exact h.quiet hi rfl _ (.inl rfl)
  · exact h

theorem Sound.step {s : Singleflight V E} (h : s.Sound) (event : FlightEvent V E) :
    (s.step event).1.Sound := by
  cases event with
  | call key => exact h.doCall key
  | finish i result => exact h.finish i result
  | wake i => exact h.wake i
  | drop i => exact h.drop i

theorem sound_after (events : List (FlightEvent V E)) : (after events).Sound :=
  run_invariant (fun _ event h => h.step event) fresh sound_fresh events

/-! ## A clean map -/

/-- What the map is to be: every key has its owner, who is alive, every subscriber that has not been
notified waits for one, an operation is run once for each slot, subscribers return what their owner
has published or are told to retry, and the map is empty when all is over. -/
structure Clean (events : List (FlightEvent V E)) : Prop where
  live : ∀ key slot : Nat, (after events).slots[key]? = some slot → ∃ o ∈ (after events).calls,
    o.role = .owner ∧ o.key = key ∧ o.slot = slot ∧ o.phase = .awaiting
  waits : ∀ c ∈ (after events).calls, c.role = .subscriber → c.phase = .awaiting →
    (∃ value, (after events).arena[c.slot]? = some ⟨value, true⟩) ∨
      ∃ o ∈ (after events).calls, o.role = .owner ∧ o.slot = c.slot ∧ o.phase = .awaiting
  once : (answers events).filterMap FlightAnswer.startedSlot =
    List.range (after events).arena.length
  results : ∀ c ∈ (after events).calls, c.role = .subscriber → ∀ r, c.phase = .returned r →
    r = .retry ∨
    ∃ value, r = .ok value ∧ ∃ o ∈ (after events).calls, o.role = .owner ∧ o.slot = c.slot ∧
      o.phase = .returned (.ok value)
  empty : (∀ c ∈ (after events).calls, c.phase ≠ .awaiting) → (after events).slots = ∅

/-- The operation of a slot is started by the call that allocates it. -/
theorem started_once (events : List (FlightEvent V E)) :
    (answers events).filterMap FlightAnswer.startedSlot =
      List.range (after events).arena.length := by
  have hcount : ∀ (s : Singleflight V E) (event : FlightEvent V E),
      ((s.step event).2.startedSlot = none ∧ (s.step event).1.arena.length = s.arena.length) ∨
        ((s.step event).2.startedSlot = some s.arena.length ∧
          (s.step event).1.arena.length = s.arena.length + 1) := by
    intro s event
    cases event with
    | call key =>
      simp only [step, doCall]
      split
      · exact .inr ⟨rfl, by simp⟩
      · split <;> exact .inl ⟨rfl, rfl⟩
    | finish i result =>
      simp only [step, finish]
      split
      · cases result <;> exact .inl ⟨rfl, List.length_set ..⟩
      · exact .inl ⟨rfl, rfl⟩
    | wake i =>
      simp only [step, wake]
      split
      · split <;> exact .inl ⟨rfl, rfl⟩
      · exact .inl ⟨rfl, rfl⟩
    | drop i =>
      simp only [step, drop]
      split <;> exact .inl ⟨rfl, rfl⟩
  obtain ⟨n, hlength, hanswers⟩ := run_consecutive (f := fun s : Singleflight V E => s.arena.length)
    (g := FlightAnswer.startedSlot) hcount fresh events
  have hstart : (fresh : Singleflight V E).arena.length = 0 := rfl
  rw [hstart] at hlength hanswers
  rw [answers, hanswers, List.range_eq_range', after, hlength, Nat.zero_add]

/-- The phase of the owner is what its slot shows. -/
theorem slotOf_eq_some_iff {phase : FlightPhase V E} {value : V} :
    slotOf phase = ⟨some value, true⟩ ↔ phase = .returned (.ok value) := by
  cases phase with
  | awaiting => simp [Slot.fresh]
  | dropped => simp [Slot.fresh]
  | returned r => cases r <;> simp [slotOf]

theorem Sound.results {s : Singleflight V E} (h : s.Sound) {c : FlightCall V E} (hc : c ∈ s.calls)
    (hrole : c.role = .subscriber) {r : FlightResult V E} (hr : c.phase = .returned r) :
      r = .retry ∨
      ∃ value, r = .ok value ∧ ∃ o ∈ s.calls, o.role = .owner ∧ o.slot = c.slot ∧
      o.phase = .returned (.ok value) := by
  rcases (h.calls c hc).result hrole r hr with hretry | ⟨value, hok, hvalue⟩
  · exact .inl hretry
  · obtain ⟨o, ho, howner, hslot⟩ := (h.calls c hc).joined hrole
    have harena := (h.calls o ho).owner howner
    rw [hslot, hvalue] at harena
    exact .inr ⟨value, hok, o, ho, howner, hslot,
      slotOf_eq_some_iff.mp (Option.some.inj harena).symm⟩

/-- No owner was dropped while its operation ran. -/
def NoneLost (s : Singleflight V E) : Prop := ∀ o ∈ s.calls, o.role = .owner → o.phase ≠ .dropped

theorem Sound.live {s : Singleflight V E} (h : s.Sound) (hlost : s.NoneLost) {key slot : Nat}
    (hslot : s.slots[key]? = some slot) :
    ∃ o ∈ s.calls, o.role = .owner ∧ o.key = key ∧ o.slot = slot ∧ o.phase = .awaiting := by
  obtain ⟨o, ho, hrole, hkey, hoslot, hphase⟩ := h.mapped key slot hslot
  exact ⟨o, ho, hrole, hkey, hoslot, hphase.resolve_right (hlost o ho hrole)⟩

theorem clean_of_noneLost {events : List (FlightEvent V E)} (hlost : (after events).NoneLost) :
    Clean events := by
  have h := sound_after events
  refine ⟨fun key slot => h.live hlost, ?_, started_once events,
    fun c hc hrole r => h.results hc hrole, ?_⟩
  · intro c hc hrole hphase
    obtain ⟨o, ho, howner, hslot⟩ := (h.calls c hc).joined hrole
    have harena := (h.calls o ho).owner howner
    rw [hslot] at harena
    cases hophase : o.phase with
    | awaiting => exact .inr ⟨o, ho, howner, hslot, hophase⟩
    | dropped => exact absurd hophase (hlost o ho howner)
    | returned r =>
      rw [hophase] at harena
      cases r with
      | ok value => exact .inl ⟨_, harena⟩
      | failed error => exact .inl ⟨_, harena⟩
      | retry => exact .inl ⟨_, harena⟩
  · intro hover
    apply ExtTreeMap.ext_getElem?
    intro key
    cases hslot : (after events).slots[key]? with
    | none => exact ExtTreeMap.getElem?_empty.symm
    | some slot =>
      obtain ⟨o, ho, -, -, -, hphase⟩ := h.live hlost hslot
      exact absurd hphase (hover o ho)

/-- The event drops no owner whose operation runs. -/
def Spares (s : Singleflight V E) : FlightEvent V E → Prop
  | .drop i => ∀ c, s.calls[i]? = some c → c.role = .owner → c.phase ≠ .awaiting
  | _ => True

theorem NoneLost.setPhase {s : Singleflight V E} (h : s.NoneLost) (i : Nat) {call : FlightCall V E}
    {phase : FlightPhase V E} (hphase : call.role = .owner → phase ≠ .dropped) :
    ∀ o ∈ s.setPhase i call phase, o.role = .owner → o.phase ≠ .dropped := by
  intro o ho hrole
  rcases List.mem_or_eq_of_mem_set ho with ho | rfl
  · exact h o ho hrole
  · exact hphase hrole

theorem NoneLost.append {s : Singleflight V E} (h : s.NoneLost) {call : FlightCall V E}
    (hcall : call.phase ≠ .dropped) :
    ∀ o ∈ s.calls ++ [call], o.role = .owner → o.phase ≠ .dropped := by
  intro o ho hrole
  rcases List.mem_append.mp ho with ho | ho
  · exact h o ho hrole
  · rwa [List.mem_singleton.mp ho]

theorem NoneLost.step {s : Singleflight V E} (h : s.NoneLost) {event : FlightEvent V E}
    (hspares : s.Spares event) : (s.step event).1.NoneLost := by
  cases event with
  | call key =>
    simp only [Singleflight.step, Singleflight.doCall]
    split
    · exact h.append (by simp)
    · split <;> exact h.append (by simp)
  | finish i result =>
    simp only [Singleflight.step, Singleflight.finish]
    split
    · cases result <;> exact h.setPhase i (by simp)
    · exact h
  | wake i =>
    simp only [Singleflight.step, Singleflight.wake]
    split
    · split
      · exact h.setPhase i (by simp)
      · exact h.setPhase i (by simp)
      · exact h
    · exact h
  | drop i =>
    simp only [Singleflight.step, Singleflight.drop]
    split
    · rename_i key slot role hi
      exact h.setPhase i fun hrole => absurd rfl (hspares _ hi hrole)
    · exact h

/-- No event of the run drops an owner whose operation runs. -/
def SparesOwners (events : List (FlightEvent V E)) : Prop :=
  ∀ before event later, events = before ++ event :: later → (after before).Spares event

/-- **The map stays clean exactly when no running owner is dropped.** -/
theorem single_flight_iff (events : List (FlightEvent V E)) :
    (∀ before later, events = before ++ later → Clean before) ↔ SparesOwners events := by
  constructor
  · rintro hclean before event later rfl
    cases event with
    | call key => trivial
    | finish i result => trivial
    | wake i => trivial
    | drop i =>
      rintro ⟨key, slot, role, phase⟩ hi hrole hphase
      dsimp only at hrole hphase
      subst hrole hphase
      have hafter : after (before ++ [.drop i]) = ((after before).drop i).1 := by
        simp only [after, run_append]
        rfl
      have hdropped : ((after before).drop i).1 = { after before with
          calls := (after before).setPhase i ⟨key, slot, .owner, .awaiting⟩ .dropped } := by
        simp only [drop, hi]
      -- the key is still in the map, and its one owner is gone
      have hkey := ((sound_after before).calls _ (List.mem_of_getElem? hi)).mapped rfl (.inl rfl)
      have hlive := (hclean (before ++ [.drop i]) later (by simp)).live key slot
      rw [hafter, hdropped] at hlive
      obtain ⟨o, ho, howner, -, hslot, hawaiting⟩ := hlive hkey
      have hsound := (sound_after before).drop i
      rw [hdropped] at hsound
      have hlt := (List.getElem?_eq_some_iff.mp hi).1
      have hgone := hsound.owner_unique ho (List.mem_of_getElem? (List.getElem?_set_self hlt))
        howner rfl hslot
      rw [hgone] at hawaiting
      cases hawaiting
  · rintro hspares before later rfl
    refine clean_of_noneLost (run_invariant_of_meets (P := NoneLost) (M := Spares)
      (fun _ _ h hmeets => h.step hmeets) fresh (by simp [NoneLost, fresh]) before ?_)
    rintro pre event post rfl
    exact hspares pre event (post ++ later) (by simp)

/-- A call is dropped while its operation runs: the key stays in the map with nobody to remove
it. -/
theorem dropped_owner_leaves_slot : ¬ ∀ events : List (FlightEvent Nat Nat), Clean events := by
  intro h
  have hempty := (h [.call 7, .drop 0]).empty (by decide)
  have hkey : (after [.call 7, .drop 0] : Singleflight Nat Nat).slots[7]? = some 0 := by
    decide
  rw [hempty] at hkey
  simp at hkey

end Singleflight

end Neoth.Providers
