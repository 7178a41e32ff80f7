import Mathlib

/-!
# Logs of self-delimiting frames

A log is a sequence of frames laid end to end.  A `Framing` decodes the frame at the
start of a slice, says how long it is, and does not look at what lies behind it.
`Walk body a b`: going from frame to frame leads from position `a` to position `b`.

* `Walk.of_le`: a log has one chain of frames, so of two positions reached the later
  is reached from the earlier;
* `Walk.append`, `Walk.of_append`: writing behind a log changes nothing before its end.

`Reads body a fs b` is a walk with the frames it passes:

* `Reads.trans`, `Reads.of_le`: reading on from where another reading has stopped;
* `Reads.append`, `Reads.take`: what is read stays readable when the log grows, and when it is cut
  behind it;
* `Reads.complete`: what is read up to a place where no frame begins is all that can be read;
* `Reads.exists_complete`: there is such a place;
* `Reads.laid`: the frames that a writer has laid end to end.

`Framing.upTo` refuses the frames above a length.
-/

namespace Lib.FrameLog

structure Framing (B E F : Type) where
  decode : List B → Except E F
  size : F → Nat
  size_pos : ∀ {bytes f}, decode bytes = .ok f → 0 < size f
  size_le : ∀ {bytes f}, decode bytes = .ok f → size f ≤ bytes.length
  decode_append : ∀ {bytes f} (more : List B), decode bytes = .ok f → decode (bytes ++ more) = .ok f

variable {B E F : Type} (framing : Framing B E F)

inductive Walk (body : List B) : Nat → Nat → Prop
  | refl (a : Nat) : Walk body a a
  | step {a b : Nat} {f : F} (head : framing.decode (body.drop a) = .ok f)
      (tail : Walk body (a + framing.size f) b) : Walk body a b

variable {framing} {body : List B} {a b c : Nat}

theorem Framing.end_le (framing : Framing B E F) {f : F}
    (h : framing.decode (body.drop a) = .ok f) : a + framing.size f ≤ body.length := by
  have hpos := framing.size_pos h
  have hle := framing.size_le h
  rw [List.length_drop] at hle
  omega

theorem Framing.decode_drop_append (framing : Framing B E F) {f : F}
    (h : framing.decode (body.drop a) = .ok f) (more : List B) :
      framing.decode ((body ++ more).drop a) = .ok f := by
  have hend := framing.end_le h
  rw [List.drop_append_of_le_length (by omega)]
  exact framing.decode_append more h

/-- The error is `none` for a frame that is too long. -/
def Framing.decodeUpTo (framing : Framing B E F) (max : Nat) (bytes : List B) :
    Except (Option E) F :=
  match framing.decode bytes with
  | .ok f => if framing.size f ≤ max then .ok f else .error none
  | .error e => .error (some e)

theorem Framing.decodeUpTo_eq_ok_iff {max : Nat} {bytes : List B} {f : F} :
    framing.decodeUpTo max bytes = .ok f ↔ framing.decode bytes = .ok f ∧ framing.size f ≤ max := by
  unfold Framing.decodeUpTo
  cases framing.decode bytes with
  | error e => simp
  | ok g =>
    dsimp only
    split
    · rename_i hle
      constructor
      · rintro ⟨⟩
        exact ⟨rfl, hle⟩
      · rintro ⟨⟨⟩, -⟩
        rfl
    · rename_i hlong
      refine ⟨(by cases ·), ?_⟩
      rintro ⟨⟨⟩, hle⟩
      exact absurd hle hlong

/-- The frames of at most `max` bytes. -/
def Framing.upTo (framing : Framing B E F) (max : Nat) : Framing B (Option E) F where
  decode := framing.decodeUpTo max
  size := framing.size
  size_pos h := framing.size_pos (Framing.decodeUpTo_eq_ok_iff.mp h).1
  size_le h := framing.size_le (Framing.decodeUpTo_eq_ok_iff.mp h).1
  decode_append more h := by
    obtain ⟨hdecode, hle⟩ := Framing.decodeUpTo_eq_ok_iff.mp h
    exact Framing.decodeUpTo_eq_ok_iff.mpr ⟨framing.decode_append more hdecode, hle⟩

namespace Walk

theorem le (h : Walk framing body a b) : a ≤ b := by
  induction h with
  | refl => exact Nat.le_refl _
  | step head tail ih => omega

theorem trans (h : Walk framing body a b) (h' : Walk framing body b c) : Walk framing body a c := by
  induction h with
  | refl => exact h'
  | step head tail ih => exact .step head (ih h')

theorem le_length (h : Walk framing body a b) (ha : a ≤ body.length) : b ≤ body.length := by
  induction h with
  | refl => exact ha
  | step head tail ih => exact ih (framing.end_le head)

theorem of_le (h : Walk framing body a b) (h' : Walk framing body a c) (hle : b ≤ c) :
    Walk framing body b c := by
  induction h with
  | refl => exact h'
  | step head tail ih =>
    cases h' with
    | refl =>
      have htail := tail.le
      have hpos := framing.size_pos head
      omega
    | step head' tail' =>
      cases head.symm.trans head'
      exact ih tail' hle

theorem append (h : Walk framing body a b) (more : List B) : Walk framing (body ++ more) a b := by
  induction h with
  | refl => exact .refl _
  | step head tail ih => exact .step (framing.decode_drop_append head more) ih

/-- Before a position reached in the shorter log, the longer log has no other frames. -/
theorem of_append {more : List B} (h : Walk framing body a b) (h' : Walk framing (body ++ more) a c)
    (hlt : c < b) : Walk framing body a c ∧ ∃ f, framing.decode (body.drop c) = .ok f := by
  induction h with
  | refl =>
    have hle := h'.le
    omega
  | step head tail ih =>
    cases h' with
    | refl => exact ⟨.refl _, _, head⟩
    | step head' tail' =>
      cases (framing.decode_drop_append head more).symm.trans head'
      obtain ⟨hwalk, hframe⟩ := ih tail' hlt
      exact ⟨.step head hwalk, hframe⟩

end Walk

/-! ## The frames on the way -/

/-- Going from frame to frame leads from `a` past the frames `fs` to `b`. -/
inductive Reads (framing : Framing B E F) (body : List B) : Nat → List F → Nat → Prop
  | nil (a : Nat) : Reads framing body a [] a
  | cons {a b : Nat} {f : F} {fs : List F} (head : framing.decode (body.drop a) = .ok f)
      (tail : Reads framing body (a + framing.size f) fs b) : Reads framing body a (f :: fs) b

namespace Reads

variable {fs gs : List F}

theorem le (h : Reads framing body a fs b) : a ≤ b := by
  induction h with
  | nil => exact Nat.le_refl _
  | cons head tail ih => omega

theorem le_length (h : Reads framing body a fs b) (ha : a ≤ body.length) : b ≤ body.length := by
  induction h with
  | nil => exact ha
  | cons head tail ih => exact ih (framing.end_le head)

theorem trans (h : Reads framing body a fs b) (h' : Reads framing body b gs c) :
    Reads framing body a (fs ++ gs) c := by
  induction h with
  | nil => exact h'
  | cons head tail ih => exact .cons head (ih h')

theorem append (h : Reads framing body a fs b) (more : List B) :
    Reads framing (body ++ more) a fs b := by
  induction h with
  | nil => exact .nil _
  | cons head tail ih => exact .cons (framing.decode_drop_append head more) ih

theorem of_le (h : Reads framing body a fs b) (h' : Reads framing body a gs c) (hle : b ≤ c) :
    ∃ hs, gs = fs ++ hs ∧ Reads framing body b hs c := by
  induction h generalizing gs with
  | nil => exact ⟨gs, rfl, h'⟩
  | cons head tail ih =>
    cases h' with
    | nil =>
      have htail := tail.le
      have hpos := framing.size_pos head
      omega
    | cons head' tail' =>
      cases head.symm.trans head'
      obtain ⟨hs, rfl, hrest⟩ := ih tail' hle
      exact ⟨hs, rfl, hrest⟩

/-- Where no frame begins, every reading has come to its end. -/
theorem complete (h : Reads framing body a fs b) (hstop : ∀ f, framing.decode (body.drop b) ≠ .ok f)
    (h' : Reads framing body a gs c) : c ≤ b := by
  by_contra hlt
  obtain ⟨hs, -, hrest⟩ := of_le h h' (by omega)
  cases hrest with
  | nil => exact hlt (Nat.le_refl _)
  | cons head tail => exact hstop _ head

theorem exists_complete (framing : Framing B E F) (body : List B) (a : Nat) :
    ∃ fs b, Reads framing body a fs b ∧ ∀ f, framing.decode (body.drop b) ≠ .ok f := by
  -- each frame takes the position nearer to the end of the log
  induction h : body.length - a using Nat.strongRecOn generalizing a with
  | ind left ih =>
    cases hdecode : framing.decode (body.drop a) with
    | error e => exact ⟨[], a, .nil a, by simp [hdecode]⟩
    | ok f =>
      have hpos := framing.size_pos hdecode
      have hend := framing.end_le hdecode
      obtain ⟨fs, b, hreads, hstop⟩ :=
        ih (body.length - (a + framing.size f)) (by omega) (a + framing.size f) rfl
      exact ⟨f :: fs, b, .cons hdecode hreads, hstop⟩

theorem unique (h : Reads framing body a fs b) (h' : Reads framing body a gs b) : fs = gs := by
  obtain ⟨hs, rfl, hrest⟩ := of_le h h' (Nat.le_refl _)
  cases hrest with
  | nil => simp
  | cons head tail =>
    have htail := tail.le
    have hpos := framing.size_pos head
    omega

/-- A framing that reads no further than the frame goes. -/
def Exact (framing : Framing B E F) : Prop :=
  ∀ bytes f, framing.decode bytes = .ok f → framing.decode (bytes.take (framing.size f)) = .ok f

theorem Exact.upTo (hexact : Exact framing) (max : Nat) : Exact (framing.upTo max) := by
  intro bytes f h
  obtain ⟨hdecode, hle⟩ := Framing.decodeUpTo_eq_ok_iff.mp h
  exact Framing.decodeUpTo_eq_ok_iff.mpr ⟨hexact _ _ hdecode, hle⟩

theorem take (hexact : Exact framing) {n : Nat} (h : Reads framing body a fs b) (hle : b ≤ n) :
    Reads framing (body.take n) a fs b := by
  induction h with
  | nil => exact .nil _
  | @cons a b f fs head tail ih =>
    refine .cons ?_ (ih hle)
    have hfit := tail.le
    have hsplit : (body.take n).drop a =
        (body.drop a).take (framing.size f) ++
          ((body.drop a).take (n - a)).drop (framing.size f) := by
      have hparts := List.take_append_drop (framing.size f) ((body.drop a).take (n - a))
      rw [List.take_take, Nat.min_eq_left (by omega)] at hparts
      rw [List.drop_take, hparts]
    rw [hsplit]
    exact framing.decode_append _ (hexact _ _ head)

/-- Frames laid end to end are read in their order. -/
theorem laid {frames : List (F × List B)}
    (hframe : ∀ p ∈ frames, p.2.length = framing.size p.1 ∧ ∀ more,
      framing.decode (p.2 ++ more) = .ok p.1)
    (before more : List B) :
    Reads framing (before ++ (frames.flatMap Prod.snd ++ more)) before.length (frames.map Prod.fst)
      (before.length + (frames.flatMap Prod.snd).length) := by
  induction frames generalizing before with
  | nil => exact .nil _
  | cons p frames ih =>
    rw [List.forall_mem_cons] at hframe
    have hrest := ih hframe.2 (before ++ p.2)
    rw [List.length_append, List.append_assoc] at hrest
    rw [List.flatMap_cons, List.map_cons, List.length_append, ← Nat.add_assoc, List.append_assoc]
    refine .cons ?_ (hframe.1.1 ▸ hrest)
    rw [List.drop_left]
    exact hframe.1.2 _

end Reads

end Lib.FrameLog
