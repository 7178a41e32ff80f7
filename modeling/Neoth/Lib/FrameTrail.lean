import Neoth.Lib.FrameLog

/-!
# Reading a log past damage

Where no frame begins, a reader may step on by one byte, if the error is one it skips. 
`Trail body a ps b`: reading leads from `a` to `b` and passes the frames `ps`, each with its place.

* `Trail.of_le`: there is one trail;
* `Trail.of_reads`: going from frame to frame is a trail;
* `Trail.mem_split`: a frame that is passed is read where it stands;
* `Trail.reaches`: a stretch is passed if no error on it stops the reader and no frame leads out of
  it.
-/

namespace Lib.FrameLog

variable {B E F : Type} (framing : Framing B E F) (skips : E → Prop)

inductive Trail (body : List B) : Nat → List (Nat × F) → Nat → Prop
  | refl (a : Nat) : Trail body a [] a
  | frame {a b : Nat} {f : F} {ps : List (Nat × F)} (head : framing.decode (body.drop a) = .ok f)
      (tail : Trail body (a + framing.size f) ps b) : Trail body a ((a, f) :: ps) b
  | skip {a b : Nat} {e : E} {ps : List (Nat × F)} (head : framing.decode (body.drop a) = .error e)
      (hskips : skips e) (tail : Trail body (a + 1) ps b) : Trail body a ps b

/-- Frames with their places, from `a` on. -/
def placed : Nat → List F → List (Nat × F)
  | _, [] => []
  | a, f :: fs => (a, f) :: placed (a + framing.size f) fs

/-- Reading from `a` comes to `p`. -/
def Arrives (body : List B) (a p : Nat) : Prop := ∃ ps, Trail framing skips body a ps p

variable {framing skips} {body : List B} {a b c : Nat} {ps qs : List (Nat × F)}

namespace Trail

theorem le (h : Trail framing skips body a ps b) : a ≤ b := by
  induction h with
  | refl => exact le_rfl
  | frame head tail ih => exact (Nat.le_add_right _ _).trans ih
  | skip head hskips tail ih => exact (Nat.le_succ _).trans ih

/-- The end of the log is not skipped. -/
theorem le_length (hend : ∀ e, framing.decode [] = .error e → ¬ skips e)
    (h : Trail framing skips body a ps b) (ha : a ≤ body.length) : b ≤ body.length := by
  induction h with
  | refl => exact ha
  | frame head tail ih => exact ih (framing.end_le head)
  | @skip a b e ps head hskips tail ih =>
    refine ih (Nat.lt_of_le_of_ne ha fun heq => ?_)
    rw [heq, List.drop_length] at head
    exact hend e head hskips

theorem trans (h : Trail framing skips body a ps b) (h' : Trail framing skips body b qs c) :
    Trail framing skips body a (ps ++ qs) c := by
  induction h with
  | refl => exact h'
  | frame head tail ih => exact .frame head (ih h')
  | skip head hskips tail ih => exact .skip head hskips (ih h')

theorem of_reads {fs : List F} (h : Reads framing body a fs b) :
    Trail framing skips body a (placed framing a fs) b := by
  induction h with
  | nil => exact .refl _
  | cons head tail ih => exact .frame head ih

/-- Of two places that reading comes to, it comes from the first to the second. -/
theorem of_le (h : Trail framing skips body a ps b) (h' : Trail framing skips body a qs c)
    (hle : b ≤ c) : ∃ rs, qs = ps ++ rs ∧ Trail framing skips body b rs c := by
  induction h generalizing qs with
  | refl => exact ⟨qs, rfl, h'⟩
  | @frame a b f ps head tail ih =>
    cases h' with
    | refl =>
      have hpos := framing.size_pos head
      have htail := tail.le
      omega
    | frame head' tail' =>
      cases head.symm.trans head'
      obtain ⟨rs, rfl, hrest⟩ := ih tail' hle
      exact ⟨rs, rfl, hrest⟩
    | skip head' => cases head.symm.trans head'
  | skip head hskips tail ih =>
    cases h' with
    | refl =>
      have htail := tail.le
      omega
    | frame head' => cases head.symm.trans head'
    | skip head' hskips' tail' => exact ih tail' hle

theorem of_stuck {e : E} (h : Trail framing skips body a ps b)
    (hstop : framing.decode (body.drop a) = .error e) (hnot : ¬ skips e) : ps = [] := by
  cases h with
  | refl => rfl
  | frame head => cases head.symm.trans hstop
  | skip head hskips =>
    cases head.symm.trans hstop
    exact absurd hskips hnot

theorem mem_split {p : Nat} {f : F} (h : Trail framing skips body a ps b) (hmem : (p, f) ∈ ps) :
    ∃ before after, ps = before ++ (p, f) :: after ∧ Trail framing skips body a before p ∧
      framing.decode (body.drop p) = .ok f ∧
      Trail framing skips body (p + framing.size f) after b := by
  induction h with
  | refl => simp at hmem
  | @frame a b g ps head tail ih =>
    rcases List.mem_cons.mp hmem with heq | hmem
    · cases heq
      exact ⟨[], ps, rfl, .refl _, head, tail⟩
    · obtain ⟨before, after, rfl, hbefore, hrest⟩ := ih hmem
      exact ⟨(a, g) :: before, after, rfl, .frame head hbefore, hrest⟩
  | skip head hskips tail ih =>
    obtain ⟨before, after, rfl, hbefore, hrest⟩ := ih hmem
    exact ⟨before, after, rfl, .skip head hskips hbefore, hrest⟩

/-- A frame where reading comes by is passed. -/
theorem mem_of_decode {p : Nat} {f : F} (h : Trail framing skips body a ps b)
    (h' : Trail framing skips body a qs p)
    (hlt : p < b) (hdecode : framing.decode (body.drop p) = .ok f) : (p, f) ∈ ps := by
  obtain ⟨rs, rfl, hrest⟩ := h'.of_le h hlt.le
  refine List.mem_append_right _ ?_
  cases hrest with
  | refl => exact absurd hlt (lt_irrefl _)
  | frame head tail =>
    cases head.symm.trans hdecode
    exact List.mem_cons_self
  | skip head => cases head.symm.trans hdecode

theorem reaches (hstop : ∀ p, Arrives framing skips body a p → p < b →
      (∀ e, framing.decode (body.drop p) = .error e → skips e) ∧
      ∀ f, framing.decode (body.drop p) = .ok f → p + framing.size f ≤ b) (hle : a ≤ b) :
    Arrives framing skips body a b := by
  -- on what is left of the stretch
  obtain ⟨left, hleft⟩ : ∃ left, left = b - a := ⟨_, rfl⟩
  induction left using Nat.strongRecOn generalizing a with
  | ind left ih =>
    rcases hle.eq_or_lt with rfl | hlt
    · exact ⟨[], .refl _⟩
    · obtain ⟨hskip, hframe⟩ := hstop a ⟨[], .refl _⟩ hlt
      cases hdecode : framing.decode (body.drop a) with
      | ok f =>
        have hpos := framing.size_pos hdecode
        obtain ⟨ps, hps⟩ := ih (b - (a + framing.size f)) (by omega)
          (fun p ⟨ps, hps⟩ => hstop p ⟨_, .frame hdecode hps⟩) (hframe f hdecode) rfl
        exact ⟨_, .frame hdecode hps⟩
      | error e =>
        obtain ⟨ps, hps⟩ := ih (b - (a + 1)) (by omega)
          (fun p ⟨ps, hps⟩ => hstop p ⟨_, .skip hdecode (hskip e hdecode) hps⟩) hlt rfl
        exact ⟨ps, .skip hdecode (hskip e hdecode) hps⟩

end Trail

theorem Arrives.trans {p : Nat} (h : Arrives framing skips body a b)
    (h' : Arrives framing skips body b p) : Arrives framing skips body a p := by
  obtain ⟨ps, hps⟩ := h
  obtain ⟨qs, hqs⟩ := h'
  exact ⟨ps ++ qs, hps.trans hqs⟩

theorem mem_of_placed {p : Nat} {f : F} {fs : List F} (h : (p, f) ∈ placed framing a fs) :
    f ∈ fs := by
  induction fs generalizing a with
  | nil => simp [placed] at h
  | cons g fs ih =>
    rcases List.mem_cons.mp h with heq | h
    · cases heq
      exact List.mem_cons_self
    · exact List.mem_cons_of_mem _ (ih h)

theorem exists_placed {f : F} {fs : List F} (h : f ∈ fs) (a : Nat) :
    ∃ p, (p, f) ∈ placed framing a fs := by
  induction fs generalizing a with
  | nil => simp at h
  | cons g fs ih =>
    rcases List.mem_cons.mp h with rfl | h
    · exact ⟨a, List.mem_cons_self⟩
    · obtain ⟨p, hp⟩ := ih h (a + framing.size g)
      exact ⟨p, List.mem_cons_of_mem _ hp⟩

/-- What stands in a reading has its place there. -/
theorem Reads.mem_placed {fs : List F} {p : Nat} {f : F} (h : Reads framing body a fs b)
    (hmem : (p, f) ∈ placed framing a fs) :
    framing.decode (body.drop p) = .ok f ∧ (∃ gs, Reads framing body a gs p) ∧
      ∃ gs, Reads framing body (p + framing.size f) gs b := by
  induction h with
  | nil => simp [placed] at hmem
  | @cons a b g fs head tail ih =>
    rcases List.mem_cons.mp hmem with heq | hmem
    · cases heq
      exact ⟨head, ⟨[], .nil _⟩, ⟨fs, tail⟩⟩
    · obtain ⟨hdecode, ⟨gs, hgs⟩, hrest⟩ := ih hmem
      exact ⟨hdecode, ⟨g :: gs, .cons head hgs⟩, hrest⟩

theorem Reads.exists_last {fs : List F} (h : Reads framing body a fs b) (hne : fs ≠ []) :
    ∃ place ∈ placed framing a fs, place.1 + framing.size place.2 = b ∧
      ∀ p ∈ (placed framing a fs).map Prod.fst, p ≤ place.1 := by
  induction h with
  | nil => exact absurd rfl hne
  | @cons a b f fs head tail ih =>
    cases fs with
    | nil =>
      cases tail
      exact ⟨(a, f), List.mem_cons_self, rfl, by simp [placed]⟩
    | cons g fs =>
      obtain ⟨place, hplace, hend, hlast⟩ := ih (List.cons_ne_nil _ _)
      refine ⟨place, List.mem_cons_of_mem _ hplace, hend, fun p hp => ?_⟩
      rcases List.mem_cons.mp hp with rfl | hp
      · exact (Nat.le_add_right _ _).trans (hlast _ List.mem_cons_self)
      · exact hlast p hp

end Lib.FrameLog
