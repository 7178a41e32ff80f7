import Neoth.Cron.Schedule
import Neoth.Lib.Kahn

/-!
# Dependency order of jobs

`topo_order` of `cron/schema.rs`, which sorts by counting the dependencies that are still open.

* `edges`, `inDegree`, `successors`: what the two loops over the jobs collect;
* `turned`, `invariant_seed`: they make the counting work;
* **`topoOrder_sorts`**: the order that comes out, and what each error says.
-/

open Lib.Kahn

namespace Neoth.Cron

inductive WaveError where
  | cycle (members : List String)
  | unknownDep (job dep : String)
  deriving DecidableEq

section
variable {DateTime : Type}

/-! ## The graph -/

/-- Each entry of `depends_on`, in the order of the loops: the job and what it names. -/
def edges (jobs : List (Job DateTime)) : List (String × String) :=
  jobs.flatMap fun job => job.dependsOn.map fun dep => (job.id, dep)

/-- `in_degree` after the loop. -/
def inDegree (jobs : List (Job DateTime)) (id : String) : Nat :=
  ((edges jobs).filter (·.1 = id)).length

/-- `successors` after the loop. -/
def successors (jobs : List (Job DateTime)) (id : String) : List String :=
  ((edges jobs).filter (·.2 = id)).map (·.1)

/-- `sort_unstable`, on ids that differ. -/
def sortIds (ids : List String) : List String := ids.insertionSort (· ≤ ·)

/-- `topo_order`. Nothing, where a count would fall below zero or the loop takes more than `fuel`
turns. -/
def topoOrder (jobs : List (Job DateTime)) (fuel : Nat) : Option (Except WaveError (List String)) :=
  let idSet := jobs.map Job.id
  match (edges jobs).find? (·.2 ∉ idSet) with
  | some (job, dep) => some (.error (.unknownDep job dep))
  | none => do
    let queue := sortIds (idSet.dedup.filter (inDegree jobs · = 0))
    let order ← drain (successors jobs) sortIds fuel (inDegree jobs) queue []
    if order.length ≠ jobs.length then some (.error (.cycle (idSet.filter (· ∉ order))))
      else some (.ok order)

/-- What a job names as its dependencies. -/
def depsOf (jobs : List (Job DateTime)) (id : String) : List String :=
  ((edges jobs).filter (·.1 = id)).map (·.2)

/-- Some job `a` depends on `b`. -/
def DependsOn (jobs : List (Job DateTime)) (a b : String) : Prop :=
  ∃ job ∈ jobs, job.id = a ∧ b ∈ job.dependsOn

def DepsExist (jobs : List (Job DateTime)) : Prop := ∀ job ∈ jobs, ∀ dep ∈ job.dependsOn,
    dep ∈ jobs.map Job.id

def Acyclic (jobs : List (Job DateTime)) : Prop := ∀ id, ¬ Relation.TransGen (DependsOn jobs) id id

variable {jobs : List (Job DateTime)} {a b : String}

theorem mem_edges : (a, b) ∈ edges jobs ↔ DependsOn jobs a b := by
  simp only [edges, List.mem_flatMap, List.mem_map, Prod.mk.injEq, DependsOn]
  constructor
  · rintro ⟨job, hjob, dep, hdep, rfl, rfl⟩
    exact ⟨job, hjob, rfl, hdep⟩
  · rintro ⟨job, hjob, rfl, hdep⟩
    exact ⟨job, hjob, b, hdep, rfl, rfl⟩

theorem mem_depsOf : b ∈ depsOf jobs a ↔ DependsOn jobs a b := by
  rw [← mem_edges]
  simp [depsOf]

theorem mem_successors : b ∈ successors jobs a ↔ DependsOn jobs b a := by
  rw [← mem_edges]
  simp [successors]

theorem DependsOn.mem_left (h : DependsOn jobs a b) : a ∈ jobs.map Job.id := by
  obtain ⟨job, hjob, rfl, -⟩ := h
  exact List.mem_map_of_mem hjob

theorem depsExist_iff : DepsExist jobs ↔ ∀ a b, DependsOn jobs a b → b ∈ jobs.map Job.id := by
  constructor
  · rintro h _ b ⟨job, hjob, rfl, hdep⟩
    exact h job hjob b hdep
  · intro h job hjob dep hdep
    exact h job.id dep ⟨job, hjob, rfl, hdep⟩

/-- An entry counts for the job as it counts for the dependency. -/
theorem count_successors : (successors jobs b).count a = (depsOf jobs a).count b := by
  unfold successors depsOf
  generalize edges jobs = l
  induction l with
  | nil => rfl
  | cons e l ih =>
    obtain ⟨x, y⟩ := e
    by_cases hx : x = a <;> by_cases hy : y = b <;> simp [hx, hy] at ih ⊢ <;> omega

theorem inDegree_eq_length : inDegree jobs a = (depsOf jobs a).length := by
  rw [inDegree, depsOf, List.length_map]

theorem perm_sortIds (ids : List String) : (sortIds ids).Perm ids := List.perm_insertionSort _ _

/-! ## The run -/

theorem turned (hexist : DepsExist jobs) :
    Turned (jobs.map Job.id) (depsOf jobs) (successors jobs) where
  known a _ d hd := depsExist_iff.mp hexist a d (mem_depsOf.mp hd)
  count _ _ _ := count_successors
  onto _ _ ha := (mem_successors.mp ha).mem_left

theorem invariant_seed : Invariant (jobs.map Job.id) (depsOf jobs) (inDegree jobs)
    (sortIds ((jobs.map Job.id).dedup.filter (inDegree jobs · = 0))) [] where
  nodup := by
    rw [List.nil_append, (perm_sortIds _).nodup_iff]
    exact (List.nodup_dedup _).filter _
  known a ha := by
    rw [List.nil_append, (perm_sortIds _).mem_iff] at ha
    exact List.mem_dedup.mp (List.mem_of_mem_filter ha)
  counts a _ := by
    rw [inDegree_eq_length]
    simp
  ready a ha := by
    rw [List.nil_append, (perm_sortIds _).mem_iff, List.mem_filter, List.mem_dedup,
      decide_eq_true_eq]
    exact (and_iff_right ha).symm
  after pre a post h := by
    simp at h

theorem edge_eq : Edge (jobs.map Job.id) (depsOf jobs) = DependsOn jobs := by
  funext a b
  rw [Edge, mem_depsOf, eq_iff_iff]
  exact and_iff_right_of_imp DependsOn.mem_left

theorem find_eq_none_iff : (edges jobs).find? (·.2 ∉ jobs.map Job.id) = none ↔ DepsExist jobs := by
  rw [List.find?_eq_none, depsExist_iff]
  constructor
  · intro h a b hab
    simpa using h (a, b) (mem_edges.mpr hab)
  · rintro h ⟨a, b⟩ hab
    simpa using h a b (mem_edges.mp hab)

theorem acyclic_iff : Acyclic jobs ↔
    ∀ id ∈ jobs.map Job.id, ¬ HangsOnCycle (DependsOn jobs) id := by
  constructor
  · rintro h id - ⟨b, -, hb⟩
    exact h b hb
  · intro h id hid
    obtain ⟨b, hb, -⟩ := Relation.TransGen.head'_iff.mp hid
    exact h id hb.mem_left ⟨id, .refl, hid⟩

/-- What the run over jobs whose dependencies exist ends with. -/
theorem topoOrder_of_depsExist (hexist : DepsExist jobs) {fuel : Nat}
    (hfuel : jobs.length ≤ fuel) : ∃ order, order.Nodup ∧
      (∀ id ∈ jobs.map Job.id, id ∈ order ↔ ¬ HangsOnCycle (DependsOn jobs) id) ∧
      (∀ id ∈ order, id ∈ jobs.map Job.id) ∧
      (∀ a b, DependsOn jobs a b → a ∈ order → order.idxOf b < order.idxOf a) ∧
      topoOrder jobs fuel = some (if order.length ≠ jobs.length
        then .error (.cycle ((jobs.map Job.id).filter (· ∉ order))) else .ok order) := by
  have hturns : (jobs.map Job.id).length ≤ fuel + ([] : List String).length := by simpa using hfuel
  obtain ⟨order, hdrain, open_, hdone⟩ :=
    exists_drain (turned hexist) perm_sortIds invariant_seed hturns
  have hnodup : order.Nodup := by simpa using hdone.nodup
  have hmem : ∀ id ∈ jobs.map Job.id, id ∈ order ↔ ¬ HangsOnCycle (DependsOn jobs) id := by
    intro id hid
    rw [hdone.mem_iff (turned hexist).known hid, edge_eq]
  refine ⟨order, hnodup, hmem, by simpa using hdone.known, fun a b hab ha => ?_, ?_⟩
  · exact (hdone.idxOf_lt ha (mem_depsOf.mpr hab)).2
  · unfold topoOrder
    simp only [find_eq_none_iff.mpr hexist, hdrain, Option.bind_eq_bind, Option.bind_some]
    split <;> rfl

/-- **The order of the jobs**, and the two errors, for jobs with ids of their own. -/
theorem topoOrder_sorts (jobs : List (Job DateTime)) (hdistinct : (jobs.map Job.id).Nodup)
    (fuel : Nat) (hfuel : jobs.length ≤ fuel) : ∃ result, topoOrder jobs fuel = some result ∧
      ((∃ order, result = .ok order) ↔ DepsExist jobs ∧ Acyclic jobs) ∧
      (∀ order, result = .ok order → order.Perm (jobs.map Job.id) ∧
        ∀ job ∈ jobs, ∀ dep ∈ job.dependsOn, order.idxOf dep < order.idxOf job.id) ∧
      ((∃ job dep, result = .error (.unknownDep job dep)) ↔ ¬ DepsExist jobs) ∧
      (∀ job dep, result = .error (.unknownDep job dep) →
        DependsOn jobs job dep ∧ dep ∉ jobs.map Job.id) ∧
      ∀ members, result = .error (.cycle members) → members.Nodup ∧
        ∀ id, id ∈ members ↔ id ∈ jobs.map Job.id ∧ HangsOnCycle (DependsOn jobs) id := by
  by_cases hexist : DepsExist jobs
  · obtain ⟨order, hnodup, hmem, hknown, hbefore, hrun⟩ := topoOrder_of_depsExist hexist hfuel
    have hsub : order.Subperm (jobs.map Job.id) := List.subperm_of_subset hnodup hknown
    refine ⟨_, hrun, ?_⟩
    by_cases hlen : order.length = jobs.length
    · have hperm : order.Perm (jobs.map Job.id) := hsub.perm_of_length_le (by simp [hlen])
      have hacyclic : Acyclic jobs := acyclic_iff.mpr fun id hid =>
        (hmem id hid).mp (hperm.mem_iff.mpr hid)
      rw [if_neg (not_not.mpr hlen)]
      refine ⟨by simp [hexist, hacyclic], ?_, by simp [hexist], by simp, by simp⟩
      rintro _ ⟨⟩
      exact ⟨hperm, fun job hjob dep hdep => hbefore job.id dep ⟨job, hjob, rfl, hdep⟩
        (hperm.mem_iff.mpr (List.mem_map_of_mem hjob))⟩
    · have hcyclic : ¬ Acyclic jobs := fun hacyclic => hlen (by
        have hall : (jobs.map Job.id).Subperm order :=
          List.subperm_of_subset hdistinct fun id hid =>
            (hmem id hid).mpr (acyclic_iff.mp hacyclic id hid)
        simpa using le_antisymm hsub.length_le hall.length_le)
      rw [if_pos hlen]
      refine ⟨by simp [hcyclic], by simp, by simp [hexist], by simp, ?_⟩
      rintro _ ⟨⟩
      refine ⟨hdistinct.filter _, fun id => ?_⟩
      rw [List.mem_filter, decide_eq_true_eq]
      exact and_congr_right fun hid => by rw [hmem id hid, not_not]
  · cases hfind : (edges jobs).find? (·.2 ∉ jobs.map Job.id) with
    | none => exact absurd (find_eq_none_iff.mp hfind) hexist
    | some e =>
      have hrun : topoOrder jobs fuel = some (.error (.unknownDep e.1 e.2)) := by
        unfold topoOrder
        simp only [hfind]
      refine ⟨_, hrun, by simp [hexist], by simp, by simp [hexist], ?_, by simp⟩
      rintro _ _ ⟨⟩
      exact ⟨mem_edges.mp (List.mem_of_find?_eq_some hfind), by simpa using List.find?_some hfind⟩

end

/-! ## Runs on fixed inputs -/

def sampleJob (id : String) (dependsOn : List String) : Job Unit :=
  ⟨id, id, ⟨"", none, none, none, none⟩, dependsOn⟩

/-- Two jobs that wait for each other, one that waits for them and one that does not. -/
def sampleKnot : List (Job Unit) :=
  [sampleJob "z" ["y", "r"], sampleJob "x" ["y"], sampleJob "y" ["x", "x"], sampleJob "r" []]

example : topoOrder [sampleJob "b" ["a", "a"], sampleJob "a" []] 2 = some (.ok ["a", "b"]) := by
  decide

theorem topoOrder_sorts_sample : ∃ result, topoOrder sampleKnot 4 = some result ∧
    result = .error (.cycle ["z", "x", "y"]) ∧ ∀ id, id ∈ ["z", "x", "y"] ↔
      id ∈ sampleKnot.map Job.id ∧ HangsOnCycle (DependsOn sampleKnot) id := by
  obtain ⟨result, hrun, -, -, -, -, hcycle⟩ := topoOrder_sorts sampleKnot (by decide) 4 (by decide)
  have hresult : topoOrder sampleKnot 4 = some (.error (.cycle ["z", "x", "y"])) := by decide
  obtain rfl := Option.some.inj (hresult.symm.trans hrun)
  exact ⟨_, hrun, rfl, (hcycle _ rfl).2⟩

end Neoth.Cron
