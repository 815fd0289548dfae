import Mathlib.Data.List.Basic

/-!
A job queue whose jobs are named by the caller. A job is attempted a bounded
number of times and is then kept as failed; while any job of a name is kept,
adding another job of that name does nothing.
-/

namespace Store

inductive JobState where
  | waiting
  | active
  | completed
  | failed
  deriving DecidableEq, Repr

structure Job (K J : Type) where
  jobId : K
  data : J
  state : JobState
  attemptsMade : Nat
  deriving DecidableEq, Repr

abbrev JobQueue (K J : Type) := List (Job K J)

namespace JobQueue
variable {K J : Type} [DecidableEq K]

def has (q : JobQueue K J) (k : K) : Bool := q.any fun j => j.jobId == k

/-- How often a job is attempted. -/
def attempts : Nat := 5

/-- What becomes of the job named `k`. -/
def onJob (q : JobQueue K J) (k : K) (f : Job K J → Job K J) : JobQueue K J :=
  q.map fun j => if j.jobId = k then f j else j

/-- A worker takes the job. Its worker may die; the job is taken again then. -/
def take (q : JobQueue K J) (k : K) : JobQueue K J :=
  q.onJob k fun j => { j with state := .active, attemptsMade := j.attemptsMade + 1 }

/-- The attempt has come to its end. A job that raised waits for another attempt if it has
one left and may be retried. -/
def finish (q : JobQueue K J) (k : K) (raised unrecoverable : Bool) : JobQueue K J :=
  q.onJob k fun j => { j with state :=
    if !raised then .completed
    else if unrecoverable || attempts ≤ j.attemptsMade then .failed
    else .waiting }

end JobQueue

/-- It is neither completed nor failed, and has attempts left. -/
def Job.attemptable {K J : Type} (j : Job K J) : Bool :=
  (j.state == .waiting || j.state == .active) && j.attemptsMade < JobQueue.attempts

namespace JobQueue
variable {K J : Type} [DecidableEq K]

/-- The job named `k` can still be attempted. -/
def attemptable (q : JobQueue K J) (k : K) : Bool :=
  q.any fun j => j.jobId == k && j.attemptable

def add (q : JobQueue K J) (k : K) (data : J) : JobQueue K J :=
  if q.has k then q else q ++ [⟨k, data, .waiting, 0⟩]

/-- The job named `k` is neither completed nor failed. -/
def alive (q : JobQueue K J) (k : K) : Bool :=
  q.any fun j => j.jobId == k && (j.state == .waiting || j.state == .active)

/-- The jobs named `k`. -/
def named (q : JobQueue K J) (k : K) : JobQueue K J := q.filter fun j => j.jobId == k

theorem has_iff {q : JobQueue K J} {k : K} :
    q.has k = true ↔ ∃ j ∈ q, j.jobId = k := by
  simp [has]

theorem mem_add {q : JobQueue K J} {k : K} {data : J} {j : Job K J} (h : j ∈ q.add k data) :
    j ∈ q ∨ j = ⟨k, data, .waiting, 0⟩ := by
  unfold add at h
  split at h
  · exact Or.inl h
  · simpa using h

theorem mem_add_of_mem {q : JobQueue K J} {j : Job K J} (h : j ∈ q) (k : K) (data : J) :
    j ∈ q.add k data := by
  unfold add
  split
  · exact h
  · exact List.mem_append_left _ h

theorem has_add (q : JobQueue K J) (k : K) (data : J) : (q.add k data).has k = true := by
  unfold add
  split
  · assumption
  · rw [has_iff]
    exact ⟨_, List.mem_append_right _ (List.mem_singleton_self _), rfl⟩

theorem has_named (q : JobQueue K J) (k : K) : q.has k = (q.named k).any fun _ => true := by
  simp [has, named, List.any_filter]

theorem alive_named (q : JobQueue K J) (k : K) :
    q.alive k = (q.named k).any fun j => j.state == .waiting || j.state == .active := by
  simp only [alive, named, List.any_filter]

theorem attemptable_named (q : JobQueue K J) (k : K) :
    q.attemptable k = (q.named k).any Job.attemptable := by
  simp only [attemptable, named, List.any_filter]

theorem attemptable_iff {q : JobQueue K J} {k : K} :
    q.attemptable k = true ↔ ∃ j ∈ q, j.jobId = k ∧ j.attemptable = true := by
  simp [attemptable]

theorem alive_iff {q : JobQueue K J} {k : K} :
    q.alive k = true ↔ ∃ j ∈ q, j.jobId = k ∧ (j.state = .waiting ∨ j.state = .active) := by
  simp [alive]

theorem alive_of_attemptable {q : JobQueue K J} {k : K} (h : q.attemptable k = true) :
    q.alive k = true := by
  rw [attemptable_iff] at h
  obtain ⟨j, hj, hk, hattempt⟩ := h
  simp only [Job.attemptable, Bool.and_eq_true, Bool.or_eq_true, beq_iff_eq] at hattempt
  rw [alive_iff]
  exact ⟨j, hj, hk, hattempt.1⟩

theorem has_of_alive {q : JobQueue K J} {k : K} (h : q.alive k = true) : q.has k = true := by
  rw [alive_iff] at h
  obtain ⟨j, hj, hk, _⟩ := h
  rw [has_iff]
  exact ⟨j, hj, hk⟩

theorem alive_add {q : JobQueue K J} {k : K} (h : q.alive k = true) (k' : K) (data : J) :
    (q.add k' data).alive k = true := by
  rw [alive_iff] at h ⊢
  obtain ⟨j, hj, hk, hst⟩ := h
  exact ⟨j, mem_add_of_mem hj k' data, hk, hst⟩

/-- A new job can be attempted. -/
theorem attemptable_add {q : JobQueue K J} {k : K} (h : q.has k = false) (data : J) :
    (q.add k data).attemptable k = true := by
  rw [attemptable_iff]
  refine ⟨⟨k, data, .waiting, 0⟩, ?_, rfl, rfl⟩
  rw [add, if_neg (by simp [h])]
  exact List.mem_append_right _ (List.mem_singleton_self _)

theorem named_add_other {q : JobQueue K J} {k k' : K} (h : k' ≠ k) (data : J) :
    (q.add k data).named k' = q.named k' := by
  unfold add
  split
  · rfl
  · simp [named, Ne.symm h]

theorem named_onJob_other {q : JobQueue K J} {k k' : K} {f : Job K J → Job K J}
    (hf : ∀ j, (f j).jobId = j.jobId) (h : k' ≠ k) : (q.onJob k f).named k' = q.named k' := by
  induction q with
  | nil => rfl
  | cons j q ih =>
      simp only [onJob, named, List.map_cons, List.filter_cons] at ih ⊢
      by_cases hj : j.jobId = k
      · have hne : ¬ k = k' := fun he => h he.symm
        simp only [hj, if_true, hf, beq_iff_eq, hne, if_false]
        exact ih
      · simp only [hj, if_false]
        rw [ih]

theorem named_take_other {q : JobQueue K J} {k k' : K} (h : k' ≠ k) :
    (q.take k).named k' = q.named k' := named_onJob_other (fun _ => rfl) h

theorem named_finish_other {q : JobQueue K J} {k k' : K} (h : k' ≠ k) (raised unrecoverable : Bool) :
    (q.finish k raised unrecoverable).named k' = q.named k' := named_onJob_other (fun _ => rfl) h

theorem has_onJob {q : JobQueue K J} {k : K} {f : Job K J → Job K J}
    (hf : ∀ j, (f j).jobId = j.jobId) : (q.onJob k f).has k = q.has k := by
  have hid : ∀ j : Job K J, (if j.jobId = k then f j else j).jobId = j.jobId := by
    intro j
    split
    · exact hf j
    · rfl
  simp only [has, onJob, List.any_map, Function.comp_def, hid]

theorem has_take (q : JobQueue K J) (k : K) : (q.take k).has k = q.has k :=
  has_onJob fun _ => rfl

theorem has_finish (q : JobQueue K J) (k : K) (raised unrecoverable : Bool) :
    (q.finish k raised unrecoverable).has k = q.has k := has_onJob fun _ => rfl

theorem mem_onJob {q : JobQueue K J} {k : K} {f : Job K J → Job K J} {j : Job K J} (hj : j ∈ q)
    (hk : j.jobId = k) : f j ∈ q.onJob k f :=
  List.mem_map.mpr ⟨j, hj, if_pos hk⟩

theorem alive_take {q : JobQueue K J} {k : K} (h : q.has k = true) :
    (q.take k).alive k = true := by
  rw [has_iff] at h
  obtain ⟨j, hj, hk⟩ := h
  rw [alive_iff]
  exact ⟨_, mem_onJob hj hk, hk, Or.inr rfl⟩

/-- An attempt that may be repeated and is not the last leaves the job to be attempted. -/
theorem attemptable_finish {q : JobQueue K J} {k : K} (h : q.attemptable k = true) :
    (q.finish k true false).attemptable k = true := by
  rw [attemptable_iff] at h ⊢
  obtain ⟨j, hj, hk, hattempt⟩ := h
  refine ⟨_, mem_onJob hj hk, hk, ?_⟩
  simp only [Job.attemptable, Bool.and_eq_true, decide_eq_true_eq] at hattempt
  have hleft : ¬ attempts ≤ j.attemptsMade := by omega
  simp [Job.attemptable, hleft, hattempt.2]

end JobQueue
end Store
