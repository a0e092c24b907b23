import Canyon.Lib.Locks
import Mathlib.Logic.Function.Basic

/-!
# Any number of threads and their locks

Threads of one kind over any set of names. A thread that asks for a lock goes on when no other
thread holds anything that conflicts with the request. If a step takes no lock but the one it asks
for, no two threads ever hold conflicting locks.
-/

namespace Canyon.Lib

variable {σ κ ι : Type} {kind : Thread σ κ}

/-- Conflicts are mutual. -/
theorem Request.Conflicts.symm {left right : Request κ} (conflicts : left.Conflicts right) :
    right.Conflicts left :=
  ⟨conflicts.1.symm, conflicts.2.symm⟩

/-- A step takes no lock but the one that it asks for. -/
def Thread.Honest (kind : Thread σ κ) : Prop :=
  ∀ shared control after later, kind.next shared control = some (after, later) →
    ∀ held ∈ kind.holds later, held ∈ kind.holds control ∨ kind.wants control = some held

/-- Two families stay related when both change in the same place. -/
theorem related_update [DecidableEq ι] {α γ : Type*} {related : α → γ → Prop} {left : ι → α}
    {right : ι → γ} {who : ι} {first : α} {second : γ} (here : related first second)
    (elsewhere : ∀ other, other ≠ who → related (left other) (right other)) (each : ι) :
    related (Function.update left who first each) (Function.update right who second each) := by
  by_cases same : each = who
  · rw [same, Function.update_self, Function.update_self]
    exact here
  · rw [Function.update_of_ne same, Function.update_of_ne same]
    exact elsewhere each same

/-- Threads and what they share. -/
structure Crew (kind : Thread σ κ) (ι : Type) where
  /-- The shared state. -/
  shared : σ
  /-- Where each thread is. -/
  control : ι → kind.Control

namespace Crew

/-- No other thread holds what a thread asks for. -/
def Granted (crew : Crew kind ι) (who : ι) : Prop :=
  ∀ other, other ≠ who →
    ¬Waits (kind.wants (crew.control who)) (kind.holds (crew.control other))

/-- One thread takes a step. -/
inductive Step [DecidableEq ι] : Crew kind ι → Crew kind ι → Prop where
  /-- A step of the thread with this name. -/
  | move {crew : Crew kind ι} (who : ι) {shared : σ} {control : kind.Control}
      (granted : crew.Granted who)
      (moved : kind.next crew.shared (crew.control who) = some (shared, control)) :
      Step crew ⟨shared, Function.update crew.control who control⟩

/-- No two threads hold conflicting locks. -/
def Exclusive (crew : Crew kind ι) : Prop :=
  ∀ left right, left ≠ right → ∀ mine ∈ kind.holds (crew.control left),
    ∀ yours ∈ kind.holds (crew.control right), ¬mine.Conflicts yours

/-- Threads that hold nothing do not conflict. -/
theorem Exclusive.of_idle {crew : Crew kind ι}
    (idle : ∀ who, kind.holds (crew.control who) = []) : crew.Exclusive := by
  intro left right _ mine mineIn
  rw [idle left] at mineIn
  cases mineIn

/-- A granted step keeps the locks apart. -/
theorem Exclusive.update [DecidableEq ι] {crew : Crew kind ι} (exclusive : crew.Exclusive)
    (honest : kind.Honest) {who : ι} {shared : σ} {control : kind.Control}
    (granted : crew.Granted who)
    (moved : kind.next crew.shared (crew.control who) = some (shared, control)) :
    Exclusive (⟨shared, Function.update crew.control who control⟩ : Crew kind ι) := by
  -- whatever the step holds was held before or has just been granted
  have apart : ∀ other, other ≠ who → ∀ mine ∈ kind.holds control,
      ∀ yours ∈ kind.holds (crew.control other), ¬mine.Conflicts yours := by
    intro other different mine mineIn yours yoursIn conflicts
    rcases honest _ _ _ _ moved mine mineIn with old | asked
    · exact exclusive who other different.symm mine old yours yoursIn conflicts
    · exact granted other different ⟨mine, asked, yours, yoursIn, conflicts⟩
  intro left right different mine mineIn yours yoursIn conflicts
  dsimp only at mineIn yoursIn
  by_cases isLeft : left = who
  · subst isLeft
    rw [Function.update_self] at mineIn
    rw [Function.update_of_ne different.symm] at yoursIn
    exact apart right different.symm mine mineIn yours yoursIn conflicts
  · rw [Function.update_of_ne isLeft] at mineIn
    by_cases isRight : right = who
    · subst isRight
      rw [Function.update_self] at yoursIn
      exact apart left different yours yoursIn mine mineIn conflicts.symm
    · rw [Function.update_of_ne isRight] at yoursIn
      exact exclusive left right different mine mineIn yours yoursIn conflicts

/-- The locks stay apart in every run. -/
theorem Exclusive.run [DecidableEq ι] {crew last : Crew kind ι} (exclusive : crew.Exclusive)
    (honest : kind.Honest) (run : Relation.ReflTransGen Step crew last) : last.Exclusive := by
  induction run with
  | refl => exact exclusive
  | tail _ stepped ih =>
    obtain ⟨who, granted, moved⟩ := stepped
    exact ih.update honest granted moved

/-- A thread may go on alone while the others hold nothing. -/
theorem run_of_alone [DecidableEq ι] {crew : Crew kind ι} {who : ι}
    (idle : ∀ other, other ≠ who → kind.holds (crew.control other) = [])
    {last : σ × kind.Control}
    (moves : Relation.ReflTransGen (fun before after => kind.next before.1 before.2 = some after)
      (crew.shared, crew.control who) last) :
    ∃ later : Crew kind ι, Relation.ReflTransGen Step crew later ∧ later.shared = last.1 ∧
      later.control who = last.2 ∧
      ∀ other, other ≠ who → later.control other = crew.control other := by
  induction moves with
  | refl => exact ⟨crew, .refl, rfl, rfl, fun _ _ => rfl⟩
  | tail _ moved ih =>
    obtain ⟨middle, runs, shared, control, others⟩ := ih
    have granted : middle.Granted who := by
      intro other different
      rw [others other different, idle other different]
      rintro ⟨asked, -, held, heldIn, -⟩
      cases heldIn
    rw [← shared, ← control] at moved
    refine ⟨_, runs.tail (.move who granted moved), rfl, Function.update_self .., ?_⟩
    intro other different
    exact (Function.update_of_ne different ..).trans (others other different)

end Crew

/-! ## The states of a run -/

section Visits

variable {α : Type*} {step : α → α → Prop} {first last : α} {visited : List α}

/-- The states that a run goes through, the latest first. -/
inductive Visits (step : α → α → Prop) (first : α) : List α → α → Prop where
  /-- Nothing has happened. -/
  | start : Visits step first [first] first
  /-- One more step. -/
  | move {visited : List α} {middle last : α} (visits : Visits step first visited middle)
      (stepped : step middle last) : Visits step first (last :: visited) last

/-- A run goes through the state that it is in. -/
theorem Visits.last_mem (visits : Visits step first visited last) : last ∈ visited := by
  cases visits with
  | start => exact List.mem_cons_self
  | move visits stepped => exact List.mem_cons_self

/-- Every run goes through some states. -/
theorem exists_visits (run : Relation.ReflTransGen step first last) :
    ∃ visited, Visits step first visited last := by
  induction run with
  | refl => exact ⟨_, .start⟩
  | tail _ stepped ih =>
    obtain ⟨visited, visits⟩ := ih
    exact ⟨_, visits.move stepped⟩

end Visits

end Canyon.Lib
