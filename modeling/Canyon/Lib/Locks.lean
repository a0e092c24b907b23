import Canyon.Lib.Scoped
import Mathlib.Logic.Relation

/-!
# Two threads and their locks

Two threads of one kind work on a shared state. A thread that asks for a lock goes on when the
other holds nothing that conflicts with the request. In a deadlock each of the two asks for a lock
that the other holds; it never ends.
-/

namespace Canyon.Lib

variable {σ κ : Type}

/-- A lock, and how it is asked for or held. -/
structure Request (κ : Type) where
  /-- The lock. -/
  lock : κ
  /-- Shared with other readers, or alone. -/
  access : Access
  deriving DecidableEq, Repr

/-- Two threads cannot hold a lock at the same time if one of them wants it alone. -/
def Request.Conflicts (asked held : Request κ) : Prop :=
  asked.lock = held.lock ∧ (asked.access = .write ∨ held.access = .write)

/-- A thread that asks for this waits while the other holds that. -/
def Waits (wants : Option (Request κ)) (holds : List (Request κ)) : Prop :=
  ∃ asked ∈ wants, ∃ held ∈ holds, asked.Conflicts held

/-- A kind of thread over a shared state. -/
structure Thread (σ κ : Type) where
  /-- Where a thread can be in its program. -/
  Control : Type 1
  /-- The lock that the next step takes, if it takes one. -/
  wants : Control → Option (Request κ)
  /-- The locks that are held. -/
  holds : Control → List (Request κ)
  /-- The next step, when its lock is granted. -/
  next : σ → Control → Option (σ × Control)

/-- Two threads and what they share. -/
structure Duo (kind : Thread σ κ) where
  /-- The shared state. -/
  shared : σ
  /-- One thread. -/
  left : kind.Control
  /-- The other thread. -/
  right : kind.Control

namespace Duo

variable {kind : Thread σ κ}

/-- One of the threads takes a step. -/
inductive Step : Duo kind → Duo kind → Prop where
  /-- A step of the left thread. -/
  | left {duo : Duo kind} {shared : σ} {control : kind.Control}
      (granted : ¬Waits (kind.wants duo.left) (kind.holds duo.right))
      (moved : kind.next duo.shared duo.left = some (shared, control)) :
      Step duo ⟨shared, control, duo.right⟩
  /-- A step of the right thread. -/
  | right {duo : Duo kind} {shared : σ} {control : kind.Control}
      (granted : ¬Waits (kind.wants duo.right) (kind.holds duo.left))
      (moved : kind.next duo.shared duo.right = some (shared, control)) :
      Step duo ⟨shared, duo.left, control⟩

/-- Both threads wait for a lock that the other holds. -/
def Deadlocked (duo : Duo kind) : Prop :=
  Waits (kind.wants duo.left) (kind.holds duo.right) ∧
    Waits (kind.wants duo.right) (kind.holds duo.left)

/-- The left thread goes on alone while the right one holds nothing. -/
theorem steps_left {right : kind.Control} (free : kind.holds right = [])
    {first last : σ × kind.Control}
    (run : Relation.ReflTransGen (fun before after => kind.next before.1 before.2 = some after)
      first last) :
    Relation.ReflTransGen Step (⟨first.1, first.2, right⟩ : Duo kind) ⟨last.1, last.2, right⟩ := by
  induction run with
  | refl => exact .refl
  | tail _ moved ih =>
    apply ih.tail
    apply Step.left _ moved
    rintro ⟨_, _, held, isHeld, _⟩
    rw [free] at isHeld
    exact absurd isHeld List.not_mem_nil

end Duo

end Canyon.Lib
