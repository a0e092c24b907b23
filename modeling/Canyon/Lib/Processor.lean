import Mathlib.Logic.Relation

/-!
# One processor with interrupts and spin locks

A main routine runs on one processor until an interrupt comes. Then a handler runs, with further
interrupts off, and the main routine waits where it is. A handler that asks for a lock that the main
routine holds spins for ever, since the routine that could release the lock never runs again.
-/

namespace Canyon.Lib

open Relation (ReflTransGen)

variable {σ κ : Type}

/-- A routine over a shared state. -/
structure Routine (σ κ : Type) where
  /-- Where the routine can be. -/
  Place : Type
  /-- The lock that the next step takes, if it takes one. -/
  wants : Place → Option κ
  /-- The locks that are held. -/
  holds : Place → List κ
  /-- The next step, when its lock is free. -/
  next : σ → Place → Option (σ × Place)

/-- What the processor is doing. -/
structure Processor (main handler : Routine σ κ) where
  /-- The shared state. -/
  shared : σ
  /-- Where the main routine is. -/
  running : main.Place
  /-- Where the handler is, if there is one. -/
  interrupted : Option handler.Place

/-- The interrupts that can come, where a handler is at its end, and what devices do meanwhile. -/
structure Surroundings (σ : Type) (handler : Routine σ κ) where
  /-- A handler may begin here. -/
  arrives : σ → handler.Place → Prop
  /-- The handler is at its end. -/
  finished : handler.Place → Prop
  /-- It has released its locks there. -/
  released : ∀ stage, finished stage → handler.holds stage = []
  /-- A step of the devices. -/
  device : σ → σ → Prop

namespace Processor

variable {main handler : Routine σ κ} {around : Surroundings σ handler}
  {processor later : Processor main handler}

/-- One step of the processor or of a device. The main routine goes on only when there is no
handler, so that the lock that it wants is free. -/
inductive Step (around : Surroundings σ handler) :
    Processor main handler → Processor main handler → Prop where
  /-- The main routine goes on. -/
  | main {shared after : σ} {place next : main.Place}
      (moved : main.next shared place = some (after, next)) :
      Step around ⟨shared, place, none⟩ ⟨after, next, none⟩
  /-- An interrupt comes. -/
  | interrupt {shared : σ} {place : main.Place} {stage : handler.Place}
      (arrives : around.arrives shared stage) :
      Step around ⟨shared, place, none⟩ ⟨shared, place, some stage⟩
  /-- The handler goes on. -/
  | handler {shared after : σ} {place : main.Place} {stage next : handler.Place}
      (free : ∀ lock ∈ handler.wants stage, lock ∉ main.holds place)
      (moved : handler.next shared stage = some (after, next)) :
      Step around ⟨shared, place, some stage⟩ ⟨after, place, some next⟩
  /-- The handler returns. -/
  | leave {shared : σ} {place : main.Place} {stage : handler.Place}
      (finished : around.finished stage) :
      Step around ⟨shared, place, some stage⟩ ⟨shared, place, none⟩
  /-- A device moves. -/
  | device {shared after : σ} {place : main.Place} {interrupted : Option handler.Place}
      (moved : around.device shared after) :
      Step around ⟨shared, place, interrupted⟩ ⟨after, place, interrupted⟩

/-- A step is one of the main routine, or leaves it where it is. -/
theorem Step.main_or_aside {aside : σ → σ → Prop} (still : ∀ shared, aside shared shared)
    (handled : ∀ shared stage after next,
      handler.next shared stage = some (after, next) → aside shared after)
    (moved : ∀ shared after, around.device shared after → aside shared after)
    (stepped : Step around processor later) :
    main.next processor.shared processor.running = some (later.shared, later.running) ∨
      later.running = processor.running ∧ aside processor.shared later.shared := by
  cases stepped with
  | main moved => exact .inl moved
  | interrupt arrives => exact .inr ⟨rfl, still _⟩
  | handler free moved => exact .inr ⟨rfl, handled _ _ _ _ moved⟩
  | leave finished => exact .inr ⟨rfl, still _⟩
  | device drifted => exact .inr ⟨rfl, moved _ _ drifted⟩

/-- From these stages a handler does not return before it has taken the lock. -/
structure Needs (around : Surroundings σ handler) (lock : κ) (needs : handler.Place → Prop) :
    Prop where
  /-- The handler is not at its end. -/
  unfinished : ∀ stage, needs stage → ¬around.finished stage
  /-- The next step takes the lock, or the lock is still needed after it. -/
  keeps : ∀ shared stage after next, needs stage → handler.next shared stage = some (after, next) →
    handler.wants stage = some lock ∨ needs next

/-- The handler needs a lock that the main routine holds. -/
def Caught (lock : κ) (needs : handler.Place → Prop) (processor : Processor main handler) : Prop :=
  ∃ stage, processor.interrupted = some stage ∧ needs stage ∧ lock ∈ main.holds processor.running

variable {lock : κ} {needs : handler.Place → Prop}

/-- A processor that is caught stays so, and its main routine stays where it is. -/
theorem Caught.step (caught : processor.Caught lock needs) (isNeeded : Needs around lock needs)
    (stepped : Step around processor later) :
    later.Caught lock needs ∧ later.running = processor.running := by
  obtain ⟨stage, isStage, needed, held⟩ := caught
  cases stepped with
  | main moved => cases isStage
  | interrupt arrives => cases isStage
  | handler free moved =>
    obtain rfl := Option.some.inj isStage
    rcases isNeeded.keeps _ _ _ _ needed moved with takes | again
    · exact absurd held (free lock takes)
    · exact ⟨⟨_, rfl, again, held⟩, rfl⟩
  | leave finished =>
    obtain rfl := Option.some.inj isStage
    exact absurd finished (isNeeded.unfinished _ needed)
  | device moved => exact ⟨⟨stage, isStage, needed, held⟩, rfl⟩

/-- A processor that is caught is caught for ever. -/
theorem Caught.run (caught : processor.Caught lock needs) (isNeeded : Needs around lock needs)
    (run : ReflTransGen (Step around) processor later) :
    later.Caught lock needs ∧ later.running = processor.running := by
  induction run with
  | refl => exact ⟨caught, rfl⟩
  | tail _ stepped ih =>
    obtain ⟨caughtNow, stays⟩ := ih
    obtain ⟨caughtLater, staysLater⟩ := caughtNow.step isNeeded stepped
    exact ⟨caughtLater, staysLater.trans stays⟩

/-- The main routine can still come to one of these places. -/
def MayReach (around : Surroundings σ handler) (ends : main.Place → Prop)
    (processor : Processor main handler) : Prop :=
  ∃ later, ReflTransGen (Step around) processor later ∧ ends later.running

/-- A processor that is caught does not come to a place where the lock is free. -/
theorem Caught.not_mayReach {ends : main.Place → Prop} (caught : processor.Caught lock needs)
    (isNeeded : Needs around lock needs) (free : ∀ place, ends place → lock ∉ main.holds place) :
    ¬MayReach around ends processor := by
  rintro ⟨later, run, ended⟩
  obtain ⟨⟨-, -, -, held⟩, -⟩ := caught.run isNeeded run
  exact free _ ended held

/-- What a processor can still reach after some steps, it can reach now. -/
theorem MayReach.of_run {ends : main.Place → Prop} (reaches : MayReach around ends later)
    (run : ReflTransGen (Step around) processor later) : MayReach around ends processor := by
  obtain ⟨last, rest, ended⟩ := reaches
  exact ⟨last, run.trans rest, ended⟩

end Processor

end Canyon.Lib
