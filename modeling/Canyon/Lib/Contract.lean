import Mathlib.Logic.Basic

/-!
# Contracts

A component that takes one step for each event its users see, and a contract for it: an abstract
state that says which events users may cause, which of them are answered well, and how they change
it. A relation between the states that one step keeps answers for whole runs.
-/

namespace Canyon.Lib

variable {σ α ε : Type}

/-- A run of a component, with the events that it shows. -/
inductive Trace (step : σ → ε → σ → Prop) : σ → List ε → σ → Prop where
  /-- Nothing happened. -/
  | nil (state : σ) : Trace step state [] state
  /-- One step, and a run from there. -/
  | cons {state middle last : σ} {event : ε} {events : List ε} (first : step state event middle)
      (rest : Trace step middle events last) : Trace step state (event :: events) last

/-- Two runs in a row. -/
theorem Trace.append {step : σ → ε → σ → Prop} {state middle last : σ} {early late : List ε}
    (first : Trace step state early middle) (second : Trace step middle late last) :
    Trace step state (early ++ late) last := by
  induction first with
  | nil _ => exact second
  | cons step _ ih => exact .cons step (ih second)

/-- What users may do, what they are promised, and what they should think of afterwards. -/
structure Contract (α ε : Type) where
  /-- Users may cause the event. -/
  may : α → ε → Prop
  /-- The event shows what was promised. -/
  shall : α → ε → Prop
  /-- The abstract state after the event. -/
  next : α → ε → α

namespace Contract

variable (contract : Contract α ε)

/-- Users kept their side all along. -/
def Permits : α → List ε → Prop
  | _, [] => True
  | state, event :: events => contract.may state event ∧ Permits (contract.next state event) events

/-- The component kept its side all along. -/
def Explains : α → List ε → Prop
  | _, [] => True
  | state, event :: events =>
    contract.shall state event ∧ Explains (contract.next state event) events

/-- The abstract state after a run. -/
def after (state : α) (events : List ε) : α := events.foldl contract.next state

variable {contract}

/-- The rule for runs: a relation that holds at first and that every permitted step keeps, while
the step shows what was promised, makes every permitted run keep the contract. -/
theorem explains_of_trace {step : σ → ε → σ → Prop} (related : σ → α → Prop)
    (forward : ∀ {state state' abstract event}, related state abstract →
      contract.may abstract event → step state event state' →
      contract.shall abstract event ∧ related state' (contract.next abstract event))
    {state last : σ} {abstract : α} {events : List ε} (trace : Trace step state events last)
    (start : related state abstract) (permits : contract.Permits abstract events) :
    contract.Explains abstract events ∧ related last (contract.after abstract events) := by
  induction trace generalizing abstract with
  | nil state => exact ⟨trivial, start⟩
  | cons first rest ih =>
    obtain ⟨may, later⟩ := permits
    obtain ⟨shall, kept⟩ := forward start may first
    obtain ⟨explains, final⟩ := ih kept later
    exact ⟨⟨shall, explains⟩, final⟩

end Contract

end Canyon.Lib
