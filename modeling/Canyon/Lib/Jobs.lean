import Canyon.Lib.Crew
import Mathlib.Data.Set.Lattice
import Mathlib.Order.CompletePartialOrder

/-!
# Threads of scoped programs on a plain store

A job is a scoped program on its way: what is left of the innermost scope, and the scopes around
it. Jobs over one store have a lock for each cell, and each of their steps enters or leaves one
scope: a scope sees the cell as it is when its lock is taken, and a scope for writing leaves its
content when the lock is given up. This is what threads over a cache with locks have to amount to.

`Scoped.Owning` is a rule for such threads that is proved thread by thread. Cells mark resources,
every thread owns some of the resources that are marked, and a thread may take marks away only
where it owns the resource; the resources that it newly marks become its own. Then no two threads
ever own the same resource, whatever the order of their steps.
-/

namespace Canyon.Lib

open Scoped

variable {κ β ε : Type}

/-- The scopes that a job is in, innermost first, with what follows each of them. -/
inductive Frames (κ β ε : Type) : Type → Type 1 where
  /-- No scope is open. -/
  | none {α : Type} : Frames κ β ε α
  /-- A scope for reading. -/
  | reading {α γ : Type} (key : κ) (next : γ → Scoped κ β ε α) (outer : Frames κ β ε α) :
      Frames κ β ε γ
  /-- A scope for writing. -/
  | writing {α γ : Type} (key : κ) (next : γ → Scoped κ β ε α) (outer : Frames κ β ε α) :
      Frames κ β ε (γ × Option β)

/-- The locks of the open scopes. -/
def Frames.locks : {α : Type} → Frames κ β ε α → List (Request κ)
  | _, .none => []
  | _, .reading key _ outer => ⟨key, .read⟩ :: outer.locks
  | _, .writing key _ outer => ⟨key, .write⟩ :: outer.locks

/-- A program on its way. -/
structure Job (κ β ε : Type) where
  /-- What the innermost scope returns. -/
  {Value : Type}
  /-- What is left of the innermost scope. -/
  program : Scoped κ β ε Value
  /-- The open scopes. -/
  frames : Frames κ β ε Value

/-- The lock that a program asks for. -/
def Scoped.asks {α : Type} : Scoped κ β ε α → Option (Request κ)
  | .reading key _ _ => some ⟨key, .read⟩
  | .writing key _ _ => some ⟨key, .write⟩
  | _ => none

variable [DecidableEq κ]

/-- The job itself has a lock that its request conflicts with. -/
def Frames.Blocks {α : Type} (frames : Frames κ β ε α) (asked : Request κ) : Prop :=
  ∃ held ∈ frames.locks, asked.Conflicts held

instance (asked held : Request κ) : Decidable (asked.Conflicts held) :=
  inferInstanceAs (Decidable (_ ∧ _))

instance {α : Type} (frames : Frames κ β ε α) (asked : Request κ) :
    Decidable (frames.Blocks asked) :=
  inferInstanceAs (Decidable (∃ held ∈ frames.locks, asked.Conflicts held))

/-- The end of a scope. -/
def Frames.leave : {α : Type} → Frames κ β ε α → α → (κ → β) → Option ((κ → β) × Job κ β ε)
  | _, .none, _, _ => Option.none
  | _, .reading _ next outer, value, store => some (store, ⟨next value, outer⟩)
  | _, .writing key next outer, value, store =>
    some (put store key value.2, ⟨next value.1, outer⟩)

/-- The next step of a job whose request is granted. -/
def Scoped.advance {α : Type} (frames : Frames κ β ε α) (store : κ → β) :
    Scoped κ β ε α → Option ((κ → β) × Job κ β ε)
  | .pure value => frames.leave value store
  | .fail _ => Option.none
  | .flush next => some (store, ⟨next, frames⟩)
  | .reading key body next =>
    if frames.Blocks ⟨key, .read⟩ then Option.none
    else some (store, ⟨body (store key), .reading key next frames⟩)
  | .writing key body next =>
    if frames.Blocks ⟨key, .write⟩ then Option.none
    else some (store, ⟨body (store key), .writing key next frames⟩)

/-- A scope that is entered: its lock is free, and its body sees the cell. -/
theorem Scoped.advance_reading {α γ : Type} {frames : Frames κ β ε α} {store after : κ → β}
    {key : κ} {body : β → Scoped κ β ε γ} {next : γ → Scoped κ β ε α} {later : Job κ β ε}
    (moved : advance frames store (.reading key body next) = some (after, later)) :
    ¬frames.Blocks ⟨key, .read⟩ ∧ after = store ∧
      later = ⟨body (store key), .reading key next frames⟩ := by
  change (if frames.Blocks ⟨key, .read⟩ then Option.none else some _) = _ at moved
  split at moved
  · cases moved
  · rename_i free
    obtain ⟨rfl, rfl⟩ := Prod.mk.inj (Option.some.inj moved)
    exact ⟨free, rfl, rfl⟩

/-- The same for a scope that may change its cell. -/
theorem Scoped.advance_writing {α γ : Type} {frames : Frames κ β ε α} {store after : κ → β}
    {key : κ} {body : β → Scoped κ β ε (γ × Option β)} {next : γ → Scoped κ β ε α}
    {later : Job κ β ε}
    (moved : advance frames store (.writing key body next) = some (after, later)) :
    ¬frames.Blocks ⟨key, .write⟩ ∧ after = store ∧
      later = ⟨body (store key), .writing key next frames⟩ := by
  change (if frames.Blocks ⟨key, .write⟩ then Option.none else some _) = _ at moved
  split at moved
  · cases moved
  · rename_i free
    obtain ⟨rfl, rfl⟩ := Prod.mk.inj (Option.some.inj moved)
    exact ⟨free, rfl, rfl⟩

/-- Threads that run scoped programs on a plain store. -/
def jobThread (κ β ε : Type) [DecidableEq κ] : Thread (κ → β) κ where
  Control := Job κ β ε
  wants := fun job => job.program.asks
  holds := fun job => job.frames.locks
  next := fun store job => job.program.advance job.frames store

/-- A job takes no lock but the one it asks for. -/
theorem honest_jobThread : (jobThread κ β ε).Honest := by
  rintro store ⟨program, frames⟩ after later moved held heldIn
  change Scoped.advance frames store program = some (after, later) at moved
  change held ∈ later.frames.locks at heldIn
  cases program with
  | pure value =>
    cases frames with
    | none => cases moved
    | reading key next outer =>
      obtain ⟨-, rfl⟩ := Prod.mk.inj (Option.some.inj moved)
      exact .inl (List.mem_cons_of_mem _ heldIn)
    | writing key next outer =>
      obtain ⟨-, rfl⟩ := Prod.mk.inj (Option.some.inj moved)
      exact .inl (List.mem_cons_of_mem _ heldIn)
  | fail error => cases moved
  | flush next =>
    obtain ⟨-, rfl⟩ := Prod.mk.inj (Option.some.inj moved)
    exact .inl heldIn
  | reading key body next =>
    obtain ⟨-, -, rfl⟩ := Scoped.advance_reading moved
    rcases List.mem_cons.mp heldIn with rfl | old
    · exact .inr rfl
    · exact .inl old
  | writing key body next =>
    obtain ⟨-, -, rfl⟩ := Scoped.advance_writing moved
    rcases List.mem_cons.mp heldIn with rfl | old
    · exact .inr rfl
    · exact .inl old

/-! ## Ownership -/

section Ownership

variable {ρ ι : Type}

/-- What a thread owns after it has replaced the marks of a cell: the marks taken away are gone, and
the new marks are its own. -/
def transfer (old new own : Set ρ) : Set ρ := (own \ (old \ new)) ∪ (new \ old)

/-- Resources, the cell that each belongs to, and the resources that a cell marks. -/
structure Marking (κ β ρ : Type) where
  /-- The cell of a resource. -/
  home : ρ → κ
  /-- The resources that the content of a cell marks. -/
  marks : κ → β → Set ρ
  /-- A cell marks resources of its own. -/
  home_eq : ∀ key content resource, resource ∈ marks key content → home resource = key

variable (marking : Marking κ β ρ)

/-- The resources that a store marks. -/
def Marking.marked (store : κ → β) : Set ρ :=
  {resource | resource ∈ marking.marks (marking.home resource) (store (marking.home resource))}

/-- A content that has the marks of what a thread owns. -/
def Marking.Shows (key : κ) (content : β) (own : Set ρ) : Prop :=
  ∀ resource ∈ own, marking.home resource = key → resource ∈ marking.marks key content

/-- A thread may leave this content in a cell, and goes on with what it then owns. -/
def Marking.Leaves (key : κ) (content : β) (new : Option β) (own : Set ρ)
    (goal : Set ρ → Prop) : Prop :=
  match new with
  | none => goal own
  | some new => marking.marks key content \ marking.marks key new ⊆ own ∧
      goal (transfer (marking.marks key content) (marking.marks key new) own)

/-- A program that owns these resources takes away no mark of others, never fails, and reaches its
goal with what it owns then; whatever the cells hold, as long as they mark what it owns. -/
def Scoped.Owning : {α : Type} → Scoped κ β ε α → Set ρ → (α → Set ρ → Prop) → Prop
  | _, .pure value, own, goal => goal value own
  | _, .fail _, _, _ => False
  | _, .flush next, own, goal => Owning next own goal
  | _, .reading key body next, own, goal => ∀ content, marking.Shows key content own →
      Owning (body content) own fun value own => Owning (next value) own goal
  | _, .writing key body next, own, goal => ∀ content, marking.Shows key content own →
      Owning (body content) own fun value own =>
        marking.Leaves key content value.2 own fun own => Owning (next value.1) own goal

/-- What is left to do around the innermost scope. -/
def Frames.Owning (store : κ → β) (done : (α : Type) → α → Set ρ → Prop) :
    {α : Type} → Frames κ β ε α → α → Set ρ → Prop
  | _, .none => done _
  | _, .reading _ next outer => fun value own =>
      (next value).Owning marking own (Frames.Owning store done outer)
  | _, .writing key next outer => fun value own =>
      marking.Leaves key (store key) value.2 own fun own =>
        (next value.1).Owning marking own (Frames.Owning store done outer)

/-- Nobody owns what another owns or what was marked at first, and all of it is marked. -/
structure Marking.Apart (store : κ → β) (base : Set ρ) (own : ι → Set ρ) : Prop where
  /-- What was marked at first is marked. -/
  based : base ⊆ marking.marked store
  /-- What is owned is marked. -/
  owned : ∀ who, own who ⊆ marking.marked store
  /-- What was marked at first is not owned. -/
  fresh : ∀ who, Disjoint base (own who)
  /-- Nothing is owned twice. -/
  disjoint : ∀ left right, left ≠ right → Disjoint (own left) (own right)

variable {marking} {store after : κ → β} {base own : Set ρ} {key : κ}

omit [DecidableEq κ] in
/-- What is marked is marked in its cell. -/
theorem Marking.mem_marked {resource : ρ} : resource ∈ marking.marked store ↔
    resource ∈ marking.marks (marking.home resource) (store (marking.home resource)) :=
  Iff.rfl

omit [DecidableEq κ] in
/-- The mark of a resource of a cell. -/
theorem Marking.mem_marks_of_home {resource : ρ} (isMarked : resource ∈ marking.marked store)
    (same : marking.home resource = key) : resource ∈ marking.marks key (store key) :=
  same ▸ isMarked

/-- What is marked after a cell has changed. -/
theorem Marking.mem_marked_update {new : β} {resource : ρ} :
    resource ∈ marking.marked (Function.update store key new) ↔
      if marking.home resource = key then resource ∈ marking.marks key new
      else resource ∈ marking.marked store := by
  rw [mem_marked]
  split
  · rename_i same
    rw [same, Function.update_self]
  · rename_i different
    rw [Function.update_of_ne different, mem_marked]

/-- Marks that others own stay, and are not handed over. -/
theorem Marking.kept_of_disjoint {others : Set ρ} {new : β}
    (isMarked : others ⊆ marking.marked store) (apart : Disjoint others own)
    (freed : marking.marks key (store key) \ marking.marks key new ⊆ own) :
    others ⊆ marking.marked (Function.update store key new) ∧
      Disjoint others (transfer (marking.marks key (store key)) (marking.marks key new) own) := by
  rw [Set.disjoint_left] at apart ⊢
  constructor
  · intro resource isOther
    rw [mem_marked_update]
    split
    · rename_i same
      by_contra lost
      exact apart isOther (freed ⟨mem_marks_of_home (isMarked isOther) same, lost⟩)
    · exact isMarked isOther
  · rintro resource isOther (⟨owned, -⟩ | ⟨isNew, notOld⟩)
    · exact apart isOther owned
    · exact notOld (mem_marks_of_home (isMarked isOther) (marking.home_eq _ _ _ isNew))

/-- A thread that changes a cell keeps to what is its own. -/
theorem Marking.Apart.leave [DecidableEq ι] {owns : ι → Set ρ} {who : ι} {new : β}
    (apart : marking.Apart store base owns)
    (freed : marking.marks key (store key) \ marking.marks key new ⊆ owns who) :
    marking.Apart (Function.update store key new) base (Function.update owns who
      (transfer (marking.marks key (store key)) (marking.marks key new) (owns who))) := by
  have others : ∀ other, other ≠ who → _ := fun other different =>
    kept_of_disjoint (apart.owned other) (apart.disjoint other who different) freed
  have first := kept_of_disjoint apart.based (apart.fresh who) freed
  refine ⟨first.1, ?_, ?_, ?_⟩
  · rw [Function.forall_update_iff owns fun _ own => own ⊆ _]
    refine ⟨?_, fun other different => (others other different).1⟩
    rintro resource (⟨owned, notFreed⟩ | ⟨isNew, -⟩)
    · rw [mem_marked_update]
      split
      · rename_i same
        by_contra lost
        exact notFreed ⟨mem_marks_of_home (apart.owned who owned) same, lost⟩
      · exact apart.owned who owned
    · rw [mem_marked_update, if_pos (marking.home_eq _ _ _ isNew)]
      exact isNew
  · rw [Function.forall_update_iff owns fun _ own => Disjoint base own]
    exact ⟨first.2, fun other _ => apart.fresh other⟩
  · intro left right different
    by_cases isLeft : left = who
    · subst isLeft
      rw [Function.update_self, Function.update_of_ne different.symm]
      exact (others right different.symm).2.symm
    · rw [Function.update_of_ne isLeft]
      by_cases isRight : right = who
      · subst isRight
        rw [Function.update_self]
        exact (others left different).2
      · rw [Function.update_of_ne isRight]
        exact apart.disjoint left right different

/-- No scope is inside another that keeps it from its lock. -/
def Frames.Nested : {α : Type} → Frames κ β ε α → Prop
  | _, .none => True
  | _, .reading key _ outer => ¬outer.Blocks ⟨key, .read⟩ ∧ outer.Nested
  | _, .writing key _ outer => ¬outer.Blocks ⟨key, .write⟩ ∧ outer.Nested

omit [DecidableEq κ] in
/-- What is left to do depends on the cells that are locked for writing. -/
theorem Frames.owning_congr {done : (α : Type) → α → Set ρ → Prop} {α : Type}
    {frames : Frames κ β ε α}
    (same : ∀ key, (⟨key, .write⟩ : Request κ) ∈ frames.locks → after key = store key) :
    frames.Owning marking after done = frames.Owning marking store done := by
  induction frames with
  | none => rfl
  | reading key next outer ih =>
    have rest := ih fun other otherIn => same other (List.mem_cons_of_mem _ otherIn)
    simp only [Frames.Owning, rest]
  | writing key next outer ih =>
    have here : after key = store key := same key List.mem_cons_self
    have rest := ih fun other otherIn => same other (List.mem_cons_of_mem _ otherIn)
    simp only [Frames.Owning, here, rest]

/-- A step of a program that keeps to what is its own: it leaves the store alone, or it changes a
cell that it has locked for writing. -/
theorem Scoped.Owning.advance {done : (α : Type) → α → Set ρ → Prop} {α : Type}
    {frames : Frames κ β ε α} {program : Scoped κ β ε α} {later : Job κ β ε}
    (owning : program.Owning marking own (frames.Owning marking store done))
    (nested : frames.Nested) (shows : ∀ key, marking.Shows key (store key) own)
    (moved : program.advance frames store = some (after, later)) :
    later.frames.Nested ∧
      (after = store ∧ later.program.Owning marking own
          (later.frames.Owning marking after done) ∨
        ∃ key new, (⟨key, .write⟩ : Request κ) ∈ frames.locks ∧
          after = Function.update store key new ∧
          marking.marks key (store key) \ marking.marks key new ⊆ own ∧
          later.program.Owning marking
            (transfer (marking.marks key (store key)) (marking.marks key new) own)
            (later.frames.Owning marking after done)) := by
  cases program with
  | fail error => cases moved
  | flush next =>
    obtain ⟨rfl, rfl⟩ := Prod.mk.inj (Option.some.inj moved)
    exact ⟨nested, .inl ⟨rfl, owning⟩⟩
  | reading key body next =>
    obtain ⟨free, rfl, rfl⟩ := Scoped.advance_reading moved
    exact ⟨⟨free, nested⟩, .inl ⟨rfl, owning _ (shows key)⟩⟩
  | writing key body next =>
    obtain ⟨free, rfl, rfl⟩ := Scoped.advance_writing moved
    exact ⟨⟨free, nested⟩, .inl ⟨rfl, owning _ (shows key)⟩⟩
  | pure value =>
    cases frames with
    | none => cases moved
    | reading key next outer =>
      obtain ⟨rfl, rfl⟩ := Prod.mk.inj (Option.some.inj moved)
      exact ⟨nested.2, .inl ⟨rfl, owning⟩⟩
    | writing key next outer =>
      obtain ⟨rfl, rfl⟩ := Prod.mk.inj (Option.some.inj moved)
      refine ⟨nested.2, ?_⟩
      obtain ⟨result, new⟩ := value
      cases new with
      | none => exact .inl ⟨rfl, owning⟩
      | some new =>
        refine .inr ⟨key, new, List.mem_cons_self, rfl, owning.1, ?_⟩
        -- the scope around does not have this cell
        have same : outer.Owning marking (put store key (some new)) done =
            outer.Owning marking store done := by
          apply Frames.owning_congr
          intro other otherIn
          apply Function.update_of_ne
          rintro rfl
          exact nested.1 ⟨_, otherIn, rfl, .inl rfl⟩
        show (next result).Owning marking _ (outer.Owning marking _ done)
        rw [same]
        exact owning.2

omit [DecidableEq κ] in
/-- A weaker goal. -/
theorem Scoped.Owning.mono {α : Type} {program : Scoped κ β ε α} {goal weaker : α → Set ρ → Prop}
    (owning : program.Owning marking own goal)
    (weakens : ∀ value own, goal value own → weaker value own) :
    program.Owning marking own weaker := by
  induction program generalizing own with
  | pure value => exact weakens value own owning
  | fail error => exact owning
  | flush next ih => exact ih owning weakens
  | reading key body next bodyIH nextIH =>
    intro content shows
    apply bodyIH content (owning content shows)
    intro value own rest
    exact nextIH value rest weakens
  | writing key body next bodyIH nextIH =>
    intro content shows
    apply bodyIH content (owning content shows)
    rintro ⟨value, new⟩ own rest
    cases new with
    | none => exact nextIH value rest weakens
    | some new => exact ⟨rest.1, nextIH value rest.2 weakens⟩

omit [DecidableEq κ] in
/-- One program after the other. -/
theorem Scoped.owning_bind {α γ : Type} {program : Scoped κ β ε α}
    {rest : α → Scoped κ β ε γ} {goal : γ → Set ρ → Prop}
    (owning : program.Owning marking own fun value own => (rest value).Owning marking own goal) :
    (program.bind rest).Owning marking own goal := by
  induction program generalizing own with
  | pure value => exact owning
  | fail error => exact owning
  | flush next ih => exact ih owning
  | reading key body next _ nextIH =>
    intro content shows
    apply (owning content shows).mono
    exact fun value own later => nextIH value later
  | writing key body next _ nextIH =>
    intro content shows
    apply (owning content shows).mono
    rintro ⟨value, new⟩ own later
    cases new with
    | none => exact nextIH value later
    | some new => exact ⟨later.1, nextIH value later.2⟩

/-- Threads that keep to what is their own. -/
structure Crew.Owned (marking : Marking κ β ρ) (crew : Crew (jobThread κ β ε) ι) (base : Set ρ)
    (done : ι → (α : Type) → α → Set ρ → Prop) (owns : ι → Set ρ) : Prop where
  /-- Nothing is owned twice. -/
  apart : marking.Apart crew.shared base owns
  /-- No two threads hold conflicting locks. -/
  exclusive : crew.Exclusive
  /-- No thread waits for itself. -/
  nested : ∀ who, (Job.frames (crew.control who)).Nested
  /-- Every thread goes on with what it owns. -/
  owning : ∀ who, (Job.program (crew.control who)).Owning marking (owns who)
    ((Job.frames (crew.control who)).Owning marking crew.shared (done who))

/-- Every step keeps to what is owned. -/
theorem Crew.Owned.step [DecidableEq ι] {crew next : Crew (jobThread κ β ε) ι}
    {done : ι → (α : Type) → α → Set ρ → Prop} {owns : ι → Set ρ}
    (owned : crew.Owned marking base done owns) (stepped : crew.Step next) :
    ∃ after, next.Owned marking base done after := by
  obtain ⟨who, granted, moved⟩ := stepped
  rename_i store control
  have exclusive := owned.exclusive.update honest_jobThread granted moved
  have shows : ∀ key, marking.Shows key (crew.shared key) (owns who) := fun _ _ isOwn same =>
    Marking.mem_marks_of_home (owned.apart.owned who isOwn) same
  obtain ⟨nestedLater, steps⟩ := (owned.owning who).advance (owned.nested who) shows moved
  have nested : ∀ each, (Job.frames (Function.update crew.control who control each)).Nested := by
    rw [Function.forall_update_iff crew.control fun _ each => (Job.frames each).Nested]
    exact ⟨nestedLater, fun other _ => owned.nested other⟩
  rcases steps with ⟨rfl, goesOn⟩ | ⟨key, new, locked, rfl, freed, goesOn⟩
  · refine ⟨owns, owned.apart, exclusive, nested, ?_⟩
    rw [Function.forall_update_iff crew.control fun each job => (Job.program job).Owning marking
      (owns each) ((Job.frames job).Owning marking crew.shared (done each))]
    exact ⟨goesOn, fun other _ => owned.owning other⟩
  · refine ⟨_, owned.apart.leave freed, exclusive, nested, ?_⟩
    intro each
    by_cases same : each = who
    · subst same
      dsimp only
      rw [Function.update_self, Function.update_self]
      exact goesOn
    · dsimp only
      rw [Function.update_of_ne same, Function.update_of_ne same, Frames.owning_congr]
      · exact owned.owning each
      · intro other otherIn
        apply Function.update_of_ne
        rintro rfl
        exact owned.exclusive who each (Ne.symm same) _ locked _ otherIn ⟨rfl, .inl rfl⟩

/-- Every run keeps to what is owned. -/
theorem Crew.Owned.run [DecidableEq ι] {crew last : Crew (jobThread κ β ε) ι}
    {done : ι → (α : Type) → α → Set ρ → Prop} {owns : ι → Set ρ}
    (owned : crew.Owned marking base done owns) (run : Relation.ReflTransGen Crew.Step crew last) :
    ∃ after, last.Owned marking base done after := by
  induction run with
  | refl => exact ⟨owns, owned⟩
  | tail _ stepped ih =>
    obtain ⟨middle, ownedMiddle⟩ := ih
    exact ownedMiddle.step stepped

end Ownership

/-! ## How deep the scopes nest -/

section Depth

variable {κ β ε : Type} (allowed : κ → Prop)

/-- A program that asks for these cells only, is in at most so many scopes at once, and returns a
value with the goal or fails, whatever it finds in the cells. -/
def Scoped.Within : {α : Type} → Scoped κ β ε α → Nat → (α → Prop) → Prop
  | _, .pure value, _, goal => goal value
  | _, .fail _, _, _ => True
  | _, .flush next, depth, goal => next.Within depth goal
  | _, .reading key body next, depth, goal => allowed key ∧ 0 < depth ∧
      ∀ content, (body content).Within (depth - 1) fun value => (next value).Within depth goal
  | _, .writing key body next, depth, goal => allowed key ∧ 0 < depth ∧
      ∀ content, (body content).Within (depth - 1) fun value => (next value.1).Within depth goal

/-- What a program may return when these scopes are open. -/
def Frames.Within (limit : Nat) : {α : Type} → Frames κ β ε α → α → Prop
  | _, .none => fun _ => True
  | _, .reading _ next outer => fun value =>
      (next value).Within allowed (limit - outer.locks.length) (outer.Within limit)
  | _, .writing _ next outer => fun value =>
      (next value.1).Within allowed (limit - outer.locks.length) (outer.Within limit)

/-- A job that is in at most so many scopes at once, now and later. -/
def Job.Within (limit : Nat) (job : Job κ β ε) : Prop :=
  job.frames.locks.length ≤ limit ∧
    job.program.Within allowed (limit - job.frames.locks.length) (job.frames.Within allowed limit)

variable {allowed} {limit depth : Nat}

/-- A weaker goal. -/
theorem Scoped.Within.mono {α : Type} {program : Scoped κ β ε α} {goal weaker : α → Prop}
    (within : program.Within allowed depth goal) (weaken : ∀ value, goal value → weaker value) :
    program.Within allowed depth weaker := by
  induction program generalizing depth with
  | pure value => exact weaken value within
  | fail error => trivial
  | flush rest ih => exact ih within weaken
  | reading key body rest bodyIH ih =>
    exact ⟨within.1, within.2.1, fun content => bodyIH content (within.2.2 content)
      fun value inner => ih value inner weaken⟩
  | writing key body rest bodyIH ih =>
    exact ⟨within.1, within.2.1, fun content => bodyIH content (within.2.2 content)
      fun value inner => ih value.1 inner weaken⟩

/-- One program after another. -/
theorem Scoped.within_bind {α γ : Type} {program : Scoped κ β ε α} {next : α → Scoped κ β ε γ}
    {goal : γ → Prop}
    (within : program.Within allowed depth fun value => (next value).Within allowed depth goal) :
    (program.bind next).Within allowed depth goal := by
  induction program generalizing depth with
  | pure value => exact within
  | fail error => trivial
  | flush rest ih => exact ih within
  | reading key body rest _ ih =>
    exact ⟨within.1, within.2.1, fun content =>
      (within.2.2 content).mono fun value inner => ih value inner⟩
  | writing key body rest _ ih =>
    exact ⟨within.1, within.2.1, fun content =>
      (within.2.2 content).mono fun value inner => ih value.1 inner⟩

/-- A job asks for an allowed cell, and only while it may open one more scope. -/
theorem Job.Within.of_asks {job : Job κ β ε} {asked : Request κ}
    (within : job.Within allowed limit) (isAsked : job.program.asks = some asked) :
    allowed asked.lock ∧ job.frames.locks.length < limit := by
  obtain ⟨program, frames⟩ := job
  cases program with
  | pure value => cases isAsked
  | fail error => cases isAsked
  | flush next => cases isAsked
  | reading key body next =>
    obtain rfl := Option.some.inj isAsked
    exact ⟨within.2.1, Nat.lt_of_sub_pos within.2.2.1⟩
  | writing key body next =>
    obtain rfl := Option.some.inj isAsked
    exact ⟨within.2.1, Nat.lt_of_sub_pos within.2.2.1⟩

variable [DecidableEq κ]

/-- Every step stays within the limit. -/
theorem Job.Within.advance {job later : Job κ β ε} {store after : κ → β}
    (within : job.Within allowed limit)
    (moved : job.program.advance job.frames store = some (after, later)) :
    later.Within allowed limit := by
  obtain ⟨program, frames⟩ := job
  cases program with
  | pure value =>
    cases frames with
    | none => cases moved
    | reading key next outer =>
      obtain ⟨-, rfl⟩ := Prod.mk.inj (Option.some.inj moved)
      exact ⟨Nat.le_of_succ_le within.1, within.2⟩
    | writing key next outer =>
      obtain ⟨-, rfl⟩ := Prod.mk.inj (Option.some.inj moved)
      exact ⟨Nat.le_of_succ_le within.1, within.2⟩
  | fail error => cases moved
  | flush next =>
    obtain ⟨-, rfl⟩ := Prod.mk.inj (Option.some.inj moved)
    exact within
  | reading key body next =>
    obtain ⟨-, -, rfl⟩ := Scoped.advance_reading moved
    exact ⟨Nat.lt_of_sub_pos within.2.2.1, within.2.2.2 (store key)⟩
  | writing key body next =>
    obtain ⟨-, -, rfl⟩ := Scoped.advance_writing moved
    exact ⟨Nat.lt_of_sub_pos within.2.2.1, within.2.2.2 (store key)⟩

/-- Every run stays within the limit. -/
theorem Crew.within_run {ι : Type} [DecidableEq ι] {crew last : Crew (jobThread κ β ε) ι}
    (within : ∀ who, Job.Within allowed limit (crew.control who))
    (run : Relation.ReflTransGen Crew.Step crew last) :
    ∀ who, Job.Within allowed limit (last.control who) := by
  induction run with
  | refl => exact within
  | tail _ stepped ih =>
    obtain ⟨who, -, moved⟩ := stepped
    rename_i middle _ _ control
    have later : Job.Within allowed limit control := (ih who).advance moved
    exact (Function.forall_update_iff middle.control
      fun _ each => Job.Within allowed limit each).mpr ⟨later, fun other _ => ih other⟩

end Depth

end Canyon.Lib
