import Canyon.Fs.Exec
import Canyon.Lib.Locks

/-!
# Threads on the block cache

`Prog.exec` runs a call from one scope to the next as if it were alone. Here a thread runs the same
program lock by lock: `CacheManager::get` takes the lock of the queue for reading, gives it up and
takes it for writing when the block is not there, and the lock of the block comes after;
`CacheManager::flush` keeps the lock of the queue for reading while it takes the locks of the
blocks one after the other. A thread that is alone does what `Prog.exec` says
(`run_of_exec`). The lock of the device is taken last and given up at once, so nothing can wait
under it and it does not appear.
-/

namespace Canyon.Fs

open Canyon.Lib
open EStateM (Result)

/-- The locks of the block cache. -/
inductive CacheLock where
  /-- `queue`. -/
  | queue
  /-- The lock of a cached block. -/
  | block (pointer : Nat)
  deriving DecidableEq, Repr

/-- Where a thread is between two scopes. -/
inductive Phase where
  /-- Before the next scope or flush. -/
  | start
  /-- `get` searches the queue, which it holds for reading. -/
  | search
  /-- `get` has not found the block and asks for the queue for writing. -/
  | claim
  /-- `get` makes an entry for the block and holds the queue for writing. -/
  | load
  /-- `get` has returned this handle, and its lock is asked for. -/
  | lock (pointer : Nat)
  /-- `flush` holds the queue for reading and asks for the lock of the first of these. -/
  | sync (pointers : List Nat)
  /-- `flush` holds the queue and the lock of a block. -/
  | hold (pointer : Nat) (pointers : List Nat)
  deriving DecidableEq, Repr

/-- The scopes that a thread is in, innermost first, with what follows each of them. -/
inductive Scopes : Type → Type 1 where
  /-- No scope is open. -/
  | none {α : Type} : Scopes α
  /-- A scope with a read guard. -/
  | reading {α γ : Type} (pointer : Nat) (next : γ → Prog α) (outer : Scopes α) : Scopes γ
  /-- A scope with a write guard. -/
  | writing {α γ : Type} (pointer : Nat) (next : γ → Prog α) (outer : Scopes α) :
      Scopes (γ × Option Block)

/-- The guards of the open scopes. -/
def Scopes.guards : {α : Type} → Scopes α → List (Nat × Access)
  | _, .none => []
  | _, .reading pointer _ outer => (pointer, .read) :: outer.guards
  | _, .writing pointer _ outer => (pointer, .write) :: outer.guards

/-- The control of a thread. -/
structure Control where
  /-- What the program returns. -/
  {Value : Type}
  /-- Where the thread is. -/
  phase : Phase
  /-- What is left of the innermost scope. -/
  program : Prog Value
  /-- The open scopes. -/
  scopes : Scopes Value

namespace Control

/-- The block that a program asks for next, and how. -/
def asks {α : Type} : Prog α → Option (Nat × Access)
  | .reading blockId _ _ => some (blockId, .read)
  | .writing blockId _ _ => some (blockId, .write)
  | _ => none

/-- The lock that the next step takes. -/
def wants (control : Control) : Option (Request CacheLock) :=
  match control.phase, control.program with
  | .start, .pure _ => none
  | .start, .fail _ => none
  | .start, _ => some ⟨.queue, .read⟩
  | .claim, _ => some ⟨.queue, .write⟩
  | .lock pointer, program => (asks program).map fun asked => ⟨.block pointer, asked.2⟩
  | .sync (pointer :: _), _ => some ⟨.block pointer, .write⟩
  | _, _ => none

/-- The locks of the queue and of the blocks under `get` and `flush`. -/
def phaseHolds : Phase → List (Request CacheLock)
  | .search => [⟨.queue, .read⟩]
  | .load => [⟨.queue, .write⟩]
  | .sync _ => [⟨.queue, .read⟩]
  | .hold pointer _ => [⟨.queue, .read⟩, ⟨.block pointer, .write⟩]
  | _ => []

/-- The locks that a thread holds. -/
def holds (control : Control) : List (Request CacheLock) :=
  phaseHolds control.phase ++
    control.scopes.guards.map fun guard => ⟨.block guard.1, guard.2⟩

/-- A thread goes on with an outcome, or panics. -/
def proceed {α γ : Type} (scopes : Scopes α) (next : γ → Control) :
    Result Panic CacheManager γ → CacheManager × Control
  | .ok value manager => (manager, next value)
  | .error error manager => (manager, ⟨.start, .fail error, scopes⟩)

/-- The end of a scope: the guard and the handle are dropped. -/
def leave : {α : Type} → Scopes α → α → CacheManager → Option (CacheManager × Control)
  | _, .none, _, _ => none
  | _, .reading pointer next outer, value, manager =>
    some (proceed outer (fun _ => ⟨.start, next value, outer⟩) (manager.release pointer))
  | _, .writing pointer next outer, value, manager =>
    some (proceed outer (fun _ => ⟨.start, next value.1, outer⟩)
      (((Memory.idle manager).store pointer value.2).manager.release pointer))

/-- The start of a scope: the body sees the block. -/
def enter : {α : Type} → Prog α → Scopes α → Nat → CacheManager → Option Control
  | _, .reading _ body next, scopes, pointer, manager =>
    some ⟨.start, body (manager.read pointer), .reading pointer next scopes⟩
  | _, .writing _ body next, scopes, pointer, manager =>
    some ⟨.start, body (manager.read pointer), .writing pointer next scopes⟩
  | _, _, _, _, _ => none

/-- The next step of a thread whose request is granted. A thread that asks for a lock that it holds
itself never goes on. -/
def step {α : Type} (manager : CacheManager) (program : Prog α) (scopes : Scopes α) :
    Phase → Option (CacheManager × Control)
  | .start =>
    match program with
    | .pure value => leave scopes value manager
    | .fail _ => none
    | .flush next => some (manager, ⟨.sync manager.pointers, .flush next, scopes⟩)
    | program => some (manager, ⟨.search, program, scopes⟩)
  | .search => (asks program).map fun asked =>
    match manager.find asked.1 with
    | some pointer =>
      ({ manager with handles := pointer :: manager.handles }, ⟨.lock pointer, program, scopes⟩)
    | none => (manager, ⟨.claim, program, scopes⟩)
  | .claim => some (manager, ⟨.load, program, scopes⟩)
  | .load => (asks program).map fun asked =>
    proceed scopes (fun pointer => ⟨.lock pointer, program, scopes⟩) (manager.get asked.1)
  | .lock pointer => (asks program).bind fun asked =>
    if Memory.blocked ⟨manager, scopes.guards⟩ pointer asked.2 then none
    else (enter program scopes pointer manager).map fun control => (manager, control)
  | .sync [] =>
    match program with
    | .flush next => some (manager, ⟨.start, next, scopes⟩)
    | _ => none
  | .sync (pointer :: pointers) =>
    if Memory.blocked ⟨manager, scopes.guards⟩ pointer .write then none
    else some (manager, ⟨.hold pointer pointers, program, scopes⟩)
  | .hold pointer pointers =>
    some (proceed scopes (fun _ => ⟨.sync pointers, program, scopes⟩) (manager.sync pointer))

end Control

/-- Threads that run programs on the block cache. -/
def cacheThread : Thread CacheManager CacheLock where
  Control := Control
  wants := Control.wants
  holds := Control.holds
  next := fun manager control =>
    Control.step manager control.program control.scopes control.phase

section Sync

variable {α : Type} {manager after : CacheManager} {program : Prog α} {scopes : Scopes α}
  {later : Control}

/-- A flush goes on past the last object. -/
theorem next_sync_nil
    (moved : cacheThread.next manager (⟨.sync [], program, scopes⟩ : Control) =
      some (after, later)) :
    ∃ next, program = .flush next ∧ after = manager ∧ later = ⟨.start, next, scopes⟩ := by
  cases program with
  | flush next =>
    obtain ⟨rfl, rfl⟩ := Prod.mk.inj (Option.some.inj moved)
    exact ⟨next, rfl, rfl, rfl⟩
  | pure value => cases moved
  | fail error => cases moved
  | reading key body next => cases moved
  | writing key body next => cases moved

/-- A flush locks the next object. -/
theorem next_sync_cons {pointer : Nat} {pointers : List Nat}
    (moved : cacheThread.next manager (⟨.sync (pointer :: pointers), program, scopes⟩ : Control) =
      some (after, later)) :
    after = manager ∧ later = ⟨.hold pointer pointers, program, scopes⟩ := by
  simp only [cacheThread, Control.step] at moved
  split at moved
  · cases moved
  · obtain ⟨rfl, rfl⟩ := Prod.mk.inj (Option.some.inj moved)
    exact ⟨rfl, rfl⟩

end Sync

/-- A step of a thread that is alone. -/
def Alone (before after : CacheManager × Control) : Prop :=
  cacheThread.next before.1 before.2 = some after

section Alone

open Relation (ReflTransGen)

variable {α γ : Type} {memory entered : Memory} {blockId pointer : Nat} {access : Access}

/-- A thread that asks for a block enters `get`. -/
theorem alone_search {program : Prog α} {scopes : Scopes α} {manager : CacheManager}
    (isAsked : Control.asks program = some (blockId, access)) :
    Alone (manager, ⟨.start, program, scopes⟩) (manager, ⟨.search, program, scopes⟩) := by
  cases program with
  | pure value => cases isAsked
  | fail error => cases isAsked
  | reading key body next => rfl
  | writing key body next => rfl
  | flush next => cases isAsked

/-- A thread that is alone enters `get` and comes out of it with the handle that `get` returns. -/
theorem alone_get {program : Prog α} {scopes : Scopes α} {manager final : CacheManager}
    (isAsked : Control.asks program = some (blockId, access))
    (got : manager.get blockId = .ok pointer final) :
    ReflTransGen Alone (manager, ⟨.start, program, scopes⟩)
      (final, ⟨.lock pointer, program, scopes⟩) := by
  apply ReflTransGen.head (alone_search isAsked)
  cases found : manager.find blockId with
  | some object =>
    rw [CacheManager.get, found] at got
    obtain ⟨rfl, rfl⟩ := Result.ok.inj got
    apply ReflTransGen.single
    show Control.step manager program scopes .search = _
    simp only [Control.step, isAsked, Option.map_some, found]
  | none =>
    have claimed : Alone (manager, ⟨.search, program, scopes⟩)
        (manager, ⟨.claim, program, scopes⟩) := by
      show Control.step manager program scopes .search = _
      simp only [Control.step, isAsked, Option.map_some, found]
    have loaded : Alone (manager, ⟨.load, program, scopes⟩)
        (final, ⟨.lock pointer, program, scopes⟩) := by
      show Control.step manager program scopes .load = _
      simp only [Control.step, isAsked, Option.map_some, got, Control.proceed]
    exact .head claimed (.head rfl (.single loaded))

/-- A thread that is alone enters a scope as `acquire` does. -/
theorem alone_enter {program : Prog α} {scopes : Scopes α} {control : Control}
    (isAsked : Control.asks program = some (blockId, access))
    (guards : scopes.guards = memory.guards)
    (acquired : memory.acquire blockId access = .ok pointer entered)
    (isEntered : Control.enter program scopes pointer entered.manager = some control) :
    ReflTransGen Alone (memory.manager, ⟨.start, program, scopes⟩) (entered.manager, control) ∧
      entered.guards = (pointer, access) :: memory.guards := by
  unfold Memory.acquire at acquired
  cases got : memory.manager.get blockId with
  | error error stuck =>
    rw [got] at acquired
    cases acquired
  | ok object final =>
    rw [got] at acquired
    dsimp only at acquired
    split at acquired
    · cases acquired
    · rename_i free
      obtain ⟨rfl, rfl⟩ := Result.ok.inj acquired
      refine ⟨(alone_get isAsked got).tail ?_, rfl⟩
      have free : Memory.blocked ⟨final, scopes.guards⟩ object access = false := by
        rw [guards]
        simpa [Memory.blocked] using free
      show Control.step final program scopes (.lock object) = _
      simp [Control.step, isAsked, free, isEntered]

/-- A thread that is alone syncs the blocks one after the other. -/
theorem alone_sync {next : Prog α} {scopes : Scopes α} {manager final : CacheManager}
    {pointers : List Nat} {value : Unit}
    (free : ∀ pointer ∈ pointers, ∀ manager,
      Memory.blocked ⟨manager, scopes.guards⟩ pointer .write = false)
    (synced : manager.syncAll pointers = .ok value final) :
    ReflTransGen Alone (manager, ⟨.sync pointers, .flush next, scopes⟩)
      (final, ⟨.start, next, scopes⟩) := by
  induction pointers generalizing manager with
  | nil =>
    obtain ⟨-, rfl⟩ := Result.ok.inj synced
    exact .single rfl
  | cons pointer pointers ih =>
    have notBlocked := free pointer List.mem_cons_self manager
    have held : Alone (manager, ⟨.sync (pointer :: pointers), .flush next, scopes⟩)
        (manager, ⟨.hold pointer pointers, .flush next, scopes⟩) := by
      show Control.step manager _ scopes (.sync (pointer :: pointers)) = _
      simp [Control.step, notBlocked]
    unfold CacheManager.syncAll at synced
    cases one : manager.sync pointer with
    | error error stuck =>
      rw [one] at synced
      cases synced
    | ok value middle =>
      rw [one] at synced
      have written : Alone (manager, ⟨.hold pointer pointers, .flush next, scopes⟩)
          (middle, ⟨.sync pointers, .flush next, scopes⟩) := by
        show Control.step manager _ scopes (.hold pointer pointers) = _
        simp [Control.step, one, Control.proceed]
      have rest := ih (fun other otherIn => free other (List.mem_cons_of_mem _ otherIn)) synced
      exact .head held (.head written rest)

/-- A thread that is alone flushes as `Memory.flush` does. -/
theorem alone_flush {next : Prog α} {scopes : Scopes α} {flushed : Memory} {value : Unit}
    (guards : scopes.guards = memory.guards) (ran : memory.flush = .ok value flushed) :
    ReflTransGen Alone (memory.manager, ⟨.start, .flush next, scopes⟩)
      (flushed.manager, ⟨.start, next, scopes⟩) ∧ flushed.guards = memory.guards := by
  unfold Memory.flush at ran
  split at ran
  · cases ran
  · rename_i noneBlocked
    cases synced : memory.manager.flush with
    | error error stuck =>
      rw [synced] at ran
      cases ran
    | ok value final =>
      rw [synced] at ran
      obtain ⟨-, rfl⟩ := Result.ok.inj ran
      have started : Alone (memory.manager, ⟨.start, .flush next, scopes⟩)
          (memory.manager, ⟨.sync memory.manager.pointers, .flush next, scopes⟩) := rfl
      refine ⟨.head started (alone_sync ?_ synced), rfl⟩
      intro pointer pointerIn manager
      rw [guards]
      simp only [List.any_eq_true, not_exists, not_and, Bool.not_eq_true] at noneBlocked
      exact noneBlocked pointer pointerIn

/-- A thread that is alone leaves a scope as `Memory.leave` does. -/
theorem alone_leave {outer : Memory} {value : Unit} {scopes : Scopes α} {next : Control}
    (left : memory.leave pointer = .ok value outer) :
    Control.proceed scopes (fun _ => next) (memory.manager.release pointer) =
        (outer.manager, next) ∧
      outer.guards = memory.guards.tail := by
  unfold Memory.leave at left
  cases released : memory.manager.release pointer with
  | error error stuck =>
    rw [released] at left
    cases left
  | ok value final =>
    rw [released] at left
    obtain ⟨-, rfl⟩ := Result.ok.inj left
    exact ⟨rfl, rfl⟩

/-- A new block changes no guard, and the block cache whatever the guards are. -/
theorem store_eq (memory : Memory) (pointer : Nat) (new : Option Block) :
    (memory.store pointer new).guards = memory.guards ∧
      (memory.store pointer new).manager =
        ((Memory.idle memory.manager).store pointer new).manager := by
  cases new <;> exact ⟨rfl, rfl⟩

/-- A thread that is alone does what `Prog.exec` says. -/
theorem run_of_exec {program : Prog α} {rest : α → Prog γ} {scopes : Scopes γ} {final : Memory}
    {value : α} (guards : scopes.guards = memory.guards)
    (ran : program.exec memory = .ok value final) :
    ReflTransGen Alone (memory.manager, ⟨.start, program.bind rest, scopes⟩)
        (final.manager, ⟨.start, rest value, scopes⟩) ∧
      final.guards = memory.guards := by
  induction program generalizing γ scopes memory final with
  | pure result =>
    obtain ⟨rfl, rfl⟩ := Result.ok.inj ran
    exact ⟨.refl, rfl⟩
  | fail error => cases ran
  | reading key body next bodyIH nextIH =>
    obtain ⟨pointer, entered, found, inner, outer, acquired, inside, left, ran⟩ :=
      Prog.exec_reading_ok ran
    obtain ⟨enters, enteredGuards⟩ := @alone_enter γ memory entered key pointer .read
      (.reading key body fun found => (next found).bind rest) scopes _ rfl guards acquired rfl
    have innermost : Scopes.guards (.reading pointer (fun found => (next found).bind rest)
        scopes) = entered.guards := by
      rw [enteredGuards, ← guards]
      rfl
    obtain ⟨runs, innerGuards⟩ := @bodyIH _ _ _ .pure _ _ _ innermost inside
    rw [Scoped.bind_pure] at runs
    obtain ⟨leaves, outerGuards⟩ := @alone_leave γ inner pointer outer () scopes
      ⟨.start, (next found).bind rest, scopes⟩ left
    have same : outer.guards = memory.guards := by
      rw [outerGuards, innerGuards, enteredGuards]
      rfl
    obtain ⟨continues, last⟩ := nextIH found (guards.trans same.symm) ran
    exact ⟨enters.trans (runs.trans (.head (congrArg some leaves) continues)), last.trans same⟩
  | writing key body next bodyIH nextIH =>
    obtain ⟨pointer, entered, found, inner, outer, acquired, inside, left, ran⟩ :=
      Prog.exec_writing_ok ran
    obtain ⟨enters, enteredGuards⟩ := @alone_enter γ memory entered key pointer .write
      (.writing key body fun found => (next found).bind rest) scopes _ rfl guards acquired rfl
    have innermost : Scopes.guards (.writing pointer (fun found => (next found).bind rest)
        scopes) = entered.guards := by
      rw [enteredGuards, ← guards]
      rfl
    obtain ⟨runs, innerGuards⟩ := @bodyIH _ _ _ .pure _ _ _ innermost inside
    rw [Scoped.bind_pure] at runs
    obtain ⟨leaves, outerGuards⟩ := @alone_leave γ (inner.store pointer found.2) pointer
      outer () scopes ⟨.start, (next found.1).bind rest, scopes⟩ left
    obtain ⟨storeGuards, storeManager⟩ := store_eq inner pointer found.2
    have same : outer.guards = memory.guards := by
      rw [outerGuards, storeGuards, innerGuards, enteredGuards]
      rfl
    rw [storeManager] at leaves
    obtain ⟨continues, last⟩ := nextIH found.1 (guards.trans same.symm) ran
    exact ⟨enters.trans (runs.trans (.head (congrArg some leaves) continues)), last.trans same⟩
  | flush next ih =>
    obtain ⟨middle, flushed, ran⟩ := Prog.exec_flush_ok ran
    obtain ⟨flushes, kept⟩ :=
      @alone_flush γ memory (next.bind rest) scopes middle () guards flushed
    obtain ⟨runs, same⟩ := ih (guards.trans kept.symm) ran
    exact ⟨flushes.trans runs, same.trans kept⟩

end Alone

end Canyon.Fs
