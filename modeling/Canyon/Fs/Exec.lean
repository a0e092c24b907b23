import Canyon.Lib.Lists
import Canyon.Fs.Cache

/-!
# Programs on the block cache

The file system's operations are scoped programs over numbered blocks. `Prog.exec` runs
one on a `CacheManager`: entering a scope calls `CacheManager::get` and takes the lock of
the object, leaving it drops the guard and the handle. The main result, `Prog.exec_of_wp`,
carries a weakest precondition over block contents to the execution on the cache: no
substitution runs out, no lock is asked for twice, and the outcome is the specified one.
-/

namespace Canyon.Fs

open Canyon.Lib
open EStateM (Result)

/-- A program of the file system over the blocks of its device. -/
abbrev Prog := Scoped Nat Block Panic

/-- The cache as a running call sees it. -/
structure Memory where
  /-- The manager. -/
  manager : CacheManager
  /-- Guards the call holds, innermost first: the object's pointer and how it is held. -/
  guards : List (Nat × Access)

namespace Memory

/-- The cache between two calls. -/
def idle (manager : CacheManager) : Memory := ⟨manager, []⟩

/-- A lock request that no release of another call can grant: the object's lock is held by
the call itself, for writing or while the request is for writing. -/
def blocked (memory : Memory) (pointer : Nat) : Access → Bool
  | .read => memory.guards.contains (pointer, .write)
  | .write => memory.guards.any fun guard => guard.1 == pointer

/-- `get(block_id)` followed by `read()` or `write()` of the handle. -/
def acquire (memory : Memory) (blockId : Nat) (access : Access) : Result Panic Memory Nat :=
  match memory.manager.get blockId with
  | .error error manager => .error error { memory with manager }
  | .ok pointer manager =>
    if memory.blocked pointer access then .error .deadlock { memory with manager }
    else .ok pointer ⟨manager, (pointer, access) :: memory.guards⟩

/-- Drop of the innermost guard and of its handle. -/
def leave (memory : Memory) (pointer : Nat) : Result Panic Memory Unit :=
  match memory.manager.release pointer with
  | .error error manager => .error error { memory with manager }
  | .ok _ manager => .ok () ⟨manager, memory.guards.tail⟩

/-- `Cache::modify` through the innermost guard, when the scope made a new block. -/
def store (memory : Memory) (pointer : Nat) : Option Block → Memory
  | none => memory
  | some block => { memory with manager := memory.manager.modify pointer block }

/-- `CacheManager::flush`, which locks every object of the queue. -/
def flush (memory : Memory) : Result Panic Memory Unit :=
  if memory.manager.pointers.any fun pointer => memory.blocked pointer .write then
    .error .deadlock memory
  else match memory.manager.flush with
    | .error error manager => .error error { memory with manager }
    | .ok _ manager => .ok () { memory with manager }

/-- The panics of the cache as a running call sees it. -/
def panics : List Panic := .deadlock :: CacheManager.panics

variable {memory after : Memory} {blockId pointer : Nat} {access : Access} {error : Panic}
  {contents : Nat → Block} {held : List Nat} {guards : List (Nat × Access)}

/-- How the entry of a scope can fail. -/
theorem acquire_error (failed : memory.acquire blockId access = .error error after) :
    error ∈ panics := by
  unfold acquire at failed
  split at failed
  · rename_i stuck
    obtain ⟨rfl, -⟩ := Result.error.inj failed
    exact List.mem_cons_of_mem _ (CacheManager.get_error stuck)
  · split at failed
    · obtain ⟨rfl, -⟩ := Result.error.inj failed
      exact List.mem_cons_self
    · contradiction

/-- How the exit of a scope can fail. -/
theorem leave_error (failed : memory.leave pointer = .error error after) : error ∈ panics := by
  unfold leave at failed
  split at failed
  · rename_i stuck
    obtain ⟨rfl, -⟩ := Result.error.inj failed
    exact List.mem_cons_of_mem _ (CacheManager.dropped_error stuck)
  · contradiction

/-- How a flush can fail. -/
theorem flush_error (failed : memory.flush = .error error after) : error ∈ panics := by
  unfold flush at failed
  split at failed
  · obtain ⟨rfl, -⟩ := Result.error.inj failed
    exact List.mem_cons_self
  · split at failed
    · rename_i stuck
      obtain ⟨rfl, -⟩ := Result.error.inj failed
      exact List.mem_cons_of_mem _ (CacheManager.syncAll_error stuck)
    · contradiction

/-- The call holds guards on exactly these blocks, innermost first, over a manager that
stands for these contents; it has no handle but those of its guards. -/
structure Holding (memory : Memory) (held : List Nat) (contents : Nat → Block) : Prop where
  /-- The manager stands for the contents. -/
  coherent : memory.manager.Coherent contents
  /-- Every handle belongs to a guard. -/
  handles : memory.manager.handles = memory.guards.map Prod.fst
  /-- The guarded objects are those of the held blocks. -/
  entries : List.Forall₂ (fun guard blockId => (blockId, guard.1) ∈ memory.manager.queue)
    memory.guards held

/-- Between two calls nothing is held. -/
theorem Holding.idle {manager : CacheManager} (coherent : manager.Coherent contents)
    (free : manager.handles = []) : (Memory.idle manager).Holding [] contents :=
  ⟨coherent, free, List.Forall₂.nil⟩

/-- The entries of the guarded objects are kept by every manager that keeps the entries
with handles. -/
theorem Holding.entries_in (holding : memory.Holding held contents) {queue : List (Nat × Nat)}
    (kept : ∀ entry ∈ memory.manager.queue, entry.2 ∈ memory.manager.handles → entry ∈ queue) :
    List.Forall₂ (fun guard blockId => (blockId, guard.1) ∈ queue) memory.guards held := by
  refine forall₂_imp_of_mem holding.entries ?_
  intro guard guardIn blockId entry
  refine kept _ entry ?_
  rw [holding.handles]
  exact List.mem_map_of_mem guardIn

/-- The guarded object of a block that is not held is not guarded. -/
theorem Holding.not_blocked (holding : memory.Holding held contents) {manager : CacheManager}
    (coherent : manager.Coherent contents)
    (kept : ∀ entry ∈ memory.manager.queue, entry.2 ∈ memory.manager.handles →
      entry ∈ manager.queue)
    (entryIn : (blockId, pointer) ∈ manager.queue) (free : blockId ∉ held) (access : Access) :
    memory.blocked pointer access = false := by
  have unguarded : ∀ guard ∈ memory.guards, guard.1 ≠ pointer := by
    intro guard guardIn same
    obtain ⟨heldId, heldIn, entry⟩ := forall₂_right_of_mem (holding.entries_in kept) guardIn
    have equal : heldId = blockId :=
      congrArg Prod.fst (coherent.entry_of_pointer entry entryIn same)
    exact free (equal ▸ heldIn)
  cases access with
  | read =>
    simp only [blocked, List.contains_eq_mem, decide_eq_false_iff_not]
    exact fun member => unguarded _ member rfl
  | write =>
    simp only [blocked, List.any_eq_false, beq_iff_eq]
    exact unguarded

/-- What the entry of a scope has done. -/
theorem Holding.acquired {inner : Memory} (holding : memory.Holding held contents)
    (entered : memory.acquire blockId access = .ok pointer inner) :
    inner.Holding (blockId :: held) contents ∧
      inner.guards = (pointer, access) :: memory.guards ∧
      inner.manager.device.totalBlocks = memory.manager.device.totalBlocks ∧
      inner.manager.read pointer = contents blockId := by
  unfold Memory.acquire at entered
  cases got : memory.manager.get blockId with
  | error error manager => simp [got] at entered
  | ok found manager =>
    simp only [got] at entered
    split at entered
    · cases entered
    · obtain ⟨rfl, rfl⟩ := Result.ok.inj entered
      obtain ⟨coherent, entryIn, handlesEq, totalEq, kept⟩ := holding.coherent.get got
      refine ⟨⟨coherent, ?_, ?_⟩, rfl, totalEq, coherent.cached _ entryIn⟩
      · simp [handlesEq, holding.handles]
      · exact List.Forall₂.cons entryIn (holding.entries_in kept)

/-- Entering a scope that the rules admit gives its object, with the block's contents. -/
theorem Holding.acquire {rules : Scoped.Discipline Nat} (holding : memory.Holding held contents)
    (size : rules.limit ≤ cacheSize)
    (onDevice : ∀ blockId, rules.Valid blockId → blockId < memory.manager.device.totalBlocks)
    (admits : rules.Admits held blockId) (access : Access) :
    ∃ pointer inner, memory.acquire blockId access = .ok pointer inner ∧
      inner.Holding (blockId :: held) contents ∧
      inner.guards = (pointer, access) :: memory.guards ∧
      inner.manager.device.totalBlocks = memory.manager.device.totalBlocks ∧
      inner.manager.read pointer = contents blockId := by
  have room : memory.manager.handles.length < cacheSize := by
    rw [holding.handles, List.length_map, holding.entries.length_eq]
    exact Nat.lt_of_lt_of_le admits.room size
  obtain ⟨pointer, manager, got⟩ := holding.coherent.get_total (onDevice _ admits.valid) room
  obtain ⟨coherent, entryIn, -, -, kept⟩ := holding.coherent.get got
  have unlocked := holding.not_blocked coherent kept entryIn admits.free access
  have entered : memory.acquire blockId access =
      .ok pointer ⟨manager, (pointer, access) :: memory.guards⟩ := by
    simp [Memory.acquire, got, unlocked]
  exact ⟨pointer, _, entered, holding.acquired entered⟩

/-- Leaving the innermost scope gives back its handle. -/
theorem Holding.leave (holding : memory.Holding (blockId :: held) contents)
    (innermost : memory.guards = (pointer, access) :: guards) :
    ∃ outer, memory.leave pointer = .ok () outer ∧ outer.Holding held contents ∧
      outer.guards = guards ∧
      outer.manager.device.totalBlocks = memory.manager.device.totalBlocks := by
  have handles : memory.manager.handles = pointer :: guards.map Prod.fst := by
    rw [holding.handles, innermost, List.map_cons]
  have isHeld : pointer ∈ memory.manager.handles := by simp [handles]
  have released := holding.coherent.release_eq isHeld
  have entries := holding.entries
  rw [innermost] at entries
  refine ⟨⟨{ memory.manager with handles := memory.manager.handles.erase pointer },
    memory.guards.tail⟩, by simp only [Memory.leave, released],
    ⟨holding.coherent.release pointer, ?_, ?_⟩, by simp [innermost], rfl⟩
  · simp [handles, innermost]
  · simpa [innermost] using (List.forall₂_cons.mp entries).2

/-- A new block stored through the innermost guard becomes the contents of its block. -/
theorem Holding.store (holding : memory.Holding (blockId :: held) contents)
    (innermost : memory.guards = (pointer, access) :: guards) (new : Option Block) :
    (memory.store pointer new).Holding (blockId :: held)
      (Scoped.put contents blockId new) := by
  cases new with
  | none => exact holding
  | some block =>
    have entries := holding.entries
    rw [innermost] at entries
    have entryIn := (List.forall₂_cons.mp entries).1
    exact ⟨holding.coherent.modify entryIn block, holding.handles, holding.entries⟩

/-- Storing a new block through the innermost guard, and leaving its scope. -/
theorem Holding.store_leave (holding : memory.Holding (blockId :: held) contents)
    (innermost : memory.guards = (pointer, access) :: guards) (new : Option Block) :
    ∃ outer, (memory.store pointer new).leave pointer = .ok () outer ∧
      outer.Holding held (Scoped.put contents blockId new) ∧ outer.guards = guards ∧
      outer.manager.device.totalBlocks = memory.manager.device.totalBlocks := by
  have storedGuards : (memory.store pointer new).guards = (pointer, access) :: guards := by
    cases new <;> exact innermost
  have storedTotal : (memory.store pointer new).manager.device.totalBlocks =
      memory.manager.device.totalBlocks := by
    cases new <;> rfl
  obtain ⟨outer, left, outerHolding, outerGuards, outerTotal⟩ :=
    (holding.store innermost new).leave storedGuards
  exact ⟨outer, left, outerHolding, outerGuards, outerTotal.trans storedTotal⟩

/-- What a flush has done. -/
theorem Holding.flushed {final : Memory} (holding : memory.Holding held contents)
    (ran : memory.flush = .ok () final) :
    final.Holding held contents ∧ final.guards = memory.guards := by
  obtain ⟨manager, flushed, coherent, queueEq, handlesEq, -, -⟩ := holding.coherent.flush
  unfold Memory.flush at ran
  split at ran
  · cases ran
  · simp only [flushed] at ran
    obtain ⟨-, rfl⟩ := Result.ok.inj ran
    exact ⟨⟨coherent, handlesEq.trans holding.handles, queueEq ▸ holding.entries⟩, rfl⟩

/-- `flush` between two calls cannot fail, and leaves the contents on the device. -/
theorem Holding.flush (holding : memory.Holding [] contents) :
    ∃ final, memory.flush = .ok () final ∧ final.Holding [] contents ∧
      final.guards = memory.guards ∧
      final.manager.device.totalBlocks = memory.manager.device.totalBlocks ∧
      ∀ blockId, final.manager.device.data blockId = contents blockId := by
  obtain ⟨manager, flushed, coherent, queueEq, handlesEq, totalEq, written⟩ :=
    holding.coherent.flush
  have unguarded : memory.guards = [] := List.forall₂_nil_right_iff.mp holding.entries
  have unlocked : (memory.manager.pointers.any fun pointer => memory.blocked pointer .write) =
      false := by
    simp [blocked, unguarded]
  refine ⟨{ memory with manager }, ?_, ⟨coherent, ?_, ?_⟩, rfl, totalEq, written⟩
  · simp only [Memory.flush, unlocked, flushed, Bool.false_eq_true, ↓reduceIte]
  · rw [handlesEq, holding.handles]
  · rw [unguarded]
    exact List.Forall₂.nil

end Memory

namespace Prog

/-- Run a program on the cache. A call that does not return reports the cache it reached. -/
def exec : {α : Type} → Prog α → Memory → Result Panic Memory α
  | _, .pure value, memory => .ok value memory
  | _, .fail error, memory => .error error memory
  | _, .reading blockId body next, memory =>
    match memory.acquire blockId .read with
    | .error error memory => .error error memory
    | .ok pointer memory =>
      match exec (body (memory.manager.read pointer)) memory with
      | .error error memory => .error error memory
      | .ok found memory =>
        match memory.leave pointer with
        | .error error memory => .error error memory
        | .ok _ memory => exec (next found) memory
  | _, .writing blockId body next, memory =>
    match memory.acquire blockId .write with
    | .error error memory => .error error memory
    | .ok pointer memory =>
      match exec (body (memory.manager.read pointer)) memory with
      | .error error memory => .error error memory
      | .ok found memory =>
        match (memory.store pointer found.2).leave pointer with
        | .error error memory => .error error memory
        | .ok _ memory => exec (next found.1) memory
  | _, .flush next, memory =>
    match memory.flush with
    | .error error memory => .error error memory
    | .ok _ memory => exec next memory

section Equations

variable {α γ : Type} {blockId : Nat} {memory final : Memory} {value : α}

/-- How a reading scope runs. -/
theorem exec_reading (blockId : Nat) (body : Block → Prog γ) (next : γ → Prog α)
    (memory : Memory) :
    exec (.reading blockId body next) memory =
      match memory.acquire blockId .read with
      | .error error memory => .error error memory
      | .ok pointer memory =>
        match exec (body (memory.manager.read pointer)) memory with
        | .error error memory => .error error memory
        | .ok found memory =>
          match memory.leave pointer with
          | .error error memory => .error error memory
          | .ok _ memory => exec (next found) memory := by
  rw [exec]

/-- How a writing scope runs. -/
theorem exec_writing (blockId : Nat) (body : Block → Prog (γ × Option Block)) (next : γ → Prog α)
    (memory : Memory) :
    exec (.writing blockId body next) memory =
      match memory.acquire blockId .write with
      | .error error memory => .error error memory
      | .ok pointer memory =>
        match exec (body (memory.manager.read pointer)) memory with
        | .error error memory => .error error memory
        | .ok found memory =>
          match (memory.store pointer found.2).leave pointer with
          | .error error memory => .error error memory
          | .ok _ memory => exec (next found.1) memory := by
  rw [exec]

/-- How a flush runs. -/
theorem exec_flush (next : Prog α) (memory : Memory) :
    exec (.flush next) memory =
      match memory.flush with
      | .error error memory => .error error memory
      | .ok _ memory => exec next memory :=
  rfl

/-- The parts of a reading scope that returns. -/
theorem exec_reading_ok {body : Block → Prog γ} {next : γ → Prog α}
    (ran : exec (.reading blockId body next) memory = .ok value final) :
    ∃ pointer entered found inner outer, memory.acquire blockId .read = .ok pointer entered ∧
      exec (body (entered.manager.read pointer)) entered = .ok found inner ∧
      inner.leave pointer = .ok () outer ∧ exec (next found) outer = .ok value final := by
  rw [exec_reading] at ran
  split at ran
  · cases ran
  · rename_i acquired
    split at ran
    · cases ran
    · rename_i inside
      split at ran
      · cases ran
      · rename_i left
        exact ⟨_, _, _, _, _, acquired, inside, left, ran⟩

/-- The parts of a writing scope that returns. -/
theorem exec_writing_ok {body : Block → Prog (γ × Option Block)} {next : γ → Prog α}
    (ran : exec (.writing blockId body next) memory = .ok value final) :
    ∃ pointer entered found inner outer, memory.acquire blockId .write = .ok pointer entered ∧
      exec (body (entered.manager.read pointer)) entered = .ok found inner ∧
      (inner.store pointer found.2).leave pointer = .ok () outer ∧
      exec (next found.1) outer = .ok value final := by
  rw [exec_writing] at ran
  split at ran
  · cases ran
  · rename_i acquired
    split at ran
    · cases ran
    · rename_i inside
      split at ran
      · cases ran
      · rename_i left
        exact ⟨_, _, _, _, _, acquired, inside, left, ran⟩

/-- The parts of a flush that returns. -/
theorem exec_flush_ok {next : Prog α} (ran : exec (.flush next) memory = .ok value final) :
    ∃ flushed, memory.flush = .ok () flushed ∧ exec next flushed = .ok value final := by
  rw [exec_flush] at ran
  split at ran
  · cases ran
  · rename_i flushed
    exact ⟨_, flushed, ran⟩

end Equations

variable {α : Type} {contents : Nat → Block} {memory final : Memory}

/-- A sequence runs its parts one after the other. -/
theorem exec_bind {γ : Type} (program : Prog α) (rest : α → Prog γ) (memory : Memory) :
    exec (program.bind rest) memory =
      match program.exec memory with
      | .error error memory => .error error memory
      | .ok value memory => (rest value).exec memory := by
  induction program generalizing memory with
  | pure value => rfl
  | fail error => rfl
  | reading blockId body next bodyIH nextIH =>
    simp only [Scoped.bind, exec_reading]
    cases memory.acquire blockId .read with
    | error error memory => rfl
    | ok pointer memory =>
      dsimp only
      cases exec (body (memory.manager.read pointer)) memory with
      | error error memory => rfl
      | ok found memory =>
        dsimp only
        cases memory.leave pointer with
        | error error memory => rfl
        | ok _ memory => exact nextIH found rest memory
  | writing blockId body next bodyIH nextIH =>
    simp only [Scoped.bind, exec_writing]
    cases memory.acquire blockId .write with
    | error error memory => rfl
    | ok pointer memory =>
      dsimp only
      cases exec (body (memory.manager.read pointer)) memory with
      | error error memory => rfl
      | ok found memory =>
        dsimp only
        cases (memory.store pointer found.2).leave pointer with
        | error error memory => rfl
        | ok _ memory => exact nextIH found.1 rest memory
  | flush next ih =>
    simp only [Scoped.bind, exec_flush]
    cases memory.flush with
    | error error memory => rfl
    | ok _ memory => exact ih rest memory

/-- Outcome of a call on the cache that meets a specification over block contents: a value
that satisfies `post`, with the guards as they were, or an error that satisfies `failed`. -/
def Meets {α : Type} (outcome : Result Panic Memory α) (memory : Memory) (held : List Nat)
    (post : α → (Nat → Block) → Prop) (failed : Panic → (Nat → Block) → Prop) : Prop :=
  match outcome with
  | .ok value final => ∃ contents, final.Holding held contents ∧
      final.guards = memory.guards ∧
      final.manager.device.totalBlocks = memory.manager.device.totalBlocks ∧
      post value contents
  | .error error final => ∃ contents, final.manager.Coherent contents ∧
      final.manager.device.totalBlocks = memory.manager.device.totalBlocks ∧
      failed error contents

section Enter

variable {rules : Scoped.Discipline Nat} {α γ : Type} {held : List Nat}
  {post : α → (Nat → Block) → Prop} {failed : Panic → (Nat → Block) → Prop}
  {contents : Nat → Block} {memory : Memory} {blockId : Nat}

/-- Outcome of one scope: it goes on to the rest of the program, outside the scope, or it
stops with an error. -/
def Passes (outcome : Result Panic Memory α) (memory : Memory) (held : List Nat)
    (rest : Prog α → (Nat → Block) → Prop) (failed : Panic → (Nat → Block) → Prop) : Prop :=
  (∃ next outer contents, outcome = exec next outer ∧ outer.Holding held contents ∧
    outer.guards = memory.guards ∧
    outer.manager.device.totalBlocks = memory.manager.device.totalBlocks ∧
    rest next contents) ∨
  ∃ error final contents, outcome = .error error final ∧ final.manager.Coherent contents ∧
    final.manager.device.totalBlocks = memory.manager.device.totalBlocks ∧ failed error contents

/-- A scope whose body meets its specification. -/
theorem passes_reading (size : rules.limit ≤ cacheSize)
    (onDevice : ∀ blockId, rules.Valid blockId → blockId < memory.manager.device.totalBlocks)
    (holding : memory.Holding held contents) {body : Block → Prog γ} (next : γ → Prog α)
    (admits : rules.Admits held blockId)
    (inner : ∀ memory : Memory, memory.Holding (blockId :: held) contents →
      (∀ blockId, rules.Valid blockId → blockId < memory.manager.device.totalBlocks) →
      Meets ((body (contents blockId)).exec memory) memory (blockId :: held)
        (fun found store => (next found).wp rules held post failed store) failed) :
    Passes (exec (.reading blockId body next) memory) memory held
      (fun program store => (∃ found, program = next found) ∧
        program.wp rules held post failed store) failed := by
  obtain ⟨pointer, entered, acquired, enteredHolding, guardsEq, totalEq, readEq⟩ :=
    holding.acquire size onDevice admits .read
  have ran := inner entered enteredHolding (by rwa [totalEq])
  simp only [exec_reading, acquired, readEq]
  cases reached : exec (body (contents blockId)) entered with
  | error error final =>
    rw [reached] at ran
    obtain ⟨after, coherent, total, stopped⟩ := ran
    exact .inr ⟨error, final, after, rfl, coherent, total.trans totalEq, stopped⟩
  | ok found middle =>
    rw [reached] at ran
    obtain ⟨after, middleHolding, middleGuards, middleTotal, rest⟩ := ran
    obtain ⟨outer, left, outerHolding, outerGuards, outerTotal⟩ :=
      middleHolding.leave (middleGuards.trans guardsEq)
    have total : outer.manager.device.totalBlocks = memory.manager.device.totalBlocks := by
      rw [outerTotal, middleTotal, totalEq]
    dsimp only
    rw [left]
    exact .inl ⟨next found, outer, after, rfl, outerHolding, outerGuards, total, ⟨found, rfl⟩,
      rest⟩

/-- A writing scope whose body meets its specification. -/
theorem passes_writing (size : rules.limit ≤ cacheSize)
    (onDevice : ∀ blockId, rules.Valid blockId → blockId < memory.manager.device.totalBlocks)
    (holding : memory.Holding held contents) {body : Block → Prog (γ × Option Block)}
    (next : γ → Prog α) (admits : rules.Admits held blockId)
    (inner : ∀ memory : Memory, memory.Holding (blockId :: held) contents →
      (∀ blockId, rules.Valid blockId → blockId < memory.manager.device.totalBlocks) →
      Meets ((body (contents blockId)).exec memory) memory (blockId :: held)
        (fun found store => (next found.1).wp rules held post failed
          (Scoped.put store blockId found.2)) failed) :
    Passes (exec (.writing blockId body next) memory) memory held
      (fun program store => (∃ found, program = next found) ∧
        program.wp rules held post failed store) failed := by
  obtain ⟨pointer, entered, acquired, enteredHolding, guardsEq, totalEq, readEq⟩ :=
    holding.acquire size onDevice admits .write
  have ran := inner entered enteredHolding (by rwa [totalEq])
  simp only [exec_writing, acquired, readEq]
  cases reached : exec (body (contents blockId)) entered with
  | error error final =>
    rw [reached] at ran
    obtain ⟨after, coherent, total, stopped⟩ := ran
    exact .inr ⟨error, final, after, rfl, coherent, total.trans totalEq, stopped⟩
  | ok found middle =>
    rw [reached] at ran
    obtain ⟨after, middleHolding, middleGuards, middleTotal, rest⟩ := ran
    obtain ⟨outer, left, outerHolding, outerGuards, outerTotal⟩ :=
      middleHolding.store_leave (middleGuards.trans guardsEq) found.2
    have total : outer.manager.device.totalBlocks = memory.manager.device.totalBlocks := by
      rw [outerTotal, middleTotal, totalEq]
    dsimp only
    rw [left]
    exact .inl ⟨next found.1, outer, _, rfl, outerHolding, outerGuards, total, ⟨found.1, rfl⟩,
      rest⟩

/-- What a scope passes on meets the specification when the rest of the program does. -/
theorem Passes.meets {outcome : Result Panic Memory α} {rest : Prog α → (Nat → Block) → Prop}
    (passes : Passes outcome memory held rest failed)
    (finishes : ∀ (next : Prog α) (outer : Memory) contents, outer.Holding held contents →
      outer.manager.device.totalBlocks = memory.manager.device.totalBlocks →
      rest next contents → Meets (exec next outer) outer held post failed) :
    Meets outcome memory held post failed := by
  rcases passes with ⟨next, outer, contents, rfl, holding, guards, total, remains⟩ |
    ⟨error, final, contents, rfl, coherent, total, stopped⟩
  · have finished := finishes next outer contents holding total remains
    simpa only [Meets, guards, total] using finished
  · exact ⟨contents, coherent, total, stopped⟩

end Enter

variable {program : Prog α} {post : α → (Nat → Block) → Prop}

/-- A specification over block contents holds of the execution on the cache, when its rules
allow no more guards than the cache has slots and admit only blocks of the device. -/
theorem exec_of_wp {rules : Scoped.Discipline Nat} (size : rules.limit ≤ cacheSize)
    {held : List Nat} {failed : Panic → (Nat → Block) → Prop}
    (onDevice : ∀ blockId, rules.Valid blockId → blockId < memory.manager.device.totalBlocks)
    (holding : memory.Holding held contents) (holds : program.wp rules held post failed contents) :
    Meets (program.exec memory) memory held post failed := by
  induction program generalizing held contents memory with
  | pure value => exact ⟨contents, holding, rfl, rfl, holds⟩
  | fail error => exact ⟨contents, holding.coherent, rfl, holds⟩
  | reading blockId body next bodyIH nextIH =>
    have passes := passes_reading size onDevice holding next holds.1
      fun inner innerHolding innerDevice => bodyIH _ innerDevice innerHolding holds.2
    refine passes.meets ?_
    rintro _ outer after outerHolding total ⟨⟨found, rfl⟩, rest⟩
    exact nextIH found (by rwa [total]) outerHolding rest
  | writing blockId body next bodyIH nextIH =>
    have passes := passes_writing size onDevice holding next holds.1
      fun inner innerHolding innerDevice => bodyIH _ innerDevice innerHolding holds.2
    refine passes.meets ?_
    rintro _ outer after outerHolding total ⟨⟨found, rfl⟩, rest⟩
    exact nextIH found (by rwa [total]) outerHolding rest
  | flush next ih =>
    obtain ⟨rfl, rest⟩ := holds
    obtain ⟨final, flushed, finalHolding, finalGuards, total, -⟩ := holding.flush
    have finished := ih (by rwa [total]) finalHolding rest
    simpa only [exec_flush, flushed, Meets, finalGuards, total] using finished

/-- A program that settles leaves its contents on the device. -/
theorem exec_of_settles {rules : Scoped.Discipline Nat} (size : rules.limit ≤ cacheSize)
    {failed : Panic → (Nat → Block) → Prop} {value : α}
    (onDevice : ∀ blockId, rules.Valid blockId → blockId < memory.manager.device.totalBlocks)
    (holding : memory.Holding [] contents) (holds : program.wp rules [] post failed contents)
    (settles : program.Settles) (ran : program.exec memory = .ok value final) :
    ∃ after, final.manager.Coherent after ∧ final.manager.device.data = after := by
  induction program generalizing contents memory with
  | pure value => exact settles.elim
  | fail error => cases ran
  | reading blockId body next bodyIH nextIH =>
    have passes := passes_reading size onDevice holding next holds.1
      fun inner innerHolding innerDevice => exec_of_wp size innerDevice innerHolding holds.2
    rw [ran] at passes
    rcases passes with ⟨_, outer, after, again, outerHolding, -, total, ⟨found, rfl⟩, rest⟩ |
      ⟨error, stuck, after, isError, -⟩
    · exact nextIH found (by rwa [total]) outerHolding rest (settles found) again.symm
    · cases isError
  | writing blockId body next bodyIH nextIH =>
    have passes := passes_writing size onDevice holding next holds.1
      fun inner innerHolding innerDevice => exec_of_wp size innerDevice innerHolding holds.2
    rw [ran] at passes
    rcases passes with ⟨_, outer, after, again, outerHolding, -, total, ⟨found, rfl⟩, rest⟩ |
      ⟨error, stuck, after, isError, -⟩
    · exact nextIH found (by rwa [total]) outerHolding rest (settles found) again.symm
    · cases isError
  | flush next ih =>
    obtain ⟨-, rest⟩ := holds
    obtain ⟨flushedMemory, flushed, finalHolding, finalGuards, total, written⟩ := holding.flush
    rw [exec_flush, flushed] at ran
    rcases settles with ⟨last, rfl⟩ | settles
    · obtain ⟨rfl, rfl⟩ := Result.ok.inj ran
      exact ⟨contents, finalHolding.coherent, funext written⟩
    · exact ih (by rwa [total]) finalHolding rest settles ran

/-- A program that only reads leaves the contents as they are, and has the outcome that they
give, unless the cache fails. -/
theorem exec_of_reads {post : α → Prop} {failed : Panic → Prop} {held : List Nat}
    (holding : memory.Holding held contents) (reads : program.Reads contents post failed) :
    match program.exec memory with
    | .ok value final => post value ∧ final.Holding held contents ∧ final.guards = memory.guards
    | .error error _ => failed error ∨ error ∈ Memory.panics := by
  induction program generalizing held memory with
  | pure value => exact ⟨reads, holding, rfl⟩
  | fail error => exact .inl reads
  | reading blockId body next bodyIH nextIH =>
    rw [exec_reading]
    cases entered : memory.acquire blockId .read with
    | error error stuck => exact .inr (Memory.acquire_error entered)
    | ok pointer inner =>
      obtain ⟨innerHolding, innerGuards, -, readEq⟩ := holding.acquired entered
      have inside := bodyIH _ innerHolding reads
      simp only [readEq]
      cases ranBody : exec (body (contents blockId)) inner with
      | error error stuck =>
        rw [ranBody] at inside
        exact inside
      | ok found middle =>
        rw [ranBody] at inside
        obtain ⟨rest, middleHolding, middleGuards⟩ := inside
        obtain ⟨outer, left, outerHolding, outerGuards, -⟩ :=
          middleHolding.leave (middleGuards.trans innerGuards)
        simp only [left, ← outerGuards]
        exact nextIH found outerHolding rest
  | writing blockId body next bodyIH nextIH => exact reads.elim
  | flush next ih =>
    rw [exec_flush]
    cases ran : memory.flush with
    | error error stuck => exact .inr (Memory.flush_error ran)
    | ok done final =>
      obtain ⟨finalHolding, finalGuards⟩ := holding.flushed ran
      simp only [← finalGuards]
      exact ih finalHolding reads

/-- The values that a program returns on a cache are among those it can return. -/
theorem exec_of_yields {post : α → Prop} {value : α} (yields : program.Yields post)
    (ran : program.exec memory = .ok value final) : post value := by
  induction program generalizing memory final with
  | pure found =>
    obtain ⟨rfl, rfl⟩ := Result.ok.inj ran
    exact yields
  | fail error => cases ran
  | reading blockId body next bodyIH nextIH =>
    obtain ⟨_, _, _, _, _, -, inside, -, rest⟩ := exec_reading_ok ran
    exact nextIH _ (bodyIH _ (yields _) inside) rest
  | writing blockId body next bodyIH nextIH =>
    obtain ⟨_, _, _, _, _, -, inside, -, rest⟩ := exec_writing_ok ran
    exact nextIH _ (bodyIH _ (yields _) inside) rest
  | flush next ih =>
    obtain ⟨_, -, rest⟩ := exec_flush_ok ran
    exact ih yields rest

/-- A failure that a program avoids is one that it does not report, if the cache cannot report it
either. -/
theorem exec_of_avoids {error found : Panic} (foreign : error ∉ Memory.panics)
    (avoids : program.Avoids error) (ran : program.exec memory = .error found final) :
    found ≠ error := by
  have other : ∀ {panic : Panic}, panic ∈ Memory.panics → panic ≠ error :=
    fun isOwn same => foreign (same ▸ isOwn)
  induction program generalizing memory final with
  | pure value => cases ran
  | fail panic =>
    obtain ⟨rfl, -⟩ := Result.error.inj ran
    exact avoids
  | reading blockId body next bodyIH nextIH =>
    rw [exec_reading] at ran
    split at ran
    · rename_i stuck
      obtain ⟨rfl, -⟩ := Result.error.inj ran
      exact other (Memory.acquire_error stuck)
    · obtain ⟨inside, rest⟩ := avoids _
      split at ran
      · rename_i stuck
        obtain ⟨rfl, -⟩ := Result.error.inj ran
        exact bodyIH _ inside stuck
      · rename_i ranBody
        split at ran
        · rename_i stuck
          obtain ⟨rfl, -⟩ := Result.error.inj ran
          exact other (Memory.leave_error stuck)
        · exact nextIH _ (exec_of_yields rest ranBody) ran
  | writing blockId body next bodyIH nextIH =>
    rw [exec_writing] at ran
    split at ran
    · rename_i stuck
      obtain ⟨rfl, -⟩ := Result.error.inj ran
      exact other (Memory.acquire_error stuck)
    · obtain ⟨inside, rest⟩ := avoids _
      split at ran
      · rename_i stuck
        obtain ⟨rfl, -⟩ := Result.error.inj ran
        exact bodyIH _ inside stuck
      · rename_i ranBody
        split at ran
        · rename_i stuck
          obtain ⟨rfl, -⟩ := Result.error.inj ran
          exact other (Memory.leave_error stuck)
        · exact nextIH _ (exec_of_yields rest ranBody) ran
  | flush next ih =>
    rw [exec_flush] at ran
    split at ran
    · rename_i stuck
      obtain ⟨rfl, -⟩ := Result.error.inj ran
      exact other (Memory.flush_error stuck)
    · exact ih avoids ran

/-- The rules that the file system's programs keep to: at most five guards at once, on blocks
of the device. -/
def deviceRules (totalBlocks : Nat) : Scoped.Discipline Nat := ⟨5, (· < totalBlocks)⟩

/-- A call with a specification that leaves no room for failure returns. -/
theorem returns_of_wp (holding : memory.Holding [] contents)
    (holds : program.wp (deviceRules memory.manager.device.totalBlocks) [] post
      (fun _ _ => False) contents) :
    ∃ value final after, program.exec memory = .ok value final ∧ final.Holding [] after ∧
      final.manager.device.totalBlocks = memory.manager.device.totalBlocks ∧
      post value after := by
  have met := exec_of_wp (show 5 ≤ cacheSize by decide) (fun _ valid => valid) holding holds
  cases outcome : program.exec memory with
  | ok value final =>
    rw [outcome] at met
    obtain ⟨after, finalHolding, -, total, reached⟩ := met
    exact ⟨value, final, after, rfl, finalHolding, total, reached⟩
  | error error final =>
    rw [outcome] at met
    obtain ⟨-, -, -, impossible⟩ := met
    exact impossible.elim

end Prog

end Canyon.Fs
