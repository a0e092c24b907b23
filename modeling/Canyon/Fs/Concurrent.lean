import Canyon.Fs.Threads
import Canyon.Lib.Jobs
import Mathlib.Algebra.BigOperators.Group.Finset.Piecewise
import Mathlib.Algebra.Group.Action.Defs
import Mathlib.Algebra.Order.BigOperators.Group.Finset
import Mathlib.Data.Fintype.Basic

/-!
# Any number of threads on the block cache

Threads that run any programs on one block cache, lock by lock and in any order. Each of them does
what it does on a plain store with a lock for each block: searching the queue, loading, evicting and
writing back are invisible, handles and the lock of the queue keep a block in the cache while it is
in use, and the lock of a cached block is the lock of its number, since a block is never in the
cache twice. A thread that the cache makes panic is one that takes no further step.
-/

namespace Canyon.Fs

open Canyon.Lib
open EStateM (Result)
open Relation (ReflTransGen)

/-! ## Threads as jobs -/

/-- The block of an object. -/
def CacheManager.idOf (manager : CacheManager) (pointer : Nat) : Nat :=
  (manager.heap pointer).blockId

/-- New contents change no number. -/
theorem CacheManager.idOf_modify (manager : CacheManager) (pointer : Nat) (block : Block)
    (other : Nat) : (manager.modify pointer block).idOf other = manager.idOf other := by
  by_cases same : other = pointer
  · simp [idOf, modify, same]
  · simp [idOf, modify, same]

/-- Open scopes by the numbers of their blocks. -/
def Scopes.frames (ids : Nat → Nat) : {α : Type} → Scopes α → Frames Nat Block Panic α
  | _, .none => .none
  | _, .reading pointer next outer => .reading (ids pointer) next (outer.frames ids)
  | _, .writing pointer next outer => .writing (ids pointer) next (outer.frames ids)

/-- The locks of open scopes by the numbers of their blocks. -/
theorem Scopes.locks_frames (ids : Nat → Nat) {α : Type} (scopes : Scopes α) :
    (scopes.frames ids).locks = scopes.guards.map fun guard => ⟨ids guard.1, guard.2⟩ := by
  induction scopes with
  | none => rfl
  | reading pointer next outer ih => exact congrArg (_ :: ·) ih
  | writing pointer next outer ih => exact congrArg (_ :: ·) ih

/-- Only the blocks of the guards matter. -/
theorem Scopes.frames_congr {ids others : Nat → Nat} {α : Type} {scopes : Scopes α}
    (same : ∀ guard ∈ scopes.guards, others guard.1 = ids guard.1) :
    scopes.frames others = scopes.frames ids := by
  induction scopes with
  | none => rfl
  | reading pointer next outer ih =>
    have first : others pointer = ids pointer := same (pointer, .read) List.mem_cons_self
    have rest := ih fun guard guardIn => same guard (List.mem_cons_of_mem _ guardIn)
    simp only [frames, first, rest]
  | writing pointer next outer ih =>
    have first : others pointer = ids pointer := same (pointer, .write) List.mem_cons_self
    have rest := ih fun guard guardIn => same guard (List.mem_cons_of_mem _ guardIn)
    simp only [frames, first, rest]

/-- What a thread does, as a job on the blocks themselves. -/
def Control.job (ids : Nat → Nat) (control : Control) : Job Nat Block Panic :=
  ⟨control.program, control.scopes.frames ids⟩

/-- A thread does what a job does, or has panicked where the job asks for a block. -/
inductive Shadows (ids : Nat → Nat) : Control → Job Nat Block Panic → Prop where
  /-- The thread runs the program of the job. -/
  | running (control : Control) : Shadows ids control (control.job ids)
  /-- The cache has made the thread panic in a step that the job has not made. -/
  | stopped {Value : Type} (program : Prog Value) (scopes : Scopes Value) {error : Panic}
      (isCache : error ∈ CacheManager.panics) :
      Shadows ids ⟨.start, .fail error, scopes⟩ ⟨program, scopes.frames ids⟩

/-- Only the blocks of the guards matter. -/
theorem Control.job_congr {ids others : Nat → Nat} {control : Control}
    (same : ∀ guard ∈ control.scopes.guards, others guard.1 = ids guard.1) :
    control.job others = control.job ids :=
  congrArg (fun frames => (⟨control.program, frames⟩ : Job Nat Block Panic))
    (Scopes.frames_congr same)

/-- The same for a thread and its job. -/
theorem Shadows.congr {ids others : Nat → Nat} {control : Control} {job : Job Nat Block Panic}
    (shadows : Shadows ids control job)
    (same : ∀ guard ∈ control.scopes.guards, others guard.1 = ids guard.1) :
    Shadows others control job := by
  cases shadows with
  | running =>
    rw [← Control.job_congr same]
    exact .running control
  | stopped program scopes isCache =>
    rw [← Scopes.frames_congr same]
    exact .stopped program scopes isCache

/-- The locks of the job are those of the thread. -/
theorem Shadows.locks_eq {ids : Nat → Nat} {control : Control} {job : Job Nat Block Panic}
    (shadows : Shadows ids control job) :
    job.frames.locks = control.scopes.guards.map fun guard => ⟨ids guard.1, guard.2⟩ := by
  cases shadows with
  | running => exact control.scopes.locks_frames ids
  | stopped program scopes isCache => exact scopes.locks_frames ids

/-- The job of a thread that is done is done. -/
theorem Shadows.job_of_done {ids : Nat → Nat} {control : Control} {job : Job Nat Block Panic}
    {Value : Type} {value : Value} (shadows : Shadows ids control job)
    (isDone : control = ⟨.start, .pure value, .none⟩) : job = ⟨.pure value, .none⟩ := by
  cases shadows with
  | running =>
    subst isDone
    rfl
  | stopped program scopes isCache => cases isDone

/-- A thread that panics has been stopped by the cache, or its job panics. -/
theorem Shadows.job_of_failed {ids : Nat → Nat} {control : Control} {job : Job Nat Block Panic}
    {error : Panic} (shadows : Shadows ids control job) (failed : control.program = .fail error) :
    error ∈ CacheManager.panics ∨ job = ⟨.fail error, control.scopes.frames ids⟩ := by
  cases shadows with
  | running => exact .inr (failed ▸ rfl)
  | stopped program scopes isCache =>
    cases failed
    exact .inl isCache

namespace Control

/-- The handles of a thread. -/
def handles (control : Control) : List Nat :=
  (match control.phase with
    | .lock pointer => [pointer]
    | _ => []) ++ control.scopes.guards.map Prod.fst

/-- What a thread relies on between two steps: the handle that it got is one of the block it asks
for, and the blocks that it flushes are in the queue. -/
def Poised (manager : CacheManager) (control : Control) : Prop :=
  match control.phase with
  | .lock pointer => ∃ blockId access, asks control.program = some (blockId, access) ∧
      (blockId, pointer) ∈ manager.queue
  | .sync pointers => ∀ pointer ∈ pointers, pointer ∈ manager.pointers
  | .hold pointer pointers => ∀ other ∈ pointer :: pointers, other ∈ manager.pointers
  | _ => True

/-- A thread stays poised while its handles and, if it holds the lock of the queue, the queue
stay. -/
theorem Poised.mono {manager after : CacheManager} {control : Control}
    (poised : control.Poised manager)
    (kept : ∀ entry ∈ manager.queue, entry.2 ∈ control.handles → entry ∈ after.queue)
    (locked : (⟨.queue, .read⟩ : Request CacheLock) ∈ phaseHolds control.phase →
      ∀ entry ∈ manager.queue, entry ∈ after.queue) :
    control.Poised after := by
  have pointers : (∀ entry ∈ manager.queue, entry ∈ after.queue) →
      ∀ pointer ∈ manager.pointers, pointer ∈ after.pointers := by
    intro whole pointer pointerIn
    obtain ⟨entry, entryIn, rfl⟩ := List.mem_map.mp pointerIn
    exact List.mem_map_of_mem (whole entry entryIn)
  obtain ⟨phase, program, scopes⟩ := control
  cases phase with
  | start => trivial
  | search => trivial
  | claim => trivial
  | load => trivial
  | lock pointer =>
    obtain ⟨blockId, access, isAsked, entryIn⟩ := poised
    exact ⟨blockId, access, isAsked, kept _ entryIn List.mem_cons_self⟩
  | sync rest =>
    intro pointer pointerIn
    exact pointers (locked List.mem_cons_self) pointer (poised pointer pointerIn)
  | hold first rest =>
    intro pointer pointerIn
    exact pointers (locked List.mem_cons_self) pointer (poised pointer pointerIn)

end Control

namespace Control

variable {ids : Nat → Nat} {control : Control} {allowed : Nat → Prop} {limit : Nat}

/-- A thread and its job ask for the same block. -/
theorem asks_eq {α : Type} {program : Prog α} {asked : Nat × Access}
    (isAsked : asks program = some asked) : program.asks = some ⟨asked.1, asked.2⟩ := by
  cases program with
  | pure value => cases isAsked
  | fail error => cases isAsked
  | flush next => cases isAsked
  | reading key body next => exact Option.some.inj isAsked ▸ rfl
  | writing key body next => exact Option.some.inj isAsked ▸ rfl

/-- A thread has one guard for each lock of its job. -/
theorem length_locks_job : (control.job ids).frames.locks.length = control.scopes.guards.length :=
  (congrArg List.length (control.scopes.locks_frames ids)).trans (List.length_map _)

/-- A thread that loads a block may open one more scope. -/
theorem length_handles_lt {asked : Nat × Access} (isLoad : control.phase = .load)
    (isAsked : asks control.program = some asked)
    (within : (control.job ids).Within allowed limit) :
    control.handles.length < limit := by
  have below := (within.of_asks (asks_eq isAsked)).2
  rw [length_locks_job] at below
  simpa [handles, isLoad] using below

/-- A thread has no more handles than the scopes that it may be in. -/
theorem length_handles_le {manager : CacheManager} (poised : control.Poised manager)
    (within : (control.job ids).Within allowed limit) : control.handles.length ≤ limit := by
  have guards := within.1
  rw [length_locks_job] at guards
  obtain ⟨phase, program, scopes⟩ := control
  cases phase with
  | lock pointer =>
    obtain ⟨blockId, access, isAsked, -⟩ := poised
    have below := (within.of_asks (asks_eq isAsked)).2
    rw [length_locks_job] at below
    simpa [handles] using Nat.succ_le_of_lt below
  | _ => simpa [handles] using guards

end Control

/-! ## The steps of a thread -/

section Steps

variable {manager after : CacheManager} {store storeAfter : Nat → Block} {control later : Control}

/-- A `get` that fails may have made room; it has dropped no entry with a handle. -/
theorem CacheManager.Coherent.get_failed (coherent : manager.Coherent store) {blockId : Nat}
    {error : Panic} (failed : manager.get blockId = .error error after) :
    after.Coherent store ∧ after.handles = manager.handles ∧
      after.device.totalBlocks = manager.device.totalBlocks ∧
      ∀ entry ∈ manager.queue, entry.2 ∈ manager.handles → entry ∈ after.queue := by
  unfold CacheManager.get at failed
  split at failed
  · cases failed
  · cases substituted : manager.substitute with
    | ok value middle =>
      rw [substituted] at failed
      obtain ⟨middleCoherent, -, handles, total, -, keeps⟩ := coherent.substitute substituted
      dsimp only [CacheManager.load] at failed
      split at failed
      · cases failed
      · obtain ⟨-, rfl⟩ := Result.error.inj failed
        exact ⟨middleCoherent, handles, total, keeps⟩
    | error reason middle =>
      rw [substituted] at failed
      obtain ⟨-, rfl⟩ := Result.error.inj failed
      unfold CacheManager.substitute at substituted
      split at substituted
      · split at substituted
        · rename_i index found
          obtain ⟨entry, -, -, pointerAt, dropEq⟩ := coherent.dropped_evicted found
          simp only [pointerAt, dropEq] at substituted
          cases substituted
        · obtain ⟨-, rfl⟩ := Result.error.inj substituted
          exact ⟨coherent, rfl, rfl, fun _ entryIn _ => entryIn⟩
      · cases substituted

/-- The block of an object with a handle stays the same. -/
theorem CacheManager.Coherent.idOf_eq (coherent : manager.Coherent store)
    (coherentAfter : after.Coherent storeAfter)
    (kept : ∀ entry ∈ manager.queue, entry.2 ∈ manager.handles → entry ∈ after.queue)
    {pointer : Nat} (held : pointer ∈ manager.handles) :
    after.idOf pointer = manager.idOf pointer :=
  coherentAfter.tagged _ (kept _ (coherent.entry_of_handle held) held)

/-- What a step of a thread does to the cache. -/
structure Effect (manager after : CacheManager) (storeAfter : Nat → Block)
    (control later : Control) : Prop where
  /-- The cache stands for some contents. -/
  coherent : after.Coherent storeAfter
  /-- The device keeps its size. -/
  total : after.device.totalBlocks = manager.device.totalBlocks
  /-- The thread gets and drops handles of its own only. -/
  counts : ∀ pointer, after.handles.count pointer + control.handles.count pointer =
    manager.handles.count pointer + later.handles.count pointer
  /-- Objects with a handle stay in the queue. -/
  kept : ∀ entry ∈ manager.queue, entry.2 ∈ manager.handles → entry ∈ after.queue
  /-- The whole queue stays, unless the thread has locked it for writing. -/
  whole : control.phase ≠ .load → ∀ entry ∈ manager.queue, entry ∈ after.queue
  /-- The thread is ready for its next step. -/
  poised : later.Poised after

/-- A step that leaves the cache alone. -/
theorem Effect.still (coherent : manager.Coherent store) (handles : later.handles = control.handles)
    (poised : later.Poised manager) : Effect manager manager store control later where
  coherent := coherent
  total := rfl
  counts := fun pointer => by rw [handles]
  kept := fun _ entryIn _ => entryIn
  whole := fun _ _ entryIn => entryIn
  poised := poised

/-- `get` finds room for the block that a thread is about to load. -/
def Control.Served (manager : CacheManager) (control : Control) : Prop :=
  control.phase = .load → ∀ asked, Control.asks control.program = some asked →
    ∃ pointer final, manager.get asked.1 = .ok pointer final

/-- A step of a thread is none of its job, or the next step of its job; a scope is entered when the
lock of its block is granted. -/
def Amounts (manager after : CacheManager) (store storeAfter : Nat → Block)
    (control later : Control) : Prop :=
  (storeAfter = store ∧
    Shadows after.idOf later (control.job manager.idOf) ∧
    (control.Served manager → control.job manager.idOf = later.job after.idOf)) ∨
  (control.program.advance (control.scopes.frames manager.idOf) store =
      some (storeAfter, later.job after.idOf) ∧
    ∀ asked, control.program.asks = some asked → ∃ pointer,
      control.phase = .lock pointer ∧ manager.idOf pointer = asked.lock)

/-- A step that is none of the job. -/
theorem Amounts.silent (manager : CacheManager) (store : Nat → Block) {Value : Type}
    (phase next : Phase) (program : Prog Value) (scopes : Scopes Value) :
    Amounts manager manager store store ⟨phase, program, scopes⟩ ⟨next, program, scopes⟩ :=
  .inl ⟨rfl, .running ⟨next, program, scopes⟩, fun _ => rfl⟩

/-- A handle that is dropped. -/
theorem count_erase_handle {handles rest : List Nat} {pointer : Nat} (held : pointer ∈ handles)
    (other : Nat) :
    (handles.erase pointer).count other + (pointer :: rest).count other =
      handles.count other + rest.count other := by
  have whole := (List.perm_cons_erase held).count_eq other
  rw [List.count_cons] at whole ⊢
  omega

/-- What the end of a scope stores is new contents of its block. -/
theorem CacheManager.Coherent.stored (coherent : manager.Coherent store) {pointer : Nat}
    (isHeld : pointer ∈ manager.handles) (new : Option Block) :
    ((Memory.idle manager).store pointer new).manager.Coherent
        (Scoped.put store (manager.idOf pointer) new) ∧
      ((Memory.idle manager).store pointer new).manager.handles = manager.handles ∧
      ((Memory.idle manager).store pointer new).manager.queue = manager.queue ∧
      ((Memory.idle manager).store pointer new).manager.device = manager.device ∧
      ∀ other, ((Memory.idle manager).store pointer new).manager.idOf other =
        manager.idOf other := by
  cases new with
  | none => exact ⟨coherent, rfl, rfl, rfl, fun _ => rfl⟩
  | some block =>
    exact ⟨coherent.modify (coherent.entry_of_handle isHeld) block, rfl, rfl, rfl,
      manager.idOf_modify pointer block⟩

/-- The thread leaves a scope. -/
theorem effect_of_leave {Value : Type} {value : Value} {scopes : Scopes Value}
    (coherent : manager.Coherent store)
    (held : ∀ guard ∈ scopes.guards, guard.1 ∈ manager.handles)
    (moved : Control.leave scopes value manager = some (after, later)) :
    ∃ storeAfter, Effect manager after storeAfter ⟨.start, .pure value, scopes⟩ later ∧
      Amounts manager after store storeAfter ⟨.start, .pure value, scopes⟩ later := by
  cases scopes with
  | none => cases moved
  | reading pointer next outer =>
    have isHeld : pointer ∈ manager.handles := held (pointer, .read) List.mem_cons_self
    obtain ⟨rfl, rfl⟩ : _ ∧ _ := by
      have out := Option.some.inj moved
      rw [coherent.release_eq isHeld] at out
      exact Prod.mk.inj out
    refine ⟨store, ⟨coherent.release pointer, rfl, ?_, fun _ entryIn _ => entryIn,
      fun _ _ entryIn => entryIn, trivial⟩, .inr ⟨rfl, fun _ asked => nomatch asked⟩⟩
    exact count_erase_handle isHeld
  | writing pointer next outer =>
    have isHeld : pointer ∈ manager.handles := held (pointer, .write) List.mem_cons_self
    obtain ⟨result, new⟩ := value
    obtain ⟨coherentStored, handles, queue, device, ids⟩ := coherent.stored isHeld new
    obtain ⟨rfl, rfl⟩ : _ ∧ _ := by
      have out := Option.some.inj moved
      rw [coherentStored.release_eq (handles ▸ isHeld)] at out
      exact Prod.mk.inj out
    have sameFrames : outer.frames ((Memory.idle manager).store pointer new).manager.idOf =
        outer.frames manager.idOf := Scopes.frames_congr fun guard _ => ids guard.1
    refine ⟨_, ⟨coherentStored.release pointer, congrArg Disk.totalBlocks device, ?_,
      fun entry entryIn _ => queue ▸ entryIn, fun _ entry entryIn => queue ▸ entryIn, trivial⟩,
      .inr ⟨?_, fun _ asked => nomatch asked⟩⟩
    · rw [handles]
      exact count_erase_handle isHeld
    · exact congrArg (fun frames => some (_, (⟨next result, frames⟩ : Job Nat Block Panic)))
        sameFrames.symm

/-- The thread enters a scope. -/
theorem effect_of_lock {Value : Type} {program : Prog Value} {scopes : Scopes Value}
    {pointer : Nat} (coherent : manager.Coherent store)
    (poised : Control.Poised manager ⟨.lock pointer, program, scopes⟩)
    (held : ∀ guard ∈ scopes.guards, guard.1 ∈ manager.handles)
    (moved : Control.step manager program scopes (.lock pointer) = some (after, later)) :
    Effect manager after store ⟨.lock pointer, program, scopes⟩ later ∧
      Amounts manager after store store ⟨.lock pointer, program, scopes⟩ later := by
  obtain ⟨blockId, access, isAsked, entryIn⟩ := poised
  have isBlock : manager.idOf pointer = blockId := coherent.tagged _ entryIn
  have isSeen : manager.read pointer = store blockId := coherent.cached _ entryIn
  -- a guard of the thread itself on the block is a guard on its object
  have free : ∀ asked : Request Nat, asked.lock = blockId → asked.access = access →
      Memory.blocked ⟨manager, scopes.guards⟩ pointer access = false →
      ¬(scopes.frames manager.idOf).Blocks asked := by
    rintro asked rfl rfl notBlocked ⟨lock, lockIn, sameLock, alone⟩
    rw [Scopes.locks_frames] at lockIn
    obtain ⟨guard, guardIn, rfl⟩ := List.mem_map.mp lockIn
    have same : guard.1 = pointer :=
      congrArg Prod.snd (coherent.entry_of_id (coherent.entry_of_handle (held guard guardIn))
        entryIn sameLock.symm)
    obtain ⟨guardPointer, guardAccess⟩ := guard
    obtain rfl : guardPointer = pointer := same
    cases isAccess : asked.access with
    | read =>
      rw [isAccess] at notBlocked alone
      obtain rfl : guardAccess = .write := by simpa using alone
      simp [Memory.blocked, guardIn] at notBlocked
    | write =>
      rw [isAccess] at notBlocked
      simp only [Memory.blocked, List.any_eq_false, beq_iff_eq] at notBlocked
      exact notBlocked _ guardIn rfl
  simp only [Control.step, isAsked, Option.bind_some] at moved
  split at moved
  · cases moved
  · rename_i notBlocked
    rw [Bool.not_eq_true] at notBlocked
    cases program with
    | pure value => cases isAsked
    | fail error => cases isAsked
    | flush next => cases isAsked
    | reading key body next =>
      obtain ⟨rfl, rfl⟩ := Prod.mk.inj (Option.some.inj isAsked)
      obtain ⟨rfl, rfl⟩ := Prod.mk.inj (Option.some.inj moved)
      refine ⟨.still coherent rfl trivial, .inr ⟨?_, ?_⟩⟩
      · have unblocked := free ⟨key, .read⟩ rfl rfl notBlocked
        show (if _ then _ else _) = _
        rw [if_neg unblocked, ← isSeen]
        simp only [Control.job, Scopes.frames, isBlock]
      · intro asked isRequest
        obtain rfl := Option.some.inj isRequest
        exact ⟨pointer, rfl, isBlock⟩
    | writing key body next =>
      obtain ⟨rfl, rfl⟩ := Prod.mk.inj (Option.some.inj isAsked)
      obtain ⟨rfl, rfl⟩ := Prod.mk.inj (Option.some.inj moved)
      refine ⟨.still coherent rfl trivial, .inr ⟨?_, ?_⟩⟩
      · have unblocked := free ⟨key, .write⟩ rfl rfl notBlocked
        show (if _ then _ else _) = _
        rw [if_neg unblocked, ← isSeen]
        simp only [Control.job, Scopes.frames, isBlock]
      · intro asked isRequest
        obtain rfl := Option.some.inj isRequest
        exact ⟨pointer, rfl, isBlock⟩

/-- One more handle. -/
theorem CacheManager.Coherent.handle (coherent : manager.Coherent store) {entry : Nat × Nat}
    (entryIn : entry ∈ manager.queue) :
    ({ manager with handles := entry.2 :: manager.handles } : CacheManager).Coherent store where
  __ := coherent
  pinned := by
    intro pointer held
    rcases List.mem_cons.mp held with rfl | old
    · exact List.mem_map_of_mem entryIn
    · exact coherent.pinned pointer old

/-- The handle that a thread has got. -/
theorem count_got_handle (handles rest : List Nat) (pointer other : Nat) :
    (pointer :: handles).count other + rest.count other =
      handles.count other + (pointer :: rest).count other := by
  rw [List.count_cons, List.count_cons]
  omega

/-- The thread searches the queue. -/
theorem effect_of_search {Value : Type} {program : Prog Value} {scopes : Scopes Value}
    (coherent : manager.Coherent store)
    (moved : Control.step manager program scopes .search = some (after, later)) :
    Effect manager after store ⟨.search, program, scopes⟩ later ∧
      Amounts manager after store store ⟨.search, program, scopes⟩ later := by
  obtain ⟨asked, isAsked, out⟩ := Option.map_eq_some_iff.mp moved
  cases found : manager.find asked.1 with
  | none =>
    rw [found] at out
    obtain ⟨rfl, rfl⟩ := Prod.mk.inj out
    exact ⟨.still coherent rfl trivial, .silent manager store _ _ program scopes⟩
  | some pointer =>
    rw [found] at out
    obtain ⟨rfl, rfl⟩ := Prod.mk.inj out
    have entryIn := CacheManager.Coherent.find_some found
    refine ⟨⟨coherent.handle entryIn, rfl, ?_, fun _ entryIn _ => entryIn,
      fun _ _ entryIn => entryIn, asked.1, asked.2, isAsked, entryIn⟩,
      .inl ⟨rfl, .running ⟨.lock pointer, program, scopes⟩, fun _ => rfl⟩⟩
    exact count_got_handle manager.handles (scopes.guards.map Prod.fst) pointer

/-- The thread makes an entry for a block, or panics. -/
theorem effect_of_load {Value : Type} {program : Prog Value} {scopes : Scopes Value}
    (coherent : manager.Coherent store)
    (held : ∀ guard ∈ scopes.guards, guard.1 ∈ manager.handles)
    (moved : Control.step manager program scopes .load = some (after, later)) :
    Effect manager after store ⟨.load, program, scopes⟩ later ∧
      Amounts manager after store store ⟨.load, program, scopes⟩ later := by
  obtain ⟨asked, isAsked, out⟩ := Option.map_eq_some_iff.mp moved
  have same : ∀ {final : CacheManager}, final.Coherent store →
      (∀ entry ∈ manager.queue, entry.2 ∈ manager.handles → entry ∈ final.queue) →
      ∀ guard ∈ scopes.guards, final.idOf guard.1 = manager.idOf guard.1 :=
    fun coherentAfter kept guard guardIn =>
      coherent.idOf_eq coherentAfter kept (held guard guardIn)
  cases got : manager.get asked.1 with
  | ok pointer final =>
    rw [got] at out
    obtain ⟨rfl, rfl⟩ := Prod.mk.inj out
    obtain ⟨coherentAfter, entryIn, handles, total, kept⟩ := coherent.get got
    refine ⟨⟨coherentAfter, total, fun other => ?_, kept, fun notLoad => absurd rfl notLoad,
      asked.1, asked.2, isAsked, entryIn⟩, .inl ⟨rfl, ?_⟩⟩
    · rw [handles]
      exact count_got_handle manager.handles (scopes.guards.map Prod.fst) pointer other
    · rw [← Control.job_congr (same coherentAfter kept)]
      exact ⟨.running ⟨.lock pointer, program, scopes⟩, fun _ => rfl⟩
  | error error final =>
    rw [got] at out
    obtain ⟨rfl, rfl⟩ := Prod.mk.inj out
    obtain ⟨coherentAfter, handles, total, kept⟩ := coherent.get_failed got
    refine ⟨⟨coherentAfter, total, fun other => ?_, kept, fun notLoad => absurd rfl notLoad,
      trivial⟩, .inl ⟨rfl, ?_, ?_⟩⟩
    · rw [handles]
      rfl
    · rw [← Control.job_congr (same coherentAfter kept)]
      exact .stopped program scopes (CacheManager.get_error got)
    · intro served
      obtain ⟨pointer, last, isOk⟩ := served rfl asked isAsked
      cases got.symm.trans isOk

/-- The thread writes a block back under `flush`. -/
theorem effect_of_hold {Value : Type} {program : Prog Value} {scopes : Scopes Value}
    {pointer : Nat} {pointers : List Nat} (coherent : manager.Coherent store)
    (poised : Control.Poised manager ⟨.hold pointer pointers, program, scopes⟩)
    (moved : Control.step manager program scopes (.hold pointer pointers) =
      some (after, later)) :
    Effect manager after store ⟨.hold pointer pointers, program, scopes⟩ later ∧
      Amounts manager after store store ⟨.hold pointer pointers, program, scopes⟩ later := by
  obtain ⟨entry, entryIn, rfl⟩ := List.mem_map.mp (poised pointer List.mem_cons_self)
  have inRange : (manager.heap entry.2).blockId < manager.device.totalBlocks := by
    rw [coherent.tagged entry entryIn]
    exact coherent.inRange entry entryIn
  have out := Option.some.inj moved
  rw [CacheManager.sync_eq manager entry.2 inRange] at out
  obtain ⟨rfl, rfl⟩ := Prod.mk.inj out
  refine ⟨⟨coherent.sync entryIn, rfl, fun _ => rfl, fun _ entryIn _ => entryIn,
    fun _ _ entryIn => entryIn, ?_⟩, .inl ⟨rfl, ?_⟩⟩
  · exact fun other otherIn => poised other (List.mem_cons_of_mem _ otherIn)
  · have same : ∀ guard ∈ scopes.guards,
        (manager.synced entry.2).idOf guard.1 = manager.idOf guard.1 :=
      fun guard _ => manager.synced_blockId entry.2 guard.1
    rw [← Control.job_congr same]
    exact ⟨.running ⟨.sync pointers, program, scopes⟩, fun _ => rfl⟩

/-- Every step of a thread is none of its job, or the next step of its job. -/
theorem effect_of_next (coherent : manager.Coherent store) (poised : control.Poised manager)
    (held : ∀ guard ∈ control.scopes.guards, guard.1 ∈ manager.handles)
    (moved : cacheThread.next manager control = some (after, later)) :
    ∃ storeAfter, Effect manager after storeAfter control later ∧
      Amounts manager after store storeAfter control later := by
  obtain ⟨phase, program, scopes⟩ := control
  cases phase with
  | start =>
    cases program with
    | pure value => exact effect_of_leave coherent held moved
    | fail error => cases moved
    | reading key body next =>
      obtain ⟨rfl, rfl⟩ := Prod.mk.inj (Option.some.inj moved)
      exact ⟨store, .still coherent rfl trivial, .silent manager store _ _ _ scopes⟩
    | writing key body next =>
      obtain ⟨rfl, rfl⟩ := Prod.mk.inj (Option.some.inj moved)
      exact ⟨store, .still coherent rfl trivial, .silent manager store _ _ _ scopes⟩
    | flush next =>
      obtain ⟨rfl, rfl⟩ := Prod.mk.inj (Option.some.inj moved)
      exact ⟨store, .still coherent rfl fun _ pointerIn => pointerIn,
        .silent manager store _ _ _ scopes⟩
  | search => exact ⟨store, effect_of_search coherent moved⟩
  | claim =>
    obtain ⟨rfl, rfl⟩ := Prod.mk.inj (Option.some.inj moved)
    exact ⟨store, .still coherent rfl trivial, .silent manager store _ _ _ scopes⟩
  | load => exact ⟨store, effect_of_load coherent held moved⟩
  | lock pointer => exact ⟨store, effect_of_lock coherent poised held moved⟩
  | sync pointers =>
    cases pointers with
    | nil =>
      obtain ⟨next, rfl, rfl, rfl⟩ := next_sync_nil moved
      exact ⟨store, .still coherent rfl trivial, .inr ⟨rfl, fun _ asked => nomatch asked⟩⟩
    | cons pointer pointers =>
      obtain ⟨rfl, rfl⟩ := next_sync_cons moved
      exact ⟨store, .still coherent rfl poised, .silent _ store _ _ _ scopes⟩
  | hold pointer pointers => exact ⟨store, effect_of_hold coherent poised moved⟩

end Steps

/-- A thread takes no lock but the one that it asks for. -/
theorem honest_cacheThread : cacheThread.Honest := by
  rintro manager ⟨phase, program, scopes⟩ after later moved held heldIn
  -- what a panic or the end of a scope leaves was held before
  have proceeds : ∀ {α γ : Type} {outer : Scopes α} {next : γ → Control}
      {outcome : Result Panic CacheManager γ} {locks : List (Request CacheLock)},
      Control.proceed outer next outcome = (after, later) →
      (∀ value, (next value).holds ⊆ locks) →
      (outer.guards.map fun guard => (⟨.block guard.1, guard.2⟩ : Request CacheLock)) ⊆ locks →
      held ∈ locks := by
    intro α γ outer next outcome locks out onward panicked
    cases outcome with
    | ok value manager =>
      obtain ⟨-, rfl⟩ := Prod.mk.inj out
      exact onward value heldIn
    | error error manager =>
      obtain ⟨-, rfl⟩ := Prod.mk.inj out
      exact panicked heldIn
  cases phase with
  | start =>
    cases program with
    | pure value =>
      cases scopes with
      | none => cases moved
      | reading pointer next outer =>
        exact .inl (List.mem_cons_of_mem _ (proceeds (Option.some.inj moved)
          (fun _ => List.Subset.refl _) (List.Subset.refl _)))
      | writing pointer next outer =>
        exact .inl (List.mem_cons_of_mem _ (proceeds (Option.some.inj moved)
          (fun _ => List.Subset.refl _) (List.Subset.refl _)))
    | fail error => cases moved
    | reading key body next =>
      obtain ⟨-, rfl⟩ := Prod.mk.inj (Option.some.inj moved)
      rcases List.mem_cons.mp heldIn with rfl | old
      · exact .inr rfl
      · exact .inl old
    | writing key body next =>
      obtain ⟨-, rfl⟩ := Prod.mk.inj (Option.some.inj moved)
      rcases List.mem_cons.mp heldIn with rfl | old
      · exact .inr rfl
      · exact .inl old
    | flush next =>
      obtain ⟨-, rfl⟩ := Prod.mk.inj (Option.some.inj moved)
      rcases List.mem_cons.mp heldIn with rfl | old
      · exact .inr rfl
      · exact .inl old
  | search =>
    obtain ⟨asked, -, out⟩ := Option.map_eq_some_iff.mp moved
    split at out
    · obtain ⟨-, rfl⟩ := Prod.mk.inj out
      exact .inl (List.mem_cons_of_mem _ heldIn)
    · obtain ⟨-, rfl⟩ := Prod.mk.inj out
      exact .inl (List.mem_cons_of_mem _ heldIn)
  | claim =>
    obtain ⟨-, rfl⟩ := Prod.mk.inj (Option.some.inj moved)
    rcases List.mem_cons.mp heldIn with rfl | old
    · exact .inr rfl
    · exact .inl old
  | load =>
    obtain ⟨asked, -, out⟩ := Option.map_eq_some_iff.mp moved
    exact .inl (List.mem_cons_of_mem _ (proceeds out (fun _ => List.Subset.refl _)
      (List.Subset.refl _)))
  | lock pointer =>
    obtain ⟨asked, isAsked, out⟩ := Option.bind_eq_some_iff.mp moved
    split at out
    · cases out
    · cases program with
      | pure value => cases isAsked
      | fail error => cases isAsked
      | flush next => cases isAsked
      | reading key body next =>
        obtain ⟨-, rfl⟩ := Prod.mk.inj (Option.some.inj out)
        rcases List.mem_cons.mp heldIn with rfl | old
        · exact .inr rfl
        · exact .inl old
      | writing key body next =>
        obtain ⟨-, rfl⟩ := Prod.mk.inj (Option.some.inj out)
        rcases List.mem_cons.mp heldIn with rfl | old
        · exact .inr rfl
        · exact .inl old
  | sync pointers =>
    cases pointers with
    | nil =>
      obtain ⟨next, rfl, -, rfl⟩ := next_sync_nil moved
      exact .inl (List.mem_cons_of_mem _ heldIn)
    | cons pointer pointers =>
      obtain ⟨-, rfl⟩ := next_sync_cons moved
      rcases List.mem_cons.mp heldIn with rfl | old
      · exact .inl List.mem_cons_self
      · rcases List.mem_cons.mp old with rfl | older
        · exact .inr rfl
        · exact .inl (List.mem_cons_of_mem _ older)
  | hold pointer pointers =>
    refine .inl (proceeds (Option.some.inj moved) (fun _ lock lockIn => ?_) ?_)
    · rcases List.mem_cons.mp lockIn with rfl | old
      · exact List.mem_cons_self
      · exact List.mem_cons_of_mem _ (List.mem_cons_of_mem _ old)
    · exact fun lock lockIn => List.mem_cons_of_mem _ (List.mem_cons_of_mem _ lockIn)

/-! ## All threads together -/

/-- A thread that moves runs the program of its job. -/
theorem Shadows.job_eq {ids : Nat → Nat} {control : Control} {job : Job Nat Block Panic}
    {manager : CacheManager} {out : CacheManager × Control} (shadows : Shadows ids control job)
    (moved : cacheThread.next manager control = some out) :
    job = ⟨control.program, control.scopes.frames ids⟩ := by
  cases shadows with
  | running => rfl
  | stopped program scopes isCache => cases moved

/-- What a thread in front of the lock of a block asks for. -/
theorem Control.wants_of_lock {control : Control} {pointer : Nat} {asked : Request Nat}
    (isLock : control.phase = .lock pointer) (isAsked : control.program.asks = some asked) :
    control.wants = some ⟨.block pointer, asked.access⟩ := by
  obtain ⟨phase, program, scopes⟩ := control
  obtain rfl : phase = .lock pointer := isLock
  cases program with
  | reading key body next =>
    obtain rfl := Option.some.inj isAsked
    rfl
  | writing key body next =>
    obtain rfl := Option.some.inj isAsked
    rfl
  | pure value => cases isAsked
  | fail error => cases isAsked
  | flush next => cases isAsked

/-- A thread in front of the lock of a block has its handle. -/
theorem Control.mem_handles_of_lock {control : Control} {pointer : Nat}
    (isLock : control.phase = .lock pointer) : pointer ∈ control.handles := by
  obtain ⟨phase, program, scopes⟩ := control
  obtain rfl : phase = .lock pointer := isLock
  exact List.mem_cons_self

/-- A thread that makes an entry has locked the queue for writing. -/
theorem Control.mem_holds_of_load {control : Control} (isLoad : control.phase = .load) :
    ⟨.queue, .write⟩ ∈ control.holds := by
  obtain ⟨phase, program, scopes⟩ := control
  obtain rfl : phase = .load := isLoad
  exact List.mem_cons_self

section Crews

variable {ι : Type} [Fintype ι]

/-- The weight of all threads after one of them has changed. -/
theorem sum_weight_update [DecidableEq ι] {α : Type*} (weight : α → Nat) (old : ι → α) (who : ι)
    (new : α) :
    (∑ each, weight (Function.update old who new each)) + weight (old who) =
      (∑ each, weight (old each)) + weight new := by
  have single : (∑ each, Function.update (weight ∘ old) who (weight new) each) =
      weight new + ∑ each ∈ Finset.univ \ {who}, weight (old each) :=
    Finset.sum_update_of_mem (Finset.mem_univ who) (weight ∘ old) (weight new)
  have whole : (∑ each, weight (old each)) =
      weight (old who) + ∑ each ∈ Finset.univ \ {who}, weight (old each) :=
    Finset.sum_eq_add_sum_sdiff_singleton_of_mem (Finset.mem_univ who) _
  rw [← Function.comp_update] at single
  change (∑ each, weight (Function.update old who new each)) = _ at single
  omega

/-- Threads on the block cache stand for jobs on a plain store. -/
structure Follows (crew : Crew cacheThread ι) (plain : Crew (jobThread Nat Block Panic) ι) :
    Prop where
  /-- The cache stands for the store. -/
  coherent : crew.shared.Coherent plain.shared
  /-- Every handle is one of a thread. -/
  counted : ∀ pointer, crew.shared.handles.count pointer =
    ∑ who, (Control.handles (crew.control who)).count pointer
  /-- No two threads hold conflicting locks. -/
  exclusive : crew.Exclusive
  /-- Every thread is ready for its next step. -/
  poised : ∀ who, Control.Poised crew.shared (crew.control who)
  /-- Every thread stands for its job. -/
  shadows : ∀ who, Shadows crew.shared.idOf (crew.control who) (plain.control who)

/-- The cache has made no thread panic. -/
def Unstopped (crew : Crew cacheThread ι) (plain : Crew (jobThread Nat Block Panic) ι) : Prop :=
  ∀ who, plain.control who = Control.job crew.shared.idOf (crew.control who)

namespace Follows

variable {crew next : Crew cacheThread ι} {plain : Crew (jobThread Nat Block Panic) ι}

/-- The handles of a thread are handles of the cache. -/
theorem held (follows : Follows crew plain) {who : ι} {pointer : Nat}
    (isHeld : pointer ∈ Control.handles (crew.control who)) : pointer ∈ crew.shared.handles := by
  have one := Finset.single_le_sum
    (fun each _ => Nat.zero_le ((Control.handles (crew.control each)).count pointer))
    (Finset.mem_univ who)
  have positive := List.count_pos_iff.mpr isHeld
  rw [← follows.counted] at one
  exact List.count_pos_iff.mp (Nat.lt_of_lt_of_le positive one)

/-- The guards of a thread are on handles of the cache. -/
theorem guarded (follows : Follows crew plain) {who : ι} :
    ∀ guard ∈ Scopes.guards (Control.scopes (crew.control who)),
      guard.1 ∈ crew.shared.handles := fun _ guardIn =>
  follows.held (List.mem_append_right _ (List.mem_map_of_mem guardIn))

/-- A job gets the lock of its block when its thread gets the lock of the object. -/
theorem granted (follows : Follows crew plain) {who : ι} (isGranted : crew.Granted who)
    (isJob : plain.control who = ⟨Control.program (crew.control who),
      Scopes.frames crew.shared.idOf (Control.scopes (crew.control who))⟩)
    (locks : ∀ asked, (Control.program (crew.control who)).asks = some asked → ∃ pointer,
      Control.phase (crew.control who) = .lock pointer ∧
        crew.shared.idOf pointer = asked.lock) :
    plain.Granted who := by
  rintro other different ⟨asked, isAsked, lock, lockIn, sameLock, alone⟩
  rw [isJob] at isAsked
  obtain ⟨pointer, isLock, isBlock⟩ := locks asked isAsked
  change lock ∈ Frames.locks (Job.frames (plain.control other)) at lockIn
  rw [(follows.shadows other).locks_eq] at lockIn
  obtain ⟨guard, guardIn, rfl⟩ := List.mem_map.mp lockIn
  have mine : pointer ∈ crew.shared.handles := by
    apply follows.held
    exact Control.mem_handles_of_lock isLock
  -- a block is in the queue once, so both have the same object
  have same : pointer = guard.1 := congrArg Prod.snd (follows.coherent.entry_of_id
    (follows.coherent.entry_of_handle mine)
    (follows.coherent.entry_of_handle (follows.guarded guard guardIn)) (isBlock.trans sameLock))
  apply isGranted other different
  refine ⟨_, Control.wants_of_lock isLock isAsked, ⟨.block guard.1, guard.2⟩, ?_, ?_, alone⟩
  · exact List.mem_append_right _ (List.mem_map_of_mem guardIn)
  · exact congrArg CacheLock.block same

/-- The handles that the cache has given out are those of the threads. -/
theorem length_handles (follows : Follows crew plain) : crew.shared.handles.length =
    ∑ who, (Control.handles (crew.control who)).length := by
  have whole : (crew.shared.handles : Multiset Nat) =
      ∑ who, (Control.handles (crew.control who) : Multiset Nat) := by
    ext pointer
    rw [Multiset.coe_count, follows.counted, Multiset.count_sum']
    exact Finset.sum_congr rfl fun who _ => (Multiset.coe_count ..).symm
  have sizes := congrArg Multiset.card whole
  rw [Multiset.card_sum] at sizes
  exact sizes

/-- Threads that are in few scopes find room for their blocks. -/
theorem served (follows : Follows crew plain) (unstopped : Unstopped crew plain) {limit : Nat}
    (within : ∀ who, Job.Within (· < crew.shared.device.totalBlocks) limit (plain.control who))
    (few : Fintype.card ι * limit ≤ cacheSize) (who : ι) :
    Control.Served crew.shared (crew.control who) := by
  intro isLoad asked isAsked
  simp only [unstopped _] at within
  have room : (∑ each, (Control.handles (crew.control each)).length) < ∑ _each : ι, limit :=
    Finset.sum_lt_sum
      (fun each _ => Control.length_handles_le (follows.poised each) (within each))
      ⟨who, Finset.mem_univ who, Control.length_handles_lt isLoad isAsked (within who)⟩
  rw [← follows.length_handles, Finset.sum_const, Finset.card_univ, smul_eq_mul] at room
  apply follows.coherent.get_total
  · exact ((within who).of_asks (Control.asks_eq isAsked)).1
  · omega

/-- The whole queue stays while another thread has locked it. -/
theorem whole (follows : Follows crew plain) {who other : ι} {after : CacheManager}
    {storeAfter : Nat → Block} {control : Control}
    (effect : Effect crew.shared after storeAfter (crew.control who) control)
    (different : other ≠ who) (reads : (⟨.queue, .read⟩ : Request CacheLock) ∈
      Control.phaseHolds (Control.phase (crew.control other))) :
    ∀ entry ∈ crew.shared.queue, entry ∈ after.queue := by
  apply effect.whole
  intro isLoad
  apply follows.exclusive who other different.symm ⟨.queue, .write⟩ _ ⟨.queue, .read⟩ _
  · exact ⟨rfl, .inl rfl⟩
  · exact Control.mem_holds_of_load isLoad
  · exact List.mem_append_left _ reads

variable [DecidableEq ι]

/-- Every step of a thread is none of the jobs, or one. The cache makes no thread panic that finds
room for its block. -/
theorem step (follows : Follows crew plain) (stepped : crew.Step next) :
    ∃ later, ReflTransGen Crew.Step plain later ∧ Follows next later ∧
      ((∀ who, Control.Served crew.shared (crew.control who)) → Unstopped crew plain →
        Unstopped next later) ∧
      next.shared.device.totalBlocks = crew.shared.device.totalBlocks := by
  obtain ⟨who, isGranted, moved⟩ := stepped
  rename_i after control
  obtain ⟨storeAfter, effect, amounts⟩ := effect_of_next follows.coherent (follows.poised who)
    follows.guarded moved
  have isJob := (follows.shadows who).job_eq moved
  have exclusive := follows.exclusive.update honest_cacheThread isGranted moved
  have counted : ∀ pointer, after.handles.count pointer = ∑ each,
      (Control.handles (Function.update crew.control who control each)).count pointer := by
    intro pointer
    have change : (∑ each, (Control.handles (Function.update crew.control who control each)).count
          pointer) + (Control.handles (crew.control who)).count pointer =
        (∑ each, (Control.handles (crew.control each)).count pointer) +
          (Control.handles control).count pointer :=
      sum_weight_update (fun each : Control => each.handles.count pointer) crew.control who control
    have before := follows.counted pointer
    have counts := effect.counts pointer
    omega
  have poised : ∀ each, Control.Poised after (Function.update crew.control who control each) := by
    rw [Function.forall_update_iff crew.control fun _ each => Control.Poised after each]
    refine ⟨effect.poised, fun other different => ?_⟩
    apply (follows.poised other).mono _ (follows.whole effect different)
    exact fun entry entryIn isHeld => effect.kept entry entryIn (follows.held isHeld)
  have ids : ∀ other, ∀ guard ∈ Scopes.guards (Control.scopes (crew.control other)),
      after.idOf guard.1 = crew.shared.idOf guard.1 := fun other guard guardIn =>
    follows.coherent.idOf_eq effect.coherent effect.kept (follows.guarded guard guardIn)
  have others : ∀ other, other ≠ who →
      Shadows after.idOf (crew.control other) (plain.control other) :=
    fun other _ => (follows.shadows other).congr (ids other)
  have unstopped : Unstopped crew plain → ∀ other, other ≠ who →
      plain.control other = Control.job after.idOf (crew.control other) :=
    fun unstopped other _ => (unstopped other).trans (Control.job_congr (ids other)).symm
  rcases amounts with ⟨rfl, same, served⟩ | ⟨advances, locks⟩
  · refine ⟨plain, .refl, ⟨effect.coherent, counted, exclusive, poised, ?_⟩, ?_, effect.total⟩
    · rw [Function.forall_update_iff crew.control
        fun each other => Shadows after.idOf other (plain.control each)]
      exact ⟨isJob ▸ same, others⟩
    · intro allServed allRun
      apply (Function.forall_update_iff crew.control fun each other =>
        plain.control each = Control.job after.idOf other).mpr
      exact ⟨isJob.trans (served (allServed who)), unstopped allRun⟩
  · have moves : plain.Step ⟨storeAfter, Function.update plain.control who
        (Control.job after.idOf control)⟩ := by
      apply Crew.Step.move who (follows.granted isGranted isJob locks)
      rw [isJob]
      exact advances
    exact ⟨_, .single moves, ⟨effect.coherent, counted, exclusive, poised,
      related_update (.running control) others⟩,
      fun _ allRun => @related_update _ _ _ _
        (fun other job => job = Control.job after.idOf other) _ _ _ _ _ rfl (unstopped allRun),
      effect.total⟩

/-- Every run of the threads is one of the jobs. -/
theorem run (follows : Follows crew plain) (run : ReflTransGen Crew.Step crew next) :
    ∃ later, ReflTransGen Crew.Step plain later ∧ Follows next later := by
  induction run with
  | refl => exact ⟨plain, .refl, follows⟩
  | tail _ stepped ih =>
    obtain ⟨middle, runs, followsMiddle⟩ := ih
    obtain ⟨later, steps, followsLater, -⟩ := followsMiddle.step stepped
    exact ⟨later, runs.trans steps, followsLater⟩

/-- The cache never stops threads that are in few scopes. -/
theorem run_unstopped (follows : Follows crew plain) (unstopped : Unstopped crew plain)
    {limit : Nat}
    (within : ∀ who, Job.Within (· < crew.shared.device.totalBlocks) limit (plain.control who))
    (few : Fintype.card ι * limit ≤ cacheSize) (run : ReflTransGen Crew.Step crew next) :
    ∃ later, ReflTransGen Crew.Step plain later ∧ Follows next later ∧ Unstopped next later ∧
      next.shared.device.totalBlocks = crew.shared.device.totalBlocks := by
  induction run with
  | refl => exact ⟨plain, .refl, follows, unstopped, rfl⟩
  | tail _ stepped ih =>
    obtain ⟨middle, runs, followsMiddle, unstoppedMiddle, total⟩ := ih
    obtain ⟨later, steps, followsLater, unstoppedLater, totalLater⟩ := followsMiddle.step stepped
    refine ⟨later, runs.trans steps, followsLater, ?_, totalLater.trans total⟩
    apply unstoppedLater _ unstoppedMiddle
    apply followsMiddle.served unstoppedMiddle _ few
    rw [total]
    exact Crew.within_run within runs

end Follows

/-- Threads that start these programs on a block cache. -/
def launch (manager : CacheManager) {Value : ι → Type} (program : (who : ι) → Prog (Value who)) :
    Crew cacheThread ι :=
  ⟨manager, fun who => (⟨.start, program who, .none⟩ : Control)⟩

/-- Jobs that start these programs on a plain store. -/
def launchJobs (store : Nat → Block) {Value : ι → Type} (program : (who : ι) → Prog (Value who)) :
    Crew (jobThread Nat Block Panic) ι :=
  ⟨store, fun who => (⟨program who, .none⟩ : Job Nat Block Panic)⟩

/-- Threads that start stand for jobs that start. -/
theorem follows_launch {manager : CacheManager} {store : Nat → Block}
    (coherent : manager.Coherent store) (idle : manager.handles = []) {Value : ι → Type}
    (program : (who : ι) → Prog (Value who)) :
    Follows (launch manager program) (launchJobs store program) where
  coherent := coherent
  counted := by
    intro pointer
    have none : ∀ who, (Control.handles ((launch manager program).control who)).count pointer = 0 :=
      fun _ => rfl
    simp only [none, Finset.sum_const_zero]
    exact idle ▸ rfl
  exclusive := .of_idle fun _ => rfl
  poised := fun _ => trivial
  shadows := fun who => .running (⟨.start, program who, .none⟩ : Control)

omit [Fintype ι] in
/-- A thread whose call cannot fail comes to its end while the others hold nothing. -/
theorem run_of_wp [DecidableEq ι] {crew : Crew cacheThread ι} {who : ι} {α : Type}
    {program : Prog α} {post : α → (Nat → Block) → Prop} {store : Nat → Block}
    (isStart : crew.control who = (⟨.start, program, .none⟩ : Control))
    (idle : ∀ other, other ≠ who → Control.holds (crew.control other) = [])
    (coherent : crew.shared.Coherent store) (free : crew.shared.handles = [])
    (holds : program.wp (Prog.deviceRules crew.shared.device.totalBlocks) [] post
      (fun _ _ => False) store) :
    ∃ later value after, ReflTransGen Crew.Step crew later ∧
      later.control who = (⟨.start, .pure value, .none⟩ : Control) ∧
      (∀ other, other ≠ who → later.control other = crew.control other) ∧
      later.shared.Coherent after ∧ later.shared.handles = [] ∧
      later.shared.device.totalBlocks = crew.shared.device.totalBlocks ∧ post value after := by
  obtain ⟨value, final, after, ran, holding, total, reached⟩ :=
    Prog.returns_of_wp (Memory.Holding.idle coherent free) holds
  obtain ⟨moves, guards⟩ := @run_of_exec _ α _ program .pure .none final value rfl ran
  rw [Scoped.bind_pure] at moves
  have alone : ReflTransGen (fun before after => cacheThread.next before.1 before.2 = some after)
      (crew.shared, crew.control who)
      (final.manager, (⟨.start, .pure value, .none⟩ : Control)) := by
    rw [isStart]
    exact moves
  obtain ⟨later, runs, shared, isDone, others⟩ := Crew.run_of_alone idle alone
  have free : final.manager.handles = [] := by
    rw [holding.handles, guards]
    rfl
  refine ⟨later, value, after, runs, isDone, others, ?_⟩
  rw [shared]
  exact ⟨holding.coherent, free, total, reached⟩

/-- Any number of threads run any programs on a block cache that nobody uses, lock by lock and in
any order. At every point the cache stands for a store that jobs with the same programs reach on a
plain store with one lock for each block; every thread is where its job is, unless the cache has
made it panic; and no two of them are in scopes on one block if one of the two may write it. -/
theorem cache_refines_locked_store [DecidableEq ι] {manager : CacheManager} {store : Nat → Block}
    (coherent : manager.Coherent store) (idle : manager.handles = []) {Value : ι → Type}
    (program : (who : ι) → Prog (Value who)) {crew : Crew cacheThread ι}
    (run : ReflTransGen Crew.Step (launch manager program) crew) :
    ∃ plain, ReflTransGen Crew.Step (launchJobs store program) plain ∧
      crew.shared.Coherent plain.shared ∧
      (∀ who, Shadows crew.shared.idOf (crew.control who) (plain.control who)) ∧
      plain.Exclusive := by
  obtain ⟨plain, runs, follows⟩ := (follows_launch coherent idle program).run run
  have exclusive : (launchJobs store program).Exclusive := .of_idle fun _ => rfl
  exact ⟨plain, runs, follows.coherent, follows.shadows, exclusive.run honest_jobThread runs⟩

/-- Two threads that read the first block of a fresh cache. -/
def testReaders : Crew cacheThread Bool :=
  launch (.new (Disk.new 4)) fun _ => Scoped.read 0 .pure

/-- One of the readers runs to its end while the other waits. -/
theorem exists_run_testReaders : ∃ crew, ReflTransGen Crew.Step testReaders crew ∧
    crew.control true = (⟨.start, .pure Block.zero, .none⟩ : Control) := by
  have holds : (Scoped.read 0 .pure : Prog Block).wp (Prog.deviceRules 4) []
      (fun value _ => value = Block.zero) (fun _ _ => False) fun _ => Block.zero :=
    Scoped.wp_read.mpr ⟨⟨Nat.succ_pos 3, by decide, by decide⟩, rfl⟩
  obtain ⟨later, value, after, run, isDone, -, -, -, -, rfl⟩ := @run_of_wp Bool _ testReaders true
    _ _ _ _ rfl (fun _ _ => rfl) (CacheManager.Coherent.new (Disk.new 4)) rfl holds
  exact ⟨later, run, isDone⟩

/-- The job of a reader that is done has read the same block. -/
theorem cache_refines_locked_store_readers : ∃ plain,
    ReflTransGen Crew.Step (launchJobs (fun _ => Block.zero) fun _ : Bool => Scoped.read 0 .pure)
      plain ∧
    plain.control true = (⟨.pure Block.zero, .none⟩ : Job Nat Block Panic) := by
  obtain ⟨crew, run, isDone⟩ := exists_run_testReaders
  obtain ⟨plain, runs, -, shadows, -⟩ :=
    cache_refines_locked_store (CacheManager.Coherent.new (Disk.new 4)) rfl _ run
  exact ⟨plain, runs, (shadows true).job_of_done isDone⟩

/-- When the threads are never in more scopes together than the cache has entries, and ask for
blocks of the device only, the cache makes none of them panic: at every point each thread is exactly
where its job is. -/
theorem cache_serves_threads [DecidableEq ι] {manager : CacheManager} {store : Nat → Block}
    (coherent : manager.Coherent store) (idle : manager.handles = []) {Value : ι → Type}
    {program : (who : ι) → Prog (Value who)} {limit : Nat}
    (within : ∀ who, (program who).Within (· < manager.device.totalBlocks) limit fun _ => True)
    (few : Fintype.card ι * limit ≤ cacheSize) {crew : Crew cacheThread ι}
    (run : ReflTransGen Crew.Step (launch manager program) crew) :
    ∃ plain, ReflTransGen Crew.Step (launchJobs store program) plain ∧
      crew.shared.Coherent plain.shared ∧
      ∀ who, plain.control who = Control.job crew.shared.idOf (crew.control who) := by
  obtain ⟨plain, runs, follows, unstopped, -⟩ :=
    (follows_launch coherent idle program).run_unstopped (fun _ => rfl)
      (fun who => ⟨Nat.zero_le _, within who⟩) few run
  exact ⟨plain, runs, follows.coherent, unstopped⟩

/-- Two readers need two entries at most. -/
theorem cache_serves_threads_readers : ∃ (crew : Crew cacheThread Bool)
    (plain : Crew (jobThread Nat Block Panic) Bool), ReflTransGen Crew.Step testReaders crew ∧
    crew.control true = (⟨.start, .pure Block.zero, .none⟩ : Control) ∧
    ∀ who, plain.control who = Control.job crew.shared.idOf (crew.control who) := by
  obtain ⟨crew, run, isDone⟩ := exists_run_testReaders
  have within : (Scoped.read 0 .pure : Prog Block).Within (· < 4) 1 fun _ => True :=
    ⟨by decide, by decide, fun _ => trivial⟩
  obtain ⟨plain, -, -, unstopped⟩ := cache_serves_threads
    (CacheManager.Coherent.new (Disk.new 4)) rfl (fun _ => within) (by decide) run
  exact ⟨crew, plain, run, isDone, unstopped⟩

end Crews

end Canyon.Fs
