import Canyon.Fs.Concurrent
import Canyon.Fs.Session

/-!
# What is on the device when the power fails

The block cache writes a block back when it evicts it and when it is flushed, at points that the
threads do not see. Whenever the machine stops, every block on the device is one that the threads
have had, though not all at the same time; and after a flush, none is older than the beginning of
the flush. The write of one block to the device is taken as one step.
-/

namespace Canyon.Fs

open Canyon.Lib
open EStateM (Result)
open Relation (ReflTransGen)

/-! ## What a step writes -/

section Steps

variable {manager after : CacheManager} {store : Nat → Block} {control later : Control}

/-- The cache that a call leaves, whether it returns or panics. -/
def CacheManager.left {α : Type} : Result Panic CacheManager α → CacheManager
  | .ok _ final => final
  | .error _ final => final

/-- Each block of the device is left alone or gets the contents it should have. -/
def Writes (manager after : CacheManager) (store : Nat → Block) : Prop :=
  ∀ blockId, after.device.data blockId = manager.device.data blockId ∨
    after.device.data blockId = store blockId

/-- The device is left alone. -/
theorem Writes.of_device (same : after.device = manager.device) : Writes manager after store :=
  fun blockId => .inl (congrArg (fun device : Disk => device.data blockId) same)

/-- A block is written back with its contents. -/
theorem CacheManager.Coherent.writes_synced (coherent : manager.Coherent store)
    {entry : Nat × Nat} (entryIn : entry ∈ manager.queue) (queue : List (Nat × Nat)) :
    Writes manager ({ manager with queue := queue }.synced entry.2) store := by
  intro blockId
  rw [synced_data]
  split
  · rename_i written
    obtain ⟨-, rfl⟩ := written
    rw [coherent.tagged entry entryIn]
    exact .inr (coherent.cached entry entryIn)
  · exact .inl rfl

/-- An eviction writes back the block that it evicts. -/
theorem CacheManager.Coherent.writes_substitute (coherent : manager.Coherent store) :
    Writes manager (CacheManager.left manager.substitute) store := by
  unfold CacheManager.substitute
  split
  · cases found : findEvictable manager.pointers manager.handles with
    | none => exact .of_device rfl
    | some index =>
      obtain ⟨entry, entryAt, -, pointerAt, dropEq⟩ := coherent.dropped_evicted found
      simp only [pointerAt, dropEq]
      exact coherent.writes_synced (List.mem_of_getElem? entryAt) _
  · exact .of_device rfl

/-- `get` writes back what it evicts. -/
theorem CacheManager.Coherent.writes_get (coherent : manager.Coherent store) (blockId : Nat) :
    Writes manager (CacheManager.left (manager.get blockId)) store := by
  have evicted := coherent.writes_substitute
  unfold CacheManager.get
  split
  · exact .of_device rfl
  · cases ran : manager.substitute with
    | error error middle =>
      rw [ran] at evicted
      exact evicted
    | ok value middle =>
      rw [ran] at evicted
      dsimp only [CacheManager.load]
      split
      · exact evicted
      · exact evicted

/-- The end of a scope leaves the device alone. -/
theorem writes_leave {Value : Type} {value : Value} {scopes : Scopes Value}
    (coherent : manager.Coherent store)
    (held : ∀ guard ∈ scopes.guards, guard.1 ∈ manager.handles)
    (moved : Control.leave scopes value manager = some (after, later)) :
    after.device = manager.device := by
  cases scopes with
  | none => cases moved
  | reading pointer next outer =>
    have isHeld : pointer ∈ manager.handles := held (pointer, .read) List.mem_cons_self
    have out := Option.some.inj moved
    rw [coherent.release_eq isHeld] at out
    exact (congrArg (fun pair => pair.1.device) out).symm
  | writing pointer next outer =>
    have isHeld : pointer ∈ manager.handles := held (pointer, .write) List.mem_cons_self
    obtain ⟨coherentStored, handles, -, device, -⟩ := coherent.stored isHeld value.2
    have out := Option.some.inj moved
    rw [coherentStored.release_eq (handles ▸ isHeld)] at out
    exact (congrArg (fun pair => pair.1.device) out).symm.trans device

/-- Whatever a thread does, a block of the device is left alone or gets its contents. -/
theorem writes_of_next (coherent : manager.Coherent store) (poised : control.Poised manager)
    (held : ∀ guard ∈ control.scopes.guards, guard.1 ∈ manager.handles)
    (moved : cacheThread.next manager control = some (after, later)) :
    Writes manager after store := by
  obtain ⟨phase, program, scopes⟩ := control
  have still : ∀ {next : Control}, some (manager, next) = some (after, later) →
      Writes manager after store := by
    intro next out
    apply Writes.of_device
    exact (congrArg (fun pair => pair.1.device) (Option.some.inj out)).symm
  cases phase with
  | start =>
    cases program with
    | pure value => exact .of_device (writes_leave coherent held moved)
    | fail error => cases moved
    | reading key body next => exact still moved
    | writing key body next => exact still moved
    | flush next => exact still moved
  | search =>
    obtain ⟨asked, -, out⟩ := Option.map_eq_some_iff.mp moved
    apply Writes.of_device
    split at out
    · exact (congrArg (fun pair => pair.1.device) out).symm
    · exact (congrArg (fun pair => pair.1.device) out).symm
  | claim => exact still moved
  | load =>
    obtain ⟨asked, -, out⟩ := Option.map_eq_some_iff.mp moved
    have written := coherent.writes_get asked.1
    cases got : manager.get asked.1 with
    | ok pointer final =>
      rw [got] at out written
      exact (Prod.mk.inj out).1 ▸ written
    | error error final =>
      rw [got] at out written
      exact (Prod.mk.inj out).1 ▸ written
  | lock pointer =>
    obtain ⟨asked, -, out⟩ := Option.bind_eq_some_iff.mp moved
    split at out
    · cases out
    · obtain ⟨entered, -, isEntered⟩ := Option.map_eq_some_iff.mp out
      exact still (congrArg some isEntered)
  | sync pointers =>
    cases pointers with
    | nil =>
      obtain ⟨next, rfl, -, -⟩ := next_sync_nil moved
      exact still moved
    | cons pointer pointers =>
      obtain ⟨rfl, rfl⟩ := next_sync_cons moved
      exact still rfl
  | hold pointer pointers =>
    obtain ⟨entry, entryIn, rfl⟩ := List.mem_map.mp (poised pointer List.mem_cons_self)
    have out := Option.some.inj moved
    have inRange : (manager.heap entry.2).blockId < manager.device.totalBlocks := by
      rw [coherent.tagged entry entryIn]
      exact coherent.inRange entry entryIn
    rw [CacheManager.sync_eq manager entry.2 inRange] at out
    exact (Prod.mk.inj out).1 ▸ coherent.writes_synced entryIn manager.queue

end Steps

/-! ## Whole runs -/

section Runs

variable {ι : Type} {visited : List (Crew cacheThread ι)} {crew next : Crew cacheThread ι}
  {manager after : CacheManager} {store : Nat → Block} {blockId : Nat}

/-- The block on the device is what some state of the run had. -/
def RecentAt (visited : List (Crew cacheThread ι)) (manager : CacheManager) (blockId : Nat) :
    Prop :=
  ∃ seen ∈ visited, manager.device.data blockId = seen.shared.view blockId

/-- A block with its contents on the device is as recent as it can be. -/
theorem RecentAt.of_eq (coherent : crew.shared.Coherent store) (isIn : crew ∈ visited)
    (same : after.device.data blockId = store blockId) : RecentAt visited after blockId := by
  refine ⟨crew, isIn, ?_⟩
  rw [coherent.view_eq]
  exact same

/-- A block stays recent. -/
theorem RecentAt.step (recent : RecentAt visited crew.shared blockId)
    (coherent : crew.shared.Coherent store) (isIn : crew ∈ visited)
    (writes : Writes crew.shared after store) : RecentAt (next :: visited) after blockId := by
  rcases writes blockId with same | written
  · obtain ⟨seen, seenIn, isSeen⟩ := recent
    exact ⟨seen, List.mem_cons_of_mem _ seenIn, same.trans isSeen⟩
  · exact .of_eq coherent (List.mem_cons_of_mem _ isIn) written

/-- The objects that a flush has still to write back. -/
def Phase.unwritten : Phase → Option (List Nat)
  | .sync pointers => some pointers
  | .hold pointer pointers => some (pointer :: pointers)
  | _ => none

/-- How far a thread has come with a flush since the first of these states. -/
inductive FlushProgress (who : ι) {Value : Type} (rest : Prog Value) (scopes : Scopes Value)
    (visited : List (Crew cacheThread ι)) (crew : Crew cacheThread ι) : Prop where
  /-- It has not begun. -/
  | waiting (isStart : crew.control who = (⟨.start, .flush rest, scopes⟩ : Control))
      (notYet : ∀ seen ∈ visited, seen.control who ≠ (⟨.start, rest, scopes⟩ : Control))
  /-- What is not in the rest of the queue has been written back. -/
  | syncing {phase : Phase} {pointers : List Nat} (unwritten : phase.unwritten = some pointers)
      (isSync : crew.control who = (⟨phase, .flush rest, scopes⟩ : Control))
      (notYet : ∀ seen ∈ visited, seen.control who ≠ (⟨.start, rest, scopes⟩ : Control))
      (recent : ∀ blockId, RecentAt visited crew.shared blockId ∨
        ∃ pointer ∈ pointers, (blockId, pointer) ∈ crew.shared.queue)
  /-- All blocks have been written back. -/
  | done (recent : ∀ blockId, RecentAt visited crew.shared blockId)

/-- A thread that flushes is not past the flush. -/
theorem flush_ne {Value : Type} {phase : Phase} {rest : Prog Value} {scopes : Scopes Value} :
    (⟨phase, .flush rest, scopes⟩ : Control) ≠ ⟨.start, rest, scopes⟩ := by
  intro same
  have isRest := eq_of_heq (Control.mk.inj same).2.2.1
  cases isRest

variable {who : ι} {Value : Type} {rest : Prog Value} {scopes : Scopes Value}

/-- A thread that flushes has not been past the flush. -/
theorem notYet_cons {phase : Phase}
    (isNow : next.control who = (⟨phase, .flush rest, scopes⟩ : Control))
    (notYet : ∀ seen ∈ visited, seen.control who ≠ (⟨.start, rest, scopes⟩ : Control)) :
    ∀ seen ∈ next :: visited, seen.control who ≠ (⟨.start, rest, scopes⟩ : Control) := by
  intro seen seenIn past
  rcases List.mem_cons.mp seenIn with rfl | old
  · exact flush_ne (isNow.symm.trans past)
  · exact notYet seen old past

/-- A thread that writes blocks back has locked the queue for reading. -/
theorem Phase.reads_of_unwritten {phase : Phase} {pointers : List Nat}
    (unwritten : phase.unwritten = some pointers) :
    (⟨.queue, .read⟩ : Request CacheLock) ∈ Control.phaseHolds phase := by
  cases phase with
  | sync listed => exact List.mem_cons_self
  | hold pointer listed => exact List.mem_cons_self
  | _ => cases unwritten

/-- The thread itself takes its next step of a flush. -/
theorem FlushProgress.advance {phase : Phase} {pointers : List Nat} {later : Control}
    (coherent : crew.shared.Coherent store) (isIn : crew ∈ visited)
    (poised : Control.Poised crew.shared ⟨phase, .flush rest, scopes⟩)
    (unwritten : phase.unwritten = some pointers)
    (notYet : ∀ seen ∈ visited, seen.control who ≠ (⟨.start, rest, scopes⟩ : Control))
    (recent : ∀ blockId, RecentAt visited crew.shared blockId ∨
      ∃ pointer ∈ pointers, (blockId, pointer) ∈ crew.shared.queue)
    (isNext : next.control who = later) (writes : Writes crew.shared next.shared store)
    (moved : cacheThread.next crew.shared (⟨phase, .flush rest, scopes⟩ : Control) =
      some (next.shared, later)) :
    FlushProgress who rest scopes (next :: visited) next := by
  have kept : ∀ {blockId : Nat}, RecentAt visited crew.shared blockId →
      RecentAt (next :: visited) next.shared blockId := fun recent =>
    recent.step coherent isIn writes
  cases phase with
  | sync listed =>
    obtain rfl := Option.some.inj unwritten
    cases listed with
    | nil =>
      apply FlushProgress.done
      intro blockId
      rcases recent blockId with isRecent | ⟨pointer, pointerIn, -⟩
      · exact kept isRecent
      · cases pointerIn
    | cons pointer pointers =>
      obtain ⟨isShared, isLater⟩ := next_sync_cons moved
      have isNow := isNext.trans isLater
      refine .syncing rfl isNow (notYet_cons isNow notYet) ?_
      intro blockId
      rw [isShared] at kept ⊢
      exact (recent blockId).imp_left kept
  | hold pointer listed =>
    obtain rfl := Option.some.inj unwritten
    obtain ⟨entry, entryIn, rfl⟩ := List.mem_map.mp (poised pointer List.mem_cons_self)
    have inRange : (crew.shared.heap entry.2).blockId < crew.shared.device.totalBlocks := by
      rw [coherent.tagged entry entryIn]
      exact coherent.inRange entry entryIn
    have out := Option.some.inj moved
    rw [CacheManager.sync_eq crew.shared entry.2 inRange] at out
    obtain ⟨isShared, isLater⟩ := Prod.mk.inj out
    have isNow := isNext.trans isLater.symm
    refine .syncing rfl isNow (notYet_cons isNow notYet) ?_
    intro blockId
    rcases recent blockId with isRecent | ⟨other, otherIn, queued⟩
    · exact .inl (kept isRecent)
    · rcases List.mem_cons.mp otherIn with rfl | unwritten
      · left
        have isBlock : blockId = entry.1 :=
          congrArg Prod.fst (coherent.entry_of_pointer queued entryIn rfl)
        rw [← isShared, isBlock]
        exact .of_eq coherent (List.mem_cons_of_mem _ isIn) (coherent.synced_backed entryIn)
      · refine .inr ⟨other, unwritten, ?_⟩
        rw [← isShared]
        exact queued
  | _ => cases unwritten

variable [Fintype ι] [DecidableEq ι] {plain : Crew (jobThread Nat Block Panic) ι}

/-- A block of the device stays one that the threads have had. -/
theorem Follows.recent_run {first : Crew cacheThread ι} (follows : Follows first plain)
    (clean : ∀ blockId, first.shared.device.data blockId = first.shared.view blockId)
    (visits : Visits Crew.Step first visited crew) :
    (∀ blockId, RecentAt visited crew.shared blockId) ∧ ∃ later, Follows crew later := by
  induction visits with
  | start => exact ⟨fun blockId => ⟨first, List.mem_cons_self, clean blockId⟩, plain, follows⟩
  | move visits stepped ih =>
    obtain ⟨recent, middle, followsMiddle⟩ := ih
    obtain ⟨last, -, followsLast, -⟩ := followsMiddle.step stepped
    refine ⟨fun blockId => ?_, last, followsLast⟩
    obtain ⟨mover, -, moved⟩ := stepped
    apply (recent blockId).step followsMiddle.coherent visits.last_mem
    exact writes_of_next followsMiddle.coherent (followsMiddle.poised mover)
      followsMiddle.guarded moved

/-- Every step takes the flush on, or leaves it where it is. -/
theorem FlushProgress.step (flushing : FlushProgress who rest scopes visited crew)
    (follows : Follows crew plain) (isIn : crew ∈ visited) (stepped : crew.Step next) :
    FlushProgress who rest scopes (next :: visited) next := by
  obtain ⟨mover, isGranted, moved⟩ := stepped
  rename_i after control
  have writes := writes_of_next follows.coherent (follows.poised mover) follows.guarded moved
  obtain ⟨storeAfter, effect, -⟩ := effect_of_next follows.coherent (follows.poised mover)
    follows.guarded moved
  have kept : ∀ {blockId : Nat}, RecentAt visited crew.shared blockId →
      RecentAt ((⟨after, Function.update crew.control mover control⟩ : Crew cacheThread ι) ::
        visited) after blockId := fun recent =>
    recent.step follows.coherent isIn writes
  -- a thread that another one overtakes stays where it is
  have stays : ∀ {seen : Control}, mover ≠ who → crew.control who = seen →
      Function.update crew.control mover control who = seen :=
    fun different isSeen => (Function.update_of_ne (Ne.symm different) ..).trans isSeen
  cases flushing with
  | done recent => exact .done fun blockId => kept (recent blockId)
  | waiting isStart notYet =>
    by_cases isMover : mover = who
    · subst isMover
      rw [isStart] at moved
      obtain ⟨rfl, isControl⟩ := Prod.mk.inj (Option.some.inj moved)
      have isNow : Function.update crew.control mover control mover =
          (⟨.sync crew.shared.pointers, .flush rest, scopes⟩ : Control) :=
        (Function.update_self ..).trans isControl.symm
      apply FlushProgress.syncing rfl isNow (notYet_cons isNow notYet)
      intro blockId
      by_cases queued : blockId ∈ crew.shared.queue.map Prod.fst
      · obtain ⟨entry, entryIn, rfl⟩ := List.mem_map.mp queued
        exact .inr ⟨entry.2, List.mem_map_of_mem entryIn, entryIn⟩
      · exact .inl (.of_eq follows.coherent (List.mem_cons_of_mem _ isIn)
          (follows.coherent.backed blockId queued))
    · have isNow := stays isMover isStart
      exact .waiting isNow (notYet_cons isNow notYet)
  | syncing unwritten isSync notYet recent =>
    by_cases isMover : mover = who
    · subst isMover
      have poised := follows.poised mover
      rw [isSync] at poised moved
      exact .advance follows.coherent isIn poised unwritten notYet recent
        (Function.update_self ..) writes moved
    · have isNow := stays isMover isSync
      have reads := Phase.reads_of_unwritten unwritten
      apply FlushProgress.syncing unwritten isNow (notYet_cons isNow notYet)
      intro blockId
      refine (recent blockId).imp kept ?_
      rintro ⟨pointer, pointerIn, queued⟩
      exact ⟨pointer, pointerIn, follows.whole effect (Ne.symm isMover) (isSync ▸ reads) _ queued⟩

/-- The flush along a whole run. -/
theorem FlushProgress.run {first : Crew cacheThread ι} (follows : Follows first plain)
    (flushing : FlushProgress who rest scopes [first] first)
    (visits : Visits Crew.Step first visited crew) :
    FlushProgress who rest scopes visited crew ∧ ∃ later, Follows crew later := by
  induction visits with
  | start => exact ⟨flushing, plain, follows⟩
  | move visits stepped ih =>
    obtain ⟨middle, later, followsMiddle⟩ := ih
    obtain ⟨last, -, followsLast, -⟩ := followsMiddle.step stepped
    exact ⟨middle.step followsMiddle visits.last_mem stepped, last, followsLast⟩

/-- Threads run any programs on a block cache that nobody uses, lock by lock and in any order,
and the machine stops. If every block had its contents on the device at some point, or if a flush
began there that has returned, then every block of the device is one that the threads have had since
that point. -/
theorem crash_sees_recent {manager : CacheManager} (coherent : manager.Coherent store)
    (idle : manager.handles = []) {Results : ι → Type} (program : (who : ι) → Prog (Results who))
    {first crew : Crew cacheThread ι}
    (before : ReflTransGen Crew.Step (launch manager program) first)
    (visits : Visits Crew.Step first visited crew) :
    ((∀ blockId, first.shared.device.data blockId = first.shared.view blockId) →
      ∀ blockId, ∃ seen ∈ visited,
        crew.shared.device.data blockId = seen.shared.view blockId) ∧
    ∀ (who : ι) (Value : Type) (rest : Prog Value) (scopes : Scopes Value),
      first.control who = (⟨.start, .flush rest, scopes⟩ : Control) →
      (∃ returned ∈ visited, returned.control who = (⟨.start, rest, scopes⟩ : Control)) →
      ∀ blockId, ∃ seen ∈ visited,
        crew.shared.device.data blockId = seen.shared.view blockId := by
  obtain ⟨plain, -, follows⟩ := (follows_launch coherent idle program).run before
  constructor
  · intro clean
    exact (follows.recent_run clean visits).1
  · intro who Value rest scopes isStart returns
    have waiting : FlushProgress who rest scopes [first] first := by
      apply FlushProgress.waiting isStart
      intro seen seenIn past
      obtain rfl := List.mem_singleton.mp seenIn
      exact flush_ne (isStart.symm.trans past)
    obtain ⟨returned, returnedIn, past⟩ := returns
    cases (waiting.run follows visits).1 with
    | done recent => exact recent
    | waiting _ notYet => exact absurd past (notYet returned returnedIn)
    | syncing _ _ notYet _ => exact absurd past (notYet returned returnedIn)

end Runs

/-- A cache with a block that the device has not got yet. -/
def testDirty : CacheManager :=
  ⟨[(0, 0)], [], fun _ => ⟨Block.fill [1], 0, true⟩, 1, Disk.new 4⟩

/-- The cache stands for the block that it has. -/
theorem coherent_testDirty :
    testDirty.Coherent (Function.update (fun _ => Block.zero) 0 (Block.fill [1])) where
  ids := List.nodup_singleton 0
  distinct := List.nodup_singleton 0
  bounded := by decide
  allocated := by
    intro entry entryIn
    obtain rfl := List.mem_singleton.mp entryIn
    exact Nat.zero_lt_one
  tagged := by
    intro entry entryIn
    obtain rfl := List.mem_singleton.mp entryIn
    rfl
  inRange := by
    intro entry entryIn
    obtain rfl := List.mem_singleton.mp entryIn
    exact Nat.succ_pos 3
  pinned := fun _ => nofun
  cached := by
    intro entry entryIn
    obtain rfl := List.mem_singleton.mp entryIn
    rw [Function.update_self]
    rfl
  clean := fun _ _ => nofun
  backed := by
    intro blockId outside
    rw [Function.update_of_ne (fun same => outside (List.mem_singleton.mpr same))]
    rfl

/-- A thread that flushes the cache comes to its end, and the device has its blocks. -/
theorem crash_sees_recent_flushed : ∃ (visited : List (Crew cacheThread Unit))
    (crew : Crew cacheThread Unit),
    Visits Crew.Step (launch testDirty fun _ => .flush (.pure ())) visited crew ∧
    crew.control () = (⟨.start, .pure (), .none⟩ : Control) ∧
    ∀ blockId, ∃ seen ∈ visited,
      crew.shared.device.data blockId = seen.shared.view blockId := by
  have holds : (Scoped.flush (.pure ()) : Prog Unit).wp (Prog.deviceRules 4) []
      (fun _ _ => True) (fun _ _ => False)
      (Function.update (fun _ => Block.zero) 0 (Block.fill [1])) := ⟨rfl, trivial⟩
  obtain ⟨crew, value, after, run, isDone, -⟩ := @run_of_wp Unit _
    (launch testDirty fun _ => .flush (.pure ())) () _ _ _ _ rfl (fun _ _ => rfl)
    coherent_testDirty rfl holds
  obtain ⟨visited, visits⟩ := exists_visits run
  have recent :=
    (crash_sees_recent coherent_testDirty rfl _ .refl visits).2 () Unit (.pure ()) .none
    rfl ⟨crew, visits.last_mem, isDone⟩
  exact ⟨visited, crew, visits, isDone, recent⟩

end Canyon.Fs
