import Canyon.Fs.Coherence
import Canyon.Fs.Pinned
import Canyon.Fs.Threads

/-!
# A flush beside a call

`flush` holds the lock of the queue while it waits for the lock of a block. A call that holds the
lock of a block and does not find another in the cache waits for the lock of the queue, so the two
may wait for each other. They do not if the blocks that the call needs under a lock are in the
cache (`flush_beside_call`), and a miss under a lock always leads to a deadlock if the flush comes
at that time (`deadlock_of_miss`). The first write after `open` makes such a miss: it looks for the
data bitmap under the lock of the inode.
-/

namespace Canyon.Fs

open Canyon.Lib
open Relation (ReflTransGen)

/-- `get` does not find its block while the thread holds the lock of another. -/
def Control.missesUnderGuard (manager : CacheManager) (control : Control) : Bool :=
  match control.phase, Control.asks control.program with
  | .search, some (blockId, _) =>
    (manager.find blockId).isNone && !control.scopes.guards.isEmpty
  | _, _ => false

/-- A thread that makes a call, and another that makes a flush. -/
def Session.beside {α : Type} (session : Session) (call : FsM α) : Duo cacheThread where
  shared := session.manager
  left := show Control from ⟨.start, call.run session.inodes, .none⟩
  right := show Control from ⟨.start, session.fs.flush.run session.inodes, .none⟩

/-- The controls of a thread that makes a flush. -/
inductive Flushing : Control → Prop where
  /-- Before the queue is locked. -/
  | start {Value : Type} {value : Value} : Flushing ⟨.start, .flush (.pure value), .none⟩
  /-- The queue is locked. -/
  | sync {Value : Type} {value : Value} {pointers : List Nat} :
      Flushing ⟨.sync pointers, .flush (.pure value), .none⟩
  /-- A block is locked. -/
  | hold {Value : Type} {value : Value} {pointer : Nat} {pointers : List Nat} :
      Flushing ⟨.hold pointer pointers, .flush (.pure value), .none⟩
  /-- The flush has returned. -/
  | done {Value : Type} {value : Value} : Flushing ⟨.start, .pure value, .none⟩
  /-- The flush has panicked. -/
  | failed {Value : Type} {error : Panic} : Flushing ⟨.start, (.fail error : Prog Value), .none⟩

section Threads

variable {manager after : CacheManager} {control later : Control}

/-- A flush stays a flush. -/
theorem Flushing.next (flushing : Flushing control)
    (moved : cacheThread.next manager control = some (after, later)) : Flushing later := by
  cases flushing with
  | start =>
    obtain ⟨-, rfl⟩ := Prod.mk.inj (Option.some.inj moved)
    exact .sync
  | @sync Value value pointers =>
    cases pointers with
    | nil =>
      obtain ⟨-, rfl⟩ := Prod.mk.inj (Option.some.inj moved)
      exact .done
    | cons pointer pointers =>
      obtain ⟨-, rfl⟩ := Prod.mk.inj (Option.some.inj moved)
      exact .hold
  | @hold Value value pointer pointers =>
    have proceeded := congrArg Prod.snd (Option.some.inj moved)
    dsimp only at proceeded
    subst proceeded
    cases manager.sync pointer with
    | ok done synced => exact .sync
    | error error stuck => exact .failed
  | done => cases moved
  | failed => cases moved

/-- A thread that goes on or panics does not claim the queue. -/
theorem proceed_phase_ne {α γ : Type} {scopes : Scopes α} {next : γ → Control}
    (elsewhere : ∀ value, (next value).phase ≠ .claim)
    (outcome : EStateM.Result Panic CacheManager γ) :
    (Control.proceed scopes next outcome).2.phase ≠ .claim := by
  cases outcome with
  | ok value manager => exact elsewhere value
  | error error manager => exact nofun

/-- The end of a scope does not claim the queue. -/
theorem leave_phase_ne {α : Type} {scopes : Scopes α} {value : α}
    (moved : Control.leave scopes value manager = some (after, later)) :
    later.phase ≠ .claim := by
  cases scopes with
  | none => cases moved
  | reading pointer next outer =>
    have phase := @proceed_phase_ne _ _ outer
      (fun _ => ⟨.start, next value, outer⟩) nofun (manager.release pointer)
    rwa [Option.some.inj moved] at phase
  | writing pointer next outer =>
    have phase := @proceed_phase_ne _ _ outer
      (fun _ => ⟨.start, next value.1, outer⟩) nofun
      (((Memory.idle manager).store pointer value.2).manager.release pointer)
    rwa [Option.some.inj moved] at phase

/-- A thread claims the queue when its search has found nothing. -/
theorem search_of_claim {α : Type} {program : Prog α} {scopes : Scopes α} {phase : Phase}
    (moved : Control.step manager program scopes phase = some (after, later))
    (claims : later.phase = .claim) :
    phase = .search ∧ later.scopes.guards = scopes.guards ∧
      ∃ asked, Control.asks program = some asked ∧ manager.find asked.1 = none := by
  cases phase with
  | start =>
    cases program with
    | pure value => exact absurd claims (leave_phase_ne moved)
    | fail error => cases moved
    | reading key body next =>
      obtain ⟨-, rfl⟩ := Prod.mk.inj (Option.some.inj moved)
      cases claims
    | writing key body next =>
      obtain ⟨-, rfl⟩ := Prod.mk.inj (Option.some.inj moved)
      cases claims
    | flush next =>
      obtain ⟨-, rfl⟩ := Prod.mk.inj (Option.some.inj moved)
      cases claims
  | search =>
    obtain ⟨asked, isAsked, result⟩ := Option.map_eq_some_iff.mp moved
    cases found : manager.find asked.1 with
    | some pointer =>
      rw [found] at result
      obtain ⟨-, rfl⟩ := Prod.mk.inj result
      cases claims
    | none =>
      rw [found] at result
      obtain ⟨-, rfl⟩ := Prod.mk.inj result
      exact ⟨rfl, rfl, asked, isAsked, found⟩
  | claim =>
    obtain ⟨-, rfl⟩ := Prod.mk.inj (Option.some.inj moved)
    cases claims
  | load =>
    obtain ⟨asked, -, result⟩ := Option.map_eq_some_iff.mp moved
    have elsewhere := @proceed_phase_ne _ _ scopes
      (fun pointer => ⟨.lock pointer, program, scopes⟩) nofun (manager.get asked.1)
    rw [result] at elsewhere
    exact absurd claims elsewhere
  | lock pointer =>
    obtain ⟨asked, -, result⟩ := Option.bind_eq_some_iff.mp moved
    split at result
    · cases result
    · obtain ⟨entered, isEntered, same⟩ := Option.map_eq_some_iff.mp result
      obtain ⟨-, rfl⟩ := Prod.mk.inj same
      cases program with
      | reading key body next =>
        obtain rfl := Option.some.inj isEntered
        cases claims
      | writing key body next =>
        obtain rfl := Option.some.inj isEntered
        cases claims
      | pure value => cases isEntered
      | fail error => cases isEntered
      | flush next => cases isEntered
  | sync pointers =>
    cases pointers with
    | nil =>
      obtain ⟨next, -, -, rfl⟩ := next_sync_nil moved
      cases claims
    | cons pointer pointers =>
      obtain ⟨-, rfl⟩ := next_sync_cons moved
      cases claims
  | hold pointer pointers =>
    have elsewhere := @proceed_phase_ne _ _ scopes
      (fun _ => ⟨.sync pointers, program, scopes⟩) nofun (manager.sync pointer)
    rw [Option.some.inj moved] at elsewhere
    exact absurd claims elsewhere

/-- A thread whose `get` misses no block under a lock claims the queue with no lock held. -/
theorem guards_of_claim (moved : cacheThread.next manager control = some (after, later))
    (hits : control.missesUnderGuard manager = false) (claims : later.phase = .claim) :
    later.scopes.guards = [] := by
  obtain ⟨isSearch, same, asked, isAsked, missing⟩ := search_of_claim moved claims
  rw [Control.missesUnderGuard, isSearch, isAsked] at hits
  rw [same]
  simpa [missing] using hits

/-- A thread that claims the queue asks for it for writing and holds its guards only. -/
theorem phase_of_waits (waits : Waits control.wants [⟨.queue, .read⟩]) :
    control.phase = .claim := by
  obtain ⟨asked, isAsked, held, isHeld, sameLock, alone⟩ := waits
  obtain rfl := List.mem_singleton.mp isHeld
  obtain ⟨phase, program, scopes⟩ := control
  cases phase with
  | start =>
    cases program <;> simp [Control.wants] at isAsked <;> subst isAsked <;> simp at alone
  | claim => rfl
  | search => simp [Control.wants] at isAsked
  | load => simp [Control.wants] at isAsked
  | lock pointer =>
    simp only [Control.wants, Option.mem_def, Option.map_eq_some_iff] at isAsked
    obtain ⟨_, -, rfl⟩ := isAsked
    cases sameLock
  | sync pointers =>
    cases pointers <;> simp [Control.wants] at isAsked
    subst isAsked
    cases sameLock
  | hold pointer pointers => simp [Control.wants] at isAsked

/-- A flush waits for a call only while it holds the queue and asks for the lock of a block. -/
theorem Flushing.cases_of_waits (flushing : Flushing control) {holds : List (Request CacheLock)}
    (waits : Waits control.wants holds) :
    control.holds = [] ∨ control.holds = [⟨.queue, .read⟩] := by
  obtain ⟨asked, isAsked, -⟩ := waits
  cases flushing with
  | start => exact .inl rfl
  | sync => exact .inr rfl
  | hold => cases isAsked
  | done => cases isAsked
  | failed => cases isAsked

/-- A call that claims the queue with no lock held does not wait for a flush that waits for it. -/
theorem not_deadlocked {duo : Duo cacheThread} (flushing : Flushing duo.right)
    (unguarded : Control.phase duo.left = .claim → (Control.scopes duo.left).guards = []) :
    ¬duo.Deadlocked := by
  rintro ⟨leftWaits, rightWaits⟩
  rcases flushing.cases_of_waits rightWaits with nothing | queue
  · obtain ⟨_, _, held, isHeld, _⟩ := leftWaits
    change held ∈ Control.holds duo.right at isHeld
    rw [nothing] at isHeld
    exact absurd isHeld List.not_mem_nil
  · have claims : Control.phase duo.left = .claim := by
      apply phase_of_waits
      rw [← queue]
      exact leftWaits
    obtain ⟨_, _, held, isHeld, _⟩ := rightWaits
    change held ∈ Control.phaseHolds (Control.phase duo.left) ++ _ at isHeld
    rw [claims, unguarded claims] at isHeld
    exact absurd isHeld List.not_mem_nil

end Threads

/-! ## A miss under a lock -/

section Miss

variable {α Value : Type} {program : Prog α} {scopes : Scopes α} {value : Value}
  {contents : Nat → Block} {manager : CacheManager}

/-- The call claims the queue while the flush goes through the blocks. -/
def claimBeside (manager : CacheManager) (program : Prog α) (scopes : Scopes α)
    (phase : Phase) (value : Value) : Duo cacheThread where
  shared := manager
  left := show Control from ⟨.claim, program, scopes⟩
  right := show Control from ⟨phase, .flush (.pure value), .none⟩

/-- The flush comes to a block that the call has locked. -/
theorem deadlocked_of_guard {pointer : Nat} {pointers : List Nat} {access : Access}
    (locked : (pointer, access) ∈ scopes.guards) :
    (claimBeside manager program scopes (.sync (pointer :: pointers)) value).Deadlocked := by
  constructor
  · exact ⟨⟨.queue, .write⟩, rfl, ⟨.queue, .read⟩, List.mem_cons_self, rfl, .inl rfl⟩
  · refine ⟨⟨.block pointer, .write⟩, rfl, ⟨.block pointer, access⟩, ?_, rfl, .inl rfl⟩
    exact List.mem_map_of_mem locked

/-- The flush takes the lock of a block that the call has not locked, and syncs it. -/
theorem sync_beside {pointer : Nat} {pointers : List Nat} {after : CacheManager}
    (free : ∀ access, (pointer, access) ∉ scopes.guards)
    (synced : manager.sync pointer = .ok () after) :
    ReflTransGen Duo.Step (claimBeside manager program scopes (.sync (pointer :: pointers)) value)
      (claimBeside after program scopes (.sync pointers) value) := by
  have locks : Duo.Step (claimBeside manager program scopes (.sync (pointer :: pointers)) value)
      (claimBeside manager program scopes (.hold pointer pointers) value) := by
    refine .right ?_ rfl
    rintro ⟨asked, isAsked, held, isHeld, sameLock, -⟩
    obtain rfl := Option.some.inj isAsked
    obtain ⟨guard, guardIn, rfl⟩ := List.mem_map.mp isHeld
    obtain rfl := CacheLock.block.inj sameLock
    exact free guard.2 guardIn
  have writes : Duo.Step (claimBeside manager program scopes (.hold pointer pointers) value)
      (claimBeside after program scopes (.sync pointers) value) := by
    refine .right ?_ ?_
    · rintro ⟨_, isAsked, -⟩
      cases isAsked
    · show some (Control.proceed _ _ (manager.sync pointer)) = _
      rw [synced]
      rfl
  exact .head locks (.single writes)

/-- A flush that goes through the blocks comes to one that the call has locked. -/
theorem deadlock_of_sync {pointers : List Nat} (coherent : manager.Coherent contents)
    (part : ∀ pointer ∈ pointers, pointer ∈ manager.pointers)
    (locked : ∃ guard ∈ scopes.guards, guard.1 ∈ pointers) :
    ∃ later, ReflTransGen Duo.Step (claimBeside manager program scopes (.sync pointers) value)
      later ∧ later.Deadlocked := by
  induction pointers generalizing manager with
  | nil =>
    obtain ⟨guard, -, isIn⟩ := locked
    exact absurd isIn List.not_mem_nil
  | cons pointer pointers ih =>
    by_cases isLocked : ∃ access, (pointer, access) ∈ scopes.guards
    · obtain ⟨access, isGuard⟩ := isLocked
      exact ⟨_, .refl, deadlocked_of_guard isGuard⟩
    · have free := not_exists.mp isLocked
      obtain ⟨entry, entryIn, rfl⟩ := List.mem_map.mp (part pointer List.mem_cons_self)
      have synced : manager.sync entry.2 = .ok () (manager.synced entry.2) := by
        apply CacheManager.sync_eq
        rw [coherent.tagged entry entryIn]
        exact coherent.inRange entry entryIn
      have further : ∃ guard ∈ scopes.guards, guard.1 ∈ pointers := by
        obtain ⟨guard, guardIn, isIn⟩ := locked
        rcases List.mem_cons.mp isIn with same | later
        · exact absurd (same ▸ guardIn : (entry.2, guard.2) ∈ scopes.guards) (free guard.2)
        · exact ⟨guard, guardIn, later⟩
      obtain ⟨later, run, deadlocked⟩ := ih (coherent.sync entryIn)
        (fun other otherIn => part other (List.mem_cons_of_mem _ otherIn)) further
      exact ⟨later, (sync_beside free synced).trans run, deadlocked⟩

/-- A thread is about to search the cache for a block that is not there, under a lock. -/
structure Misses (contents : Nat → Block) (manager : CacheManager) (control : Control) : Prop where
  /-- The cache stands for the contents. -/
  coherent : manager.Coherent contents
  /-- The thread has a handle to each block that it has locked. -/
  held : ∀ guard ∈ control.scopes.guards, guard.1 ∈ manager.handles
  /-- The next search fails. -/
  misses : control.missesUnderGuard manager = true

/-- A flush that comes while a call does not find a block under the lock of another leads to a
deadlock. -/
theorem deadlock_of_miss {control : Control} (missed : Misses contents manager control) :
    ∃ later, ReflTransGen Duo.Step (⟨manager, control,
        (⟨.start, .flush (.pure value), .none⟩ : Control)⟩ : Duo cacheThread) later ∧
      later.Deadlocked := by
  obtain ⟨phase, program, scopes⟩ := control
  obtain ⟨coherent, held, misses⟩ := missed
  unfold Control.missesUnderGuard at misses
  split at misses
  · rename_i blockId access isSearch isAsked
    obtain rfl : phase = .search := isSearch
    obtain ⟨missing, guarded⟩ := Bool.and_eq_true_iff.mp misses
    have claims : Duo.Step (⟨manager, (⟨.search, program, scopes⟩ : Control),
        (⟨.start, .flush (.pure value), .none⟩ : Control)⟩ : Duo cacheThread)
        (claimBeside manager program scopes .start value) := by
      refine .left ?_ ?_
      · rintro ⟨_, isWanted, -⟩
        cases isWanted
      · show Control.step manager program scopes .search = _
        simp only [Control.step, show Control.asks program = some (blockId, access) from isAsked,
          Option.map_some, Option.isNone_iff_eq_none.mp missing]
        rfl
    have starts : Duo.Step (claimBeside manager program scopes .start value)
        (claimBeside manager program scopes (.sync manager.pointers) value) := by
      refine .right ?_ rfl
      rintro ⟨asked, isWanted, held, isHeld, sameLock, -⟩
      obtain rfl := Option.some.inj isWanted
      obtain ⟨guard, guardIn, rfl⟩ := List.mem_map.mp isHeld
      cases sameLock
    obtain ⟨guard, guardIn⟩ : ∃ guard, guard ∈ scopes.guards := by
      apply List.exists_mem_of_ne_nil
      intro none
      rw [show (Control.mk Phase.search program scopes).scopes.guards = [] from none] at guarded
      cases guarded
    obtain ⟨later, run, deadlocked⟩ := @deadlock_of_sync _ Value program scopes value contents
      manager manager.pointers coherent (fun _ => id)
      ⟨guard, guardIn, coherent.pinned _ (held guard guardIn)⟩
    exact ⟨later, .head claims (.head starts run), deadlocked⟩
  · cases misses

end Miss

/-! ## `write` on a device just opened -/

section Asks

variable {α γ : Type}

/-- What a sequence asks for first. -/
theorem asks_bind {program : Prog α} {asked : Nat × Access} (rest : α → Prog γ)
    (isAsked : Control.asks program = some asked) :
    Control.asks (program.bind rest) = some asked := by
  cases program with
  | reading key body next => exact isAsked
  | writing key body next => exact isAsked
  | pure value => cases isAsked
  | fail error => cases isAsked
  | flush next => cases isAsked

/-- `alloc` locks the first block of the bitmap first. -/
theorem asks_alloc {bitmap : Bitmap} (positive : 0 < bitmap.blocks) :
    Control.asks bitmap.alloc = some (bitmap.startBlockId, .write) := by
  obtain ⟨more, isMore⟩ := Nat.exists_eq_succ_of_ne_zero (Nat.ne_of_gt positive)
  rw [Bitmap.alloc, isMore, List.range_succ_eq_map]
  apply asks_bind
  show some (0 + bitmap.startBlockId, Access.write) = _
  rw [Nat.zero_add]

/-- A write to an empty file locks the data bitmap first. -/
theorem asks_resize {fs : Cafs} {record : Meta} {newSize : Nat} (empty : record.size = 0)
    (larger : 0 < newSize) (positive : 0 < fs.dataBitmap.blocks) :
    Control.asks (fs.resize record newSize) = some (fs.dataBitmap.startBlockId, .write) := by
  obtain ⟨more, isMore⟩ : ∃ more, dataBlocks newSize - dataBlocks record.size = more + 1 := by
    have none : dataBlocks record.size = 0 := by rw [empty]; rfl
    have some : 1 ≤ dataBlocks newSize := dataBlocks_mono (show 1 ≤ newSize from larger)
    exact ⟨dataBlocks newSize - 1, by omega⟩
  rw [Cafs.resize, if_pos (empty ▸ larger)]
  apply asks_bind
  rw [Cafs.grow, subtract_eq (by omega), isMore]
  change Control.asks (((fs.dataBitmap.alloc.bind _).bind _).bind _) = _
  apply asks_bind
  apply asks_bind
  apply asks_bind
  exact asks_alloc positive

end Asks

/-- A modification that needs a block outside the cache misses it under the lock of its own. -/
theorem misses_of_modifyAt {α γ δ : Type} {codec : Codec α} {blockId offset wanted : Nat}
    {access : Access} {body : α → Prog (γ × α)} {value : α} {memory : Memory}
    {contents : Nat → Block} (holding : memory.Holding [] contents)
    (onDevice : blockId < memory.manager.device.totalBlocks)
    (inside : offset + codec.width ≤ blockSize)
    (seen : (contents blockId).view codec offset = some value)
    (isAsked : Control.asks (body value) = some (wanted, access)) (other : wanted ≠ blockId)
    (missing : wanted ∉ memory.manager.ids) (rest : γ → Prog δ) :
    ∃ manager control, ReflTransGen Alone (memory.manager,
        ⟨.start, (modifyAt codec blockId offset body).bind rest, .none⟩) (manager, control) ∧
      Misses contents manager control := by
  have noGuards : memory.guards = [] := List.forall₂_nil_right_iff.mp holding.entries
  obtain ⟨pointer, entered, acquired, enteredHolding, guardsEq, -, readEq⟩ :=
    @Memory.Holding.acquire memory blockId contents [] ⟨1, (· = blockId)⟩ holding
      (show 1 ≤ cacheSize by decide) (fun id same => by rwa [show id = blockId from same])
      ⟨rfl, List.not_mem_nil, Nat.zero_lt_one⟩ .write
  -- the body of the modification, once it has seen the value
  let inner : Prog (γ × Option Block) := (body value).bind fun found =>
    .pure (found.1, some ((contents blockId).patch codec offset found.2))
  let scopes : Scopes (γ × Option Block) := .writing pointer (fun found => rest found) .none
  have isEntered : Control.enter ((modifyAt codec blockId offset body).bind rest) .none pointer
      entered.manager = some ⟨.start, inner, scopes⟩ := by
    rw [modifyAt, Scoped.write, Scoped.bind, Control.enter, readEq, if_pos inside, seen]
    rfl
  have isInner : Control.asks inner = some (wanted, access) := asks_bind _ isAsked
  have absent : entered.manager.find wanted = none := by
    rw [CacheManager.find, Option.map_eq_none_iff, List.find?_eq_none]
    intro entry entryIn same
    obtain rfl : entry.1 = wanted := beq_iff_eq.mp same
    rcases holding.ids_of_acquire acquired entry.1 (List.mem_map_of_mem entryIn) with old | new
    · exact missing old
    · exact other new
  refine ⟨entered.manager, ⟨.search, inner, scopes⟩, ?_, enteredHolding.coherent, ?_, ?_⟩
  · have guards : (Scopes.none : Scopes δ).guards = memory.guards := noGuards.symm
    have isModify : Control.asks ((modifyAt codec blockId offset body).bind rest) =
        some (blockId, .write) := rfl
    apply (alone_enter isModify guards acquired isEntered).1.tail
    exact alone_search isInner
  · intro guard guardIn
    rw [enteredHolding.handles, guardsEq, noGuards]
    exact List.mem_map_of_mem guardIn
  · simp only [Control.missesUnderGuard, isInner, absent]
    rfl

namespace Session

/-- Only the super block is in the cache of a device just opened. -/
theorem ids_of_mount {device : Disk} {session : Session} {fs : Cafs}
    (headed : fs.Headed device.data) (positive : 0 < device.totalBlocks)
    (mounted : mount device = some session) : ∀ id ∈ session.manager.ids, id = 0 := by
  obtain ⟨block, seen, valid, parts, reach⟩ := headed
  have spec : FsM.wp ⟨5, (· = 0)⟩ (onBlocks Cafs.openFs) Inodes.new (fun _ _ _ => True)
      (fun _ _ => False) device.data := by
    refine FsM.wp_onBlocks.mpr (wp_readAt (by rw [width_superBlock]; decide) seen
      ⟨rfl, by simp, Nat.zero_lt_succ 4⟩ ?_)
    rw [if_pos valid, parts, if_pos reach]
    trivial
  have onDevice : ∀ blockId, blockId = 0 → blockId < device.totalBlocks := by
    intro blockId same
    rwa [same]
  have holding := Memory.Holding.idle (CacheManager.Coherent.new device) rfl
  obtain ⟨value, final, -, ran, -, -, -, named⟩ :=
    Prog.exec_ids_of_wp (show 5 ≤ cacheSize by decide) onDevice holding spec
  have opened : Prog.exec ((onBlocks Cafs.openFs).run (blank device).inodes)
      (Memory.idle (blank device).manager) = .ok value final := ran
  rw [mount, exec, opened] at mounted
  rw [← Option.some.inj mounted]
  intro id isId
  rcases named id isId with old | same
  · cases old
  · exact same

variable {session : Session} {totalBlocks : Nat} {marked : Nat → Bool} {store : Nat → Block}

/-- Nor is there another block in the cache after a flush and an `open`. -/
theorem Serves.ids_of_reopen {after : Session} {volume : Volume} {extents : Nat → Extent}
    (serves : session.Serves totalBlocks volume extents marked store)
    (headed : session.fs.Headed store) (reopened : session.reopen = some after) :
    ∀ id ∈ after.manager.ids, id = 0 := by
  obtain ⟨flushed, ran, onDisk, onDevice⟩ := serves.backed.flush_settled
  have positive := serves.represents.geometry.positive
  rw [reopen, ran] at reopened
  exact ids_of_mount (onDisk ▸ headed) (by omega) reopened

/-- `cainode` reads only the block of the root while the root has no data. -/
theorem wp_cainode_root {fs : Cafs}
    (rep : fs.Represents totalBlocks Inodes.new store Volume.initial Extent.none marked) :
    FsM.wp ⟨5, (· = fs.inodeAreaStartBlock)⟩ (fs.cainode 0) Inodes.new
      (fun _ _ after => after = store) (fun _ _ => False) store := by
  obtain ⟨record, seen, placed⟩ := rep.holds.placed 0 _ rfl
  refine FsM.wp_bind.mpr (FsM.wp_get.mpr ?_)
  refine FsM.wp_bind.mpr (FsM.wp_substituteInode ?_ ?_)
  · intro queue done
    rw [Cafs.inodePosOf_eq]
    exact FsM.wp_bind.mpr (FsM.wp_onBlocks.mpr (Cafs.wp_from placed seen
      ⟨rfl, List.not_mem_nil, Nat.zero_lt_succ 4⟩ nofun (Nat.le_refl 5) rfl))
  · intro error stuck
    cases stuck

/-- The steps of `write` after it has found the inode. -/
theorem exists_write_eq (fs : Cafs) (number : Nat) (contents : List UInt8) (inodes : Inodes) :
    ∃ rest : Nat × Inodes → List Nat × List Nat → Prog (Unit × Inodes),
      (fs.write number contents).run inodes = ((fs.cainode number).run inodes).bind fun out =>
        (modifyAt metaCodec (fs.inodeAreaStartBlock + number) 0 fun record =>
          fs.resize record contents.length).bind (rest out) := by
  refine ⟨fun out found => ((do
    onBlocks (Cafs.fillBlocks found.2 contents)
    modify fun inodes => { inodes with
      heap := Function.update inodes.heap out.1
        { inodes.heap out.1 with size := contents.length, blocks := found.2 } }
    dropHandle out.1 : FsM Unit)).run out.2, ?_⟩
  rw [Cafs.write, Cafs.inodePosOf_eq]
  rfl

/-- The first write to the root of a device just opened does not find the data bitmap in the
cache, and it holds the lock of the inode by then. -/
theorem Serves.write_misses
    (serves : session.Serves totalBlocks Volume.initial Extent.none marked store)
    (new : session.inodes = Inodes.new) (cold : ∀ id ∈ session.manager.ids, id = 0)
    (positive : 0 < session.fs.dataBitmap.blocks) {contents : List UInt8}
    (nonempty : 0 < contents.length) :
    ∃ manager control, ReflTransGen Alone (session.manager,
        ⟨.start, (session.fs.write 0 contents).run session.inodes, .none⟩) (manager, control) ∧
      Misses store manager control := by
  have rep := serves.represents
  have geometry := rep.geometry
  rw [new] at rep ⊢
  obtain ⟨record, seen, placed⟩ := rep.holds.placed 0 _ rfl
  have size : record.size = 0 := placed.size
  have first := geometry.inodeArea
  have bitmap := geometry.dataBitmap
  have area := geometry.dataArea
  have within := geometry.inside
  have onDevice := serves.backed.onDevice
  have counted : 1 ≤ session.fs.inodeBitmap.totalCount := rep.holds.counted
  obtain ⟨rest, isWrite⟩ := exists_write_eq session.fs 0 contents Inodes.new
  obtain ⟨out, final, after, ran, finalHolding, total, isAfter, named⟩ :=
    Prog.exec_ids_of_wp (show 5 ≤ cacheSize by decide)
      (fun id same => by rw [show id = _ from same]; exact Nat.lt_of_lt_of_le (by omega) onDevice)
      (Memory.Holding.idle serves.backed.coherent serves.backed.idle) (wp_cainode_root rep)
  obtain rfl : after = store := isAfter
  let body : Meta → Prog ((List Nat × List Nat) × Meta) := fun record =>
    session.fs.resize record contents.length
  have isAsked : Control.asks (body record) = some (session.fs.dataBitmap.startBlockId, .write) :=
    asks_resize size nonempty positive
  have missing : session.fs.dataBitmap.startBlockId ∉ final.manager.ids := by
    intro isId
    rcases named _ isId with old | root
    · have zero := cold _ old
      omega
    · have same : session.fs.dataBitmap.startBlockId = session.fs.inodeAreaStartBlock := root
      omega
  have rootInside : session.fs.inodeAreaStartBlock + 0 < final.manager.device.totalBlocks := by
    rw [total]
    exact Nat.lt_of_lt_of_le (by omega) onDevice
  obtain ⟨manager, control, enters, missed⟩ := misses_of_modifyAt finalHolding rootInside
    (by simp) seen isAsked (by omega) missing (rest out)
  refine ⟨manager, control, ?_, missed⟩
  rw [isWrite]
  exact (run_of_exec rfl ran).1.trans enters

end Session

/-! ## Runs of a flush beside a call -/

/-- A device just set up, flushed and opened again. -/
theorem exists_reopened :
    ∃ session store, Mounted (Disk.new 131072) 131072 2 Volume.initial session ∧
      session.Serves 131072 Volume.initial Extent.none (fun _ => false) store ∧
      session.inodes = Inodes.new ∧ (∀ id ∈ session.manager.ids, id = 0) ∧
      0 < session.fs.dataBitmap.blocks := by
  have small : 131072 < 2 ^ 64 := by decide
  obtain ⟨first, setUp⟩ := @Session.exists_fromInit 131072 (Disk.new 131072) 2 small
    ⟨by decide, by decide⟩ (show 0 < 2 by decide) (Nat.le_refl _)
  obtain ⟨parts, -, -, store, serves, -⟩ := Session.serves_of_fromInit small setUp
  have headed := Session.headed_of_fromInit small setUp
  rw [serves.backed.contents_eq] at headed
  obtain ⟨session, reopened, sameParts, new, servesAfter⟩ := serves.reopens headed
  refine ⟨session, store, .reopen (.init setUp) reopened, servesAfter, new,
    serves.ids_of_reopen headed reopened, ?_⟩
  rw [sameParts, parts]
  decide

/-- A flush beside any call, `write` and `create` among them, on any file system: in a run in which
the call finds in the cache every block that it asks for under the lock of another, the call and the
flush never wait for each other. -/
theorem flush_beside_call {α : Type} {session : Session} {call : FsM α} {duo : Duo cacheThread}
    (run : ReflTransGen (fun before after =>
      Control.missesUnderGuard before.shared before.left = false ∧ Duo.Step before after)
      (session.beside call) duo) : ¬duo.Deadlocked := by
  have invariant : Flushing duo.right ∧
      (Control.phase duo.left = .claim → (Control.scopes duo.left).guards = []) := by
    induction run with
    | refl => exact ⟨.start, nofun⟩
    | tail _ step ih =>
      obtain ⟨hits, step⟩ := step
      obtain ⟨flushing, unguarded⟩ := ih
      cases step with
      | left granted moved => exact ⟨flushing, guards_of_claim moved hits⟩
      | right granted moved => exact ⟨flushing.next moved, unguarded⟩
  exact not_deadlocked invariant.1 invariant.2

/-- On a device just opened again a write of one byte to the root and a flush come to wait for each
other. -/
theorem flush_beside_write_deadlocks :
    ∃ session duo, Mounted (Disk.new 131072) 131072 2 Volume.initial session ∧
      ReflTransGen Duo.Step (session.beside (session.fs.write 0 [84])) duo ∧ duo.Deadlocked := by
  obtain ⟨session, store, mounted, serves, new, cold, positive⟩ := exists_reopened
  obtain ⟨manager, control, run, missed⟩ :=
    serves.write_misses new cold positive (show 0 < [84].length by decide)
  obtain ⟨duo, later, deadlocked⟩ := deadlock_of_miss missed
  have alone := Duo.steps_left (show cacheThread.holds
    (⟨.start, session.fs.flush.run session.inodes, .none⟩ : Control) = [] from rfl) run
  exact ⟨session, duo, mounted, alone.trans later, deadlocked⟩

/-- A run in which the write searches the queue while the flush goes through it. -/
theorem flush_beside_call_search :
    ∃ session duo, Mounted (Disk.new 131072) 131072 2 Volume.initial session ∧
      ReflTransGen (fun before after =>
        Control.missesUnderGuard before.shared before.left = false ∧ Duo.Step before after)
        (session.beside (session.fs.write 0 [84])) duo ∧
      Control.phase duo.left = .search ∧ (∃ pointers, Control.phase duo.right = .sync pointers) ∧
      ¬duo.Deadlocked := by
  obtain ⟨session, -, mounted, -, new, -⟩ := exists_reopened
  have isAsked : Control.asks ((session.fs.write 0 [84]).run session.inodes) =
      some (session.fs.inodeAreaStartBlock, .read) := by
    obtain ⟨rest, isWrite⟩ := Session.exists_write_eq session.fs 0 [84] session.inodes
    rw [isWrite, new]
    apply asks_bind
    rw [Cafs.cainode, Cafs.inodePosOf_eq]
    rfl
  let searching : Duo cacheThread := { session.beside (session.fs.write 0 [84]) with
    left := show Control from ⟨.search, (session.fs.write 0 [84]).run session.inodes, .none⟩ }
  have searches : Duo.Step (session.beside (session.fs.write 0 [84])) searching := by
    have moved : cacheThread.next session.manager
        (session.beside (session.fs.write 0 [84])).left =
        some (session.manager, searching.left) := alone_search isAsked
    refine .left ?_ moved
    rintro ⟨_, _, _, isHeld, _⟩
    exact absurd isHeld List.not_mem_nil
  let both : Duo cacheThread := { searching with
    right := show Control from
      ⟨.sync session.manager.pointers, session.fs.flush.run session.inodes, .none⟩ }
  have starts : Duo.Step searching both := by
    refine .right ?_ rfl
    rintro ⟨asked, isWanted, held, isHeld, -, alone⟩
    obtain rfl := Option.some.inj isWanted
    obtain rfl := List.mem_singleton.mp isHeld
    rcases alone with isWrite | isWrite <;> cases isWrite
  have finds : Control.missesUnderGuard searching.shared searching.left = false := by
    simp [Control.missesUnderGuard, searching, Scopes.guards, isAsked]
  have run : ReflTransGen (fun before after =>
      Control.missesUnderGuard before.shared before.left = false ∧ Duo.Step before after)
      (session.beside (session.fs.write 0 [84])) both :=
    .head ⟨rfl, searches⟩ (.single ⟨finds, starts⟩)
  exact ⟨session, both, mounted, run, rfl, ⟨_, rfl⟩, flush_beside_call run⟩

end Canyon.Fs
