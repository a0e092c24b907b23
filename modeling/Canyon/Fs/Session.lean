import Canyon.Fs.Init
import Mathlib.Logic.Relation

/-!
# Sessions

A session is a file system in use: its parts, its inode cache and its block cache. Calls on a
session run on the caches; `Session.Backed` carries their specifications over block contents
to the caches.
-/

namespace Canyon.Fs

open Canyon.Lib
open EStateM (Result)

/-- Contents of the blocks as the cache and the device have them. -/
def CacheManager.view (manager : CacheManager) (blockId : Nat) : Block :=
  match manager.find blockId with
  | some pointer => manager.read pointer
  | none => manager.device.data blockId

/-- The contents that a manager stands for are those it has. -/
theorem CacheManager.Coherent.view_eq {manager : CacheManager} {contents : Nat → Block}
    (coherent : manager.Coherent contents) : manager.view = contents := by
  funext blockId
  unfold CacheManager.view
  cases search : manager.find blockId with
  | some pointer => exact coherent.cached _ (Coherent.find_some search)
  | none => exact coherent.backed blockId (Coherent.find_none search)

/-- A file system in use. -/
structure Session where
  /-- The parts of the device. -/
  fs : Cafs
  /-- The inode cache. -/
  inodes : Inodes
  /-- The block cache. -/
  manager : CacheManager

namespace Session

variable {α : Type} {session after : Session} {totalBlocks : Nat} {store : Nat → Block}

/-- Run a call. A call that panics leaves the block cache it reached. -/
def exec (session : Session) (call : FsM α) : Result Panic Session α :=
  match (call.run session.inodes).exec (Memory.idle session.manager) with
  | .ok out memory => .ok out.1 { session with inodes := out.2, manager := memory.manager }
  | .error error memory => .error error { session with manager := memory.manager }

/-- Contents of the blocks. -/
def contents (session : Session) : Nat → Block := session.manager.view

/-- Between two calls the block cache stands for these contents, nothing is held, and the
device has the blocks of the file system. -/
structure Backed (session : Session) (totalBlocks : Nat) (store : Nat → Block) : Prop where
  /-- The cache stands for the contents. -/
  coherent : session.manager.Coherent store
  /-- No block is held. -/
  idle : session.manager.handles = []
  /-- The device has the blocks. -/
  onDevice : totalBlocks ≤ session.manager.device.totalBlocks

/-- The contents of a session are those its cache stands for. -/
theorem Backed.contents_eq (backed : session.Backed totalBlocks store) :
    session.contents = store :=
  backed.coherent.view_eq

variable {call : FsM α} {post : α → Inodes → (Nat → Block) → Prop}
  {failed : Panic → (Nat → Block) → Prop}

/-- A specification over block contents holds of the call on the caches. -/
theorem Backed.outcome (backed : session.Backed totalBlocks store)
    (spec : FsM.wp (Prog.deviceRules totalBlocks) call session.inodes post failed store) :
    match session.exec call with
    | .ok value after => ∃ store, after.Backed totalBlocks store ∧
        after.fs = session.fs ∧ post value after.inodes store
    | .error error after => failed error after.contents := by
  have met := Prog.exec_of_wp (show 5 ≤ cacheSize by decide)
    (fun blockId valid => Nat.lt_of_lt_of_le valid backed.onDevice)
    (Memory.Holding.idle backed.coherent backed.idle) spec
  unfold exec
  cases outcome : (call.run session.inodes).exec (Memory.idle session.manager) with
  | ok out memory =>
    rw [outcome] at met
    obtain ⟨reached, holding, guards, total, holds⟩ := met
    have handles : memory.manager.handles = [] := by
      rw [holding.handles, guards]
      rfl
    exact ⟨reached, ⟨holding.coherent, handles, total ▸ backed.onDevice⟩, rfl, holds⟩
  | error error memory =>
    rw [outcome] at met
    obtain ⟨reached, coherent, -, holds⟩ := met
    have isReached : memory.manager.view = reached := coherent.view_eq
    rw [← isReached] at holds
    exact holds

/-- What a call that returned has left. -/
theorem Backed.returned (backed : session.Backed totalBlocks store) {value : α}
    (spec : FsM.wp (Prog.deviceRules totalBlocks) call session.inodes post failed store)
    (ran : session.exec call = .ok value after) :
    ∃ store, after.Backed totalBlocks store ∧ after.fs = session.fs ∧
      post value after.inodes store := by
  have outcome := backed.outcome spec
  rwa [ran] at outcome

/-- A call whose specification leaves no room for failure returns. -/
theorem Backed.returns (backed : session.Backed totalBlocks store)
    (spec : FsM.wp (Prog.deviceRules totalBlocks) call session.inodes post (fun _ _ => False)
      store) :
    ∃ value after store, session.exec call = .ok value after ∧
      after.Backed totalBlocks store ∧ after.fs = session.fs ∧
      post value after.inodes store := by
  have outcome := backed.outcome spec
  cases ran : session.exec call with
  | ok value after =>
    rw [ran] at outcome
    obtain ⟨reached, backedAfter, fsEq, holds⟩ := outcome
    exact ⟨value, after, reached, rfl, backedAfter, fsEq, holds⟩
  | error error after =>
    rw [ran] at outcome
    exact outcome.elim

/-- A call panics only as its specification allows. -/
theorem Backed.panicked (backed : session.Backed totalBlocks store) {error : Panic}
    (spec : FsM.wp (Prog.deviceRules totalBlocks) call session.inodes post failed store)
    (ran : session.exec call = .error error after) : failed error after.contents := by
  have outcome := backed.outcome spec
  rwa [ran] at outcome

/-- A call whose specification leaves no room for a return panics. -/
theorem Backed.panics (backed : session.Backed totalBlocks store)
    (spec : FsM.wp (Prog.deviceRules totalBlocks) call session.inodes (fun _ _ _ => False)
      failed store) :
    ∃ error after, session.exec call = .error error after ∧ failed error after.contents := by
  have outcome := backed.outcome spec
  cases ran : session.exec call with
  | ok value after =>
    rw [ran] at outcome
    obtain ⟨_, -, -, impossible⟩ := outcome
    exact impossible.elim
  | error error after =>
    rw [ran] at outcome
    exact ⟨error, after, rfl, outcome⟩

/-- Nothing has been done yet with the device. -/
def blank (device : Disk) : Session := ⟨Cafs.layout 0 0 0, Inodes.new, CacheManager.new device⟩

/-- The session that `CAFS::init` returns. -/
def fromInit (device : Disk) (totalBlocks inodeBitmapBlocks : Nat) : Option Session :=
  match (blank device).exec (Cafs.init totalBlocks inodeBitmapBlocks) with
  | .ok fs session => some { session with fs }
  | .error _ _ => none

end Session

/-! ## Setting up needs the blocks it clears -/

/-- A block past the end of the device cannot be locked. -/
theorem Memory.Holding.acquire_error {memory : Memory} {held : List Nat}
    {contents : Nat → Block} (holding : memory.Holding held contents) {blockId : Nat}
    (outside : memory.manager.device.totalBlocks ≤ blockId) (access : Access) :
    ∃ error final, memory.acquire blockId access = .error error final := by
  unfold Memory.acquire
  cases got : memory.manager.get blockId with
  | error error manager => exact ⟨error, _, rfl⟩
  | ok pointer manager =>
    obtain ⟨coherent, entryIn, -, total, -⟩ := holding.coherent.get got
    have inside : blockId < manager.device.totalBlocks := coherent.inRange _ entryIn
    omega

/-- The loop of `init` panics when it comes to a block past the end of the device. -/
theorem Cafs.clearBlocks_error {ids : List Nat} {memory : Memory} {contents : Nat → Block}
    (holding : memory.Holding [] contents)
    (outside : ∃ id ∈ ids, memory.manager.device.totalBlocks ≤ id) :
    ∃ error final, (clearBlocks ids).exec memory = .error error final := by
  induction ids generalizing memory contents with
  | nil => simp at outside
  | cons id ids ih =>
    rw [clearBlocks, Scoped.bind_eq, Prog.exec_bind]
    by_cases inside : id < memory.manager.device.totalBlocks
    · have spec : Scoped.wp (Prog.deviceRules memory.manager.device.totalBlocks)
          (Scoped.write id fun _ => .pure ((), some Block.zero) : Prog Unit) [] (fun _ _ => True)
          (fun _ _ => False) contents :=
        Scoped.wp_write.mpr ⟨⟨inside, by simp, Nat.zero_lt_succ 4⟩, trivial⟩
      obtain ⟨_, middle, _, ran, middleHolding, total, -⟩ := Prog.returns_of_wp holding spec
      rw [ran]
      refine ih middleHolding ?_
      obtain ⟨other, otherIn, isOutside⟩ := outside
      have later : other ∈ ids := by
        refine (List.mem_cons.mp otherIn).resolve_left ?_
        omega
      exact ⟨other, later, by omega⟩
    · obtain ⟨error, final, stuck⟩ := holding.acquire_error (Nat.not_lt.mp inside) .write
      refine ⟨error, final, ?_⟩
      rw [Scoped.write, Prog.exec, stuck]

/-- A call that starts on the blocks goes on from the cache they leave. -/
theorem FsM.exec_onBlocks_bind {α γ : Type} (program : Prog α) (next : α → FsM γ)
    (inodes : Inodes) (memory : Memory) :
    Prog.exec ((onBlocks program >>= next).run inodes) memory =
      match program.exec memory with
      | .error error memory => .error error memory
      | .ok value memory => Prog.exec ((next value).run inodes) memory := by
  show Prog.exec ((program.bind fun value => .pure (value, inodes)).bind fun out =>
    (next out.1).run out.2) memory = _
  rw [Prog.exec_bind, Prog.exec_bind]
  cases program.exec memory with
  | error error memory => rfl
  | ok value memory => rfl

/-- A subtraction uses no block. -/
theorem subtract_plain (left right : Nat) :
    (∃ value, subtract left right = .pure value) ∨ ∃ error, subtract left right = .fail error := by
  unfold subtract
  split
  · exact .inl ⟨_, rfl⟩
  · exact .inr ⟨_, rfl⟩

/-- The size of the inode area is computed without a block. -/
theorem Cafs.inodeAreaBlocksOf_plain (inodeBitmapBlocks : Nat) :
    (∃ value, inodeAreaBlocksOf inodeBitmapBlocks = .pure value) ∨
      ∃ error, inodeAreaBlocksOf inodeBitmapBlocks = .fail error := by
  unfold inodeAreaBlocksOf
  dsimp only
  split
  · exact .inl ⟨_, rfl⟩
  · exact .inr ⟨_, rfl⟩

/-- `init` returns only on a device with all the blocks it is told of. -/
theorem Session.le_of_fromInit {device : Disk} {totalBlocks inodeBitmapBlocks : Nat}
    {session : Session} (start : fromInit device totalBlocks inodeBitmapBlocks = some session) :
    totalBlocks ≤ device.totalBlocks := by
  by_contra short
  have outside : ∃ id ∈ List.range totalBlocks,
      (Memory.idle (CacheManager.new device)).manager.device.totalBlocks ≤ id :=
    ⟨device.totalBlocks, List.mem_range.mpr (by omega), Nat.le_refl _⟩
  obtain ⟨error, final, stuck⟩ := Cafs.clearBlocks_error
    (Memory.Holding.idle (CacheManager.Coherent.new device) rfl) outside
  have stops : ∃ error final, Prog.exec ((Cafs.init totalBlocks inodeBitmapBlocks).run
      Inodes.new) (Memory.idle (CacheManager.new device)) = .error error final := by
    have stop : ∀ {α : Type} {rest : Unit → FsM α} {inodes : Inodes}, ∃ error final,
        Prog.exec ((onBlocks (Cafs.clearBlocks (List.range totalBlocks)) >>= rest).run inodes)
          (Memory.idle (CacheManager.new device)) = .error error final := by
      intro α rest inodes
      rw [FsM.exec_onBlocks_bind, stuck]
      exact ⟨error, final, rfl⟩
    unfold Cafs.init
    rw [FsM.exec_onBlocks_bind]
    rcases Cafs.inodeAreaBlocksOf_plain inodeBitmapBlocks with ⟨area, area_eq⟩ | ⟨error, area_eq⟩
    · rw [area_eq, Prog.exec]
      dsimp only
      rw [FsM.exec_onBlocks_bind]
      rcases subtract_plain totalBlocks 1 with ⟨left, left_eq⟩ | ⟨error, left_eq⟩
      · rw [left_eq, Prog.exec]
        dsimp only
        rw [FsM.exec_onBlocks_bind]
        rcases subtract_plain left (inodeBitmapBlocks + area) with ⟨data, data_eq⟩ |
          ⟨error, data_eq⟩
        · rw [data_eq, Prog.exec]
          exact stop
        · rw [data_eq, Prog.exec]
          exact ⟨error, _, rfl⟩
      · rw [left_eq, Prog.exec]
        exact ⟨error, _, rfl⟩
    · rw [area_eq, Prog.exec]
      exact ⟨error, _, rfl⟩
  obtain ⟨error, final, stops⟩ := stops
  have none : fromInit device totalBlocks inodeBitmapBlocks = none := by
    simp only [fromInit, exec, blank, stops]
  rw [none] at start
  contradiction

end Canyon.Fs
