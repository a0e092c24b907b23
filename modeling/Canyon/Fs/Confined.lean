import Canyon.Fs.CreateImg
import Canyon.Fs.Pinned

/-!
# Blocks past the file system

A device may have more blocks than its file system: a partition is followed by others. Whatever a
call asks the block cache for, the blocks that it loads, evicts and writes back are those of the
file system, so the device keeps every other block, at every point of every call.
-/

namespace Canyon.Fs

open Canyon.Lib
open EStateM (Result)

namespace CacheManager

/-- Every object is one of the blocks below a limit, and the device still has its blocks from
the limit on. -/
structure Confined (manager : CacheManager) (limit : Nat) (data : Nat → Block) : Prop where
  /-- Objects are blocks below the limit. -/
  below : ∀ pointer, (manager.heap pointer).blockId < limit
  /-- The device keeps the other blocks. -/
  kept : ∀ id, limit ≤ id → manager.device.data id = data id

variable {manager after : CacheManager} {limit pointer blockId : Nat} {data : Nat → Block}

/-- Nothing is loaded at first. -/
theorem Confined.new (positive : 0 < limit) (device : Disk) :
    (CacheManager.new device).Confined limit device.data :=
  ⟨fun _ => positive, fun _ _ => rfl⟩

section

variable (confined : manager.Confined limit data)

include confined

/-- `sync`. -/
theorem Confined.sync (ran : manager.sync pointer = .ok () after) : after.Confined limit data := by
  simp only [CacheManager.sync, Disk.writeBlock] at ran
  split at ran
  · split at ran
    · rename_i written
      obtain ⟨-, rfl⟩ := Result.ok.inj ran
      split at written
      · obtain rfl := Except.ok.inj written
        refine ⟨fun other => ?_, fun id past => ?_⟩
        · by_cases same : other = pointer
          · subst same
            dsimp only
            rw [Function.update_self]
            exact confined.below other
          · dsimp only
            rw [Function.update_of_ne same]
            exact confined.below other
        · dsimp only
          rw [Function.update_of_ne (Nat.ne_of_gt (Nat.lt_of_lt_of_le (confined.below _) past))]
          exact confined.kept id past
      · cases written
    · cases ran
  · obtain ⟨-, rfl⟩ := Result.ok.inj ran
    exact confined

/-- The drop of an owner. -/
theorem Confined.dropped (ran : manager.dropped pointer = .ok () after) :
    after.Confined limit data := by
  unfold CacheManager.dropped at ran
  split at ran
  · exact confined.sync ran
  · obtain ⟨-, rfl⟩ := Result.ok.inj ran
    exact confined

/-- The substitution. -/
theorem Confined.substitute (ran : manager.substitute = .ok () after) :
    after.Confined limit data := by
  unfold CacheManager.substitute at ran
  split at ran
  · split at ran
    · split at ran
      · refine Confined.dropped ?_ ran
        exact ⟨confined.below, confined.kept⟩
      · cases ran
    · cases ran
  · obtain ⟨-, rfl⟩ := Result.ok.inj ran
    exact confined

/-- A block below the limit is loaded. -/
theorem Confined.load (inside : blockId < limit) (ran : manager.load blockId = .ok pointer after) :
    after.Confined limit data := by
  unfold CacheManager.load at ran
  split at ran
  · obtain ⟨-, rfl⟩ := Result.ok.inj ran
    refine ⟨fun other => ?_, confined.kept⟩
    by_cases same : other = manager.next
    · subst same
      dsimp only
      rw [Function.update_self]
      exact inside
    · dsimp only
      rw [Function.update_of_ne same]
      exact confined.below other
  · cases ran

/-- `get` of a block below the limit. -/
theorem Confined.get (inside : blockId < limit) (ran : manager.get blockId = .ok pointer after) :
    after.Confined limit data := by
  unfold CacheManager.get at ran
  split at ran
  · obtain ⟨-, rfl⟩ := Result.ok.inj ran
    exact ⟨confined.below, confined.kept⟩
  · cases substituted : manager.substitute with
    | error error middle =>
      rw [substituted] at ran
      cases ran
    | ok _ middle =>
      rw [substituted] at ran
      exact (confined.substitute substituted).load inside ran

/-- A new block in memory. -/
theorem Confined.modify (pointer : Nat) (block : Block) :
    (manager.modify pointer block).Confined limit data := by
  refine ⟨fun other => ?_, confined.kept⟩
  by_cases same : other = pointer
  · subst same
    dsimp only [CacheManager.modify]
    rw [Function.update_self]
    exact confined.below other
  · dsimp only [CacheManager.modify]
    rw [Function.update_of_ne same]
    exact confined.below other

/-- The loop of `flush`. -/
theorem Confined.syncAll {pointers : List Nat} (ran : manager.syncAll pointers = .ok () after) :
    after.Confined limit data := by
  induction pointers generalizing manager with
  | nil =>
    obtain ⟨-, rfl⟩ := Result.ok.inj ran
    exact confined
  | cons pointer rest ih =>
    rw [CacheManager.syncAll] at ran
    cases synced : manager.sync pointer with
    | error error middle =>
      rw [synced] at ran
      cases ran
    | ok _ middle =>
      rw [synced] at ran
      exact ih (confined.sync synced) ran

end

end CacheManager

/-- The rules of a device confine the cache to its blocks. -/
theorem Prog.kept_confined (totalBlocks : Nat) (data : Nat → Block) :
    Kept (deviceRules totalBlocks) fun memory => memory.manager.Confined totalBlocks data where
  enter := by
    intro memory inner held contents blockId pointer access holding admits entered confined
    unfold Memory.acquire at entered
    cases got : memory.manager.get blockId with
    | error error manager =>
      rw [got] at entered
      cases entered
    | ok found manager =>
      simp only [got] at entered
      split at entered
      · cases entered
      · obtain ⟨-, rfl⟩ := Result.ok.inj entered
        exact confined.get admits.valid got
  store := by
    intro memory pointer new confined
    cases new with
    | none => exact confined
    | some block => exact confined.modify pointer block
  leave := by
    intro memory outer pointer left confined
    unfold Memory.leave at left
    split at left
    · cases left
    · rename_i released
      obtain ⟨-, rfl⟩ := Result.ok.inj left
      refine CacheManager.Confined.dropped ?_ released
      exact ⟨confined.below, confined.kept⟩
  flush := by
    intro memory final contents holding ran confined
    unfold Memory.flush at ran
    split at ran
    · cases ran
    · split at ran
      · cases ran
      · rename_i flushed
        obtain ⟨-, rfl⟩ := Result.ok.inj ran
        exact confined.syncAll flushed

/-- A call with a specification keeps the cache confined at every point, and when it returns. -/
theorem Session.Backed.confined {α : Type} {session : Session} {totalBlocks : Nat}
    {store data : Nat → Block} (backed : session.Backed totalBlocks store) {call : FsM α}
    {post : α → Inodes → (Nat → Block) → Prop} {failed : Panic → (Nat → Block) → Prop}
    (spec : FsM.wp (Prog.deviceRules totalBlocks) call session.inodes post failed store)
    (confined : session.manager.Confined totalBlocks data) :
    (∀ seen ∈ (call.run session.inodes).trace (Memory.idle session.manager),
      seen.manager.Confined totalBlocks data) ∧
    ∀ value after, session.exec call = .ok value after →
      after.manager.Confined totalBlocks data := by
  obtain ⟨during, final⟩ := (Prog.kept_confined totalBlocks data).of_wp
    (show 5 ≤ cacheSize by decide)
    (fun blockId valid => Nat.lt_of_lt_of_le valid backed.onDevice)
    (Memory.Holding.idle backed.coherent backed.idle) spec confined
  refine ⟨during, fun value after ran => ?_⟩
  unfold exec at ran
  cases outcome : (call.run session.inodes).exec (Memory.idle session.manager) with
  | error error memory =>
    rw [outcome] at ran
    cases ran
  | ok out memory =>
    rw [outcome] at ran
    obtain ⟨-, rfl⟩ := Result.ok.inj ran
    exact final out memory outcome

/-! ## The virtual file system -/

/-- What the blocks hold depends on the blocks of the file system only. -/
theorem Cafs.Holds.congr {fs : Cafs} {totalBlocks : Nat} {volume : Volume}
    {extents : Nat → Extent} {marked : Nat → Bool} {store after : Nat → Block}
    (holds : fs.Holds store volume extents marked) (geometry : fs.Geometry totalBlocks)
    (same : ∀ id < totalBlocks, after id = store id) : fs.Holds after volume extents marked := by
  obtain ⟨first, inodeArea, dataBitmap, dataArea, inside, -⟩ := geometry
  have counted := holds.counted
  refine { holds with
    inodes := holds.inodes.congr fun id owns => same id ?_
    placed := fun number file found => ?_
    marks := holds.marks.congr fun id owns => same id ?_ }
  · obtain ⟨-, below⟩ := owns
    omega
  · obtain ⟨inVolume, -⟩ := List.getElem?_eq_some_iff.mp found
    obtain ⟨record, seen, placed⟩ := holds.placed number file found
    refine ⟨record, ?_, placed.congr fun id idIn => same id ?_⟩
    · rw [same _ (by omega)]
      exact seen
    · obtain ⟨-, below, -⟩ := holds.owned number inVolume id idIn
      omega
  · obtain ⟨-, below⟩ := owns
    omega

section Vfs

variable {vfs first : Vfs} {totalBlocks inodeBitmapBlocks depth : Nat} {volume : Volume}
  {children : List Nat} {folder : Folder} {device : Disk} {data : Nat → Block}

/-- A path without `/` runs no further. -/
theorem wp_parsed_none {rules : Scoped.Discipline Nat} {inodes : Inodes} {store : Nat → Block}
    {failed : Panic → (Nat → Block) → Prop} {path : String} (unparsed : parsePath path = none)
    {post : Path → Inodes → (Nat → Block) → Prop} (goal : failed .unwrapNone store) :
    FsM.wp rules (parsed path) inodes post failed store := by
  rw [parsed, unparsed]
  exact goal

/-- The rules of the device hold along every call that the folder allows. -/
theorem Vfs.Mirrors.spec (mirrors : vfs.Mirrors totalBlocks volume children folder)
    {call : VfsCall} (allowed : folder.Allows call) : ∃ store,
    vfs.session.Backed totalBlocks store ∧
      FsM.wp (Prog.deviceRules totalBlocks) (call.run vfs.session.fs vfs.root)
        vfs.session.inodes (fun _ _ _ => True) (fun _ _ => True) store := by
  obtain ⟨extents, marked, store, serves, headed⟩ := mirrors.shown.served
  refine ⟨store, serves.backed, ?_⟩
  cases parses : parsePath call.path with
  | none =>
    cases call with
    | create path => exact FsM.wp_bind.mpr (wp_parsed_none parses trivial)
    | write path contents => exact FsM.wp_bind.mpr (wp_parsed_none parses trivial)
    | readUnstable path => exact FsM.wp_bind.mpr (wp_parsed_none parses trivial)
  | some isPath =>
    cases walks : vfs.root.walk (call.searched isPath) with
    | error name =>
      have absent := findDentry_of_walk_error walks
      cases call with
      | create path =>
        apply FsM.wp_bind.mpr (wp_parsed parses _)
        rw [show findDentry vfs.root isPath.parents = _ from absent]
        trivial
      | write path contents =>
        apply FsM.wp_bind.mpr (wp_parsed parses _)
        rw [show findDentry vfs.root isPath.components = _ from absent]
        trivial
      | readUnstable path =>
        apply FsM.wp_bind.mpr (wp_parsed parses _)
        rw [show findDentry vfs.root isPath.components = _ from absent]
        trivial
    | ok dentry =>
      cases call with
      | create path =>
        obtain ⟨file, found, isSmall⟩ := mirrors.shown.found walks
        have keeps := keeps_appendEntry file.contents volume.length
        rw [← extended_eq serves found isSmall] at keeps
        exact wp_vfsCreate serves.represents parses walks found keeps
          (fun _ _ _ _ _ _ _ _ _ => trivial) (fun _ => trivial) (fun _ _ => trivial)
          (fun _ _ => trivial) fun _ _ => trivial
      | write path contents =>
        obtain ⟨file, found, -⟩ := mirrors.shown.found walks
        have looked : folder.look isPath.name = some file.contents := by
          rw [mirrors.look_eq, mirrors.walk_components walks, Option.map_some,
            Volume.contentsAt_eq found]
        have wide : contents.length < 2 ^ 64 := by
          have bound := allowed.1
          obtain ⟨-, -, -, -, -, -, -, top⟩ := levelConstants
          omega
        apply wp_vfsWrite parses walks
        exact Cafs.wp_write serves.represents found wide
          (allowed.2 isPath file.contents parses looked) (fun _ _ _ _ _ _ _ => trivial)
          (fun _ _ => trivial) fun _ _ _ => trivial
      | readUnstable path =>
        obtain ⟨file, found, -⟩ := mirrors.shown.found walks
        exact wp_readUnstable serves.represents parses walks found (fun _ _ => trivial)
          fun _ _ => trivial

variable {fs : Cafs} {extents : Nat → Extent} {marked : Nat → Bool}

/-- A mount confines the cache. -/
theorem Session.confined_of_mount {session : Session} (headed : fs.Headed device.data)
    (positive : 0 < totalBlocks) (onDevice : totalBlocks ≤ device.totalBlocks)
    (mounted : mount device = some session) : session.manager.Confined totalBlocks device.data := by
  obtain ⟨block, seen, valid, parts, reach⟩ := headed
  have backed : (blank device).Backed totalBlocks device.data :=
    ⟨CacheManager.Coherent.new device, rfl, onDevice⟩
  have spec : FsM.wp (Prog.deviceRules totalBlocks) (onBlocks Cafs.openFs) (blank device).inodes
      (fun _ _ _ => True) (fun _ _ => True) device.data := by
    refine FsM.wp_onBlocks.mpr (wp_readAt (by rw [width_superBlock]; decide) seen
      ⟨positive, by simp, Nat.zero_lt_succ 4⟩ ?_)
    rw [if_pos valid, parts, if_pos reach]
    trivial
  unfold mount at mounted
  cases ran : (blank device).exec (onBlocks Cafs.openFs) with
  | error error after =>
    rw [ran] at mounted
    cases mounted
  | ok found after =>
    rw [ran] at mounted
    obtain rfl := Option.some.inj mounted
    exact (backed.confined spec (CacheManager.Confined.new positive device)).2 found after ran

/-- `VFS::new` confines the cache. -/
theorem Vfs.confined_of_new (geometry : fs.Geometry totalBlocks) (headed : fs.Headed device.data)
    (holds : fs.Holds device.data volume extents marked)
    (onDevice : totalBlocks ≤ device.totalBlocks) (small : volume.Small) {root : File}
    (found : volume[0]? = some root) (isDir : root.type = .dir)
    (isListed : root.contents = directoryBytes children)
    (files : ∀ child ∈ children, child ≠ 0 ∧ ∃ file, volume[child]? = some file ∧ file.type = .file)
    (mounted : new (depth + 2) device = some vfs) :
    vfs.session.manager.Confined totalBlocks device.data := by
  have positive := geometry.positive
  obtain ⟨session, isMounted, rfl, inodesEq, backed⟩ :=
    Session.exists_mount headed positive onDevice
  have confined := Session.confined_of_mount headed positive onDevice isMounted
  have rep : session.fs.Represents totalBlocks session.inodes device.data volume extents
      marked := ⟨geometry, holds, inodesEq ▸ Inodes.Coherent.new⟩
  have numbers : ∀ child ∈ children, child < 2 ^ 64 := by
    intro child childIn
    obtain ⟨-, file, foundChild, -⟩ := files child childIn
    obtain ⟨inside, -⟩ := List.getElem?_eq_some_iff.mp foundChild
    exact holds.number_lt geometry inside
  have spec : FsM.wp (Prog.deviceRules totalBlocks) (newRoot session.fs (depth + 2))
      session.inodes (fun _ _ _ => True) (fun _ _ => True) device.data :=
    wp_newRoot rep (inodesEq ▸ Inodes.Roomy.new) found isDir
      (small root (List.mem_of_getElem? found)) isListed numbers
      (fun child childIn => (files child childIn).2) depth fun _ _ _ _ => trivial
  unfold new at mounted
  rw [isMounted] at mounted
  dsimp only at mounted
  cases ran : session.exec (newRoot session.fs (depth + 2)) with
  | error error after =>
    rw [ran] at mounted
    cases mounted
  | ok tree after =>
    rw [ran] at mounted
    obtain rfl := Option.some.inj mounted
    exact (backed.confined spec confined).2 tree after ran

/-- A remount keeps the cache confined. -/
theorem Vfs.Mirrors.confined_of_remount
    (mirrors : vfs.Mirrors totalBlocks volume children folder)
    (confined : vfs.session.manager.Confined totalBlocks data) {after : Vfs}
    (remounted : vfs.remount (depth + 2) = some after) :
    after.session.manager.Confined totalBlocks data := by
  obtain ⟨extents, marked, store, serves, headed⟩ := mirrors.shown.served
  obtain ⟨flushed, ran, onDisk, onDevice⟩ := serves.backed.flush_settled
  obtain ⟨root, found, isDir, isListed, -, -⟩ := mirrors.shown.top
  have spec : FsM.wp (Prog.deviceRules totalBlocks) vfs.session.fs.flush vfs.session.inodes
      (fun _ _ _ => True) (fun _ _ => True) store := Cafs.wp_flush trivial
  have settled := (serves.backed.confined spec confined).2 () flushed ran
  rw [remount, ran] at remounted
  have again := Vfs.confined_of_new serves.represents.geometry (onDisk ▸ headed)
    (onDisk ▸ serves.represents.holds) onDevice mirrors.shown.small found isDir isListed
    mirrors.shown.files remounted
  exact ⟨again.below, fun id past => (again.kept id past).trans (settled.kept id past)⟩

/-- A run keeps the cache confined. -/
theorem Vfs.Mirrors.confined_of_trace
    (mirrors : first.Mirrors totalBlocks volume children folder)
    (confined : first.session.manager.Confined totalBlocks data) {events : List VfsEvent}
    (trace : Trace (Vfs.Shown (depth + 2)) first events vfs)
    (permits : Folder.contract.Permits folder events) :
    vfs.session.manager.Confined totalBlocks data ∧ ∃ volumeAfter childrenAfter,
      vfs.Mirrors totalBlocks volumeAfter childrenAfter (Folder.contract.after folder events) := by
  refine (Contract.explains_of_trace
    (fun vfs folder => vfs.session.manager.Confined totalBlocks data ∧
      ∃ volume children, vfs.Mirrors totalBlocks volume children folder)
    ?_ trace ⟨confined, volume, children, mirrors⟩ permits).2
  rintro vfs after folder event ⟨confined, volume, children, mirrors⟩ may shown
  cases shown with
  | call ran =>
    obtain ⟨isReply, kept⟩ := mirrors.call may ran
    obtain ⟨store, backed, spec⟩ := mirrors.spec may
    exact ⟨isReply, (backed.confined spec confined).2 _ _ (Vfs.exec_eq_ok.mp ran), kept⟩
  | lsRoot => exact ⟨mirrors.lsRoot_eq, confined, volume, children, mirrors⟩
  | remount again =>
    exact ⟨trivial, mirrors.confined_of_remount confined again, volume, children,
      mirrors.of_fresh (mirrors.shown.fresh again).1⟩

/-- An image is where its blocks are. -/
theorem ImgOn.congr {disk : Disk} {size : Nat} {file : List UInt8} {test hello : NameBytes}
    (img : ImgOn disk size file fs extents marked test hello)
    (onDevice : 2048 * size ≤ device.totalBlocks)
    (same : ∀ id < 2048 * size, device.data id = disk.data id) :
    ImgOn device size file fs extents marked test hello := by
  have positive : 0 < 2048 * size := by
    have inodeArea := img.geometry.inodeArea
    have dataBitmap := img.geometry.dataBitmap
    have dataArea := img.geometry.dataArea
    have inside := img.geometry.inside
    omega
  exact { img with
    headed := img.headed.congr (same 0 positive)
    holds := img.holds.congr img.geometry same
    onDevice }

/-- A mount of an image shows its folder and confines the cache. -/
theorem ImgOn.mounts_confined {size : Nat} {file : List UInt8} {test hello : NameBytes}
    (img : ImgOn device size file fs extents marked test hello) (depth : Nat) :
    ∃ vfs volume children, Vfs.new (depth + 2) device = some vfs ∧
      vfs.Mirrors (2048 * size) volume children (imgFolder file) ∧
      vfs.session.manager.Confined (2048 * size) device.data := by
  obtain ⟨vfs, volume, children, mounted, mirrors⟩ := img.mounts depth
  have confined := Vfs.confined_of_new img.geometry img.headed img.holds img.onDevice img.isSmall
    (Volume.getElem?_ofFiles_zero _) rfl rfl (Volume.files_img test hello file) mounted
  exact ⟨vfs, volume, children, mounted, mirrors, confined⟩

/-- `init` confines the cache. -/
theorem Session.confined_of_fromInit {start : Session} (small : totalBlocks < 2 ^ 64)
    (positive : 0 < totalBlocks)
    (isStart : fromInit device totalBlocks inodeBitmapBlocks = some start) :
    start.manager.Confined totalBlocks device.data := by
  have backed : (blank device).Backed totalBlocks device.data :=
    ⟨CacheManager.Coherent.new device, rfl, le_of_fromInit isStart⟩
  have spec : FsM.wp (Prog.deviceRules totalBlocks) (Cafs.init totalBlocks inodeBitmapBlocks)
      (blank device).inodes (fun _ _ _ => True) (fun _ _ => True) device.data :=
    Cafs.wp_init small (fun _ _ _ _ _ => trivial) (fun _ => trivial) fun _ _ => trivial
  unfold fromInit at isStart
  cases ran : (blank device).exec (Cafs.init totalBlocks inodeBitmapBlocks) with
  | error error after =>
    rw [ran] at isStart
    cases isStart
  | ok fs after =>
    rw [ran] at isStart
    obtain rfl := Option.some.inj isStart
    exact (backed.confined spec (CacheManager.Confined.new positive device)).2 fs after ran

/-- A mount of a device just set up is confined. -/
theorem Vfs.confined_of_fromInit {start : Session} (small : totalBlocks < 2 ^ 64)
    (isStart : Session.fromInit device totalBlocks inodeBitmapBlocks = some start)
    (mounted : new (depth + 2) start.manager.device = some first) :
    first.session.manager.Confined totalBlocks device.data := by
  obtain ⟨-, -, -, store, serves, -⟩ := Session.serves_of_fromInit small isStart
  have onDisk := Session.settled_of_fromInit small isStart
  have headed := Session.headed_of_fromInit small isStart
  rw [← onDisk] at headed
  rw [serves.backed.contents_eq] at onDisk
  have isListed : ([] : List UInt8) = directoryBytes [] := rfl
  have again := confined_of_new serves.represents.geometry headed
    (onDisk ▸ serves.represents.holds) serves.backed.onDevice Volume.small_initial rfl rfl
    isListed (by simp) mounted
  have started := Session.confined_of_fromInit small
    (Nat.lt_of_le_of_lt (Nat.zero_le _) (again.below 0)) isStart
  exact ⟨again.below, fun id past => (again.kept id past).trans (started.kept id past)⟩

/-- Whatever users do with a file system on the first blocks of a device, the device keeps the
blocks behind it as they were before `init`: after any run of allowed calls, listings and remounts,
and at every point of the call that comes next, whether or not it returns. -/
theorem blocks_behind_kept {start : Session} {events : List VfsEvent} {call : VfsCall}
    (small : totalBlocks < 2 ^ 64)
    (isStart : Session.fromInit device totalBlocks inodeBitmapBlocks = some start)
    (mounted : Vfs.new (depth + 2) start.manager.device = some first)
    (trace : Trace (Vfs.Shown (depth + 2)) first events vfs)
    (permits : Folder.contract.Permits Folder.empty events)
    (allowed : (Folder.contract.after Folder.empty events).Allows call) :
    ∀ seen ∈ ((call.run vfs.session.fs vfs.root).run vfs.session.inodes).trace
        (Memory.idle vfs.session.manager),
      ∀ id, totalBlocks ≤ id → seen.manager.device.data id = device.data id := by
  obtain ⟨same, isSame, fresh, -⟩ := Vfs.fresh_of_fromInit small isStart depth
  obtain rfl := Option.some.inj (isSame.symm.trans mounted)
  obtain ⟨confined, volume, children, mirrors⟩ := fresh.mirrors_empty.confined_of_trace
    (Vfs.confined_of_fromInit small isStart mounted) trace permits
  obtain ⟨store, backed, spec⟩ := mirrors.spec allowed
  intro seen seenIn
  exact ((backed.confined spec confined).1 seen seenIn).kept

end Vfs

/-- A run on the first 64 MiB of a device keeps the block behind them. -/
theorem blocks_behind_kept_last : ∃ start first vfs,
    Session.fromInit (Disk.new 131073) 131072 2 = some start ∧
      Vfs.new 2 start.manager.device = some first ∧
      Trace (Vfs.Shown 2) first testEvents vfs ∧
      ∀ seen ∈ (((VfsCall.readUnstable "/a").run vfs.session.fs vfs.root).run
          vfs.session.inodes).trace (Memory.idle vfs.session.manager),
        seen.manager.device.data 131072 = Block.zero := by
  obtain ⟨start, first, vfs, isStart, mounted, trace⟩ :=
    @exists_testEvents (Disk.new 131073) (by decide)
  have allowed : (Folder.contract.after Folder.empty testEvents).Allows (.readUnstable "/a") :=
    trivial
  have kept := blocks_behind_kept (by decide) isStart mounted trace
    ⟨allows_testCreate, allows_testWrite, trivial, trivial⟩ allowed
  exact ⟨start, first, vfs, isStart, mounted, trace, fun seen seenIn =>
    kept seen seenIn 131072 (Nat.le_refl _)⟩

end Canyon.Fs
