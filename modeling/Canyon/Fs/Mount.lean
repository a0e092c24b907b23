import Canyon.Fs.Runs
import Mathlib.Order.Interval.Set.Basic
import Mathlib.Order.Disjoint
import Mathlib.Order.CompletePartialOrder

/-!
# Opening a device

`CAFS::init` divides a device into regions and records their sizes in the super block;
`CAFS::open` computes the same division from the record. The regions follow one another, the
inodes have slots of their own, and no allocation leaves the data area.
-/

namespace Canyon.Fs

open Canyon.Lib
open EStateM (Result)

/-! ## Regions -/

/-- A run of blocks. -/
structure Region where
  /-- The first block. -/
  start : Nat
  /-- The number of blocks. -/
  count : Nat

namespace Region

/-- The block after the last one. -/
def stop (region : Region) : Nat := region.start + region.count

/-- The blocks of a region. -/
def blocks (region : Region) : Set Nat := Set.Ico region.start region.stop

/-- The bytes of a region, counted from the start of the device. -/
def bytes (region : Region) : Set Nat :=
  Set.Ico (region.start * blockSize) (region.stop * blockSize)

/-- Regions follow one another from the block `first` to the block `last`. -/
def Consecutive : Nat → List Region → Nat → Prop
  | first, [], last => first = last
  | first, region :: rest, last => region.start = first ∧ Consecutive region.stop rest last

/-- Regions that follow one another lie after the first block of the first. -/
theorem Consecutive.le_start {regions : List Region} {first last : Nat}
    (consecutive : Consecutive first regions last) : ∀ region ∈ regions, first ≤ region.start := by
  induction regions generalizing first with
  | nil => simp
  | cons region rest ih =>
    obtain ⟨isFirst, following⟩ := consecutive
    refine List.forall_mem_cons.mpr ⟨Nat.le_of_eq isFirst.symm, fun later laterIn => ?_⟩
    have after := ih following later laterIn
    unfold stop at after
    omega

/-- Regions that follow one another share no block. -/
theorem Consecutive.pairwise_disjoint {regions : List Region} {first last : Nat}
    (consecutive : Consecutive first regions last) :
    (regions.map blocks).Pairwise Disjoint := by
  induction regions generalizing first with
  | nil => exact List.Pairwise.nil
  | cons region rest ih =>
    obtain ⟨-, following⟩ := consecutive
    refine List.pairwise_cons.mpr ⟨?_, ih following⟩
    intro _ laterIn
    obtain ⟨later, isLater, rfl⟩ := List.mem_map.mp laterIn
    have after := following.le_start later isLater
    refine Set.disjoint_left.mpr fun block inside laterInside => ?_
    have upper := inside.2
    have lower := laterInside.1
    omega

end Region

/-! ## The regions of a device -/

namespace SuperBlock

variable (block : SuperBlock)

/-- The parts that `CAFS::open` computes. -/
def parts : Cafs :=
  Cafs.layout block.inodeBitmapBlocks block.inodeAreaBlocks block.dataBitmapBlocks

/-- The inode area. -/
def inodeArea : Region := ⟨block.parts.inodeAreaStartBlock, block.inodeAreaBlocks⟩

/-- The data area. -/
def dataArea : Region := ⟨block.parts.dataAreaStartBlock, block.dataAreaBlocks⟩

/-- Super block, inode bitmap, inode area, data bitmap and data area. -/
def regions : List Region :=
  [⟨0, 1⟩, ⟨block.parts.inodeBitmap.startBlockId, block.parts.inodeBitmap.blocks⟩,
    block.inodeArea, ⟨block.parts.dataBitmap.startBlockId, block.parts.dataBitmap.blocks⟩,
    block.dataArea]

end SuperBlock

/-- The bytes of the device that the `Meta` of an inode takes. -/
def Cafs.slot (fs : Cafs) (inodeNumber : Nat) : Set Nat :=
  let position := (fs.inodePosOf inodeNumber).1 * blockSize + (fs.inodePosOf inodeNumber).2
  Set.Ico position (position + metaCodec.width)

/-- The division of a device is sound. -/
structure SuperBlock.Sound (block : SuperBlock) (totalBlocks : Nat) : Prop where
  /-- The regions follow one another and end with the device. -/
  consecutive : Region.Consecutive 0 block.regions totalBlocks
  /-- No two regions share a block. -/
  disjoint : (block.regions.map Region.blocks).Pairwise Disjoint
  /-- The slot of every inode lies in the inode area. -/
  inside : ∀ number < block.parts.inodeBitmap.totalCount,
    block.parts.slot number ⊆ block.inodeArea.bytes
  /-- No two inodes share a byte. -/
  apart : ∀ left < block.parts.inodeBitmap.totalCount,
    ∀ right < block.parts.inodeBitmap.totalCount, left ≠ right →
      Disjoint (block.parts.slot left) (block.parts.slot right)
  /-- `alloc_data` returns blocks of the data area, whatever the device and the caches hold. -/
  allocated : ∀ (session after : Session) (id : Nat),
    session.exec (onBlocks block.parts.allocData) = .ok id after →
      id ∈ block.dataArea.blocks ∧ id < totalBlocks

/-! ## What an allocation can return -/

/-- The values of a locked access, whatever the block holds. -/
theorem yields_lockedAt {α γ : Type} {codec : Codec α} {blockId offset : Nat}
    {body : α → Prog (γ × Option α)} {post : γ → Prop}
    (yields : ∀ value, codec.Fits value → (body value).Yields fun found => post found.1) :
    (lockedAt codec blockId offset body).Yields post := by
  intro content
  dsimp only
  by_cases inside : offset + codec.width ≤ blockSize
  · rw [if_pos inside]
    cases seen : content.view codec offset with
    | none => trivial
    | some value =>
      exact Scoped.yields_bind.mpr (yields value (Block.fits_of_view inside seen))
  · rw [if_neg inside]
    trivial

/-- `alloc` returns positions of the bitmap only. -/
theorem Bitmap.yields_alloc (bitmap : Bitmap) :
    bitmap.alloc.Yields fun found => ∀ bit ∈ found, bit < bitmap.totalCount := by
  have bits : blockBits = 4096 := rfl
  suffices search : ∀ ids : List Nat, (∀ id ∈ ids, id < bitmap.blocks) →
      (bitmap.allocFrom ids).Yields fun found => ∀ bit ∈ found, bit < bitmap.totalCount from
    search _ fun id idIn => List.mem_range.mp idIn
  intro ids inside
  induction ids with
  | nil => simp [allocFrom, Scoped.Yields]
  | cons blockId rest ih =>
    have later := ih fun id idIn => inside id (List.mem_cons_of_mem _ idIn)
    have row := inside blockId List.mem_cons_self
    refine Scoped.yields_bind.mpr (yields_lockedAt fun words fits => ?_)
    cases search : words.firstFree with
    | none => exact later
    | some place =>
      obtain ⟨isRow, isColumn, -⟩ := words.firstFree_some fits search
      intro bit isBit
      obtain rfl := Option.mem_some_iff.mp isBit
      unfold totalCount
      rw [bits]
      omega

/-- `alloc_data` returns blocks that the data bitmap describes. -/
theorem Cafs.yields_allocData (fs : Cafs) : fs.allocData.Yields fs.InData := by
  refine Scoped.yields_bind.mpr (fs.dataBitmap.yields_alloc.mono ?_)
  intro found bounded
  cases found with
  | none => trivial
  | some bit =>
    have small := bounded bit (Option.mem_some_self bit)
    exact ⟨Nat.le_add_left _ _, by omega⟩

/-! ## The division that `init` makes -/

/-- An inode has the bytes of one block. -/
theorem Cafs.slot_eq (fs : Cafs) (inodeNumber : Nat) : fs.slot inodeNumber =
    Set.Ico ((fs.inodeAreaStartBlock + inodeNumber) * blockSize)
      ((fs.inodeAreaStartBlock + inodeNumber + 1) * blockSize) := by
  unfold slot
  rw [inodePosOf_eq, width_metaCodec]
  dsimp only
  rw [Nat.add_zero, Nat.succ_mul]

/-- The value of a program on the blocks, as a call. -/
theorem Session.exec_of_yields {α : Type} {program : Prog α} {post : α → Prop}
    {session after : Session} {value : α} (yields : program.Yields post)
    (ran : session.exec (onBlocks program) = .ok value after) : post value := by
  have both : ((onBlocks program).run session.inodes).Yields fun out => post out.1 :=
    Scoped.yields_bind.mpr yields
  unfold exec at ran
  cases outcome : Prog.exec ((onBlocks program).run session.inodes)
      (Memory.idle session.manager) with
  | ok out memory =>
    rw [outcome] at ran
    obtain ⟨rfl, -⟩ := Result.ok.inj ran
    have holds := Prog.exec_of_yields both outcome
    exact holds
  | error error memory =>
    rw [outcome] at ran
    cases ran

namespace SuperBlock

variable {block : SuperBlock} {totalBlocks : Nat}

/-- The regions follow one another, whatever their sizes. -/
theorem consecutive_regions (block : SuperBlock) : Region.Consecutive 0 block.regions
    (1 + block.inodeBitmapBlocks + block.inodeAreaBlocks + block.dataBitmapBlocks +
      block.dataAreaBlocks) := by
  refine ⟨rfl, rfl, rfl, ?_, rfl, ?_⟩
  · simp only [parts, Cafs.layout, inodeArea, Region.stop]
    omega
  · simp only [parts, Cafs.layout, dataArea, Region.stop, Region.Consecutive]
    omega

/-- A division with a block for every inode, and for every bit of the data bitmap, is sound. -/
theorem sound_of_sizes (inodes : block.inodeBitmapBlocks * blockBits ≤ block.inodeAreaBlocks)
    (data : block.dataBitmapBlocks * blockBits ≤ block.dataAreaBlocks)
    (whole : 1 + block.inodeBitmapBlocks + block.inodeAreaBlocks + block.dataBitmapBlocks +
      block.dataAreaBlocks = totalBlocks) : block.Sound totalBlocks := by
  have consecutive := block.consecutive_regions
  rw [whole] at consecutive
  refine ⟨consecutive, consecutive.pairwise_disjoint, ?_, ?_, ?_⟩
  · intro number inside byte inSlot
    have few : number < block.inodeAreaBlocks := Nat.lt_of_lt_of_le inside inodes
    rw [Cafs.slot_eq] at inSlot
    refine ⟨Nat.le_trans ?_ inSlot.1, Nat.lt_of_lt_of_le inSlot.2 ?_⟩
    · exact Nat.mul_le_mul_right _ (Nat.le_add_right _ _)
    · exact Nat.mul_le_mul_right _ (Nat.add_lt_add_left few _)
  · intro left _ right _ different
    have size : blockSize = 512 := rfl
    rw [Cafs.slot_eq, Cafs.slot_eq, size]
    refine Set.disjoint_left.mpr fun byte inLeft inRight => ?_
    rw [Set.mem_Ico] at inLeft inRight
    omega
  · intro session after id ran
    obtain ⟨lower, upper⟩ := Session.exec_of_yields block.parts.yields_allocData ran
    have start : block.parts.dataAreaStartBlock =
        1 + (block.inodeBitmapBlocks + block.inodeAreaBlocks) + block.dataBitmapBlocks := rfl
    have count : block.parts.dataBitmap.totalCount = block.dataBitmapBlocks * blockBits := rfl
    refine ⟨⟨lower, ?_⟩, by omega⟩
    show id < block.parts.dataAreaStartBlock + block.dataAreaBlocks
    omega

end SuperBlock

/-- The sizes that `init` computes give a sound division. -/
theorem Cafs.plan_sound {totalBlocks inodeBitmapBlocks : Nat}
    (room : 1 + inodeBitmapBlocks + (plan totalBlocks inodeBitmapBlocks).inodeAreaBlocks ≤
      totalBlocks) :
    (plan totalBlocks inodeBitmapBlocks).Sound totalBlocks := by
  have bits : blockBits = 4096 := rfl
  rw [plan_eq] at room ⊢
  unfold SuperBlock.initialize at room
  dsimp only at room
  refine SuperBlock.sound_of_sizes (Nat.le_refl _) ?_ ?_
  · unfold SuperBlock.initialize
    dsimp only
    rw [bits] at room ⊢
    omega
  · unfold SuperBlock.initialize
    dsimp only
    rw [bits] at room ⊢
    omega

/-! ## Opening what `init` has left -/

/-- `init` ends with a flush. -/
theorem Cafs.settles_init (totalBlocks inodeBitmapBlocks : Nat) (inodes : Inodes) :
    ((Cafs.init totalBlocks inodeBitmapBlocks).run inodes).Settles := by
  have seq : ∀ {α γ : Type} (call : FsM α) (next : α → FsM γ) (inodes : Inodes),
      (∀ value inodes, ((next value).run inodes).Settles) → ((call >>= next).run inodes).Settles :=
    fun _ _ _ settles => Scoped.settles_bind fun out => settles out.1 out.2
  unfold Cafs.init
  iterate 8 refine seq _ _ _ fun _ _ => ?_
  split
  · exact .inl ⟨_, rfl⟩
  · trivial

namespace Session

/-- The session that `CAFS::open` returns. -/
def mount (device : Disk) : Option Session :=
  match (blank device).exec (onBlocks Cafs.openFs) with
  | .ok fs session => some { session with fs }
  | .error _ _ => none

variable {device : Disk} {session : Session} {totalBlocks inodeBitmapBlocks : Nat}

/-- `open` on a device whose super block describes a file system. -/
theorem exists_mount {fs : Cafs} (headed : fs.Headed device.data) (positive : 0 < totalBlocks)
    (onDevice : totalBlocks ≤ device.totalBlocks) :
    ∃ session, mount device = some session ∧ session.fs = fs ∧ session.inodes = Inodes.new ∧
      session.Backed totalBlocks device.data := by
  have backed : (blank device).Backed totalBlocks device.data :=
    ⟨CacheManager.Coherent.new device, rfl, onDevice⟩
  obtain ⟨block, seen, valid, parts, reach⟩ := headed
  have spec : FsM.wp (Prog.deviceRules totalBlocks) (onBlocks Cafs.openFs) (blank device).inodes
      (fun found inodes store => found = fs ∧ inodes = Inodes.new ∧ store = device.data)
      (fun _ _ => False) device.data := by
    refine FsM.wp_onBlocks.mpr (wp_readAt (by rw [width_superBlock]; decide) seen
      ⟨positive, by simp, Nat.zero_lt_succ 4⟩ ?_)
    rw [if_pos valid, parts, if_pos reach]
    exact ⟨rfl, rfl, rfl⟩
  obtain ⟨found, after, store, ran, backedAfter, -, rfl, inodesEq, rfl⟩ := backed.returns spec
  refine ⟨{ after with fs := found }, by rw [mount, ran], rfl, inodesEq, ?_⟩
  exact ⟨backedAfter.coherent, backedAfter.idle, backedAfter.onDevice⟩

/-- `flush` returns, and leaves the blocks on the device. -/
theorem Backed.flush_settled {store : Nat → Block} (backed : session.Backed totalBlocks store) :
    ∃ after, session.exec session.fs.flush = .ok () after ∧
      after.manager.device.data = store ∧ totalBlocks ≤ after.manager.device.totalBlocks := by
  have spec : FsM.wp (Prog.deviceRules totalBlocks) session.fs.flush session.inodes
      (fun _ _ reached => reached = store) (fun _ _ => False) store := Cafs.wp_flush rfl
  obtain ⟨_, after, reached, ran, backedAfter, -, rfl⟩ := backed.returns spec
  refine ⟨after, ran, ?_, backedAfter.onDevice⟩
  unfold exec at ran
  cases outcome : Prog.exec (session.fs.flush.run session.inodes)
      (Memory.idle session.manager) with
  | error error memory =>
    rw [outcome] at ran
    cases ran
  | ok out memory =>
    rw [outcome] at ran
    obtain ⟨-, rfl⟩ := Result.ok.inj ran
    obtain ⟨contents, coherent, written⟩ := Prog.exec_of_settles (show 5 ≤ cacheSize by decide)
      (fun blockId valid => Nat.lt_of_lt_of_le valid backed.onDevice)
      (Memory.Holding.idle backed.coherent backed.idle) spec (.inl ⟨_, rfl⟩) outcome
    exact written.trans (coherent.view_eq.symm.trans backedAfter.contents_eq)

/-- `init` leaves its blocks on the device. -/
theorem settled_of_fromInit (small : totalBlocks < 2 ^ 64)
    (start : fromInit device totalBlocks inodeBitmapBlocks = some session) :
    session.manager.device.data = session.contents := by
  have onDevice := le_of_fromInit start
  unfold fromInit at start
  cases ran : (blank device).exec (Cafs.init totalBlocks inodeBitmapBlocks) with
  | error error after =>
    rw [ran] at start
    contradiction
  | ok fs after =>
    rw [ran] at start
    obtain rfl := Option.some.inj start
    have spec : FsM.wp (Prog.deviceRules totalBlocks) (Cafs.init totalBlocks inodeBitmapBlocks)
        Inodes.new (fun _ _ _ => True) (fun _ _ => True) device.data :=
      Cafs.wp_init small (fun _ _ _ _ _ => trivial) (fun _ => trivial) fun _ _ => trivial
    unfold exec at ran
    cases outcome : Prog.exec ((Cafs.init totalBlocks inodeBitmapBlocks).run
        (blank device).inodes) (Memory.idle (blank device).manager) with
    | error error memory =>
      rw [outcome] at ran
      cases ran
    | ok out memory =>
      rw [outcome] at ran
      obtain ⟨-, rfl⟩ := Result.ok.inj ran
      obtain ⟨contents, coherent, written⟩ := Prog.exec_of_settles (show 5 ≤ cacheSize by decide)
        (fun blockId valid => Nat.lt_of_lt_of_le valid onDevice)
        (Memory.Holding.idle (CacheManager.Coherent.new device) rfl) spec
        (Cafs.settles_init _ _ _) outcome
      exact written.trans coherent.view_eq.symm

end Session

/-- For every size of the device and of the inode bitmap for which `init` does not underflow,
its division is sound; when it returns, `open` on the device it leaves computes the same
division; and it returns whenever there is an inode and its arithmetic does not overflow. -/
theorem layout_sound {device : Disk} {totalBlocks inodeBitmapBlocks : Nat}
    (small : totalBlocks < 2 ^ 64) (onDevice : totalBlocks ≤ device.totalBlocks)
    (room : 1 + inodeBitmapBlocks +
      (Cafs.plan totalBlocks inodeBitmapBlocks).inodeAreaBlocks ≤ totalBlocks) :
    (Cafs.plan totalBlocks inodeBitmapBlocks).Sound totalBlocks ∧
    (∀ session, Session.fromInit device totalBlocks inodeBitmapBlocks = some session →
      session.fs = (Cafs.plan totalBlocks inodeBitmapBlocks).parts ∧
      (session.contents 0).view superBlock 0 = some (Cafs.plan totalBlocks inodeBitmapBlocks) ∧
      ∃ opened, Session.mount session.manager.device = some opened ∧ opened.fs = session.fs) ∧
    ((∃ session, Session.fromInit device totalBlocks inodeBitmapBlocks = some session) ↔
      0 < inodeBitmapBlocks ∧
        inodeBitmapBlocks * blockBits * metaCodec.width ≤ u64Max - blockSize) := by
  refine ⟨Cafs.plan_sound room, ?_, ?_⟩
  · intro session start
    obtain ⟨parts, -, -, store, serves, seen⟩ := Session.serves_of_fromInit small start
    have headed := Session.headed_of_fromInit small start
    have partsEq : Cafs.parted totalBlocks inodeBitmapBlocks =
        (Cafs.plan totalBlocks inodeBitmapBlocks).parts := by
      rw [Cafs.plan_eq]
      rfl
    rw [← Session.settled_of_fromInit small start] at headed
    rw [serves.backed.contents_eq]
    obtain ⟨opened, isOpened, fsEq, -⟩ :=
      Session.exists_mount headed (show 0 < totalBlocks by omega) serves.backed.onDevice
    exact ⟨parts.trans partsEq, seen, opened, isOpened, fsEq⟩
  · rw [Cafs.plan_eq] at room
    unfold SuperBlock.initialize at room
    dsimp only at room
    rw [width_metaCodec]
    constructor
    · rintro ⟨session, start⟩
      obtain ⟨parts, -, fitting, store, serves, -⟩ := Session.serves_of_fromInit small start
      have counted := serves.represents.holds.counted
      have count : session.fs.inodeBitmap.totalCount = inodeBitmapBlocks * 4096 := by
        rw [parts]
        rfl
      have one : Volume.initial.length = 1 := rfl
      exact ⟨by omega, fitting.1⟩
    · rintro ⟨positive, narrow⟩
      exact Session.exists_fromInit small ⟨narrow, by omega⟩ positive onDevice

/-- A device of 64 MiB with two blocks of inodes. -/
theorem layout_sound_disk :
    1 + 2 + (Cafs.plan 131072 2).inodeAreaBlocks ≤ 131072 ∧
      (Cafs.plan 131072 2).Sound 131072 := by
  have room : 1 + 2 + (Cafs.plan 131072 2).inodeAreaBlocks ≤ 131072 := by
    rw [Cafs.plan_eq]
    decide
  have onDevice : 131072 ≤ (Disk.new 131072).totalBlocks := Nat.le_refl _
  exact ⟨room, (layout_sound (by decide) onDevice room).1⟩

end Canyon.Fs
