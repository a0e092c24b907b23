import Canyon.Fs.Confined
import Canyon.Fs.CreateImg
import Canyon.Kernel.Dma
import Canyon.Kernel.Pci

/-!
# The partition of the kernel

The kernel finds its files on the first partition of a SATA drive that has the type of the file
system. The driver of the drive and the parser of its partition table come from other crates; what
they do is left open but for the sectors that the drive has. The file system sees the sectors from
the start of the partition on as a device of its own, without an end: neither the driver nor the
mount look at the last sector of the partition. An image written there is mounted and read as it was
made, and the sectors around it stay as they are, at every point of every call.
-/

namespace Canyon.Kernel

open Canyon.Lib
open Canyon.Fs

/-! ## The device of a partition -/

/-- `AHCI<Provider>`, as far as the kernel calls it: `none` is a panic. -/
structure Ahci where
  /-- A driver with its drive. -/
  Driver : Type
  /-- `AHCI::new`. -/
  new : Nat → Nat → Option (Option Driver)
  /-- `read_block`. -/
  readBlock : Driver → Nat → Option (Block × Driver)
  /-- `write_block`. -/
  writeBlock : Driver → Nat → Block → Option Driver
  /-- The sectors of the drive. -/
  drive : Driver → Disk
  /-- A sector of the drive is read, and the drive stays as it is. -/
  reads : ∀ driver sector, sector < (drive driver).totalBlocks →
    ∃ after, readBlock driver sector = some ((drive driver).data sector, after) ∧
      drive after = drive driver
  /-- A sector of the drive is written, and no other one. -/
  writes : ∀ driver sector block, sector < (drive driver).totalBlocks →
    ∃ after, writeBlock driver sector block = some after ∧
      drive after = ⟨(drive driver).totalBlocks,
        Function.update (drive driver).data sector block⟩

/-- `BLK`. -/
structure Blk (ahci : Ahci) where
  /-- `offset`. -/
  offset : Nat
  /-- `driver`. -/
  driver : ahci.Driver

namespace Blk

variable {ahci : Ahci}

/-- `read_block` of a partition. -/
def readBlock (blk : Blk ahci) (blockId : Nat) : Option (Block × Blk ahci) :=
  if blockId + blk.offset < 2 ^ 64 then
    (ahci.readBlock blk.driver (blockId + blk.offset)).map fun out => (out.1, ⟨blk.offset, out.2⟩)
  else none

/-- `write_block` of a partition. -/
def writeBlock (blk : Blk ahci) (blockId : Nat) (block : Block) : Option (Blk ahci) :=
  if blockId + blk.offset < 2 ^ 64 then
    (ahci.writeBlock blk.driver (blockId + blk.offset) block).map fun driver =>
      ⟨blk.offset, driver⟩
  else none

/-- The sectors behind a partition. -/
def sectors (blk : Blk ahci) : Disk := ahci.drive blk.driver

/-- The device that the file system sees. -/
def device (blk : Blk ahci) : Disk :=
  ⟨min blk.sectors.totalBlocks (2 ^ 64) - blk.offset, fun id => blk.sectors.data (id + blk.offset)⟩

/-- A partition with the blocks of a disk, behind the sectors that it had at first. -/
structure Carries (first blk : Blk ahci) (disk : Disk) : Prop where
  /-- The partition begins where it did. -/
  offset : blk.offset = first.offset
  /-- The sectors before it are the same. -/
  before : ∀ sector < first.offset, blk.sectors.data sector = first.sectors.data sector
  /-- Its blocks are those of the disk. -/
  device : blk.device = disk

variable {first blk : Blk ahci} {disk : Disk} {blockId : Nat} {block : Block}

/-- A block of the disk is a sector of the drive. -/
theorem Carries.sector_lt (carries : first.Carries blk disk) (inside : blockId < disk.totalBlocks) :
    blockId + blk.offset < 2 ^ 64 ∧ blockId + blk.offset < blk.sectors.totalBlocks := by
  rw [← carries.device] at inside
  change blockId < min blk.sectors.totalBlocks (2 ^ 64) - blk.offset at inside
  omega

/-- A read that the disk serves is served by the partition. -/
theorem Carries.readBlock (carries : first.Carries blk disk)
    (ran : disk.readBlock blockId = .ok block) :
    ∃ after, blk.readBlock blockId = some (block, after) ∧ first.Carries after disk := by
  unfold Disk.readBlock at ran
  split at ran
  · next inside =>
    obtain rfl := Except.ok.inj ran
    obtain ⟨narrow, inDrive⟩ := carries.sector_lt inside
    obtain ⟨driver, read, same⟩ := ahci.reads blk.driver _ inDrive
    have sectors : (⟨blk.offset, driver⟩ : Blk ahci).sectors = blk.sectors := same
    refine ⟨⟨blk.offset, driver⟩, ?_, carries.offset, fun sector before => ?_, ?_⟩
    · rw [Blk.readBlock, if_pos narrow, read, ← carries.device]
      rfl
    · rw [sectors]
      exact carries.before sector before
    · rw [Blk.device, sectors]
      exact carries.device
  · cases ran

/-- A write that the disk serves is served by the partition. -/
theorem Carries.writeBlock (carries : first.Carries blk disk) {written : Disk}
    (ran : disk.writeBlock blockId block = .ok written) :
    ∃ after, blk.writeBlock blockId block = some after ∧ first.Carries after written := by
  unfold Disk.writeBlock at ran
  split at ran
  · next inside =>
    obtain rfl := Except.ok.inj ran
    obtain ⟨narrow, inDrive⟩ := carries.sector_lt inside
    obtain ⟨driver, wrote, same⟩ := ahci.writes blk.driver _ block inDrive
    have sectors : (⟨blk.offset, driver⟩ : Blk ahci).sectors = ⟨blk.sectors.totalBlocks,
      Function.update blk.sectors.data (blockId + blk.offset) block⟩ := same
    refine ⟨⟨blk.offset, driver⟩, ?_, carries.offset, fun sector before => ?_, ?_⟩
    · rw [Blk.writeBlock, if_pos narrow, wrote]
      rfl
    · have different : sector ≠ blockId + blk.offset := by
        have := carries.offset
        omega
      rw [sectors]
      exact (Function.update_of_ne different _ _).trans (carries.before sector before)
    · rw [Blk.device, sectors, ← carries.device]
      refine congrArg (Disk.mk _) (funext fun id => ?_)
      dsimp only
      by_cases here : id = blockId
      · rw [here, Function.update_self, Function.update_self]
      · rw [Function.update_of_ne here, Function.update_of_ne (by omega)]
        rfl
  · cases ran

end Blk

/-! ## The partition table -/

/-- What `init_sata` reads of an entry of the partition table. -/
structure GptPartitionEntry where
  /-- `partition_type_guid`. -/
  partitionTypeGuid : BitVec 128
  /-- `starting_lba`. -/
  startingLba : Nat
deriving DecidableEq, Repr

/-- `PARTITION_UUID`. -/
def partitionUuid : BitVec 128 := 0x0c4216118e4a464eb68396265fc14532

/-- The loop of `init_sata` over the entries: `none` when one of them cannot be read. -/
def partitions (count : Nat) (entry : Nat → Option GptPartitionEntry) :
    Option (List GptPartitionEntry) := do
  let entries ← (List.range count).mapM entry
  return entries.filter fun entry => entry.partitionTypeGuid = partitionUuid

/-- The loop of `init_sata` that reads sectors of the drive. -/
def Ahci.readAll (ahci : Ahci) : List Nat → ahci.Driver → Option (List Block × ahci.Driver)
  | [], driver => some ([], driver)
  | sector :: rest, driver => do
    let (block, driver) ← ahci.readBlock driver sector
    let (blocks, driver) ← ahci.readAll rest driver
    return (block :: blocks, driver)

/-- Sectors of the drive are read one after the other. -/
theorem Ahci.readAll_eq {ahci : Ahci} {sectors : List Nat} {driver : ahci.Driver}
    (inside : ∀ sector ∈ sectors, sector < (ahci.drive driver).totalBlocks) :
    ∃ after, ahci.readAll sectors driver = some (sectors.map (ahci.drive driver).data, after) ∧
      ahci.drive after = ahci.drive driver := by
  induction sectors generalizing driver with
  | nil => exact ⟨driver, rfl, rfl⟩
  | cons sector rest ih =>
    obtain ⟨middle, read, same⟩ := ahci.reads driver sector (inside sector List.mem_cons_self)
    obtain ⟨after, ran, sameRest⟩ := @ih middle fun other otherIn =>
      same ▸ inside other (List.mem_cons_of_mem _ otherIn)
    refine ⟨after, ?_, sameRest.trans same⟩
    simp only [readAll, read, ran, same, Option.bind_eq_bind, Option.bind_some, Option.pure_def,
      List.map_cons]

/-! ## The drives of the machine -/

/-- A base address register. -/
inductive Bar where
  /-- `Memory`. -/
  | memory (addr len : Nat)
  /-- `IO`. -/
  | io (port len : Nat)
deriving DecidableEq, Repr

/-- What the kernel reads of a `PCIDevice`. -/
structure PciDevice where
  /-- `id.class`. -/
  classId : Nat
  /-- `id.subclass`. -/
  subclass : Nat
  /-- `bars[5]`. -/
  bar5 : Option Bar
  /-- The registers at `loc`. -/
  space : Pci.ConfigSpace

/-- What the kernel finds: the crates, the build and the placement of memory. -/
structure Machine where
  /-- The driver crate. -/
  ahci : Ahci
  /-- The entries that the crate for partition tables finds in the first sectors: their number, and
  each of them; `none` where the kernel unwraps an error. -/
  gpt : List Block → Option (Nat × (Nat → Option GptPartitionEntry))
  /-- The checks of the build. -/
  build : Pci.Build
  /-- How many capabilities `enable` is followed through. -/
  rounds : Nat
  /-- How deep `VFS::new` is followed. -/
  depth : Nat
  /-- `PHYSICAL_MEMORY_OFFSET`. -/
  offset : Nat

namespace Machine

/-- `fs::VFS`, and the partition behind it. -/
structure Mounted (machine : Machine) where
  /-- The partition as it was mounted. -/
  blk : Blk machine.ahci
  /-- The file system. -/
  vfs : Vfs

/-- The statics that `pci::init` changes. -/
structure Statics (machine : Machine) where
  /-- `MSI_IRQ`. -/
  msiIrq : Nat
  /-- `fs::VFS`. -/
  vfs : Option machine.Mounted

variable (machine : Machine)

/-- `init_sata` with a driver. -/
def mount (driver : machine.ahci.Driver) : Option machine.Mounted := do
  let (gptData, driver) ← machine.ahci.readAll (List.range 2048) driver
  let (numEntries, entry) ← machine.gpt gptData
  let found ← partitions numEntries entry
  let partition ← found[0]?
  let blk : Blk machine.ahci := ⟨partition.startingLba, driver⟩
  let vfs ← Vfs.new machine.depth blk.device
  return ⟨blk, vfs⟩

/-- `init_sata`; without a driver nothing happens. -/
def initSata (vfs : Option machine.Mounted) (barAddr barLen : Nat) :
    Option (Option machine.Mounted) := do
  let vaddr ← toVirtAddr machine.offset barAddr
  match ← machine.ahci.new vaddr barLen with
  | none => return vfs
  | some driver => return some (← machine.mount driver)

/-- `init_driver`: `none` when it panics or `enable` does not end. -/
def initDriver (statics : machine.Statics) (dev : PciDevice) : Option machine.Statics :=
  if dev.classId = 0x01 ∧ dev.subclass = 0x06 then
    match dev.bar5 with
    | some (.memory addr len) =>
      match Pci.enable machine.build machine.rounds dev.space statics.msiIrq with
      | some (.ok enabled) =>
        if len ≤ pageSize then
          (machine.initSata statics.vfs addr len).map fun vfs => ⟨enabled.msiIrq, vfs⟩
        else none
      | _ => none
    | _ => some statics
  else some statics

/-- `pci::init`, over the devices that are found on the bus. -/
def initAll (devices : List PciDevice) : Option machine.Statics :=
  devices.foldlM machine.initDriver ⟨23, none⟩

/-- A SATA device that is enabled and gets a driver, with an image on the first partition of the
type. -/
structure HasImage (dev : PciDevice) (msiIrq : Nat) (driver : machine.ahci.Driver)
    (startingLba size : Nat) (img : Disk) : Prop where
  /-- The device is a SATA controller. -/
  sata : dev.classId = 0x01 ∧ dev.subclass = 0x06
  /-- Its registers fit in a page and the crate finds a drive. -/
  attached : ∃ addr len vaddr, dev.bar5 = some (.memory addr len) ∧ len ≤ pageSize ∧
    toVirtAddr machine.offset addr = some vaddr ∧ machine.ahci.new vaddr len = some (some driver)
  /-- `enable` returns. -/
  enables : ∃ enabled,
    Pci.enable machine.build machine.rounds dev.space msiIrq = some (.ok enabled)
  /-- The drive has room for a partition table, and its sectors have numbers. -/
  sectors : 2048 ≤ (machine.ahci.drive driver).totalBlocks ∧
    (machine.ahci.drive driver).totalBlocks ≤ 2 ^ 64
  /-- The crate finds a table in the first sectors, and in it the partition. -/
  table : ∃ numEntries entry partition others,
    machine.gpt ((List.range 2048).map (machine.ahci.drive driver).data) =
      some (numEntries, entry) ∧
    partitions numEntries entry = some (partition :: others) ∧
    partition.startingLba = startingLba
  /-- The image is on the drive. -/
  inside : startingLba + 2048 * size ≤ (machine.ahci.drive driver).totalBlocks
  /-- The sectors of the partition are the blocks of the image. -/
  written : ∀ id < 2048 * size,
    (machine.ahci.drive driver).data (id + startingLba) = img.data id

end Machine

section Boot

variable {machine : Machine} {depth size startingLba msiIrq : Nat} {file : List UInt8} {img : Disk}
  {dev : PciDevice} {driver : machine.ahci.Driver}

/-- A drive mounts the image on its first partition of the type, and the cache is confined to the
blocks of the image. -/
theorem Machine.HasImage.exists_mount
    (has : machine.HasImage dev msiIrq driver startingLba size img)
    (narrow : size < 2 ^ 53) (short : file.length ≤ l4Max)
    (made : createImg size file = some img) (deep : machine.depth = depth + 2) :
    ∃ mounted volume children, machine.mount driver = some mounted ∧
      mounted.blk.offset = startingLba ∧ mounted.blk.sectors = machine.ahci.drive driver ∧
      mounted.vfs.Mirrors (2048 * size) volume children (imgFolder file) ∧
      mounted.vfs.session.manager.Confined (2048 * size) mounted.blk.device.data := by
  obtain ⟨fs, extents, marked, test, hello, made⟩ := exists_imgOn narrow short made
  obtain ⟨numEntries, entry, partition, others, table, isFirst, rfl⟩ := has.table
  have first : ∀ sector ∈ List.range 2048, sector < (machine.ahci.drive driver).totalBlocks :=
    fun sector isIn => Nat.lt_of_lt_of_le (List.mem_range.mp isIn) has.sectors.1
  obtain ⟨after, read, same⟩ := Ahci.readAll_eq first
  let blk : Blk machine.ahci := ⟨partition.startingLba, after⟩
  have sectors : blk.sectors = machine.ahci.drive driver := same
  have onDevice : 2048 * size ≤ blk.device.totalBlocks := by
    have inside := has.inside
    have wide := has.sectors.2
    show 2048 * size ≤ min blk.sectors.totalBlocks (2 ^ 64) - partition.startingLba
    rw [sectors]
    omega
  have written : ∀ id < 2048 * size, blk.device.data id = img.data id := by
    intro id isIn
    show blk.sectors.data (id + partition.startingLba) = _
    rw [sectors]
    exact has.written id isIn
  obtain ⟨vfs, volume, children, mounted, mirrors, confined⟩ :=
    (made.congr onDevice written).mounts_confined depth
  refine ⟨⟨blk, vfs⟩, volume, children, ?_, rfl, sectors, mirrors, confined⟩
  rw [← deep] at mounted
  simp only [mount, read, table, isFirst, Option.bind_eq_bind, Option.bind_some, Option.pure_def,
    List.getElem?_cons_zero]
  exact Option.bind_eq_some_iff.mpr ⟨vfs, mounted, rfl⟩

/-- A device that has an image is mounted. -/
theorem Machine.HasImage.initDriver_eq {statics : machine.Statics}
    (has : machine.HasImage dev statics.msiIrq driver startingLba size img)
    {mounted : machine.Mounted} (mounts : machine.mount driver = some mounted) :
    ∃ count, machine.initDriver statics dev = some ⟨count, some mounted⟩ := by
  obtain ⟨addr, len, vaddr, isBar, small, isAddr, isNew⟩ := has.attached
  obtain ⟨enabled, enables⟩ := has.enables
  refine ⟨enabled.msiIrq, ?_⟩
  simp only [initDriver, if_pos has.sata, isBar, enables, if_pos small, initSata, isAddr, isNew,
    mounts, Option.bind_eq_bind, Option.bind_some, Option.pure_def, Option.map_some]

/-- A machine whose last device has an image on its first partition of the type, and whose other
devices come up, comes up with the files of the image. A partition that carries a disk serves what
the disk serves, and carries it on. Whatever the kernel does that a folder allows shows what the
folder of the two files shows; and at every point of every call, a partition that carries the device
of the file system has the sectors before and behind the image that were on the drive at first. -/
theorem boot_mounts_partition (narrow : size < 2 ^ 53) (short : file.length ≤ l4Max)
    (made : createImg size file = some img) (deep : machine.depth = depth + 2)
    {before : List PciDevice} {statics : machine.Statics}
    (earlier : machine.initAll before = some statics)
    (has : machine.HasImage dev statics.msiIrq driver startingLba size img) :
    ∃ count mounted, machine.initAll (before ++ [dev]) = some ⟨count, some mounted⟩ ∧
      mounted.vfs.lsRoot = ["/", "test.txt", "hello"] ∧ mounted.vfs.Reads "/hello" file ∧
      mounted.blk.Carries mounted.blk mounted.blk.device ∧
      (∀ blk disk, mounted.blk.Carries blk disk →
        (∀ blockId block, disk.readBlock blockId = .ok block →
          ∃ after, blk.readBlock blockId = some (block, after) ∧ mounted.blk.Carries after disk) ∧
        ∀ blockId block written, disk.writeBlock blockId block = .ok written →
          ∃ after, blk.writeBlock blockId block = some after ∧
            mounted.blk.Carries after written) ∧
      ∀ events after, Trace (Vfs.Shown (depth + 2)) mounted.vfs events after →
        Folder.contract.Permits (imgFolder file) events →
        Folder.contract.Explains (imgFolder file) events ∧
        ∀ call, (Folder.contract.after (imgFolder file) events).Allows call →
          ∀ seen ∈ ((call.run after.session.fs after.root).run after.session.inodes).trace
              (Memory.idle after.session.manager),
            ∀ blk, mounted.blk.Carries blk seen.manager.device →
              ∀ sector, sector < startingLba ∨ startingLba + 2048 * size ≤ sector →
                blk.sectors.data sector = (machine.ahci.drive driver).data sector := by
  obtain ⟨mounted, volume, children, mounts, isOffset, isDrive, mirrors, confined⟩ :=
    has.exists_mount narrow short made deep
  obtain ⟨count, boots⟩ := has.initDriver_eq mounts
  refine ⟨count, mounted, ?_, mirrors.lsRoot_eq, mirrors.reads_img "hello" (by decide) rfl,
    ⟨rfl, fun _ _ => rfl, rfl⟩, fun blk disk carries =>
      ⟨fun _ _ => carries.readBlock, fun _ _ _ => carries.writeBlock⟩, ?_⟩
  · rw [Machine.initAll, List.foldlM_append, ← Machine.initAll, earlier]
    show (machine.initDriver statics dev).bind _ = _
    rw [boots]
    rfl
  · intro events after trace permits
    refine ⟨(mirrors.trace trace permits).1, ?_⟩
    intro call allowed seen seenIn blk carries sector outside
    obtain ⟨confinedAfter, _, _, mirrorsAfter⟩ :=
      mirrors.confined_of_trace confined trace permits
    obtain ⟨store, backed, spec⟩ := mirrorsAfter.spec allowed
    have kept := ((backed.confined spec confinedAfter).1 seen seenIn).kept
    rw [← isDrive]
    rcases outside with isBefore | behind
    · exact carries.before sector (isOffset ▸ isBefore)
    · have same := kept (sector - startingLba) (by omega)
      rw [← carries.device] at same
      change blk.sectors.data (sector - startingLba + blk.offset) =
        mounted.blk.sectors.data (sector - startingLba + mounted.blk.offset) at same
      rwa [carries.offset, isOffset, Nat.sub_add_cancel (by omega)] at same

end Boot

/-- A driver whose drive is an array of sectors. -/
def arrayDriver (drive : Disk) : Ahci where
  Driver := Disk
  new := fun _ _ => some (some drive)
  readBlock := fun disk sector => (disk.readBlock sector).toOption.map fun block => (block, disk)
  writeBlock := fun disk sector block => (disk.writeBlock sector block).toOption
  drive := id
  reads := fun disk _ inside =>
    ⟨disk, congrArg (fun out : Except Panic Block => out.toOption.map fun block => (block, disk))
      (if_pos inside), rfl⟩
  writes := fun _ _ _ inside =>
    ⟨_, congrArg Except.toOption (if_pos inside), rfl⟩

/-- A drive with an image on its second partition, the first that has the type. -/
def testDrive (img : Disk) : Disk :=
  ⟨200000, fun sector => if sector < 2048 then Block.zero else img.data (sector - 2048)⟩

/-- A machine with that drive. -/
def testMachine (img : Disk) : Machine where
  ahci := arrayDriver (testDrive img)
  gpt := fun _ => some (2, fun index => [⟨0, 34⟩, ⟨partitionUuid, 2048⟩][index]?)
  build := ⟨true, true⟩
  rounds := 3
  depth := 2
  offset := 0

/-- A bridge, and the controller of the drive. -/
def testDevices : List PciDevice × PciDevice :=
  ([⟨0x06, 0x00, none, Pci.ordinary⟩], ⟨0x01, 0x06, some (.memory 0xfebf1000 0x1000), Pci.ordinary⟩)

/-- The kernel reads the program of the image on that machine. -/
theorem boot_mounts_partition_second : ∃ img count mounted,
    createImg 50 testProgram = some img ∧
      (testMachine img).initAll (testDevices.1 ++ [testDevices.2]) = some ⟨count, some mounted⟩ ∧
      mounted.vfs.Reads "/hello" testProgram := by
  obtain ⟨test, hello, isTest, isHello⟩ := exists_imgNames
  have fits : (Volume.ofFiles [(test, utf8Bytes "Test File"), (hello, testProgram)]).blocks ≤
      (Cafs.parted (2048 * 50) 10).dataBitmap.totalCount := by
    rw [blocks_img, img_totalCount]
    decide
  have narrow : 50 < 2 ^ 53 := by decide
  have short : testProgram.length ≤ l4Max := by decide
  obtain ⟨img, made⟩ := exists_createImg narrow short isTest isHello fits
  have has : (testMachine img).HasImage testDevices.2 23 (testDrive img) 2048 50 img := by
    refine ⟨⟨rfl, rfl⟩, ⟨0xfebf1000, 0x1000, 0xfebf1000, rfl, Nat.le_refl _, ?_, rfl⟩,
      Pci.exists_enable_ordinary _, ⟨?_, ?_⟩,
      ⟨2, _, ⟨partitionUuid, 2048⟩, [], rfl, rfl, rfl⟩, ?_, fun id _ => ?_⟩
    · show toVirtAddr 0 0xfebf1000 = some 0xfebf1000
      decide
    · show 2048 ≤ 200000
      omega
    · show 200000 ≤ 2 ^ 64
      decide
    · show 2048 + 2048 * 50 ≤ 200000
      omega
    · have past : ¬ id + 2048 < 2048 := by omega
      have written : (testDrive img).data (id + 2048) = img.data id := by
        simp only [testDrive, if_neg past, Nat.add_sub_cancel]
      exact written
  obtain ⟨count, mounted, boots, -, reads, -⟩ := boot_mounts_partition narrow short made
    (show (testMachine img).depth = 0 + 2 from rfl)
    (show (testMachine img).initAll testDevices.1 = some ⟨23, none⟩ from rfl) has
  exact ⟨img, count, mounted, made, boots, reads⟩

end Canyon.Kernel
