import Canyon.Fs.Cafs
import Canyon.Fs.Laid

/-!
# Volumes

What a file system is for: a volume is a list of files, numbered by their inodes. `Cafs.Holds`
says that the blocks of a device hold a volume; the extents name the blocks of each file.
-/

namespace Canyon.Fs

open Canyon.Lib

/-- A file or directory, as its users know it. -/
structure File where
  /-- Whether it is a directory. -/
  type : InodeType
  /-- The bytes of its name. -/
  name : NameBytes
  /-- The contents last written. -/
  contents : List UInt8

/-- The files by inode number. -/
abbrev Volume := List File

namespace Volume

/-- Replace the contents of a file. -/
def write (volume : Volume) (inodeNumber : Nat) (contents : List UInt8) : Volume :=
  volume.modify inodeNumber fun file => { file with contents }

/-- Add an empty file. -/
def add (volume : Volume) (type : InodeType) (name : NameBytes) : Volume :=
  volume ++ [⟨type, name, []⟩]

/-- A write keeps the number of files. -/
@[simp] theorem length_write (volume : Volume) (inodeNumber : Nat) (contents : List UInt8) :
    (volume.write inodeNumber contents).length = volume.length :=
  List.length_modify ..

/-- A write replaces the contents of its file and keeps its type and name. -/
theorem getElem?_write_self {volume : Volume} {inodeNumber : Nat} {file : File}
    (found : volume[inodeNumber]? = some file) (contents : List UInt8) :
    (volume.write inodeNumber contents)[inodeNumber]? = some { file with contents } := by
  rw [write, List.getElem?_modify, found]
  simp

/-- A write leaves the other files as they are. -/
theorem getElem?_write_of_ne (volume : Volume) {inodeNumber other : Nat}
    (different : other ≠ inodeNumber) (contents : List UInt8) :
    (volume.write inodeNumber contents)[other]? = volume[other]? := by
  rw [write, List.getElem?_modify]
  simp [Ne.symm different]

/-- Adding a file leaves the others as they are. -/
theorem getElem?_add_of_lt {volume : Volume} {other : Nat} (inside : other < volume.length)
    (type : InodeType) (name : NameBytes) : (volume.add type name)[other]? = volume[other]? :=
  List.getElem?_append_left inside

/-- The file added is the last one. -/
theorem getElem?_add_self (volume : Volume) (type : InodeType) (name : NameBytes) :
    (volume.add type name)[volume.length]? = some ⟨type, name, []⟩ :=
  List.getElem?_concat_length

/-- Adding a file adds one. -/
@[simp] theorem length_add (volume : Volume) (type : InodeType) (name : NameBytes) :
    (volume.add type name).length = volume.length + 1 :=
  List.length_append

end Volume

/-- The blocks of a file: its index blocks and its data blocks. -/
structure Extent where
  /-- Index blocks, by number. -/
  index : List Nat
  /-- Data blocks, in file order. -/
  data : List Nat

/-- All blocks of a file. -/
def Extent.ids (extent : Extent) : List Nat := extent.index ++ extent.data

/-- The parts of a device follow one another: super block, inode bitmap, inodes, data bitmap,
data blocks. -/
structure Cafs.Geometry (fs : Cafs) (totalBlocks : Nat) : Prop where
  /-- The inode bitmap follows the super block. -/
  inodeBitmap : fs.inodeBitmap.startBlockId = 1
  /-- The inodes follow their bitmap. -/
  inodeArea : fs.inodeAreaStartBlock = 1 + fs.inodeBitmap.blocks
  /-- The data bitmap follows the inodes, one block for each. -/
  dataBitmap : fs.dataBitmap.startBlockId =
    fs.inodeAreaStartBlock + fs.inodeBitmap.totalCount
  /-- The data blocks follow their bitmap. -/
  dataArea : fs.dataAreaStartBlock = fs.dataBitmap.startBlockId + fs.dataBitmap.blocks
  /-- There is a block for every bit of the data bitmap. -/
  inside : fs.dataAreaStartBlock + fs.dataBitmap.totalCount ≤ totalBlocks
  /-- Block numbers are `u64`s. -/
  wide : totalBlocks ≤ 2 ^ 64

/-- A file is stored: its `Meta` describes it, and its data blocks hold its contents while
the tree can describe the size. -/
structure Placed (file : File) (record : Meta) (store : Nat → Block) (extent : Extent) :
    Prop where
  /-- The tree holds the blocks. -/
  laid : record.Laid store extent.index extent.data
  /-- The size is that of the contents. -/
  size : record.size = file.contents.length
  /-- The type is the file's. -/
  type : record.type = file.type
  /-- The name is the file's. -/
  name : record.name = file.name
  /-- The data blocks hold the contents. -/
  bytes : file.contents.length ≤ l4Max →
    (extent.data.flatMap fun id => (store id).bytes).take file.contents.length = file.contents

/-- A file depends on its own blocks only. -/
theorem Placed.congr {file : File} {record : Meta} {store after : Nat → Block} {extent : Extent}
    (placed : Placed file record store extent)
    (same : ∀ id ∈ extent.ids, after id = store id) : Placed file record after extent := by
  refine { placed with
    laid := placed.laid.congr fun id idIn => same id (List.mem_append_left _ idIn)
    bytes := fun bound => ?_ }
  have equal : (extent.data.flatMap fun id => (after id).bytes) =
      extent.data.flatMap fun id => (store id).bytes :=
    List.flatMap_congr fun id idIn => by rw [same id (List.mem_append_right _ idIn)]
  rw [equal]
  exact placed.bytes bound

/-- The blocks of a device hold a volume. -/
structure Cafs.Holds (fs : Cafs) (store : Nat → Block) (volume : Volume)
    (extents : Nat → Extent) (marked : Nat → Bool) : Prop where
  /-- The inode bitmap marks the inodes of the files. -/
  inodes : fs.inodeBitmap.Marks store fun number => decide (number < volume.length)
  /-- There are no more files than inodes. -/
  counted : volume.length ≤ fs.inodeBitmap.totalCount
  /-- Every file is stored under its inode. -/
  placed : ∀ number file, volume[number]? = some file → ∃ record,
    (store (fs.inodeAreaStartBlock + number)).view metaCodec 0 = some record ∧
      Placed file record store (extents number)
  /-- No two files share a block. -/
  apart : ∀ left right, left < volume.length → right < volume.length → left ≠ right →
    (extents left).ids.Disjoint (extents right).ids
  /-- The data bitmap has these marks. -/
  marks : fs.dataBitmap.Marks store marked
  /-- Every block of a file is a data block and is marked. -/
  owned : ∀ number < volume.length, ∀ id ∈ (extents number).ids,
    fs.dataAreaStartBlock ≤ id ∧
      id < fs.dataAreaStartBlock + fs.dataBitmap.totalCount ∧
      marked (id - fs.dataAreaStartBlock) = true
  /-- Nothing else is marked while the trees can describe all files. -/
  exact : (∀ file ∈ volume, file.contents.length ≤ l4Max) →
    ∀ bit < fs.dataBitmap.totalCount, marked bit = true →
      ∃ number < volume.length, bit + fs.dataAreaStartBlock ∈ (extents number).ids

/-- A device has a super block. -/
theorem Cafs.Geometry.positive {fs : Cafs} {totalBlocks : Nat}
    (geometry : fs.Geometry totalBlocks) : 0 < totalBlocks := by
  have inodeArea := geometry.inodeArea
  have dataBitmap := geometry.dataBitmap
  have dataArea := geometry.dataArea
  have inside := geometry.inside
  omega

/-- The numbers of files are those of inodes. -/
theorem Cafs.Holds.number_lt {fs : Cafs} {totalBlocks number : Nat} {store : Nat → Block}
    {volume : Volume} {extents : Nat → Extent} {marked : Nat → Bool}
    (holds : fs.Holds store volume extents marked) (geometry : fs.Geometry totalBlocks)
    (allocated : number < volume.length) : number < 2 ^ 64 := by
  have counted := holds.counted
  have inodeArea := geometry.inodeArea
  have dataBitmap := geometry.dataBitmap
  have dataArea := geometry.dataArea
  have inside := geometry.inside
  have wide := geometry.wide
  omega

end Canyon.Fs
