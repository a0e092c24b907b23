import Canyon.Lib.Scoped

/-!
# Blocks, the disk and the ways a call can stop

A block is a fixed number of bytes, and a disk is a numbered run of blocks that refuses
every number past its end. A call that does not return stops with a `Panic`: each
constructor is one `panic!`, `assert!`, `unwrap` or machine fault of the file system.
-/

namespace Canyon.Fs

open Canyon.Lib

/-- `BLOCK_SIZE`, in bytes. -/
def blockSize : Nat := 512

/-- `BLOCK_BITS`. -/
def blockBits : Nat := blockSize * 8

/-- `[u8; BLOCK_SIZE as usize]`. -/
@[ext]
structure Block where
  /-- The bytes, first address first. -/
  bytes : List UInt8
  /-- A block has no other size. -/
  length_bytes : bytes.length = blockSize
  deriving DecidableEq

/-- The block of zero bytes. -/
def Block.zero : Block := ⟨List.replicate blockSize 0, List.length_replicate⟩

instance : Inhabited Block := ⟨Block.zero⟩

/-- Why a call stopped without returning. -/
inductive Panic where
  /-- `assert!(block_id < self.total_blocks)` of a disk. -/
  | blockOutOfRange
  /-- "Run out of BlockCache!" -/
  | runOutOfBlockCache
  /-- "Run out of InodeCache!" -/
  | runOutOfInodeCache
  /-- "run out of inode block" -/
  | runOutOfInodeBlock
  /-- "run out of data block" -/
  | runOutOfDataBlock
  /-- "Error loading CAFS!" -/
  | errorLoading
  /-- `assert!(offset + type_size <= BLOCK_SIZE as usize)` of a typed view. -/
  | viewOutOfRange
  /-- The assertion in `Bitmap::dealloc` that the bit is set. -/
  | bitNotSet
  /-- `assert!(name.len() <= NAME_LENGTH_LIMIT)`. -/
  | nameTooLong
  /-- `assert_eq!` of the root's inode number in `CAFS::init`. -/
  | rootNotZero
  /-- `assert!(new_size >= self.size)` of `Meta::extend`. -/
  | extendSmaller
  /-- `assert!(new_size <= self.size)` of `Meta::shrink`. -/
  | shrinkLarger
  /-- `unwrap` of an absent value. -/
  | unwrapNone
  /-- A slice or array index past the end. -/
  | indexOutOfRange
  /-- The overflow check of unsigned arithmetic. -/
  | arithmeticOverflow
  /-- A stored discriminant that names no variant. -/
  | invalidVariant
  /-- A recursion deeper than the stack. -/
  | stackOverflow
  /-- A lock asked for by the thread that already holds it: the spin never ends. -/
  | deadlock
  deriving DecidableEq, Repr

/-- `fake::Disk`. The blocks past the end are never read or written. -/
structure Disk where
  /-- `total_blocks`. -/
  totalBlocks : Nat
  /-- `data`, by block number. -/
  data : Nat → Block

namespace Disk

/-- `Disk::new`. -/
def new (totalBlocks : Nat) : Disk := ⟨totalBlocks, fun _ => Block.zero⟩

/-- `Disk::read_block`. -/
def readBlock (disk : Disk) (blockId : Nat) : Except Panic Block :=
  if blockId < disk.totalBlocks then .ok (disk.data blockId) else .error .blockOutOfRange

/-- `Disk::write_block`. -/
def writeBlock (disk : Disk) (blockId : Nat) (block : Block) : Except Panic Disk :=
  if blockId < disk.totalBlocks then
    .ok { disk with data := Function.update disk.data blockId block }
  else .error .blockOutOfRange

end Disk

end Canyon.Fs
