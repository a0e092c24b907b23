import Canyon.Fs.Bitmap
import Canyon.Fs.InodeNumber
import Canyon.Fs.Tree

/-!
# The file system

`CAFS` and `CaInode`. A call works on the inode cache, which it changes step by step, and on
the blocks of the device through a program. An inode of the cache is a shared object, like a
cached block: the cache and the callers hold pointers to it, and it may leave the cache while
no caller holds one. No call asks for the lock of an inode while it holds one, so the locks of
inodes do not appear.
-/

namespace Canyon.Fs

open Canyon.Lib

/-- `CaInode`. -/
structure CaInode where
  /-- `inode_number`. -/
  inodeNumber : Nat
  /-- `type_`. -/
  type : InodeType
  /-- `size`. -/
  size : Nat
  /-- `block_id`. -/
  blockId : Nat
  /-- `offset`. -/
  offset : Nat
  /-- `name`. -/
  name : NameBytes
  /-- `blocks`. -/
  blocks : List Nat
  deriving DecidableEq

instance : Inhabited CaInode := ⟨⟨0, .file, 0, 0, 0, Vector.replicate _ 0, []⟩⟩

/-- `INODE_CACHE_SIZE`. -/
def inodeCacheSize : Nat := 32

/-- `inode_cache`, with the memory its shared pointers live in. -/
structure Inodes where
  /-- The entries of the cache. -/
  queue : List Nat
  /-- Pointers outside the cache, one for every live `Arc`. -/
  handles : List Nat
  /-- The inodes, by pointer. -/
  heap : Nat → CaInode
  /-- First pointer that names no inode yet. -/
  next : Nat

/-- The empty cache of a file system just set up. -/
def Inodes.new : Inodes := ⟨[], [], default, 0⟩

/-- A call on the file system: it changes the inode cache and runs programs on blocks. -/
abbrev FsM := StateT Inodes Prog

/-- `[u8; BLOCK_SIZE]` filled with the next of `contents.iter().chain(repeat(&0))`. -/
def Block.fill (contents : List UInt8) : Block :=
  ⟨(contents ++ List.replicate blockSize 0).take blockSize, by simp⟩

/-! ## Inodes -/

/-- A name in the bytes of an inode: `CaInode::new` refuses names that leave no zero. -/
def nameBytes (name : List UInt8) : Option NameBytes :=
  if name.length ≤ nameLengthLimit then
    some ⟨((name ++ List.replicate (nameLengthLimit + 1) 0).take (nameLengthLimit + 1)).toArray,
      by simp⟩
  else none

/-- `name.as_bytes()`. -/
def utf8Bytes (name : String) : List UInt8 := name.toUTF8.data.toList

/-- `CaInode::new`. -/
def CaInode.new (inodeNumber : Nat) (type : InodeType) (blockId offset : Nat) (name : String) :
    Prog CaInode :=
  match nameBytes (utf8Bytes name) with
  | none => .fail .nameTooLong
  | some bytes => do
    overwriteAt metaCodec blockId offset (Meta.init type bytes)
    return ⟨inodeNumber, type, 0, blockId, offset, bytes, []⟩

/-- `CaInode::from`. -/
def CaInode.from (inodeNumber blockId offset : Nat) : Prog CaInode :=
  readAt metaCodec blockId offset fun record => do
    let found ← record.blocks
    return ⟨inodeNumber, record.type, record.size, blockId, offset, record.name, found.2⟩

/-- `last_size` of `CaInode::data`. -/
def CaInode.lastSize (inode : CaInode) : Nat :=
  if inode.size % blockSize ≠ 0 then inode.size % blockSize else blockSize

/-- `CaInode::data`: every block but the last counts in full. -/
def CaInode.data (inode : CaInode) : Prog (List UInt8) :=
  match inode.blocks.getLast? with
  | none => return []
  | some last =>
    inode.blocks.foldlM (fun data id => Scoped.read id fun block =>
      .pure (data ++ if id = last then block.bytes.take inode.lastSize else block.bytes)) []

/-! ## The inode cache -/

namespace Inodes

/-- First entry of the cache for an inode number. -/
def find (inodes : Inodes) (inodeNumber : Nat) : Option Nat :=
  inodes.queue.find? fun pointer => (inodes.heap pointer).inodeNumber == inodeNumber

/-- The substitution in `add_inode_cache` and `cainode`: a full queue gives up its first entry
that has no other owner. -/
def substitute (queue handles : List Nat) : Except Panic (List Nat) :=
  if queue.length = inodeCacheSize then
    match findEvictable queue handles with
    | some index => .ok (swapRemove queue index)
    | none => .error .runOutOfInodeCache
  else .ok queue

/-- `Arc::new`, with one handle for the caller. -/
def alloc (inodes : Inodes) (inode : CaInode) : Nat × Inodes :=
  (inodes.next, { inodes with
    handles := inodes.next :: inodes.handles
    heap := Function.update inodes.heap inodes.next inode
    next := inodes.next + 1 })

end Inodes

/-- Run a program on the blocks. -/
def onBlocks {α : Type} (program : Prog α) : FsM α := StateT.lift program

/-- The inode behind a pointer. -/
def deref (pointer : Nat) : FsM CaInode := return (← get).heap pointer

/-- `Arc::clone`. -/
def cloneHandle (pointer : Nat) : FsM Unit :=
  modify fun inodes => { inodes with handles := pointer :: inodes.handles }

/-- Drop of a handle. An inode has nothing to do when its last owner goes. -/
def dropHandle (pointer : Nat) : FsM Unit :=
  modify fun inodes => { inodes with handles := inodes.handles.erase pointer }

/-- `Arc::new`. -/
def newHandle (inode : CaInode) : FsM Nat := modifyGet fun inodes => inodes.alloc inode

/-- The substitution, as a step of a call. -/
def substituteInode : FsM Unit := do
  let inodes ← get
  match Inodes.substitute inodes.queue inodes.handles with
  | .ok queue => set { inodes with queue }
  | .error error => onBlocks (.fail error)

/-- `queue.push(inode)`. -/
def pushInode (pointer : Nat) : FsM Unit :=
  modify fun inodes => { inodes with queue := inodes.queue ++ [pointer] }

/-- `CAFS`: where the parts of the device lie. The block cache and the inode cache are the state
of its calls. -/
structure Cafs where
  /-- `inode_bitmap`. -/
  inodeBitmap : Bitmap
  /-- `data_bitmap`. -/
  dataBitmap : Bitmap
  /-- `inode_area_start_block`. -/
  inodeAreaStartBlock : Nat
  /-- `data_area_start_block`. -/
  dataAreaStartBlock : Nat
  deriving DecidableEq, Repr

namespace Cafs

/-- `CAFS::inode_pos_of`. -/
def inodePosOf (fs : Cafs) (id : Nat) : Nat × Nat :=
  let inodesPerBlock := blockSize / metaCodec.width
  (fs.inodeAreaStartBlock + id / inodesPerBlock, id % inodesPerBlock * metaCodec.width)

/-- `CAFS::alloc_data`. -/
def allocData (fs : Cafs) : Prog Nat := do
  match ← fs.dataBitmap.alloc with
  | some id => return id + fs.dataAreaStartBlock
  | none => .fail .runOutOfDataBlock

/-- `CAFS::flush`. -/
def flush (_ : Cafs) : FsM Unit := onBlocks (.flush (.pure ()))

/-- `CAFS::add_inode_cache`; the handle it is given moves into the cache. -/
def addInodeCache (_ : Cafs) (pointer : Nat) : FsM Unit := do
  substituteInode
  pushInode pointer
  dropHandle pointer

/-- `CAFS::alloc_inode_meta`. -/
def allocInodeMeta (fs : Cafs) (type : InodeType) (name : String) : FsM Nat := do
  match ← onBlocks fs.inodeBitmap.alloc with
  | none => onBlocks (.fail .runOutOfInodeBlock)
  | some id =>
    let (blockId, offset) := fs.inodePosOf id
    let pointer ← newHandle (← onBlocks (CaInode.new id type blockId offset name))
    cloneHandle pointer
    fs.addInodeCache pointer
    return pointer

/-- `CAFS::cainode`. The search made again under the write lock of the cache finds what the
first one found, since no other call comes between. -/
def cainode (fs : Cafs) (inodeNumber : Nat) : FsM Nat := do
  match (← get).find inodeNumber with
  | some pointer =>
    cloneHandle pointer
    return pointer
  | none =>
    substituteInode
    let (blockId, offset) := fs.inodePosOf inodeNumber
    let pointer ← newHandle (← onBlocks (CaInode.from inodeNumber blockId offset))
    pushInode pointer
    return pointer

/-- `CAFS::inode`. -/
def inode (fs : Cafs) (inodeNumber : Nat) : FsM Nat := fs.cainode inodeNumber

/-- `alloc_data` a number of times. -/
def allocMany (fs : Cafs) : Nat → List Nat → Prog (List Nat)
  | 0, ids => return ids
  | count + 1, ids => do fs.allocMany count (ids ++ [← fs.allocData])

/-- `data_bitmap.dealloc` of every id of a list. -/
def deallocAll (fs : Cafs) : List Nat → Prog Unit
  | [] => return ()
  | id :: ids => do
    fs.dataBitmap.dealloc id
    fs.deallocAll ids

/-- The branch of `CAFS::write` for larger contents. -/
def grow (fs : Cafs) (record : Meta) (newSize : Nat) : Prog Meta := do
  let currInfo := indexBlocks record.size
  let newInfo := indexBlocks newSize
  let dataCount ← subtract (dataBlocks newSize) (dataBlocks record.size)
  let newData ← fs.allocMany dataCount []
  let indexCount ← subtract newInfo.indexBlockCount currInfo.indexBlockCount
  let newIndex ← fs.allocMany indexCount []
  record.extend newSize newInfo newData newIndex

/-- The branch of `CAFS::write` for smaller contents. -/
def cut (fs : Cafs) (record : Meta) (newSize : Nat) : Prog Meta := do
  let (ids, resized) ← record.shrink newSize
  fs.deallocAll ids.1
  fs.deallocAll ids.2
  return resized

/-- The closure that `CAFS::write` runs on the inode's `Meta`: the blocks of the resized file,
and the `Meta` it leaves. -/
def resize (fs : Cafs) (record : Meta) (newSize : Nat) : Prog ((List Nat × List Nat) × Meta) := do
  let resized ←
    if record.size < newSize then fs.grow record newSize
    else if record.size > newSize then fs.cut record newSize
    else pure record
  let found ← resized.blocks
  return (found, resized)

/-- The loop of `CAFS::write` over the data blocks: each takes the next bytes, and zeros after
the last of them. -/
def fillBlocks : List Nat → List UInt8 → Prog Unit
  | [], _ => return ()
  | id :: ids, contents => do
    Scoped.write id fun _ => .pure ((), some (Block.fill contents))
    fillBlocks ids (contents.drop blockSize)

/-- `CAFS::write`. -/
def write (fs : Cafs) (inodeNumber : Nat) (contents : List UInt8) : FsM Unit := do
  let newSize := contents.length
  let pointer ← fs.cainode inodeNumber
  let (blockId, offset) := fs.inodePosOf inodeNumber
  let found ← onBlocks (modifyAt metaCodec blockId offset fun record => fs.resize record newSize)
  onBlocks (fillBlocks found.2 contents)
  modify fun inodes => { inodes with
    heap := Function.update inodes.heap pointer
      { inodes.heap pointer with size := newSize, blocks := found.2 } }
  dropHandle pointer

/-- The part of `CAFS::create` that reads the parent: its handle, its inode number and its
contents. -/
def readParent (fs : Cafs) (parent : Nat) : FsM (Nat × Nat × List UInt8) := do
  let parent ← fs.inode parent
  let directory ← deref parent
  let contents ← onBlocks directory.data
  return (parent, directory.inodeNumber, contents)

/-- `CAFS::create`. -/
def create (fs : Cafs) (parent : Nat) (name : String) : FsM Nat := do
  let pointer ← fs.allocInodeMeta .file name
  let (parent, parentInodeNumber, contents) ← fs.readParent parent
  fs.write parentInodeNumber (appendEntry contents (← deref pointer).inodeNumber)
  cloneHandle pointer
  fs.addInodeCache pointer
  dropHandle parent
  return pointer

/-- `CAFS::df`. -/
def df (fs : Cafs) : FsM (Nat × Nat) := do
  let free ← onBlocks fs.dataBitmap.freeCount
  let total := fs.dataBitmap.totalCount
  return (free * blockSize, total * blockSize)

/-- The loop of `CAFS::sub_inodes` over the parts of a directory's contents. -/
def parseEntries : List (List UInt8) → Prog (List Nat)
  | [] => return []
  | part :: parts =>
    if 10 ≤ part.length then do return inodeNumberFrom (part.take 10) :: (← parseEntries parts)
    else .fail .indexOutOfRange

/-- `CAFS::sub_inodes`. -/
def subInodes (fs : Cafs) (inodeNumber : Nat) : FsM (List Nat) := do
  let pointer ← fs.inode inodeNumber
  let parent ← deref pointer
  let inodes ←
    if parent.type = .file then pure []
    else do
      let data ← onBlocks parent.data
      if data.isEmpty then pure [] else onBlocks (parseEntries (data.splitOnP (· == 0)))
  dropHandle pointer
  return inodes

/-- The loop of `CAFS::init` that clears the blocks. -/
def clearBlocks : List Nat → Prog Unit
  | [] => return ()
  | id :: ids => do
    Scoped.write id fun _ => .pure ((), some Block.zero)
    clearBlocks ids

/-- The parts of a device whose inode bitmap, inode area and data bitmap have these sizes. -/
def layout (inodeBitmapBlocks inodeAreaBlocks dataBitmapBlocks : Nat) : Cafs where
  inodeBitmap := ⟨1, inodeBitmapBlocks⟩
  dataBitmap := ⟨1 + (inodeBitmapBlocks + inodeAreaBlocks), dataBitmapBlocks⟩
  inodeAreaStartBlock := 1 + inodeBitmapBlocks
  dataAreaStartBlock := 1 + (inodeBitmapBlocks + inodeAreaBlocks) + dataBitmapBlocks

/-- `inode_area_blocks` of `CAFS::init`, with the check of its `u64` arithmetic. -/
def inodeAreaBlocksOf (inodeBitmapBlocks : Nat) : Prog Nat :=
  let inodeNum := (Bitmap.mk 1 inodeBitmapBlocks).totalCount
  if inodeNum * metaCodec.width ≤ u64Max - blockSize then
    return (inodeNum * metaCodec.width + blockSize - 1) / blockSize
  else .fail .arithmeticOverflow

/-- `CAFS::init`. -/
def init (totalBlocks inodeBitmapBlocks : Nat) : FsM Cafs := do
  let inodeAreaBlocks ← onBlocks (inodeAreaBlocksOf inodeBitmapBlocks)
  let afterSuperBlock ← onBlocks (subtract totalBlocks 1)
  let dataTotalBlocks ← onBlocks (subtract afterSuperBlock (inodeBitmapBlocks + inodeAreaBlocks))
  let dataBitmapBlocks := dataTotalBlocks / (blockBits + 1)
  let dataAreaBlocks := dataTotalBlocks - dataBitmapBlocks
  let fs := layout inodeBitmapBlocks inodeAreaBlocks dataBitmapBlocks
  onBlocks (clearBlocks (List.range totalBlocks))
  onBlocks <| overwriteAt superBlock 0 0 <|
    SuperBlock.initialize totalBlocks inodeBitmapBlocks inodeAreaBlocks dataBitmapBlocks
      dataAreaBlocks
  let root ← fs.allocInodeMeta .dir "/"
  let rootInode ← deref root
  dropHandle root
  if rootInode.inodeNumber = 0 then do
    fs.flush
    return fs
  else onBlocks (.fail .rootNotZero)

/-- `CAFS::open`. The largest of its `u64` sums is the start of the data area. -/
def openFs : Prog Cafs :=
  readAt superBlock 0 0 fun block =>
    let fs := layout block.inodeBitmapBlocks block.inodeAreaBlocks block.dataBitmapBlocks
    if block.isValid then
      if fs.dataAreaStartBlock ≤ u64Max then .pure fs else .fail .arithmeticOverflow
    else .fail .errorLoading

end Cafs

end Canyon.Fs
