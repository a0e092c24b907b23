import Canyon.Lib.Codec
import Canyon.Fs.Exec

/-!
# On-disk structures

The records of `layout.rs` and the bitmap's words, with their `repr(C)` layout in a block.
A typed access to a cached block is a program: `readAt` and `modifyAt` read the bytes as a
record before the closure runs, `lockedAt` may leave them as they are, and `overwriteAt` is a
closure that assigns every field without reading one.
-/

namespace Canyon.Fs

open Canyon.Lib

/-! ## Typed views of a block -/

/-- The record that a block holds at an offset. -/
def Block.view {α : Type} (block : Block) (codec : Codec α) (offset : Nat) : Option α :=
  codec.decode ((block.bytes.drop offset).take codec.width)

/-- A block with the record at an offset replaced. -/
def Block.patch {α : Type} (block : Block) (codec : Codec α) (offset : Nat) (value : α) :
    Block :=
  if inside : offset + codec.width ≤ blockSize then
    ⟨block.bytes.take offset ++ codec.encode value ++ block.bytes.drop (offset + codec.width), by
      have total := block.length_bytes
      have written := codec.length_encode value
      simp only [List.length_append, List.length_take, List.length_drop]
      omega⟩
  else block

/-- A record that its bytes hold is read back where it was written. -/
theorem Block.view_patch {α : Type} (block : Block) (codec : Codec α) (offset : Nat) (value : α)
    (inside : offset + codec.width ≤ blockSize) (fits : codec.Fits value) :
    (block.patch codec offset value).view codec offset = some value := by
  have cut : (block.bytes.take offset).length = offset := by
    rw [List.length_take, block.length_bytes]
    omega
  have written := codec.length_encode value
  simp only [view, patch, inside, ↓reduceDIte, List.append_assoc]
  rw [List.drop_left' cut, List.take_left' written, codec.decode_encode value fits]

/-- What a view of a block reads fits its bytes. -/
theorem Block.fits_of_view {α : Type} {block : Block} {codec : Codec α} {offset : Nat}
    {value : α} (inside : offset + codec.width ≤ blockSize)
    (seen : block.view codec offset = some value) : codec.Fits value := by
  refine codec.fits_of_decode _ _ ?_ seen
  rw [List.length_take, List.length_drop, block.length_bytes]
  omega

section Access

variable {α γ : Type} (codec : Codec α) (blockId offset : Nat)

/-- `get(block_id).read().read(offset, closure)` with a closure on a record. -/
def readAt (body : α → Prog γ) : Prog γ :=
  Scoped.read blockId fun block =>
    if offset + codec.width ≤ blockSize then
      match block.view codec offset with
      | some value => body value
      | none => .fail .invalidVariant
    else .fail .viewOutOfRange

/-- `get(block_id).write().modify(offset, closure)` with a closure that reads the record. A closure
that panics leaves the block alone; in the source, what it changed by then stays in the cache. -/
def modifyAt (body : α → Prog (γ × α)) : Prog γ :=
  Scoped.write blockId fun block =>
    if offset + codec.width ≤ blockSize then
      match block.view codec offset with
      | some value => (body value).bind fun found =>
          .pure (found.1, some (block.patch codec offset found.2))
      | none => .fail .invalidVariant
    else .fail .viewOutOfRange

/-- A write guard on `get(block_id)` under which the record is read first, and modified only
when there is something to change. -/
def lockedAt (body : α → Prog (γ × Option α)) : Prog γ :=
  Scoped.write blockId fun block =>
    if offset + codec.width ≤ blockSize then
      match block.view codec offset with
      | some value => (body value).bind fun found =>
          .pure (found.1, found.2.map (block.patch codec offset))
      | none => .fail .invalidVariant
    else .fail .viewOutOfRange

/-- `get(block_id).write().modify(offset, closure)` with a closure that assigns the record. -/
def overwriteAt (value : α) : Prog Unit :=
  Scoped.write blockId fun block =>
    if offset + codec.width ≤ blockSize then
      .pure ((), some (block.patch codec offset value))
    else .fail .viewOutOfRange

variable {codec blockId offset} {rules : Scoped.Discipline Nat} {held : List Nat}
  {post : γ → (Nat → Block) → Prop} {failed : Panic → (Nat → Block) → Prop}
  {store : Nat → Block}

/-- The rule of a typed read. -/
theorem wp_readAt {body : α → Prog γ} {value : α} (inside : offset + codec.width ≤ blockSize)
    (seen : (store blockId).view codec offset = some value)
    (admits : rules.Admits held blockId)
    (inner : (body value).wp rules (blockId :: held) post failed store) :
    (readAt codec blockId offset body).wp rules held post failed store := by
  refine Scoped.wp_read.mpr ⟨admits, ?_⟩
  simpa only [inside, ↓reduceIte, seen] using inner

/-- The rule of a typed modification. -/
theorem wp_modifyAt {body : α → Prog (γ × α)} {value : α}
    (inside : offset + codec.width ≤ blockSize)
    (seen : (store blockId).view codec offset = some value)
    (admits : rules.Admits held blockId)
    (inner : (body value).wp rules (blockId :: held)
      (fun found after => post found.1 (Function.update after blockId
        ((store blockId).patch codec offset found.2))) failed store) :
    (modifyAt codec blockId offset body).wp rules held post failed store := by
  refine Scoped.wp_write.mpr ⟨admits, ?_⟩
  simp only [inside, ↓reduceIte, seen]
  exact Scoped.wp_bind.mpr inner

/-- The rule of a read that may be followed by a modification. -/
theorem wp_lockedAt {body : α → Prog (γ × Option α)} {value : α}
    (inside : offset + codec.width ≤ blockSize)
    (seen : (store blockId).view codec offset = some value)
    (admits : rules.Admits held blockId)
    (inner : (body value).wp rules (blockId :: held)
      (fun found after => post found.1 (Scoped.put after blockId
        (found.2.map ((store blockId).patch codec offset)))) failed store) :
    (lockedAt codec blockId offset body).wp rules held post failed store := by
  refine Scoped.wp_write.mpr ⟨admits, ?_⟩
  simp only [inside, ↓reduceIte, seen]
  exact Scoped.wp_bind.mpr inner

/-- The rule of a typed assignment. -/
theorem wp_overwriteAt {value : α} {post : Unit → (Nat → Block) → Prop}
    (inside : offset + codec.width ≤ blockSize) (admits : rules.Admits held blockId)
    (inner : post () (Function.update store blockId
      ((store blockId).patch codec offset value))) :
    (overwriteAt codec blockId offset value).wp rules held post failed store := by
  refine Scoped.wp_write.mpr ⟨admits, ?_⟩
  simp only [inside, ↓reduceIte]
  exact inner

end Access

/-! ## Records -/

/-- `u64`. -/
def u64 : Codec Nat := .word 8

/-- `InodeType`. -/
inductive InodeType where
  | file
  | dir
  deriving DecidableEq, Repr

/-- Discriminant of an `InodeType`. -/
def InodeType.toNat : InodeType → Nat
  | .file => 0
  | .dir => 1

/-- A discriminant of an `InodeType` is a `u64`. -/
theorem InodeType.toNat_lt (type : InodeType) : type.toNat < 2 ^ 64 := by
  cases type <;> decide

/-- `InodeType` with a discriminant. -/
def InodeType.ofNat? : Nat → Option InodeType
  | 0 => some .file
  | 1 => some .dir
  | _ => none

/-- `InodeType` as stored, `repr(u64)`. -/
def inodeType : Codec InodeType :=
  u64.refine InodeType.ofNat? InodeType.toNat (by intro type; cases type <;> rfl)
    (fun _ type _ _ => type.toNat_lt)

/-- `IndirectBlockType`. -/
inductive IndirectBlockType where
  | blockTable
  | blockDirectory
  | l3
  | l4
  deriving DecidableEq, Repr

/-- Discriminant of an `IndirectBlockType`. -/
def IndirectBlockType.toNat : IndirectBlockType → Nat
  | .blockTable => 0
  | .blockDirectory => 1
  | .l3 => 2
  | .l4 => 3

/-- A discriminant of an `IndirectBlockType` is a `u64`. -/
theorem IndirectBlockType.toNat_lt (type : IndirectBlockType) : type.toNat < 2 ^ 64 := by
  cases type <;> decide

/-- `IndirectBlockType` with a discriminant. -/
def IndirectBlockType.ofNat? : Nat → Option IndirectBlockType
  | 0 => some .blockTable
  | 1 => some .blockDirectory
  | 2 => some .l3
  | 3 => some .l4
  | _ => none

/-- `IndirectBlockType` as stored, `repr(u64)`. -/
def indirectBlockType : Codec IndirectBlockType :=
  u64.refine IndirectBlockType.ofNat? IndirectBlockType.toNat
    (by intro type; cases type <;> rfl)
    (fun _ type _ _ => type.toNat_lt)

/-- `FS_MAGIC`. -/
def fsMagic : Nat := 0x5138

/-- `SuperBlock`. -/
structure SuperBlock where
  /-- `magic`, a `u32`. -/
  magic : Nat
  /-- `total_blocks`. -/
  totalBlocks : Nat
  /-- `inode_bitmap_blocks`. -/
  inodeBitmapBlocks : Nat
  /-- `inode_area_blocks`. -/
  inodeAreaBlocks : Nat
  /-- `data_bitmap_blocks`. -/
  dataBitmapBlocks : Nat
  /-- `data_area_blocks`. -/
  dataAreaBlocks : Nat
  deriving DecidableEq

/-- `SuperBlock` as stored: the `u32` is padded to the alignment of the `u64`s after it. -/
def superBlock : Codec SuperBlock :=
  ((Codec.word 4).pair ((Codec.word 4).pair (u64.pair (u64.pair (u64.pair
    (u64.pair u64)))))).refine
    (fun raw => some ⟨raw.1, raw.2.2.1, raw.2.2.2.1, raw.2.2.2.2.1, raw.2.2.2.2.2.1,
      raw.2.2.2.2.2.2⟩)
    (fun block => (block.magic, 0, block.totalBlocks, block.inodeBitmapBlocks,
      block.inodeAreaBlocks, block.dataBitmapBlocks, block.dataAreaBlocks))
    (by intro block; rfl)
    (by
      intro raw block packed fits
      obtain rfl := Option.some.inj packed
      exact ⟨fits.1, show 0 < 256 ^ 4 by decide, fits.2.2⟩)

/-- `SuperBlock::initialize`. -/
def SuperBlock.initialize (totalBlocks inodeBitmapBlocks inodeAreaBlocks dataBitmapBlocks
    dataAreaBlocks : Nat) : SuperBlock :=
  ⟨fsMagic, totalBlocks, inodeBitmapBlocks, inodeAreaBlocks, dataBitmapBlocks, dataAreaBlocks⟩

/-- `SuperBlock::is_valid`. -/
def SuperBlock.isValid (block : SuperBlock) : Bool := block.magic == fsMagic

/-- `DIRECT_COUNT`. -/
def directCount : Nat := 36

/-- `NAME_LENGTH_LIMIT`. -/
def nameLengthLimit : Nat := 199

/-- `[u8; NAME_LENGTH_LIMIT + 1]`. -/
abbrev NameBytes := Vector UInt8 (nameLengthLimit + 1)

/-- `Meta`: what the disk keeps of one inode. -/
structure Meta where
  /-- `size`, in bytes. -/
  size : Nat
  /-- `direct`: block numbers, zero where there is none. -/
  direct : Vector Nat directCount
  /-- `indirect`: the root of the index blocks, zero where there is none. -/
  indirect : Nat
  /-- `type_`. -/
  type : InodeType
  /-- `name`, padded with zeros. -/
  name : NameBytes
  deriving DecidableEq

/-- `Meta` as stored. -/
def metaCodec : Codec Meta :=
  (u64.pair ((u64.array directCount).pair (u64.pair (inodeType.pair
    (Codec.byte.array (nameLengthLimit + 1)))))).refine
    (fun raw => some ⟨raw.1, raw.2.1, raw.2.2.1, raw.2.2.2.1, raw.2.2.2.2⟩)
    (fun record => (record.size, record.direct, record.indirect, record.type, record.name))
    (by intro record; rfl)
    (by
      intro raw record packed fits
      obtain rfl := Option.some.inj packed
      exact fits)

/-- `INDIRECT_LEN`. -/
def indirectLen : Nat := blockSize / 8 - 1

/-- `IndirectBlock`: one node of the index. -/
structure IndirectBlock where
  /-- `entries`: block numbers, zero where there is none. -/
  entries : Vector Nat indirectLen
  /-- `type_`. -/
  type : IndirectBlockType
  deriving DecidableEq

/-- `IndirectBlock` as stored. -/
def indirectBlock : Codec IndirectBlock :=
  ((u64.array indirectLen).pair indirectBlockType).refine
    (fun raw => some ⟨raw.1, raw.2⟩)
    (fun node => (node.entries, node.type))
    (by intro node; rfl)
    (by
      intro raw node packed fits
      obtain rfl := Option.some.inj packed
      exact fits)

/-- `BitmapBlock`, `[u64; BLOCK_SIZE as usize / 8]`. -/
abbrev BitmapBlock := Vector Nat (blockSize / 8)

/-- `BitmapBlock` as stored. -/
def bitmapBlock : Codec BitmapBlock := u64.array (blockSize / 8)

/-- A `Meta` takes a whole block: `size_of::<Meta>()`. -/
@[simp] theorem width_metaCodec : metaCodec.width = blockSize := rfl

/-- An `IndirectBlock` takes a whole block. -/
@[simp] theorem width_indirectBlock : indirectBlock.width = blockSize := rfl

/-- A `BitmapBlock` takes a whole block. -/
@[simp] theorem width_bitmapBlock : bitmapBlock.width = blockSize := rfl

/-- A `SuperBlock` takes six words. -/
@[simp] theorem width_superBlock : superBlock.width = 48 := rfl

/-- A `Meta` survives the disk when its numbers are `u64`s. -/
theorem metaCodec_fits {record : Meta} (size : record.size < 2 ^ 64)
    (direct : ∀ id ∈ record.direct.toList, id < 2 ^ 64) (indirect : record.indirect < 2 ^ 64) :
    metaCodec.Fits record := by
  exact ⟨size, direct, indirect, record.type.toNat_lt, fun _ _ => trivial⟩

/-- An `IndirectBlock` survives the disk when its entries are `u64`s. -/
theorem indirectBlock_fits {node : IndirectBlock}
    (entries : ∀ id ∈ node.entries.toList, id < 2 ^ 64) : indirectBlock.Fits node := by
  exact ⟨entries, node.type.toNat_lt⟩

end Canyon.Fs
