import Canyon.Fs.ReadBack

/-!
# The capacity of a file

`CAFS::write` checks no upper bound on the length of the contents. `Meta::index_blocks` plans a
tree for any size, but `Meta::forward` fills at most 63 entries of each node, and a tree of four
levels ends at `L4_MAX` bytes: the blocks past it are allocated and are in no tree.

A write that lowers the number of data blocks gives `dealloc` the numbers of blocks, where it takes
positions of the bitmap. The bit that it clears may lie in an index block that the file keeps.
-/

namespace Canyon.Fs

open Canyon.Lib

/-- The block that `dealloc` looks at for a position. -/
def Bitmap.rowOf (bitmap : Bitmap) (bit : Nat) : Nat := bit / blockBits + bitmap.startBlockId

/-- Blocks of a file that a write of fewer data blocks gives to `dealloc`. -/
def Extent.past (extent : Extent) (newSize : Nat) : List Nat :=
  extent.index.drop (indexBlocks newSize).indexBlockCount ++ extent.data.drop (dataBlocks newSize)

/-- Index blocks of a file that stay in its tree. -/
def Extent.staying (extent : Extent) (newSize : Nat) : List Nat :=
  extent.index.take (indexBlocks newSize).indexBlockCount

/-- A write does no harm to the tree of its file: it keeps the number of data blocks, or the file
was within reach and what `dealloc` looks at is on the device and no index block that stays. -/
def Cafs.Spares (fs : Cafs) (totalBlocks : Nat) (extent : Extent) (oldSize newSize : Nat) : Prop :=
  dataBlocks oldSize ≤ dataBlocks newSize ∨ oldSize ≤ l4Max ∧ ∀ id ∈ extent.past newSize,
    fs.dataBitmap.rowOf id < totalBlocks ∧ fs.dataBitmap.rowOf id ∉ extent.staying newSize

/-! ## Freeing block numbers -/

/-- The words of a bitmap block can be read off any block. -/
theorem Block.exists_view_bitmapBlock (block : Block) :
    ∃ words, block.view bitmapBlock 0 = some words := by
  obtain ⟨values, read, length⟩ := u64.exists_decodeMany (fun stored => ⟨_, rfl⟩) (blockSize / 8)
    ((block.bytes.drop 0).take bitmapBlock.width)
  refine ⟨⟨values.toArray, by simpa using length⟩, ?_⟩
  unfold Block.view bitmapBlock Codec.array
  dsimp only
  rw [bitmapBlock, Codec.array] at read
  rw [read, Option.bind_some, dif_pos length]

section Free

variable {store : Nat → Block} {rules : Scoped.Discipline Nat} {held : List Nat}
  {failed : Panic → (Nat → Block) → Prop}

/-- `dealloc` changes one block, if it returns. -/
theorem Bitmap.wp_dealloc_row {bitmap : Bitmap} {bit : Nat}
    (free : rules.Valid (bitmap.rowOf bit) ∧ bitmap.rowOf bit ∉ held)
    (room : held.length < rules.limit) {post : Unit → (Nat → Block) → Prop}
    (goal : ∀ after, (∀ id, id ≠ bitmap.rowOf bit → after id = store id) → post () after)
    (unset : failed .bitNotSet store) :
    (bitmap.dealloc bit).wp rules held post failed store := by
  obtain ⟨words, seen⟩ := (store (bitmap.rowOf bit)).exists_view_bitmapBlock
  unfold dealloc decompose
  refine wp_modifyAt (by simp) seen ⟨free.1, free.2, room⟩ ?_
  split
  · exact goal _ fun id other => Function.update_of_ne other _ _
  · exact unset

/-- `dealloc` of some numbers changes no other blocks than those it looks at, if it returns. -/
theorem Cafs.wp_deallocAll_rows {fs : Cafs} {ids : List Nat}
    (free : ∀ id ∈ ids, rules.Valid (fs.dataBitmap.rowOf id) ∧ fs.dataBitmap.rowOf id ∉ held)
    (room : held.length < rules.limit) {post : Unit → (Nat → Block) → Prop}
    (goal : ∀ after, (∀ block, (∀ id ∈ ids, block ≠ fs.dataBitmap.rowOf id) →
      after block = store block) → post () after)
    (unset : ∀ reached, failed .bitNotSet reached) :
    (fs.deallocAll ids).wp rules held post failed store := by
  induction ids generalizing store with
  | nil => exact goal store fun _ _ => rfl
  | cons id ids ih =>
    rw [List.forall_mem_cons] at free
    refine Scoped.wp_bind.mpr (Bitmap.wp_dealloc_row free.1 room (fun middle first => ?_) (unset _))
    refine ih free.2 fun after rest => goal after fun block others => ?_
    rw [List.forall_mem_cons] at others
    exact (rest block others.2).trans (first block others.1)

end Free

/-! ## Writes that lower the number of data blocks -/

namespace Cafs

variable {fs : Cafs} {store : Nat → Block} {marked : Nat → Bool}
  {rules : Scoped.Discipline Nat} {held : List Nat} {failed : Panic → (Nat → Block) → Prop}

section Lowering

variable {record : Meta} {extent : Extent} {newSize : Nat} (space : fs.Workspace rules held)
  (laid : record.Laid store extent.index extent.data)
  (owned : ∀ id ∈ extent.ids, fs.InData id) (bound : record.size ≤ l4Max)
  (shrinks : newSize < record.size) (wide : newSize < 2 ^ 64)
  (free : ∀ id ∈ extent.past newSize,
    rules.Valid (fs.dataBitmap.rowOf id) ∧ fs.dataBitmap.rowOf id ∉ held)
  (spared : ∀ id ∈ extent.past newSize, fs.dataBitmap.rowOf id ∉ extent.staying newSize)
  (unset : ∀ reached, failed .bitNotSet reached)

include space laid owned bound shrinks wide free spared unset

/-- The branch of `CAFS::write` for contents of fewer data blocks leaves a file of the new size,
if it returns and spares the index blocks that stay. -/
theorem wp_cut_sparing
    {post : Meta → (Nat → Block) → Prop}
    (goal : ∀ (resized : Meta) (extentAfter : Extent) (after : Nat → Block),
      resized.Laid after extentAfter.index extentAfter.data → metaCodec.Fits resized →
      resized.size = newSize → resized.type = record.type → resized.name = record.name →
      (∀ id ∈ extentAfter.ids, id ∈ extent.ids) → post resized after) :
    (fs.cut record newSize).wp rules held post failed store := by
  have few : held.length < rules.limit := by
    have := space.room
    omega
  refine Scoped.wp_bind.mpr (laid.wp_shrink (Nat.le_of_lt shrinks) wide (.inl bound) ?_
    (fun _ => space.superBlock) space.room ?_)
  · intro id idIn
    exact space.area id (owned id (List.mem_append_left _ idIn))
  intro resized middle indexAfter dataAfter forwarded laidAfter
  obtain ⟨indexLeft, dataLeft⟩ := laid.left_of_bound (Nat.le_of_lt shrinks) bound
  rw [indexLeft, dataLeft] at forwarded ⊢
  have inIndex : ∀ id ∈ (extent.index.drop (indexBlocks newSize).indexBlockCount).reverse,
      id ∈ extent.past newSize := fun id idIn => List.mem_append_left _ (List.mem_reverse.mp idIn)
  have inData : ∀ id ∈ (extent.data.drop (dataBlocks newSize)).reverse,
      id ∈ extent.past newSize := fun id idIn => List.mem_append_right _ (List.mem_reverse.mp idIn)
  have stays : ∀ id ∈ sortIds indexAfter, id ∈ extent.staying newSize := fun id idIn =>
    forwarded.indexPart.subset ((sortIds_perm indexAfter).mem_iff.mp idIn)
  have origin : ∀ id ∈ (⟨sortIds indexAfter, dataAfter⟩ : Extent).ids, id ∈ extent.ids := by
    intro id idIn
    rcases List.mem_append.mp idIn with isIndex | isData
    · exact List.mem_append_left _ (List.mem_of_mem_take (stays id isIndex))
    · exact List.mem_append_right _ (List.mem_of_mem_take (forwarded.dataPart.subset isData))
  refine Scoped.wp_bind.mpr (wp_deallocAll_rows (fun id idIn => free id (inIndex id idIn)) few ?_
    unset)
  intro first firstFrame
  refine Scoped.wp_bind.mpr (wp_deallocAll_rows (fun id idIn => free id (inData id idIn)) few ?_
    unset)
  intro after lastFrame
  refine goal resized ⟨sortIds indexAfter, dataAfter⟩ after (laidAfter.congr fun id idIn => ?_)
    forwarded.fits forwarded.size forwarded.type forwarded.name origin
  have apart : ∀ freed ∈ extent.past newSize, id ≠ fs.dataBitmap.rowOf freed :=
    fun freed isFreed same => spared freed isFreed (same ▸ stays id idIn)
  exact (lastFrame id fun freed isFreed => apart freed (inData freed isFreed)).trans
    (firstFrame id fun freed isFreed => apart freed (inIndex freed isFreed))

/-- The closure of `CAFS::write` on a file whose number of data blocks drops. -/
theorem wp_resize_sparing
    {post : (List Nat × List Nat) × Meta → (Nat → Block) → Prop}
    (goal : ∀ (resized : Meta) (extentAfter : Extent) (after : Nat → Block),
      resized.Laid after extentAfter.index extentAfter.data → metaCodec.Fits resized →
      resized.size = newSize → resized.type = record.type → resized.name = record.name →
      (∀ id ∈ extentAfter.ids, id ∈ extent.ids) →
      post ((extentAfter.index, extentAfter.data), resized) after) :
    (fs.resize record newSize).wp rules held post failed store := by
  unfold resize
  simp only [Scoped.bind_eq, Scoped.pure_eq]
  rw [if_neg (Nat.lt_asymm shrinks), if_pos shrinks]
  refine Scoped.wp_bind.mpr
    (wp_cut_sparing space laid owned bound shrinks wide free spared unset ?_)
  intro resized extentAfter after laidAfter fits size type name origin
  refine Scoped.wp_bind.mpr (laidAfter.wp_blocks resized.size ?_ space.room
    (goal resized extentAfter after laidAfter fits size type name origin))
  intro id idIn
  exact space.area id (owned id (origin id (List.mem_append_left _ idIn)))

end Lowering

/-- `write` of contents of fewer data blocks stores them, if it returns and spares the index blocks
that stay. -/
theorem wp_write_sparing {totalBlocks : Nat} {inodes : Inodes} {volume : Volume}
    {extents : Nat → Extent}
    (rep : fs.Represents totalBlocks inodes store volume extents marked) {number : Nat}
    {file : File} (found : volume[number]? = some file) (bound : file.contents.length ≤ l4Max)
    {contents : List UInt8} (shrinks : contents.length < file.contents.length)
    (spares : ∀ id ∈ (extents number).past contents.length,
      fs.dataBitmap.rowOf id < totalBlocks ∧
        fs.dataBitmap.rowOf id ∉ (extents number).staying contents.length)
    {post : Unit → Inodes → (Nat → Block) → Prop}
    (goal : ∀ pointer looked extentAfter after,
      inodes.Looked (fs.inodeOf number file (extents number)) pointer looked →
      (∃ record, (after (fs.inodeAreaStartBlock + number)).view metaCodec 0 = some record ∧
        Placed { file with contents } record after extentAfter) →
      (∀ id ∈ extentAfter.ids, id ∈ (extents number).ids) →
      post () (looked.wrote pointer contents.length extentAfter.data) after)
    (stuck : ∀ error reached, failed error reached) :
    FsM.wp (Prog.deviceRules totalBlocks) (fs.write number contents) inodes post failed store := by
  obtain ⟨numberInside, -⟩ := List.getElem?_eq_some_iff.mp found
  obtain ⟨record, seen, placed⟩ := rep.holds.placed number file found
  have counted := Nat.lt_of_lt_of_le numberInside rep.holds.counted
  have space := rep.geometry.workspace counted
  have owned : ∀ id ∈ (extents number).ids, fs.InData id := fun id idIn =>
    (rep.holds.inData numberInside id idIn).1
  have onDevice : fs.inodeAreaStartBlock + number < totalBlocks := by
    obtain ⟨-, -, dataBitmap, dataArea, within, -⟩ := rep.geometry
    omega
  have wide : contents.length < 2 ^ 64 := by
    obtain ⟨-, -, -, -, -, -, -, top⟩ := levelConstants
    omega
  refine FsM.wp_bind.mpr (wp_cainode rep found ?_ fun _ _ => stuck _ _)
  intro pointer looked isLooked
  rw [inodePosOf_eq]
  refine FsM.wp_bind.mpr (FsM.wp_onBlocks.mpr
    (wp_modifyAt (by simp) seen ⟨onDevice, by simp, Nat.zero_lt_succ 4⟩ ?_))
  have free : ∀ id ∈ (extents number).past contents.length,
      (Prog.deviceRules totalBlocks).Valid (fs.dataBitmap.rowOf id) ∧
        fs.dataBitmap.rowOf id ∉ [fs.inodeAreaStartBlock + number] := by
    -- the bitmap lies behind the inode area, and what `dealloc` looks at not before the bitmap
    refine fun id idIn => ⟨(spares id idIn).1, fun isHeld => ?_⟩
    have dataBitmap := rep.geometry.dataBitmap
    have above : fs.dataBitmap.startBlockId ≤ fs.dataBitmap.rowOf id := Nat.le_add_left _ _
    rw [List.mem_singleton] at isHeld
    omega
  refine wp_resize_sparing space placed.laid owned (placed.size ▸ bound) (placed.size ▸ shrinks)
    wide free (fun id idIn => (spares id idIn).2) (fun _ => stuck _ _) ?_
  intro resized extentAfter middle laid fits size type name origin
  have distinct := (List.nodup_append.mp laid.distinct).2.1
  refine FsM.wp_bind.mpr (FsM.wp_onBlocks.mpr (wp_fillBlocks distinct ?_ ?_))
  · intro id idIn
    exact rep.admits numberInside id (origin id (List.mem_append_right _ idIn))
  intro after frame filled
  exact goal pointer looked extentAfter after isLooked (exists_placed laid fits size
    (type.trans placed.type) (name.trans placed.name) (fun id idIn =>
      rep.geometry.inode_ne counted (owned id (origin id idIn))) frame filled) origin

end Cafs

/-! ## What a write leaves within reach -/

/-- A file that was just written: it is stored, and the inode cache has its object. -/
structure Session.Stored (session : Session) (totalBlocks number : Nat) (file : File)
    (extent : Extent) (store : Nat → Block) : Prop where
  /-- The block cache stands for the contents. -/
  backed : session.Backed totalBlocks store
  /-- The file is stored under its inode. -/
  placed : ∃ record, (store (session.fs.inodeAreaStartBlock + number)).view metaCodec 0 =
    some record ∧ Placed file record store extent
  /-- The inode cache has its object. -/
  cached : ∃ pointer, session.inodes.find number = some pointer ∧
    session.inodes.heap pointer = session.fs.inodeOf number file extent
  /-- Its blocks may be asked for. -/
  admits : ∀ id ∈ extent.data, (Prog.deviceRules totalBlocks).Admits [] id

/-- A look at a file whose object is in the cache reads its data blocks. -/
theorem Cafs.wp_stat_cached {fs : Cafs} {rules : Scoped.Discipline Nat} {inodes : Inodes}
    {store : Nat → Block} {failed : Panic → (Nat → Block) → Prop} {number pointer : Nat}
    {file : File} {extent : Extent} (hit : inodes.find number = some pointer)
    (isObject : inodes.heap pointer = fs.inodeOf number file extent)
    (admits : ∀ id ∈ extent.data, rules.Admits [] id)
    {post : Stat → Inodes → (Nat → Block) → Prop}
    (goal : ∀ inodes, post ⟨file.type, file.contents.length, file.name,
      (fs.inodeOf number file extent).bytesOn store⟩ inodes store) :
    FsM.wp rules (fs.stat number) inodes post failed store := by
  have looked : FsM.wp rules (fs.inode number) inodes (fun found after reached =>
      found = pointer ∧ after.heap = inodes.heap ∧ reached = store) failed store := by
    refine FsM.wp_bind.mpr (FsM.wp_get.mpr ?_)
    rw [hit]
    exact ⟨rfl, rfl, rfl⟩
  refine FsM.wp_bind.mpr (FsM.wp_mono looked ?_)
  rintro found after reached ⟨rfl, sameHeap, rfl⟩
  refine FsM.wp_bind.mpr (FsM.wp_deref.mpr (FsM.wp_bind.mpr (FsM.wp_onBlocks.mpr ?_)))
  rw [sameHeap, isObject]
  exact CaInode.wp_data _ admits (goal after)

namespace Session

variable {session after : Session} {totalBlocks number : Nat} {volume : Volume}
  {extents : Nat → Extent} {marked : Nat → Bool} {store : Nat → Block} {file : File}
  {extent : Extent}

/-- `Meta::blocks` returns the blocks of a file that was just written. -/
theorem Stored.treeOf_eq (stored : session.Stored totalBlocks number file extent store) :
    session.fs.treeOf session.contents number = some extent := by
  obtain ⟨record, seen, placed⟩ := stored.placed
  rw [stored.backed.contents_eq]
  exact Cafs.treeOf_of_placed placed seen

/-- `data()` returns the bytes of its data blocks. -/
theorem Stored.sees (stored : session.Stored totalBlocks number file extent store) :
    session.Sees number ⟨file.type, file.contents.length, file.name,
      (session.fs.inodeOf number file extent).bytesOn store⟩ := by
  obtain ⟨pointer, hit, isObject⟩ := stored.cached
  have spec : FsM.wp (Prog.deviceRules totalBlocks) (session.fs.stat number) session.inodes
      (fun seen _ _ => seen = ⟨file.type, file.contents.length, file.name,
        (session.fs.inodeOf number file extent).bytesOn store⟩) (fun _ _ => False) store :=
    Cafs.wp_stat_cached hit isObject stored.admits fun _ => rfl
  obtain ⟨_, after, _, ran, -, -, rfl⟩ := stored.backed.returns spec
  exact ⟨after, ran⟩

/-- What a write that returns leaves of the inode cache, with the blocks it leaves, is a file
just written. -/
theorem stored_of_wrote (serves : session.Serves totalBlocks volume extents marked store)
    (found : volume[number]? = some file) {contents : List UInt8} {pointer : Nat}
    {looked : Inodes} {reached : Nat → Block}
    (isLooked : session.inodes.Looked (session.fs.inodeOf number file (extents number)) pointer
      looked)
    (inodesEq : after.inodes = looked.wrote pointer contents.length extent.data)
    (fsEq : after.fs = session.fs) (backed : after.Backed totalBlocks reached)
    (placed : ∃ record, (reached (session.fs.inodeAreaStartBlock + number)).view metaCodec 0 =
      some record ∧ Placed { file with contents } record reached extent)
    (inData : ∀ id ∈ extent.ids, session.fs.InData id) :
    after.Stored totalBlocks number { file with contents } extent reached := by
  obtain ⟨inside, -⟩ := List.getElem?_eq_some_iff.mp found
  have rep := serves.represents
  have space := rep.geometry.workspace (Nat.lt_of_lt_of_le inside rep.holds.counted)
  obtain ⟨coherent, pointerIn, isObject, -⟩ := rep.coherent.looked found isLooked
  have isNumber : (looked.heap pointer).inodeNumber = number := by rw [isObject, Cafs.inodeOf]
  have coherentAfter : (looked.wrote pointer contents.length extent.data).Coherent session.fs
      (volume.write number contents) (Function.update extents number extent) :=
    (coherent.write pointerIn isNumber found contents extent).drop pointer
  refine ⟨backed, fsEq ▸ placed, ?_, fun id idIn => ?_⟩
  · rw [inodesEq, fsEq]
    cases search : (looked.wrote pointer contents.length extent.data).find number with
    | none =>
      have missed := Inodes.find_none search pointer pointerIn
      rw [Inodes.inodeNumber_wrote] at missed
      exact absurd isNumber missed
    | some hit =>
      obtain ⟨hitIn, hitNumber⟩ := Inodes.find_some search
      obtain ⟨same, foundSame, equal⟩ := coherentAfter.entry hitIn
      have foundAfter := Volume.getElem?_write_self found contents
      refine ⟨hit, rfl, ?_⟩
      rw [hitNumber, Function.update_self] at equal
      rw [hitNumber] at foundSame
      rw [equal, Option.some.inj (foundAfter.symm.trans foundSame)]
  · exact ⟨(space.area id (inData id (List.mem_append_right _ idIn))).1, by simp,
      Nat.zero_lt_succ 4⟩

/-- What a write that lowers the number of data blocks leaves, if it returns. -/
theorem Serves.lowers (serves : session.Serves totalBlocks volume extents marked store)
    (found : volume[number]? = some file) (bound : file.contents.length ≤ l4Max)
    {contents : List UInt8} (shrinks : contents.length < file.contents.length)
    (spares : ∀ id ∈ (extents number).past contents.length,
      session.fs.dataBitmap.rowOf id < totalBlocks ∧
        session.fs.dataBitmap.rowOf id ∉ (extents number).staying contents.length)
    (ran : session.exec (session.fs.write number contents) = .ok () after) :
    ∃ extent reached, after.Stored totalBlocks number { file with contents } extent reached := by
  obtain ⟨inside, -⟩ := List.getElem?_eq_some_iff.mp found
  have rep := serves.represents
  have spec : FsM.wp (Prog.deviceRules totalBlocks) (session.fs.write number contents)
      session.inodes (fun _ inodes reached => ∃ pointer looked extent,
        session.inodes.Looked (session.fs.inodeOf number file (extents number)) pointer looked ∧
        (∃ record, (reached (session.fs.inodeAreaStartBlock + number)).view metaCodec 0 =
          some record ∧ Placed { file with contents } record reached extent) ∧
        (∀ id ∈ extent.ids, id ∈ (extents number).ids) ∧
        inodes = looked.wrote pointer contents.length extent.data) (fun _ _ => True) store :=
    Cafs.wp_write_sparing rep found bound shrinks spares
      (fun pointer looked extent reached isLooked placed origin =>
        ⟨pointer, looked, extent, isLooked, placed, origin, rfl⟩) fun _ _ => trivial
  obtain ⟨reached, backed, fsEq, pointer, looked, extent, isLooked, placed, origin, inodesEq⟩ :=
    serves.backed.returned spec ran
  exact ⟨extent, reached, stored_of_wrote serves found isLooked inodesEq fsEq backed placed
    fun id idIn => (rep.holds.inData inside id (origin id idIn)).1⟩

end Session

end Canyon.Fs
