import Canyon.Fs.Lawful

/-!
# Block ownership

Which blocks belong to which inode, read off the blocks of the device: the inode bitmap, the
`Meta`s and their trees. Along a run in which no write lowers the number of data blocks of its
file, the data bitmap marks exactly these blocks, each of which is in one place of one tree.
-/

namespace Canyon.Fs

open Canyon.Lib

/-- A bit of a bitmap, as the blocks have it. -/
def Bitmap.bitOn (bitmap : Bitmap) (store : Nat → Block) (bit : Nat) : Bool :=
  match (store (bit / blockBits + bitmap.startBlockId)).view bitmapBlock 0 with
  | some words => words.bit (bit % blockBits)
  | none => false

/-- The bits are the marks. -/
theorem Bitmap.Marks.bitOn_eq {bitmap : Bitmap} {store : Nat → Block} {marked : Nat → Bool}
    (marks : bitmap.Marks store marked) {bit : Nat} (inside : bit < bitmap.totalCount) :
    bitmap.bitOn store bit = marked bit := by
  have row : bit / blockBits < bitmap.blocks :=
    Nat.div_lt_of_lt_mul (by rwa [totalCount, Nat.mul_comm] at inside)
  obtain ⟨words, seen, agree⟩ := marks _ row
  have whole : bit / blockBits * blockBits + bit % blockBits = bit := Nat.div_add_mod' ..
  have place := agree (bit % blockBits) (Nat.mod_lt _ (by decide))
  rw [whole] at place
  simp only [bitOn, seen, place]

/-- Blocks that a file of this size takes. -/
def File.blocks (file : File) : Nat :=
  (indexBlocks file.contents.length).indexBlockCount + dataBlocks file.contents.length

/-- An empty file takes no block. -/
theorem File.blocks_empty (type : InodeType) (name : NameBytes) :
    File.blocks ⟨type, name, []⟩ = 0 := by
  show (indexBlocks 0).indexBlockCount + dataBlocks 0 = 0
  decide

/-- Blocks that the files take. -/
def Volume.blocks (volume : Volume) : Nat := (volume.map File.blocks).sum

namespace Cafs

/-- The inodes that the inode bitmap marks. -/
def allocatedInodes (fs : Cafs) (store : Nat → Block) : List Nat :=
  (List.range fs.inodeBitmap.totalCount).filter (fs.inodeBitmap.bitOn store)

/-- The blocks that `Meta::blocks` returns for the `Meta` of an inode. -/
def treeOf (fs : Cafs) (store : Nat → Block) (inodeNumber : Nat) : Option Extent :=
  match (store (fs.inodePosOf inodeNumber).1).view metaCodec (fs.inodePosOf inodeNumber).2 with
  | some record =>
    match record.blocks.run store with
    | .ok (index, data) _ => some ⟨index, data⟩
    | .error _ _ => none
  | none => none

/-- The blocks of all trees, place by place. -/
def ownedBlocks (fs : Cafs) (store : Nat → Block) : List Nat :=
  (fs.allocatedInodes store).flatMap fun number => ((fs.treeOf store number).elim [] Extent.ids)

/-- The data bitmap marks the blocks of the trees and no others, and no block is in two
places. -/
structure OwnsExactly (fs : Cafs) (store : Nat → Block) : Prop where
  /-- Every allocated inode has a tree. -/
  readable : ∀ number ∈ fs.allocatedInodes store, (fs.treeOf store number).isSome = true
  /-- No block is in two places. -/
  once : (fs.ownedBlocks store).Nodup
  /-- The blocks are data blocks. -/
  inArea : ∀ id ∈ fs.ownedBlocks store, fs.dataAreaStartBlock ≤ id ∧
    id < fs.dataAreaStartBlock + fs.dataBitmap.totalCount
  /-- The bitmap marks the blocks and no others. -/
  exact : ∀ bit < fs.dataBitmap.totalCount, fs.dataBitmap.bitOn store bit = true ↔
    ∃ id ∈ fs.ownedBlocks store, bit = id - fs.dataAreaStartBlock

section Holds

variable {fs : Cafs} {store : Nat → Block} {volume : Volume} {extents : Nat → Extent}
  {marked : Nat → Bool}

/-- The allocated inodes are those of the files. -/
theorem Holds.allocatedInodes_eq (holds : fs.Holds store volume extents marked) :
    fs.allocatedInodes store = List.range volume.length := by
  rw [allocatedInodes, ← filter_lt_range holds.counted]
  refine List.filter_congr fun number numberIn => ?_
  exact holds.inodes.bitOn_eq (List.mem_range.mp numberIn)

/-- The tree of a stored file has its blocks. -/
theorem treeOf_of_placed {file : File} {record : Meta} {extent : Extent} {number : Nat}
    (placed : Placed file record store extent)
    (seen : (store (fs.inodeAreaStartBlock + number)).view metaCodec 0 = some record) :
    fs.treeOf store number = some extent := by
  have spec : record.blocks.wp (⟨4, fun _ => True⟩ : Scoped.Discipline Nat) []
      (fun found _ => found = (extent.index, extent.data)) (fun _ _ => False) store :=
    placed.laid.wp_blocks record.size (by simp) (Nat.le_refl 4) rfl
  obtain ⟨_, _, ran, rfl⟩ := Scoped.run_eq_of_wp spec
  unfold treeOf
  rw [inodePosOf_eq]
  simp only [seen, ran]

section

variable (holds : fs.Holds store volume extents marked)

include holds

/-- The tree of a file has its blocks. -/
theorem Holds.treeOf_eq {number : Nat} (inside : number < volume.length) :
    fs.treeOf store number = some (extents number) := by
  obtain ⟨record, seen, placed⟩ := holds.placed number _ (List.getElem?_eq_getElem inside)
  exact treeOf_of_placed placed seen

/-- The blocks of all trees are those of the files. -/
theorem Holds.ownedBlocks_eq :
    fs.ownedBlocks store = (List.range volume.length).flatMap fun number =>
      (extents number).ids := by
  rw [ownedBlocks, holds.allocatedInodes_eq]
  refine List.flatMap_congr fun number numberIn => ?_
  rw [holds.treeOf_eq (List.mem_range.mp numberIn), Option.elim_some]

/-- Membership in the blocks of all trees. -/
theorem Holds.mem_ownedBlocks {id : Nat} :
    id ∈ fs.ownedBlocks store ↔ ∃ number < volume.length, id ∈ (extents number).ids := by
  rw [holds.ownedBlocks_eq, List.mem_flatMap]
  simp only [List.mem_range]

/-- No two places of the trees hold one block. -/
theorem Holds.nodup_ownedBlocks : (fs.ownedBlocks store).Nodup := by
  rw [holds.ownedBlocks_eq, List.nodup_flatMap]
  constructor
  · intro number numberIn
    have inside := List.mem_range.mp numberIn
    obtain ⟨record, -, placed⟩ := holds.placed number _ (List.getElem?_eq_getElem inside)
    exact placed.laid.distinct
  · have apart : (List.range volume.length).Pairwise (· ≠ ·) := List.nodup_range
    refine apart.imp_of_mem fun leftIn rightIn different => ?_
    exact holds.apart _ _ (List.mem_range.mp leftIn) (List.mem_range.mp rightIn) different

/-- A bit is marked when its block is in a tree. -/
theorem Holds.marked_iff (small : volume.Small) {bit : Nat}
    (inside : bit < fs.dataBitmap.totalCount) :
    marked bit = true ↔ ∃ id ∈ fs.ownedBlocks store, bit = id - fs.dataAreaStartBlock := by
  constructor
  · intro isMarked
    obtain ⟨number, numberInside, idIn⟩ := holds.exact small bit inside isMarked
    exact ⟨_, holds.mem_ownedBlocks.mpr ⟨number, numberInside, idIn⟩, by omega⟩
  · rintro ⟨id, idIn, rfl⟩
    obtain ⟨number, numberInside, idIn⟩ := holds.mem_ownedBlocks.mp idIn
    exact (holds.owned number numberInside id idIn).2.2

/-- Blocks that hold a volume of files that the trees can describe own their blocks exactly. -/
theorem Holds.ownsExactly (small : volume.Small) : fs.OwnsExactly store where
  readable number numberIn := by
    rw [holds.allocatedInodes_eq, List.mem_range] at numberIn
    rw [holds.treeOf_eq numberIn, Option.isSome_some]
  once := holds.nodup_ownedBlocks
  inArea id idIn := by
    obtain ⟨number, inside, idIn⟩ := holds.mem_ownedBlocks.mp idIn
    exact (holds.inData inside id idIn).1
  exact bit inside := by
    rw [holds.marks.bitOn_eq inside]
    exact holds.marked_iff small inside

/-- As many bits are marked as there are blocks in the trees. -/
theorem Holds.used_eq (small : volume.Small) :
    fs.dataBitmap.used marked = (fs.ownedBlocks store).length := by
  have owns := holds.ownsExactly small
  have places : ((fs.ownedBlocks store).map (· - fs.dataAreaStartBlock)).Nodup := by
    refine List.Nodup.map_on ?_ owns.once
    intro left leftIn right rightIn same
    have leftLower := (owns.inArea left leftIn).1
    have rightLower := (owns.inArea right rightIn).1
    omega
  have perm : ((List.range fs.dataBitmap.totalCount).filter marked).Perm
      ((fs.ownedBlocks store).map (· - fs.dataAreaStartBlock)) := by
    refine (List.perm_ext_iff_of_nodup (List.nodup_range.filter _) places).mpr fun bit => ?_
    rw [List.mem_filter, List.mem_range, List.mem_map]
    constructor
    · rintro ⟨inside, isMarked⟩
      obtain ⟨id, idIn, rfl⟩ := (holds.marked_iff small inside).mp isMarked
      exact ⟨id, idIn, rfl⟩
    · rintro ⟨id, idIn, rfl⟩
      obtain ⟨lower, upper⟩ := owns.inArea id idIn
      have inside : id - fs.dataAreaStartBlock < fs.dataBitmap.totalCount := by omega
      exact ⟨inside, (holds.marked_iff small inside).mpr ⟨id, idIn, rfl⟩⟩
  rw [Bitmap.used, List.countP_eq_length_filter, perm.length_eq, List.length_map]

/-- As many bits are marked as the sizes of the files ask for. -/
theorem Holds.used_eq_blocks (small : volume.Small) :
    fs.dataBitmap.used marked = volume.blocks := by
  rw [holds.used_eq small, holds.ownedBlocks_eq, List.length_flatMap, Volume.blocks]
  congr 1
  refine List.ext_getElem (by simp) fun number inside _ => ?_
  rw [List.length_map, List.length_range] at inside
  have found := List.getElem?_eq_getElem inside
  obtain ⟨record, -, placed⟩ := holds.placed number _ found
  have bound := small _ (List.mem_of_getElem? found)
  rw [← placed.size] at bound
  obtain ⟨indexLength, dataLength⟩ := placed.laid.planned bound
  simp only [List.getElem_map, List.getElem_range, Extent.ids, List.length_append, indexLength,
    dataLength, placed.size, File.blocks]

end

end Holds

/-! ## A write that lowers the number of data blocks

`CAFS::write` passes the numbers of the blocks it frees to `Bitmap::dealloc`, which takes
positions in the bitmap. -/

section Lowering

variable {fs : Cafs} {store : Nat → Block} {marked : Nat → Bool}
  {rules : Scoped.Discipline Nat} {held : List Nat} {failed : Panic → (Nat → Block) → Prop}

/-- Block numbers that are positions without a mark trip the assertion of `dealloc`. -/
theorem wp_deallocAll_clear (marks : fs.dataBitmap.Marks store marked)
    (free : ∀ id, fs.dataBitmap.Owns id → rules.Valid id ∧ id ∉ held)
    (room : held.length < rules.limit) {ids : List Nat} (some : ids ≠ [])
    (clear : ∀ id ∈ ids, id < fs.dataBitmap.totalCount ∧ marked id = false)
    {post : Unit → (Nat → Block) → Prop} (goal : failed .bitNotSet store) :
    (fs.deallocAll ids).wp rules held post failed store := by
  cases ids with
  | nil => contradiction
  | cons id ids =>
    obtain ⟨inside, isClear⟩ := clear id List.mem_cons_self
    have row : id / blockBits < fs.dataBitmap.blocks :=
      Nat.div_lt_of_lt_mul (by rwa [Bitmap.totalCount, Nat.mul_comm] at inside)
    have own : fs.dataBitmap.Owns (id / blockBits + fs.dataBitmap.startBlockId) :=
      ⟨Nat.le_add_left _ _, by rw [Nat.add_comm]; exact Nat.add_lt_add_left row _⟩
    obtain ⟨valid, notHeld⟩ := free _ own
    exact Scoped.wp_bind.mpr
      (Bitmap.wp_dealloc_clear marks inside isClear ⟨valid, notHeld, room⟩ goal)

/-- The branch of `CAFS::write` for contents of fewer data blocks. -/
theorem wp_cut_lowering {record : Meta} {extent : Extent} {newSize : Nat}
    (space : fs.Workspace rules held) (marks : fs.dataBitmap.Marks store marked)
    (laid : record.Laid store extent.index extent.data)
    (owned : ∀ id ∈ extent.ids, fs.InData id) (bound : record.size ≤ l4Max)
    (shrinks : newSize < record.size) (wide : newSize < 2 ^ 64)
    (lowers : dataBlocks newSize < dataBlocks record.size)
    (clear : ∀ id ∈ extent.ids, id < fs.dataBitmap.totalCount ∧ marked id = false)
    {post : Meta → (Nat → Block) → Prop} (goal : ∀ reached, failed .bitNotSet reached) :
    (fs.cut record newSize).wp rules held post failed store := by
  have few : held.length < rules.limit := by
    have := space.room
    omega
  obtain ⟨indexLeft, dataLeft⟩ := laid.left_of_bound (Nat.le_of_lt shrinks) bound
  obtain ⟨indexLength, dataLength⟩ := laid.planned bound
  have fewerIndex := indexBlockCount_mono (Nat.le_of_lt shrinks)
  refine Scoped.wp_bind.mpr (laid.wp_shrink (Nat.le_of_lt shrinks) wide (.inl bound) ?_
    (fun _ => space.superBlock) space.room ?_)
  · intro id idIn
    exact space.area id (owned id (List.mem_append_left _ idIn))
  intro resized after indexAfter dataAfter forwarded _
  rw [indexLeft, dataLeft] at forwarded ⊢
  have marksAfter : fs.dataBitmap.Marks after marked := by
    refine marks.congr fun id own => forwarded.frame id (fun idIn => ?_) (.inl ?_)
    · have lower := (owned id (List.mem_append_left _ (List.mem_of_mem_take idIn))).1
      exact absurd lower (Nat.not_le.mpr (space.apart id own).2)
    · exact Nat.ne_of_gt (space.apart id own).1
  have indexClear : ∀ id ∈ (extent.index.drop (indexBlocks newSize).indexBlockCount).reverse,
      id < fs.dataBitmap.totalCount ∧ marked id = false := fun id idIn =>
    clear id (List.mem_append_left _ (List.mem_of_mem_drop (List.mem_reverse.mp idIn)))
  have dataClear : ∀ id ∈ (extent.data.drop (dataBlocks newSize)).reverse,
      id < fs.dataBitmap.totalCount ∧ marked id = false := fun id idIn =>
    clear id (List.mem_append_right _ (List.mem_of_mem_drop (List.mem_reverse.mp idIn)))
  have dataFreed : (extent.data.drop (dataBlocks newSize)).reverse ≠ [] := by
    rw [Ne, List.reverse_eq_nil_iff, List.drop_eq_nil_iff]
    omega
  -- The index blocks are freed first; when there are none, the data blocks are.
  by_cases none : (extent.index.drop (indexBlocks newSize).indexBlockCount).reverse = []
  · rw [none]
    have freed : (do
        fs.deallocAll (extent.data.drop (dataBlocks newSize)).reverse
        return resized : Prog Meta).wp rules held post failed after :=
      Scoped.wp_bind.mpr
        (wp_deallocAll_clear marksAfter space.bitmap few dataFreed dataClear (goal _))
    exact Scoped.wp_bind.mpr freed
  · exact Scoped.wp_bind.mpr
      (wp_deallocAll_clear marksAfter space.bitmap few none indexClear (goal _))

/-- `write` of contents of fewer data blocks. -/
theorem wp_write_lowering {totalBlocks : Nat} {inodes : Inodes} {volume : Volume}
    {extents : Nat → Extent}
    (rep : fs.Represents totalBlocks inodes store volume extents marked) {number : Nat}
    {file : File} (found : volume[number]? = some file) (bound : file.contents.length ≤ l4Max)
    {contents : List UInt8}
    (lowers : dataBlocks contents.length < dataBlocks file.contents.length)
    (clear : ∀ id ∈ (extents number).ids, id < fs.dataBitmap.totalCount ∧ marked id = false)
    {post : Unit → Inodes → (Nat → Block) → Prop}
    (goal : ∀ reached, failed .bitNotSet reached)
    (noCache : inodes.find number = none →
      Inodes.substitute inodes.queue inodes.handles = .error .runOutOfInodeCache →
      failed .runOutOfInodeCache store) :
    FsM.wp (Prog.deviceRules totalBlocks) (fs.write number contents) inodes post failed store := by
  obtain ⟨inside, -⟩ := List.getElem?_eq_some_iff.mp found
  obtain ⟨record, seen, placed⟩ := rep.holds.placed number file found
  have space := rep.geometry.workspace (Nat.lt_of_lt_of_le inside rep.holds.counted)
  have onDevice : fs.inodeAreaStartBlock + number < totalBlocks := by
    have counted := rep.holds.counted
    obtain ⟨-, -, dataBitmap, dataArea, within, -⟩ := rep.geometry
    omega
  have shrinks : contents.length < file.contents.length := by
    by_contra longer
    have := dataBlocks_mono (Nat.le_of_not_lt longer)
    omega
  have wide : contents.length < 2 ^ 64 := by
    obtain ⟨-, -, -, -, -, -, -, top⟩ := levelConstants
    omega
  refine FsM.wp_bind.mpr (wp_cainode rep found ?_ noCache)
  intro pointer looked _
  rw [inodePosOf_eq]
  refine FsM.wp_bind.mpr (FsM.wp_onBlocks.mpr
    (wp_modifyAt (by simp) seen ⟨onDevice, by simp, Nat.zero_lt_succ 4⟩ ?_))
  rw [← placed.size] at bound lowers shrinks
  unfold resize
  simp only [Scoped.bind_eq, Scoped.pure_eq]
  rw [if_neg (Nat.lt_asymm shrinks), if_pos shrinks]
  exact Scoped.wp_bind.mpr (wp_cut_lowering space rep.holds.marks placed.laid
    (fun id idIn => (rep.holds.inData inside id idIn).1) bound shrinks wide lowers clear goal)

end Lowering

end Cafs

/-! ## Whole runs -/

section Runs

variable {totalBlocks inodeBitmapBlocks : Nat} {volume : Volume} {session : Session}
  {extents : Nat → Extent} {marked : Nat → Bool} {store : Nat → Block} {number : Nat} {file : File}
  {contents : List UInt8} {device : Disk}

/-- A lookup in a tracked session finds the inode in the cache. -/
theorem Tracks.find_ne_none
    (tracks : Tracks totalBlocks inodeBitmapBlocks volume session extents marked store)
    (inside : number < volume.length) : session.inodes.find number ≠ none := by
  intro absent
  obtain ⟨pointer, pointerIn, isNumber⟩ := tracks.packed.present number inside
  exact Inodes.find_none absent pointer pointerIn isNumber

/-- No call that keeps the data blocks of its file trips the assertion of `dealloc`. -/
theorem Tracks.never_trips
    (tracks : Tracks totalBlocks inodeBitmapBlocks volume session extents marked store)
    {call : Call} (tidy : call.Tidy volume) (after : Session) :
    session.exec (call.run session.fs) ≠ .error .bitNotSet after := by
  intro ran
  have listed : .bitNotSet ∈ Call.panics :=
    tracks.serves.backed.panicked (tracks.serves.wp_call tidy.lawful) ran
  exact absurd listed (by decide)

/-- A write that lowers the number of data blocks of its file trips the assertion, as long as
fewer blocks are in use than lie before the data area. -/
theorem Tracks.lowering_trips
    (tracks : Tracks totalBlocks inodeBitmapBlocks volume session extents marked store)
    (isSmall : volume.Small) (found : volume[number]? = some file)
    (lowers : dataBlocks contents.length < dataBlocks file.contents.length)
    (few : volume.blocks ≤ session.fs.dataAreaStartBlock)
    (room : session.fs.dataAreaStartBlock + volume.blocks ≤ session.fs.dataBitmap.totalCount) :
    ∃ after, session.exec (session.fs.write number contents) = .error .bitNotSet after := by
  obtain ⟨inside, -⟩ := List.getElem?_eq_some_iff.mp found
  have rep := tracks.serves.represents
  have used := rep.holds.used_eq_blocks isSmall
  have lowest : ∀ bit < session.fs.dataBitmap.totalCount,
      bit < volume.blocks ↔ marked bit = true := by
    intro bit bitInside
    rw [← used]
    exact lt_countP_range_iff tracks.lowest bitInside
  have clear : ∀ id ∈ (extents number).ids, id < session.fs.dataBitmap.totalCount ∧
      marked id = false := by
    intro id idIn
    obtain ⟨⟨lower, upper⟩, isMarked⟩ := rep.holds.inData inside id idIn
    have early := (lowest _ (by omega)).mpr isMarked
    have idInside : id < session.fs.dataBitmap.totalCount := by omega
    refine ⟨idInside, Bool.eq_false_iff.mpr fun again => ?_⟩
    have := (lowest id idInside).mpr again
    omega
  have spec : FsM.wp (Prog.deviceRules totalBlocks) (session.fs.write number contents)
      session.inodes (fun _ _ _ => False) (fun error _ => error = .bitNotSet) store :=
    Cafs.wp_write_lowering rep found (isSmall file (List.mem_of_getElem? found)) lowers clear
      (fun _ => rfl) fun absent => absurd absent (tracks.find_ne_none inside)
  obtain ⟨_, after, ran, rfl⟩ := tracks.serves.backed.panics spec
  exact ⟨after, ran⟩

/-- In every state that tidy calls reach, the data bitmap marks the blocks of the trees and no
others, each in one place; `df` counts them; and no tidy call trips the assertion of
`dealloc`. -/
theorem blocks_owned_exactly {device : Disk} (small : totalBlocks < 2 ^ 64)
    (history : History Call.Tidy device totalBlocks inodeBitmapBlocks volume session) :
    session.fs.OwnsExactly session.contents ∧
      (∃ after, session.exec session.fs.df =
        .ok (session.fs.dataBitmap.totalCount * blockSize -
            blockSize * (session.fs.ownedBlocks session.contents).length,
          session.fs.dataBitmap.totalCount * blockSize) after) ∧
      ∀ call : Call, call.Tidy volume → ∀ after,
        session.exec (call.run session.fs) ≠ .error .bitNotSet after := by
  obtain ⟨isSmall, extents, marked, store, tracks⟩ := history.tidy small
  have rep := tracks.serves.represents
  rw [tracks.serves.backed.contents_eq]
  refine ⟨rep.holds.ownsExactly isSmall, ?_, fun call tidy => tracks.never_trips tidy⟩
  have spec : FsM.wp (Prog.deviceRules totalBlocks) session.fs.df session.inodes
      (fun space _ _ => space = (session.fs.dataBitmap.totalCount * blockSize -
          blockSize * (session.fs.ownedBlocks store).length,
        session.fs.dataBitmap.totalCount * blockSize)) (fun _ _ => False) store := by
    refine Cafs.wp_df rep ?_
    rw [rep.holds.used_eq isSmall, Nat.sub_mul, Nat.mul_comm blockSize]
  obtain ⟨_, after, _, ran, -, -, rfl⟩ := tracks.serves.backed.returns spec
  exact ⟨after, ran⟩

/-- A write returns while there are blocks for it. -/
theorem Tracks.write_returns
    (tracks : Tracks totalBlocks inodeBitmapBlocks volume session extents marked store)
    (isSmall : volume.Small) (found : volume[number]? = some file) (wide : contents.length < 2 ^ 64)
    (keeps : dataBlocks file.contents.length ≤ dataBlocks contents.length)
    (space : volume.blocks + Cafs.growth file.contents.length contents.length ≤
      (Cafs.parted totalBlocks inodeBitmapBlocks).dataBitmap.totalCount) :
    ∃ value after, session.exec (session.fs.write number contents) = .ok value after := by
  obtain ⟨inside, -⟩ := List.getElem?_eq_some_iff.mp found
  have rep := tracks.serves.represents
  rw [← tracks.parts, ← rep.holds.used_eq_blocks isSmall] at space
  have spec : FsM.wp (Prog.deviceRules totalBlocks) (session.fs.write number contents)
      session.inodes (fun _ _ _ => True) (fun _ _ => False) store :=
    Cafs.wp_write rep found wide keeps (fun _ _ _ _ _ _ _ => trivial)
      (fun absent => absurd absent (tracks.find_ne_none inside)) fun _ _ short => by omega
  obtain ⟨value, after, -, ran, -⟩ := tracks.serves.backed.returns spec
  exact ⟨value, after, ran⟩

/-- `create` in the root directory returns while there are blocks, an inode and cache entries
for it. -/
theorem Tracks.create_returns
    (tracks : Tracks totalBlocks inodeBitmapBlocks volume session extents marked store)
    (isSmall : volume.Small) {root : File} (found : volume[0]? = some root) {name : String}
    {bytes : NameBytes} (isName : nameBytes (utf8Bytes name) = some bytes)
    (few : volume.length ≤ 15)
    (free : volume.length < (Cafs.parted totalBlocks inodeBitmapBlocks).inodeBitmap.totalCount)
    (space : volume.blocks + Cafs.growth root.contents.length
        (appendEntry root.contents volume.length).length ≤
      (Cafs.parted totalBlocks inodeBitmapBlocks).dataBitmap.totalCount) :
    ∃ value after, session.exec (session.fs.create 0 name) = .ok value after := by
  have rep := tracks.serves.represents
  have contentsEq := extended_eq tracks.serves found (isSmall root (List.mem_of_getElem? found))
  have keeps := keeps_appendEntry root.contents volume.length
  have entries : session.inodes.queue.length + 1 = 2 * volume.length := tracks.packed.length
  have cacheSize : inodeCacheSize = 32 := rfl
  rw [← tracks.parts] at free
  rw [← tracks.parts, ← rep.holds.used_eq_blocks isSmall, ← contentsEq] at space
  rw [← contentsEq] at keeps
  have spec : FsM.wp (Prog.deviceRules totalBlocks) (session.fs.create 0 name) session.inodes
      (fun _ _ _ => True) (fun _ _ => False) store := by
    refine Cafs.wp_create rep found keeps (fun _ _ _ _ _ _ _ _ _ _ _ => trivial)
      (fun none => by omega) (fun _ tooLong => ?_) (fun _ full => by omega)
      fun _ _ _ short => by omega
    rw [isName] at tooLong
    contradiction
  obtain ⟨value, after, -, ran, -⟩ := tracks.serves.backed.returns spec
  exact ⟨value, after, ran⟩

/-- A run goes on with a tidy write while there are blocks for it. -/
theorem History.wrote (small : totalBlocks < 2 ^ 64)
    (history : History Call.Tidy device totalBlocks inodeBitmapBlocks volume session)
    (found : volume[number]? = some file) (bound : contents.length ≤ l4Max)
    (keeps : dataBlocks file.contents.length ≤ dataBlocks contents.length)
    (space : volume.blocks + Cafs.growth file.contents.length contents.length ≤
      (Cafs.parted totalBlocks inodeBitmapBlocks).dataBitmap.totalCount) :
    ∃ after, History Call.Tidy device totalBlocks inodeBitmapBlocks
      (volume.write number contents) after := by
  obtain ⟨isSmall, extents, marked, store, tracks⟩ := history.tidy small
  have tidy : (Call.write number contents).Tidy volume := by
    refine ⟨(List.getElem?_eq_some_iff.mp found).1, ?_, ?_⟩
    · rintro _ _ written
      obtain ⟨rfl, rfl⟩ := Prod.mk.inj (Option.some.inj written)
      exact bound
    · rintro _ _ other written foundOther
      obtain ⟨rfl, rfl⟩ := Prod.mk.inj (Option.some.inj written)
      obtain rfl := Option.some.inj (found.symm.trans foundOther)
      exact keeps
  have wide : contents.length < 2 ^ 64 := by
    obtain ⟨-, -, -, -, -, -, -, top⟩ := levelConstants
    omega
  obtain ⟨value, after, ran⟩ := tracks.write_returns isSmall found wide keeps space
  have answered : session.exec ((Call.write number contents).run session.fs) =
      .ok .done after := by
    rw [Call.run, Session.exec_map, ran]
  exact ⟨after, history.snoc tidy answered⟩

/-- A run goes on with `create` in the root directory while there is room for it. -/
theorem History.created (small : totalBlocks < 2 ^ 64)
    (history : History Call.Tidy device totalBlocks inodeBitmapBlocks volume session) {root : File}
    (found : volume[0]? = some root) (isDir : root.type = .dir) {name : String} {bytes : NameBytes}
    (isName : nameBytes (utf8Bytes name) = some bytes)
    (bound : (appendEntry root.contents volume.length).length ≤ l4Max) (few : volume.length ≤ 15)
    (free : volume.length < (Cafs.parted totalBlocks inodeBitmapBlocks).inodeBitmap.totalCount)
    (space : volume.blocks + Cafs.growth root.contents.length
        (appendEntry root.contents volume.length).length ≤
      (Cafs.parted totalBlocks inodeBitmapBlocks).dataBitmap.totalCount) :
    ∃ after, History Call.Tidy device totalBlocks inodeBitmapBlocks
      ((volume.add .file bytes).write 0 (appendEntry root.contents volume.length)) after := by
  obtain ⟨isSmall, extents, marked, store, tracks⟩ := history.tidy small
  have tidy : (Call.create 0 name).Tidy volume :=
    ⟨⟨root, found, isDir⟩, Call.bounded_create found bound name, Call.keeping_create volume 0 name⟩
  obtain ⟨value, after, ran⟩ := tracks.create_returns isSmall found isName few free space
  have answered : session.exec ((Call.create 0 name).run session.fs) =
      .ok (.handle value) after := by
    rw [Call.run, Session.exec_map, ran]
  have done := history.snoc tidy answered
  simp only [Volume.after, isName, found] at done
  exact ⟨after, done⟩

/-- A run that has made one call of `init`. -/
theorem History.initial {allowed : Volume → Call → Prop} (small : totalBlocks < 2 ^ 64)
    (fitting : Cafs.Fitting totalBlocks inodeBitmapBlocks) (positive : 0 < inodeBitmapBlocks)
    (onDevice : totalBlocks ≤ device.totalBlocks) :
    ∃ session, History allowed device totalBlocks inodeBitmapBlocks Volume.initial session := by
  obtain ⟨session, setUp⟩ := Session.exists_fromInit small fitting positive onDevice
  exact ⟨session, session, setUp, .refl⟩

/-- The root directory with one file `test.txt`. -/
def testVolume (bytes : NameBytes) (contents : List UInt8) : Volume :=
  [⟨.dir, rootName, appendEntry [] 1⟩, ⟨.file, bytes, contents⟩]

/-- The directory has a block. -/
theorem testVolume_blocks (bytes : NameBytes) (contents : List UInt8) :
    (testVolume bytes contents).blocks = 1 + File.blocks ⟨.file, bytes, contents⟩ := by
  have directory : File.blocks ⟨.dir, rootName, appendEntry [] 1⟩ = 1 := by decide
  rw [Volume.blocks, testVolume, List.map_cons, List.sum_cons, directory]
  rfl

/-- The name is short enough. -/
theorem nameBytes_test : ∃ bytes, nameBytes (utf8Bytes "test.txt") = some bytes := by
  have ascii : utf8Bytes "test.txt" = [116, 101, 115, 116, 46, 116, 120, 116] := by decide
  rw [ascii]
  exact ⟨_, rfl⟩

/-- A run that creates `test.txt`. -/
theorem exists_createdHistory (small : totalBlocks < 2 ^ 64)
    (fitting : Cafs.Fitting totalBlocks inodeBitmapBlocks) (positive : 0 < inodeBitmapBlocks)
    (space : 1 ≤ (Cafs.parted totalBlocks inodeBitmapBlocks).dataBitmap.totalCount) :
    ∃ bytes session, nameBytes (utf8Bytes "test.txt") = some bytes ∧
      History Call.Tidy (Disk.new totalBlocks) totalBlocks inodeBitmapBlocks
        (testVolume bytes []) session := by
  obtain ⟨bytes, isName⟩ := nameBytes_test
  obtain ⟨start, initial⟩ : ∃ start, History Call.Tidy (Disk.new totalBlocks) totalBlocks
      inodeBitmapBlocks Volume.initial start :=
    History.initial small fitting positive (Nat.le_refl totalBlocks)
  have free : 1 < (Cafs.parted totalBlocks inodeBitmapBlocks).inodeBitmap.totalCount := by
    show 1 < inodeBitmapBlocks * 4096
    omega
  have taken : Volume.blocks Volume.initial + Cafs.growth 0 (appendEntry [] 1).length = 1 := by
    decide
  obtain ⟨session, created⟩ : ∃ session, History Call.Tidy (Disk.new totalBlocks) totalBlocks
      inodeBitmapBlocks (testVolume bytes []) session :=
    initial.created small rfl rfl isName (by decide) (by decide) free
      (Nat.le_trans (Nat.le_of_eq taken) space)
  exact ⟨bytes, session, isName, created⟩

/-- A run on a device of 64 MiB that creates `test.txt` and writes a byte to it. -/
theorem exists_testHistory : ∃ bytes session,
    History Call.Tidy (Disk.new 131072) 131072 2 (testVolume bytes [84]) session := by
  have small : 131072 < 2 ^ 64 := by decide
  obtain ⟨bytes, middle, -, created⟩ := exists_createdHistory small ⟨by decide, by decide⟩
    (show 0 < 2 by decide) (by decide)
  have empty := File.blocks_empty .file bytes
  have space : (testVolume bytes []).blocks + Cafs.growth 0 1 ≤
      (Cafs.parted 131072 2).dataBitmap.totalCount := by
    rw [testVolume_blocks, empty]
    decide
  have found : (testVolume bytes [])[1]? = some ⟨.file, bytes, []⟩ := rfl
  have one : ([84] : List UInt8).length ≤ l4Max := by decide
  have keeps : dataBlocks 0 ≤ dataBlocks 1 := by decide
  obtain ⟨last, wrote⟩ := created.wrote small found one keeps space
  exact ⟨bytes, last, wrote⟩

/-- The run owns its blocks exactly. -/
theorem blocks_owned_exactly_testHistory : ∃ bytes session,
    History Call.Tidy (Disk.new 131072) 131072 2 (testVolume bytes [84]) session ∧
      session.fs.OwnsExactly session.contents := by
  obtain ⟨bytes, session, history⟩ := exists_testHistory
  exact ⟨bytes, session, history, (blocks_owned_exactly (by decide) history).1⟩

/-- After that run, a write of nothing to `test.txt` trips the assertion of `dealloc`: the block
it frees has number 8225, and position 8225 of the data bitmap is not marked. -/
theorem lowering_write_trips_dealloc : ∃ bytes session after,
    History (fun volume call => call.Addressed volume ∧ call.Bounded volume) (Disk.new 131072)
        131072 2 (testVolume bytes [84]) session ∧
      (Call.write 1 []).Addressed (testVolume bytes [84]) ∧
      (Call.write 1 []).Bounded (testVolume bytes [84]) ∧
      session.exec ((Call.write 1 []).run session.fs) = .error .bitNotSet after := by
  obtain ⟨bytes, session, history⟩ := exists_testHistory
  obtain ⟨isSmall, extents, marked, store, tracks⟩ := history.tidy (by decide)
  have found : (testVolume bytes [84])[1]? = some ⟨.file, bytes, [84]⟩ := rfl
  have one : File.blocks ⟨.file, bytes, [84]⟩ = 1 := by
    show (indexBlocks 1).indexBlockCount + dataBlocks 1 = 1
    decide
  have lowers : dataBlocks ([] : List UInt8).length < dataBlocks 1 := by decide
  obtain ⟨after, tripped⟩ := tracks.lowering_trips isSmall found lowers
    (by rw [tracks.parts, testVolume_blocks, one]; decide)
    (by rw [tracks.parts, testVolume_blocks, one]; decide)
  refine ⟨bytes, session, after, history.mono fun _ _ tidy => ⟨tidy.1, tidy.2.1⟩,
    (by decide : 1 < 2), ?_, Session.exec_map_error.mpr tripped⟩
  rintro _ _ written
  obtain ⟨rfl, rfl⟩ := Prod.mk.inj (Option.some.inj written)
  exact Nat.zero_le l4Max

end Runs

end Canyon.Fs
