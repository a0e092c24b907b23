import Canyon.Fs.Volume

/-!
# Allocation and resizing

What `alloc_data` hands out, and what the closure of `CAFS::write` leaves of an inode: the
blocks of the file before and blocks that were free.
-/

namespace Canyon.Fs

open Canyon.Lib

/-- Marked bits of a bitmap. -/
def Bitmap.used (bitmap : Bitmap) (marked : Nat → Bool) : Nat :=
  (List.range bitmap.totalCount).countP marked

/-- No more positions are marked than there are. -/
theorem Bitmap.used_le (bitmap : Bitmap) (marked : Nat → Bool) :
    bitmap.used marked ≤ bitmap.totalCount := by
  have few := List.countP_le_length (p := marked) (l := List.range bitmap.totalCount)
  rwa [List.length_range] at few

/-- Data blocks handed out: they were free, and they are what the bitmap marks in addition. -/
structure Cafs.Allocated (fs : Cafs) (store : Nat → Block) (marked : Nat → Bool)
    (new : List Nat) (after : Nat → Block) (markedAfter : Nat → Bool) : Prop where
  /-- No block is handed out twice. -/
  distinct : new.Nodup
  /-- The blocks are data blocks that were free. -/
  fresh : ∀ id ∈ new, fs.dataAreaStartBlock ≤ id ∧
    id < fs.dataAreaStartBlock + fs.dataBitmap.totalCount ∧
    marked (id - fs.dataAreaStartBlock) = false
  /-- The bitmap has the new marks. -/
  marks : fs.dataBitmap.Marks after markedAfter
  /-- The marks are those before and those of the blocks. -/
  marked_eq : ∀ bit, markedAfter bit = (marked bit || decide (bit + fs.dataAreaStartBlock ∈ new))
  /-- Each block costs one mark. -/
  used : fs.dataBitmap.used markedAfter = fs.dataBitmap.used marked + new.length
  /-- The lowest free blocks are handed out. -/
  lowest : Bitmap.Lowest marked → Bitmap.Lowest markedAfter
  /-- Only the bitmap is written. -/
  frame : ∀ id, ¬fs.dataBitmap.Owns id → after id = store id

namespace Cafs

variable {fs : Cafs} {store after : Nat → Block} {marked markedAfter : Nat → Bool}
  {rules : Scoped.Discipline Nat} {held : List Nat} {failed : Panic → (Nat → Block) → Prop}

/-- Nothing handed out. -/
theorem Allocated.nil (marks : fs.dataBitmap.Marks store marked) :
    fs.Allocated store marked [] store marked where
  distinct := List.nodup_nil
  fresh := by simp
  marks := marks
  marked_eq := by simp
  used := by simp
  lowest := id
  frame := fun _ _ => rfl

/-- One block handed out before others. -/
theorem Allocated.cons {bit : Nat} {middle : Nat → Block} {new : List Nat}
    (inside : bit < fs.dataBitmap.totalCount) (clear : marked bit = false)
    (below : ∀ lower < bit, marked lower = true)
    (frame : ∀ id, ¬fs.dataBitmap.Owns id → middle id = store id)
    (rest : fs.Allocated middle (Function.update marked bit true) new after markedAfter) :
    fs.Allocated store marked ((bit + fs.dataAreaStartBlock) :: new) after markedAfter := by
  have others : ∀ id ∈ new, fs.dataAreaStartBlock ≤ id ∧
      id < fs.dataAreaStartBlock + fs.dataBitmap.totalCount ∧
      id - fs.dataAreaStartBlock ≠ bit ∧ marked (id - fs.dataAreaStartBlock) = false := by
    intro id idIn
    obtain ⟨lower, upper, free⟩ := rest.fresh id idIn
    have different : id - fs.dataAreaStartBlock ≠ bit := by
      rintro same
      simp [same] at free
    rw [Function.update_of_ne different] at free
    exact ⟨lower, upper, different, free⟩
  refine ⟨List.nodup_cons.mpr ⟨fun again => ?_, rest.distinct⟩, ?_, rest.marks, ?_, ?_,
    fun lowest => rest.lowest (lowest.mark below),
    fun id outside => (rest.frame id outside).trans (frame id outside)⟩
  · exact (others _ again).2.2.1 (by omega)
  · intro id idIn
    rcases List.mem_cons.mp idIn with rfl | later
    · rw [Nat.add_sub_cancel]
      exact ⟨by omega, by omega, clear⟩
    · obtain ⟨lower, upper, -, free⟩ := others id later
      exact ⟨lower, upper, free⟩
  · intro place
    rw [rest.marked_eq place]
    by_cases same : place = bit
    · simp [same]
    · simp [same]
  · rw [rest.used, Bitmap.used, countP_range_update clear inside, List.length_cons]
    simp only [Bitmap.used]
    omega

/-- The blocks when `alloc_data` has run out: every data block is marked, and nothing else has
changed. -/
structure Exhausted (fs : Cafs) (store : Nat → Block) (marked : Nat → Bool)
    (reached : Nat → Block) : Prop where
  /-- Every data block is marked. -/
  full : ∃ all, fs.dataBitmap.Marks reached all ∧ ∀ bit < fs.dataBitmap.totalCount, all bit = true
  /-- Only the data bitmap has changed. -/
  frame : ∀ id, ¬fs.dataBitmap.Owns id → reached id = store id
  /-- Nothing has changed when every data block was marked before. -/
  unmoved : (∀ bit < fs.dataBitmap.totalCount, marked bit = true) → reached = store

/-- Blocks handed out before `alloc_data` ran out. -/
theorem Exhausted.of_allocated {new : List Nat} {reached : Nat → Block}
    (allocated : fs.Allocated store marked new after markedAfter) (some : new ≠ [])
    (exhausted : fs.Exhausted after markedAfter reached) : fs.Exhausted store marked reached := by
  refine ⟨exhausted.full, fun id outside =>
    (exhausted.frame id outside).trans (allocated.frame id outside), fun allMarked => ?_⟩
  obtain ⟨id, idIn⟩ := List.exists_mem_of_ne_nil new some
  obtain ⟨lower, upper, clear⟩ := allocated.fresh id idIn
  rw [allMarked _ (by omega)] at clear
  contradiction

/-- `alloc_data` hands out a free block, or finds none. -/
theorem wp_allocData (marks : fs.dataBitmap.Marks store marked)
    (free : ∀ id, fs.dataBitmap.Owns id → rules.Valid id ∧ id ∉ held)
    (room : held.length < rules.limit) {post : Nat → (Nat → Block) → Prop}
    (found : ∀ bit after, bit < fs.dataBitmap.totalCount → marked bit = false →
      (∀ lower < bit, marked lower = true) →
      fs.dataBitmap.Marks after (Function.update marked bit true) →
      (∀ id, ¬fs.dataBitmap.Owns id → after id = store id) →
      post (bit + fs.dataAreaStartBlock) after)
    (full : fs.Exhausted store marked store →
      fs.dataBitmap.used marked = fs.dataBitmap.totalCount → failed .runOutOfDataBlock store) :
    fs.allocData.wp rules held post failed store := by
  refine Scoped.wp_bind.mpr (Bitmap.wp_alloc marks free room ?_ ?_)
  · intro bit after inside clear below marksAfter frame
    exact found bit after inside clear below marksAfter frame
  · intro allMarked
    refine full ⟨⟨marked, marks, allMarked⟩, fun _ _ => rfl, fun _ => rfl⟩ ?_
    have counted := List.countP_eq_length.mpr fun bit bitIn =>
      allMarked bit (List.mem_range.mp bitIn)
    rwa [List.length_range] at counted

/-- `alloc_data` in a loop hands out as many free blocks, or finds too few. -/
theorem wp_allocMany (marks : fs.dataBitmap.Marks store marked)
    (free : ∀ id, fs.dataBitmap.Owns id → rules.Valid id ∧ id ∉ held)
    (room : held.length < rules.limit) {count : Nat} {ids : List Nat}
    {post : List Nat → (Nat → Block) → Prop}
    (goal : ∀ new after markedAfter, fs.Allocated store marked new after markedAfter →
      new.length = count → post (ids ++ new) after)
    (full : ∀ reached, fs.Exhausted store marked reached →
      fs.dataBitmap.totalCount < fs.dataBitmap.used marked + count →
      failed .runOutOfDataBlock reached) :
    (fs.allocMany count ids).wp rules held post failed store := by
  induction count generalizing ids store marked with
  | zero =>
    have done := goal [] store marked (.nil marks) rfl
    rwa [List.append_nil] at done
  | succ count ih =>
    refine Scoped.wp_bind.mpr (wp_allocData marks free room ?_ ?_)
    · intro bit middle inside clear below middleMarks frame
      refine ih middleMarks ?_ ?_
      · intro new after markedAfter allocated length
        rw [List.append_assoc]
        exact goal _ after markedAfter (allocated.cons inside clear below frame)
          (by simp [length])
      · intro reached exhausted short
        have first : fs.Allocated store marked [bit + fs.dataAreaStartBlock] middle
            (Function.update marked bit true) :=
          (Allocated.nil middleMarks).cons inside clear below frame
        refine full reached (exhausted.of_allocated first (by simp)) ?_
        rw [Bitmap.used, countP_range_update clear inside] at short
        rw [Bitmap.used]
        omega
    · intro exhausted allUsed
      exact full store exhausted (by omega)

/-- Blocks handed out in two loops. -/
theorem Allocated.append {middle : Nat → Block} {markedMiddle : Nat → Bool}
    {first second : List Nat} (allocated : fs.Allocated store marked first middle markedMiddle)
    (rest : fs.Allocated middle markedMiddle second after markedAfter) :
    fs.Allocated store marked (first ++ second) after markedAfter := by
  have apart : ∀ id ∈ second, id ∉ first ∧ marked (id - fs.dataAreaStartBlock) = false := by
    intro id idIn
    obtain ⟨lower, -, free⟩ := rest.fresh id idIn
    rw [allocated.marked_eq, Nat.sub_add_cancel lower] at free
    simpa [and_comm] using free
  refine ⟨List.nodup_append.mpr ⟨allocated.distinct, rest.distinct, ?_⟩, ?_, rest.marks, ?_, ?_,
    fun lowest => rest.lowest (allocated.lowest lowest),
    fun id outside => (rest.frame id outside).trans (allocated.frame id outside)⟩
  · intro id idFirst other otherSecond same
    exact (apart other otherSecond).1 (same ▸ idFirst)
  · intro id idIn
    rcases List.mem_append.mp idIn with early | late
    · exact allocated.fresh id early
    · obtain ⟨lower, upper, -⟩ := rest.fresh id late
      exact ⟨lower, upper, (apart id late).2⟩
  · intro bit
    rw [rest.marked_eq bit, allocated.marked_eq bit, Bool.or_assoc]
    simp
  · rw [rest.used, allocated.used, List.length_append]
    omega

/-! ## Resizing -/

/-- Blocks that a file takes when it grows: data blocks, and index blocks for them. -/
def growth (oldSize newSize : Nat) : Nat :=
  (dataBlocks newSize - dataBlocks oldSize) +
    ((indexBlocks newSize).indexBlockCount - (indexBlocks oldSize).indexBlockCount)

/-- A file that does not grow takes no blocks. -/
theorem growth_self (size : Nat) : growth size size = 0 := by
  rw [growth, Nat.sub_self, Nat.sub_self]

/-- A file that grows in two steps takes the blocks of both. -/
theorem growth_add {small middle large : Nat} (first : small ≤ middle) (second : middle ≤ large) :
    growth small middle + growth middle large = growth small large := by
  have := dataBlocks_mono first
  have := dataBlocks_mono second
  have := indexBlockCount_mono first
  have := indexBlockCount_mono second
  unfold growth
  omega

/-- A file that grows further takes more blocks. -/
theorem growth_mono (size : Nat) {middle large : Nat} (order : middle ≤ large) :
    growth size middle ≤ growth size large := by
  have := dataBlocks_mono order
  have := indexBlockCount_mono order
  unfold growth
  omega

/-- A data block. -/
def InData (fs : Cafs) (id : Nat) : Prop :=
  fs.dataAreaStartBlock ≤ id ∧ id < fs.dataAreaStartBlock + fs.dataBitmap.totalCount

/-- What the closure of `CAFS::write` needs besides the blocks of its file: the data bitmap,
the data blocks and the super block are on the device, nobody holds them, and there is room
for the guards. -/
structure Workspace (fs : Cafs) (rules : Scoped.Discipline Nat) (held : List Nat) : Prop where
  /-- The blocks of the data bitmap may be asked for. -/
  bitmap : ∀ id, fs.dataBitmap.Owns id → rules.Valid id ∧ id ∉ held
  /-- So may the data blocks. -/
  area : ∀ id, fs.InData id → rules.Valid id ∧ id ∉ held
  /-- So may the super block. -/
  superBlock : rules.Valid 0 ∧ 0 ∉ held
  /-- Four more guards are within the limit. -/
  room : held.length + 4 ≤ rules.limit
  /-- The data bitmap lies between the super block and the data blocks. -/
  apart : ∀ id, fs.dataBitmap.Owns id → 0 < id ∧ id < fs.dataAreaStartBlock
  /-- The super block is no data block. -/
  positive : 0 < fs.dataAreaStartBlock
  /-- Block numbers are `u64`s. -/
  wide : fs.dataAreaStartBlock + fs.dataBitmap.totalCount ≤ 2 ^ 64

/-- What the closure of `CAFS::write` leaves when the file keeps its data blocks: the file is
laid out with its old blocks and blocks that were free. -/
structure Regrown (fs : Cafs) (record : Meta) (extent : Extent) (newSize : Nat)
    (store : Nat → Block) (marked : Nat → Bool) (resized : Meta) (extentAfter : Extent)
    (after : Nat → Block) (markedAfter : Nat → Bool) : Prop where
  /-- The tree holds the blocks. -/
  laid : resized.Laid after extentAfter.index extentAfter.data
  /-- The `Meta` survives the disk. -/
  fits : metaCodec.Fits resized
  /-- The size is the new one. -/
  size : resized.size = newSize
  /-- The type is kept. -/
  type : resized.type = record.type
  /-- The name is kept. -/
  name : resized.name = record.name
  /-- The bitmap has the new marks. -/
  marks : fs.dataBitmap.Marks after markedAfter
  /-- No mark is cleared. -/
  kept : ∀ bit, marked bit = true → markedAfter bit = true
  /-- A block of the file was one before, or was free. -/
  origin : ∀ id ∈ extentAfter.ids, id ∈ extent.ids ∨
    fs.InData id ∧ marked (id - fs.dataAreaStartBlock) = false ∧
      markedAfter (id - fs.dataAreaStartBlock) = true
  /-- No block is lost while the tree can describe the size. -/
  exact : newSize ≤ l4Max → (∀ id ∈ extent.ids, id ∈ extentAfter.ids) ∧
    ∀ bit, markedAfter bit = true →
      marked bit = true ∨ bit + fs.dataAreaStartBlock ∈ extentAfter.ids
  /-- Each new block costs one mark. -/
  used : fs.dataBitmap.used markedAfter =
    fs.dataBitmap.used marked + growth record.size newSize
  /-- The lowest free blocks are taken. -/
  lowest : Bitmap.Lowest marked → Bitmap.Lowest markedAfter
  /-- Other files' blocks and all but the data area and its bitmap are as before; so is the
  super block while the tree could describe the old size. -/
  frame : ∀ id, ¬fs.dataBitmap.Owns id →
    (fs.InData id → id ∉ extent.ids ∧ marked (id - fs.dataAreaStartBlock) = true) →
    (id = 0 → record.size ≤ l4Max ∨ newSize = record.size) → after id = store id
  /-- A file past the reach of its tree overwrites the super block with an empty block table when
  its size changes within its last data block. -/
  spilled : l4Max < record.size → newSize ≠ record.size →
    dataBlocks newSize = dataBlocks record.size →
    ∃ block : Block, after 0 = block.patch indirectBlock 0 emptyTable

/-- A size whose data blocks are no more than those of a size that the tree can describe. -/
theorem bound_of_dataBlocks {small large : Nat} (order : dataBlocks small ≤ dataBlocks large)
    (bound : large ≤ l4Max) : small ≤ l4Max := by
  obtain ⟨-, -, -, -, -, -, -, l4Max⟩ := levelConstants
  simp only [dataBlocks, blockSize] at order
  omega

section Resize

variable {record : Meta} {extent : Extent} {newSize : Nat}

/-- The blocks of a file that grows: all different, since the new ones were free. -/
theorem Allocated.fresh_append {newData newIndex : List Nat}
    (allocated : fs.Allocated store marked (newData ++ newIndex) after markedAfter)
    (laid : record.Laid store extent.index extent.data)
    (owned : ∀ id ∈ extent.ids, fs.InData id ∧ marked (id - fs.dataAreaStartBlock) = true) :
    (extent.index ++ newIndex ++ (extent.data ++ newData)).Nodup := by
  have apart : (extent.ids ++ (newData ++ newIndex)).Nodup := by
    refine List.nodup_append.mpr ⟨laid.distinct, allocated.distinct, ?_⟩
    rintro id idIn _ fresh rfl
    have free := (allocated.fresh id fresh).2.2
    rw [(owned id idIn).2] at free
    contradiction
  refine List.Perm.nodup ?_ apart
  have swapped : (extent.data ++ (newData ++ newIndex)).Perm
      (newIndex ++ (extent.data ++ newData)) := by
    rw [← List.append_assoc]
    exact List.perm_append_comm
  rw [Extent.ids, List.append_assoc, List.append_assoc]
  exact List.Perm.append_left _ swapped

/-- A file laid out again with its blocks and newly allocated ones. -/
theorem Regrown.of_forwarded {middle : Nat → Block} {resized : Meta}
    {newData newIndex indexAfter dataAfter : List Nat} {held : List Nat}
    (space : fs.Workspace rules held)
    (owned : ∀ id ∈ extent.ids, fs.InData id ∧ marked (id - fs.dataAreaStartBlock) = true)
    (allocated : fs.Allocated store marked (newData ++ newIndex) middle markedAfter)
    (dataCount : newData.length = dataBlocks newSize - dataBlocks record.size)
    (indexCount : newIndex.length = (indexBlocks newSize).indexBlockCount -
      (indexBlocks record.size).indexBlockCount)
    (changed : newSize ≠ record.size) (bounded : newSize ≤ l4Max → record.size ≤ l4Max)
    (planned : record.size ≤ l4Max →
      (extent.index ++ newIndex).length = (indexBlocks newSize).indexBlockCount ∧
        (extent.data ++ newData).length = dataBlocks newSize)
    (spilled : l4Max < record.size → dataBlocks newSize = dataBlocks record.size →
      ∃ block : Block, after 0 = block.patch indirectBlock 0 emptyTable)
    (forwarded : Forwarded { record with size := newSize } (extent.index ++ newIndex)
      (extent.data ++ newData) middle resized after indexAfter dataAfter)
    (laid : resized.Laid after (sortIds indexAfter) dataAfter) :
    fs.Regrown record extent newSize store marked resized ⟨sortIds indexAfter, dataAfter⟩ after
      markedAfter := by
  have members : ∀ id, id ∈ (Extent.mk (sortIds indexAfter) dataAfter).ids ↔
      id ∈ indexAfter ∨ id ∈ dataAfter := by
    intro id
    rw [Extent.ids, List.mem_append, (sortIds_perm indexAfter).mem_iff]
  have inData : ∀ id ∈ extent.index ++ newIndex, fs.InData id := by
    intro id idIn
    rcases List.mem_append.mp idIn with old | new
    · exact (owned id (List.mem_append_left _ old)).1
    · obtain ⟨lower, upper, -⟩ := allocated.fresh id (List.mem_append_right _ new)
      exact ⟨lower, upper⟩
  have newMarked : ∀ id ∈ newData ++ newIndex, fs.InData id ∧
      marked (id - fs.dataAreaStartBlock) = false ∧
      markedAfter (id - fs.dataAreaStartBlock) = true := by
    intro id idIn
    obtain ⟨lower, upper, free⟩ := allocated.fresh id idIn
    refine ⟨⟨lower, upper⟩, free, ?_⟩
    rw [allocated.marked_eq, Nat.sub_add_cancel lower]
    simp only [idIn, decide_true, Bool.or_true]
  refine ⟨laid, forwarded.fits, forwarded.size, forwarded.type, forwarded.name, ?_, ?_, ?_, ?_,
    ?_, allocated.lowest, ?_, ?_⟩
  · refine allocated.marks.congr fun id own => forwarded.frame id ?_ (.inl ?_)
    · exact fun idIn => absurd (inData id idIn).1 (Nat.not_le.mpr (space.apart id own).2)
    · exact Nat.ne_of_gt (space.apart id own).1
  · intro bit isMarked
    rw [allocated.marked_eq, isMarked, Bool.true_or]
  · intro id idIn
    have given : id ∈ extent.ids ∨ id ∈ newData ++ newIndex := by
      rw [Extent.ids, List.mem_append, List.mem_append]
      rcases (members id).mp idIn with inIndex | inData
      · have part := forwarded.indexPart.subset inIndex
        rw [List.mem_append] at part
        tauto
      · have part := forwarded.dataPart.subset inData
        rw [List.mem_append] at part
        tauto
    exact given.imp_right (newMarked id)
  · intro bound
    obtain ⟨indexLength, dataLength⟩ := planned (bounded bound)
    obtain ⟨rfl, rfl⟩ := forwarded.exact bound indexLength dataLength
    constructor
    · intro id idIn
      rw [members, List.mem_append, List.mem_append]
      rw [Extent.ids, List.mem_append] at idIn
      tauto
    · intro bit isMarked
      rw [allocated.marked_eq, Bool.or_eq_true, decide_eq_true_iff, List.mem_append] at isMarked
      rw [members, List.mem_append, List.mem_append]
      tauto
  · rw [allocated.used, List.length_append, dataCount, indexCount, growth]
  · intro id outside others zero
    have notIndex : id ∉ extent.index ++ newIndex := by
      intro idIn
      obtain ⟨notOld, isMarked⟩ := others (inData id idIn)
      rcases List.mem_append.mp idIn with old | new
      · exact notOld (List.mem_append_left _ old)
      · have free := (newMarked id (List.mem_append_right _ new)).2.1
        rw [isMarked] at free
        contradiction
    refine (forwarded.frame id notIndex ?_).trans (allocated.frame id outside)
    by_cases isZero : id = 0
    · have bound := (zero isZero).resolve_right changed
      exact .inr (Nat.le_of_eq (planned bound).1.symm)
    · exact .inl isZero
  · exact fun past _ same => spilled past same

/-- The branch of `CAFS::write` for larger contents. -/
theorem wp_grow (space : fs.Workspace rules held)
    (marks : fs.dataBitmap.Marks store marked)
    (laid : record.Laid store extent.index extent.data)
    (owned : ∀ id ∈ extent.ids, fs.InData id ∧ marked (id - fs.dataAreaStartBlock) = true)
    (grows : record.size < newSize) (wide : newSize < 2 ^ 64)
    {post : Meta → (Nat → Block) → Prop}
    (goal : ∀ resized extentAfter after markedAfter,
      fs.Regrown record extent newSize store marked resized extentAfter after markedAfter →
      post resized after)
    (full : ∀ reached, fs.Exhausted store marked reached → fs.dataBitmap.totalCount <
        fs.dataBitmap.used marked + growth record.size newSize →
      failed .runOutOfDataBlock reached) :
    (fs.grow record newSize).wp rules held post failed store := by
  have grew := Nat.le_of_lt grows
  have few : held.length < rules.limit := by
    have := space.room
    omega
  have small : ∀ id, fs.InData id → id ≠ 0 ∧ id < 2 ^ 64 := by
    intro id inside
    have := space.positive
    have := space.wide
    exact ⟨by have := inside.1; omega, by have := inside.2; omega⟩
  unfold grow
  simp only [subtract_eq (dataBlocks_mono grew), subtract_eq (indexBlockCount_mono grew),
    Scoped.bind_eq, Scoped.bind]
  refine Scoped.wp_bind.mpr (wp_allocMany marks space.bitmap few ?_ ?_)
  · intro newData first markedFirst allocated dataCount
    refine Scoped.wp_bind.mpr (wp_allocMany allocated.marks space.bitmap few ?_ ?_)
    · intro newIndex middle markedMiddle others indexCount
      have both := allocated.append others
      have kept : ∀ id ∈ extent.index, middle id = store id := by
        intro id idIn
        refine both.frame id fun own => ?_
        have lower := (owned id (List.mem_append_left _ idIn)).1.1
        exact absurd lower (Nat.not_le.mpr (space.apart id own).2)
      have inside : ∀ id ∈ newData ++ newIndex, fs.InData id := by
        intro id idIn
        obtain ⟨lower, upper, -⟩ := both.fresh id idIn
        exact ⟨lower, upper⟩
      refine (laid.congr kept).wp_extend grew wide dataCount indexCount
        (both.fresh_append laid owned) ?_ ?_ (fun _ => space.superBlock) space.room ?_
      · intro id idIn
        refine small id (inside id ?_)
        rw [List.mem_append] at idIn ⊢
        exact idIn.symm
      · intro id idIn
        refine space.area id ?_
        rcases List.mem_append.mp idIn with old | new
        · exact (owned id (List.mem_append_left _ old)).1
        · exact inside id (List.mem_append_right _ new)
      · intro resized after indexAfter dataAfter forwarded laidAfter
        refine goal resized ⟨sortIds indexAfter, dataAfter⟩ after markedMiddle
          (.of_forwarded space owned both dataCount indexCount (Nat.ne_of_gt grows)
            (fun bound => Nat.le_trans grew bound) ?_ ?_ forwarded laidAfter)
        · intro bound
          obtain ⟨indexLength, dataLength⟩ := laid.planned bound
          have moreData := dataBlocks_mono grew
          have moreIndex := indexBlockCount_mono grew
          rw [List.length_append, List.length_append, indexLength, dataLength]
          omega
        · intro past same
          have sameIndex := indexBlockCount_congr same
          have noIndex : newIndex = [] := List.eq_nil_of_length_eq_zero (by omega)
          have noData : newData = [] := List.eq_nil_of_length_eq_zero (by omega)
          exact forwarded.spills laid.tree (Nat.lt_trans past grows) noIndex noData
    · intro reached exhausted short
      have some : newData ≠ [] := by
        rintro rfl
        have sameIndex := indexBlockCount_congr (show dataBlocks record.size = dataBlocks newSize by
          have := dataBlocks_mono grew
          rw [List.length_nil] at dataCount
          omega)
        have few := fs.dataBitmap.used_le markedFirst
        omega
      refine full reached (exhausted.of_allocated allocated some) ?_
      rw [allocated.used, dataCount] at short
      rw [growth]
      omega
  · intro reached exhausted short
    refine full reached exhausted ?_
    rw [growth]
    omega

/-- The branch of `CAFS::write` for smaller contents of as many data blocks. -/
theorem wp_cut (space : fs.Workspace rules held)
    (marks : fs.dataBitmap.Marks store marked)
    (laid : record.Laid store extent.index extent.data)
    (owned : ∀ id ∈ extent.ids, fs.InData id ∧ marked (id - fs.dataAreaStartBlock) = true)
    (shrinks : newSize < record.size) (wide : newSize < 2 ^ 64)
    (same : dataBlocks newSize = dataBlocks record.size)
    {post : Meta → (Nat → Block) → Prop}
    (goal : ∀ resized extentAfter after markedAfter,
      fs.Regrown record extent newSize store marked resized extentAfter after markedAfter →
      post resized after) :
    (fs.cut record newSize).wp rules held post failed store := by
  obtain ⟨allIndex, allData⟩ := Meta.Laid.left_of_same same extent.index extent.data
  have sameIndex := indexBlockCount_congr same
  refine Scoped.wp_bind.mpr (laid.wp_shrink (Nat.le_of_lt shrinks) wide (.inr same) ?_
    (fun _ => space.superBlock) space.room ?_)
  · intro id idIn
    exact space.area id (owned id (List.mem_append_left _ idIn)).1
  · intro resized after indexAfter dataAfter forwarded laidAfter
    rw [allIndex, allData] at forwarded ⊢
    rw [List.take_length, List.take_length] at forwarded
    rw [List.drop_length, List.drop_length]
    have nothing : fs.Allocated store marked ([] ++ []) store marked := .nil marks
    rw [← List.append_nil extent.index, ← List.append_nil extent.data] at forwarded
    refine goal resized ⟨sortIds indexAfter, dataAfter⟩ after marked
      (.of_forwarded space owned nothing (by simp [same]) (by simp [sameIndex])
        (Nat.ne_of_lt shrinks)
        (fun bound => bound_of_dataBlocks (Nat.le_of_eq same.symm) bound) ?_ ?_ forwarded
        laidAfter)
    · intro bound
      obtain ⟨indexLength, dataLength⟩ := laid.planned bound
      rw [List.append_nil, List.append_nil, indexLength, dataLength, sameIndex, same]
      exact ⟨rfl, rfl⟩
    · intro past _
      have newPast : l4Max < newSize := Nat.lt_of_not_le fun within =>
        absurd (bound_of_dataBlocks (Nat.le_of_eq same.symm) within) (Nat.not_le.mpr past)
      exact forwarded.spills laid.tree newPast rfl rfl

/-- The closure of `CAFS::write` on a file whose number of data blocks does not drop. -/
theorem wp_resize (space : fs.Workspace rules held)
    (marks : fs.dataBitmap.Marks store marked)
    (laid : record.Laid store extent.index extent.data) (fits : metaCodec.Fits record)
    (owned : ∀ id ∈ extent.ids, fs.InData id ∧ marked (id - fs.dataAreaStartBlock) = true)
    (wide : newSize < 2 ^ 64) (keeps : dataBlocks record.size ≤ dataBlocks newSize)
    {post : (List Nat × List Nat) × Meta → (Nat → Block) → Prop}
    (goal : ∀ resized extentAfter after markedAfter,
      fs.Regrown record extent newSize store marked resized extentAfter after markedAfter →
      post ((extentAfter.index, extentAfter.data), resized) after)
    (full : ∀ reached, fs.Exhausted store marked reached → fs.dataBitmap.totalCount <
        fs.dataBitmap.used marked + growth record.size newSize →
      failed .runOutOfDataBlock reached) :
    (fs.resize record newSize).wp rules held post failed store := by
  have read : ∀ resized extentAfter after markedAfter,
      fs.Regrown record extent newSize store marked resized extentAfter after markedAfter →
      (resized.blocks.bind fun found => .pure (found, resized)).wp rules held post failed
        after := by
    intro resized extentAfter after markedAfter regrown
    refine Scoped.wp_bind.mpr (regrown.laid.wp_blocks resized.size ?_ space.room
      (goal resized extentAfter after markedAfter regrown))
    intro id idIn
    refine space.area id ?_
    rcases regrown.origin id (List.mem_append_left _ idIn) with old | new
    · exact (owned id old).1
    · exact new.1
  unfold resize
  simp only [Scoped.bind_eq, Scoped.pure_eq]
  rcases Nat.lt_trichotomy record.size newSize with grows | same | shrinks
  · rw [if_pos grows]
    exact Scoped.wp_bind.mpr (wp_grow space marks laid owned grows wide read full)
  · rw [if_neg (by omega), if_neg (by omega)]
    refine read record extent store marked ⟨laid, fits, same, rfl, rfl, marks, fun _ => id,
      fun id => .inl, fun _ => ⟨fun _ => id, fun _ => .inl⟩, ?_, id, fun _ _ _ _ => rfl,
      fun _ changed => absurd same.symm changed⟩
    rw [growth, same]
    omega
  · rw [if_neg (by omega), if_pos shrinks]
    have fewer := dataBlocks_mono (Nat.le_of_lt shrinks)
    exact Scoped.wp_bind.mpr (wp_cut space marks laid owned shrinks wide (by omega) read)

end Resize

end Cafs

end Canyon.Fs
