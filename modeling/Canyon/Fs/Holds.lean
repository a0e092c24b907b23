import Canyon.Fs.Contents

/-!
# Keeping a volume on the device

The steps of `CAFS::write`, `CAFS::alloc_inode_meta` and `CAFS::init` on blocks that hold a
volume leave blocks that hold the volume after the call.
-/

namespace Canyon.Fs

open Canyon.Lib

/-- A freshly initialised `Meta` survives the disk. -/
theorem Meta.fits_init (type : InodeType) (name : NameBytes) :
    metaCodec.Fits (Meta.init type name) := by
  refine metaCodec_fits (Nat.two_pow_pos 64) ?_ (Nat.two_pow_pos 64)
  intro id idIn
  simp only [Meta.init, Vector.toList_replicate, List.mem_replicate] at idIn
  rw [idIn.2]
  exact Nat.two_pow_pos 64

namespace Cafs

variable {fs : Cafs} {store after : Nat → Block} {volume : Volume} {extents : Nat → Extent}
  {marked markedAfter : Nat → Bool} {totalBlocks : Nat}
  {failed : Panic → (Nat → Block) → Prop}

/-- The closure of `CAFS::write` has its workspace while it holds the inode's block. -/
theorem Geometry.workspace (geometry : fs.Geometry totalBlocks) {inodeNumber : Nat}
    (inside : inodeNumber < fs.inodeBitmap.totalCount) :
    fs.Workspace (Prog.deviceRules totalBlocks) [fs.inodeAreaStartBlock + inodeNumber] := by
  obtain ⟨first, inodeArea, dataBitmap, dataArea, within, wide⟩ := geometry
  have apart : ∀ id, fs.dataBitmap.Owns id → 0 < id ∧ id < fs.dataAreaStartBlock := by
    rintro id ⟨lower, upper⟩
    omega
  refine ⟨?_, ?_, ⟨show 0 < totalBlocks by omega, ?_⟩, show 5 ≤ 5 by decide, apart, by omega,
    by omega⟩
  · rintro id ⟨lower, upper⟩
    refine ⟨show id < totalBlocks by omega, ?_⟩
    rw [List.mem_singleton]
    omega
  · rintro id ⟨lower, upper⟩
    refine ⟨show id < totalBlocks by omega, ?_⟩
    rw [List.mem_singleton]
    omega
  · rw [List.mem_singleton]
    omega

/-- Blocks that a write to one file may change. -/
def Touches (fs : Cafs) (marked : Nat → Bool) (inodeNumber : Nat) (extent : Extent)
    (id : Nat) : Prop :=
  fs.dataBitmap.Owns id ∨ id = fs.inodeAreaStartBlock + inodeNumber ∨
    fs.InData id ∧ (id ∈ extent.ids ∨ marked (id - fs.dataAreaStartBlock) = false)

/-- A write to a file is none to the super block. -/
theorem Geometry.zero_untouched (geometry : fs.Geometry totalBlocks) (marked : Nat → Bool)
    (inodeNumber : Nat) (extent : Extent) : ¬fs.Touches marked inodeNumber extent 0 := by
  obtain ⟨first, inodeArea, dataBitmap, dataArea, -, -⟩ := geometry
  rintro (own | isInode | ⟨isData, -⟩)
  · have := own.1
    omega
  · omega
  · have := isData.1
    omega

/-- What a write leaves of the blocks: the file's own, under its inode, filled with the
contents. -/
structure Rewritten (fs : Cafs) (store : Nat → Block) (inodeNumber : Nat) (file : File)
    (extent : Extent) (marked : Nat → Bool) (contents : List UInt8) (extentAfter : Extent)
    (after : Nat → Block) (markedAfter : Nat → Bool) : Prop where
  /-- The file is stored with the contents. -/
  placed : ∃ record,
    (after (fs.inodeAreaStartBlock + inodeNumber)).view metaCodec 0 = some record ∧
      Placed { file with contents } record after extentAfter
  /-- The bitmap has the new marks. -/
  marks : fs.dataBitmap.Marks after markedAfter
  /-- No mark is cleared. -/
  kept : ∀ bit, marked bit = true → markedAfter bit = true
  /-- A block of the file was one before, or was free. -/
  origin : ∀ id ∈ extentAfter.ids, id ∈ extent.ids ∨
    fs.InData id ∧ marked (id - fs.dataAreaStartBlock) = false ∧
      markedAfter (id - fs.dataAreaStartBlock) = true
  /-- No block is lost while the tree can describe the size. -/
  exact : contents.length ≤ l4Max → (∀ id ∈ extent.ids, id ∈ extentAfter.ids) ∧
    ∀ bit, markedAfter bit = true →
      marked bit = true ∨ bit + fs.dataAreaStartBlock ∈ extentAfter.ids
  /-- Each new block costs one mark. -/
  used : fs.dataBitmap.used markedAfter =
    fs.dataBitmap.used marked + growth file.contents.length contents.length
  /-- The lowest free blocks are taken. -/
  lowest : Bitmap.Lowest marked → Bitmap.Lowest markedAfter
  /-- Everything else is as before; the super block too, while the tree could describe the old
  size. -/
  frame : ∀ id, ¬fs.Touches marked inodeNumber extent id →
    (id = 0 → file.contents.length ≤ l4Max ∨ contents.length = file.contents.length) →
    after id = store id
  /-- A file past the reach of its tree overwrites the super block with an empty block table when
  its size changes within its last data block. -/
  spilled : l4Max < file.contents.length → contents.length ≠ file.contents.length →
    dataBlocks contents.length = dataBlocks file.contents.length →
    ∃ block : Block, after 0 = block.patch indirectBlock 0 emptyTable

section Write

variable {inodeNumber : Nat} {file : File} {contents : List UInt8} {extentAfter : Extent}
  {resized : Meta} {middle : Nat → Block}

/-- The blocks of files are no inodes. -/
theorem Geometry.inode_ne (geometry : fs.Geometry totalBlocks)
    (inside : inodeNumber < fs.inodeBitmap.totalCount) {id : Nat} (inData : fs.InData id) :
    id ≠ fs.inodeAreaStartBlock + inodeNumber := by
  have := inData.1
  obtain ⟨-, -, dataBitmap, dataArea, -, -⟩ := geometry
  omega

/-- A `Meta` whose tree is written and whose data blocks are filled is that of a file. -/
theorem exists_placed (laid : resized.Laid middle extentAfter.index extentAfter.data)
    (fits : metaCodec.Fits resized) (size : resized.size = contents.length)
    (type : resized.type = file.type) (name : resized.name = file.name) {place : Nat}
    (apart : ∀ id ∈ extentAfter.ids, id ≠ place)
    (frame : ∀ id, id ∉ extentAfter.data → after id =
      Function.update middle place ((store place).patch metaCodec 0 resized) id)
    (filled : contents.length ≤ extentAfter.data.length * blockSize →
      (extentAfter.data.flatMap fun id => (after id).bytes).take contents.length = contents) :
    ∃ record, (after place).view metaCodec 0 = some record ∧
      Placed { file with contents } record after extentAfter := by
  refine ⟨resized, ?_, laid.congr fun id idIn => ?_, size, type, name, fun small => filled ?_⟩
  · rw [frame place fun isData => apart _ (List.mem_append_right _ isData) rfl,
      Function.update_self]
    exact Block.view_patch _ _ _ _ (by simp) fits
  · rw [frame id fun isData => (List.nodup_append.mp laid.distinct).2.2 id idIn id isData rfl]
    exact Function.update_of_ne (apart id (List.mem_append_left _ idIn)) _ _
  · rw [(laid.planned (size ▸ small)).2, size]
    simp only [dataBlocks, blockSize]
    omega

/-- The `Meta` and the blocks that the closure leaves, and the blocks filled after it. -/
theorem Regrown.rewritten {record : Meta} {extent : Extent} (geometry : fs.Geometry totalBlocks)
    (inside : inodeNumber < fs.inodeBitmap.totalCount) (size : record.size = file.contents.length)
    (type : record.type = file.type) (name : record.name = file.name)
    (owned : ∀ id ∈ extent.ids, fs.InData id ∧ marked (id - fs.dataAreaStartBlock) = true)
    (regrown : fs.Regrown record extent contents.length store marked resized extentAfter middle
      markedAfter)
    (frame : ∀ id, id ∉ extentAfter.data → after id =
      Function.update middle (fs.inodeAreaStartBlock + inodeNumber)
        ((store (fs.inodeAreaStartBlock + inodeNumber)).patch metaCodec 0 resized) id)
    (filled : contents.length ≤ extentAfter.data.length * blockSize →
      (extentAfter.data.flatMap fun id => (after id).bytes).take contents.length = contents) :
    fs.Rewritten store inodeNumber file extent marked contents extentAfter after markedAfter := by
  have inData : ∀ id ∈ extentAfter.ids, fs.InData id := by
    intro id idIn
    rcases regrown.origin id idIn with old | new
    · exact (owned id old).1
    · exact new.1
  have apart : ∀ id, fs.dataBitmap.Owns id →
      id ≠ fs.inodeAreaStartBlock + inodeNumber ∧ ¬fs.InData id := by
    rintro id ⟨lower, upper⟩
    obtain ⟨-, -, dataBitmap, dataArea, -, -⟩ := geometry
    exact ⟨by omega, fun inside => absurd inside.1 (by omega)⟩
  have sameMiddle : ∀ id, id ∉ extentAfter.data → id ≠ fs.inodeAreaStartBlock + inodeNumber →
      after id = middle id := by
    intro id notData notInode
    rw [frame id notData, Function.update_of_ne notInode]
  refine ⟨exists_placed regrown.laid regrown.fits regrown.size (regrown.type.trans type)
    (regrown.name.trans name) (fun id idIn => geometry.inode_ne inside (inData id idIn)) frame
    filled, ?_, regrown.kept, regrown.origin, regrown.exact, ?_, regrown.lowest, ?_, ?_⟩
  · refine regrown.marks.congr fun id own => sameMiddle id (fun isData => ?_) (apart id own).1
    exact (apart id own).2 (inData id (List.mem_append_right _ isData))
  · rw [regrown.used, size]
  · intro id untouched zero
    simp only [Touches, not_or, not_and, Bool.not_eq_false] at untouched
    obtain ⟨notBitmap, notInode, others⟩ := untouched
    rw [sameMiddle id ?_ notInode]
    · exact regrown.frame id notBitmap others (size ▸ zero)
    · intro isData
      rcases regrown.origin id (List.mem_append_right _ isData) with old | new
      · exact (others (owned id old).1).1 old
      · have isMarked := (others new.1).2
        rw [new.2.1] at isMarked
        contradiction
  · intro past changed same
    obtain ⟨-, inodeArea, dataBitmap, dataArea, -, -⟩ := geometry
    rw [sameMiddle 0 (fun isData => ?_) (by omega)]
    · exact regrown.spilled (size ▸ past) (size ▸ changed) (size ▸ same)
    · have lower := (inData 0 (List.mem_append_right _ isData)).1
      omega

/-- Where the blocks of a volume lie. -/
theorem Holds.inData (holds : fs.Holds store volume extents marked) {number : Nat}
    (inside : number < volume.length) :
    ∀ id ∈ (extents number).ids, fs.InData id ∧
      marked (id - fs.dataAreaStartBlock) = true := by
  intro id idIn
  obtain ⟨lower, upper, isMarked⟩ := holds.owned number inside id idIn
  exact ⟨⟨lower, upper⟩, isMarked⟩

/-- A write to one file touches no inode bitmap, no other inode and no other file's block. -/
theorem Holds.untouched (holds : fs.Holds store volume extents marked)
    (geometry : fs.Geometry totalBlocks) (inside : inodeNumber < volume.length) :
    (∀ id, fs.inodeBitmap.Owns id → ¬fs.Touches marked inodeNumber (extents inodeNumber) id) ∧
    ∀ other < volume.length, other ≠ inodeNumber →
      ¬fs.Touches marked inodeNumber (extents inodeNumber) (fs.inodeAreaStartBlock + other) ∧
      ∀ id ∈ (extents other).ids,
        ¬fs.Touches marked inodeNumber (extents inodeNumber) id := by
  have counted := holds.counted
  obtain ⟨first, inodeArea, dataBitmap, dataArea, -, -⟩ := geometry
  refine ⟨?_, fun other otherInside different => ⟨?_, fun id idIn => ?_⟩⟩
  · rintro id ⟨lower, upper⟩ (own | isInode | ⟨isData, -⟩)
    · have := own.1
      omega
    · omega
    · have := isData.1
      omega
  · rintro (own | isInode | ⟨isData, -⟩)
    · have := own.1
      omega
    · omega
    · have := isData.1
      omega
  · obtain ⟨isData, isMarked⟩ := holds.inData otherInside id idIn
    have lower := isData.1
    rintro (own | isInode | ⟨-, shared | free⟩)
    · have := own.2
      omega
    · omega
    · exact holds.apart other inodeNumber otherInside inside different idIn shared
    · rw [isMarked] at free
      contradiction

/-- A volume of files that the trees can describe had such files before the write. -/
theorem small_of_write (found : volume[inodeNumber]? = some file)
    (keeps : dataBlocks file.contents.length ≤ dataBlocks contents.length)
    (small : ∀ file ∈ volume.write inodeNumber contents, file.contents.length ≤ l4Max) :
    contents.length ≤ l4Max ∧ ∀ file ∈ volume, file.contents.length ≤ l4Max := by
  have bound : contents.length ≤ l4Max :=
    small _ (List.mem_of_getElem? (Volume.getElem?_write_self found contents))
  refine ⟨bound, fun other otherIn => ?_⟩
  obtain ⟨number, foundOther⟩ := List.mem_iff_getElem?.mp otherIn
  by_cases same : number = inodeNumber
  · rw [same, found] at foundOther
    obtain rfl := Option.some.inj foundOther
    exact bound_of_dataBlocks keeps bound
  · rw [← Volume.getElem?_write_of_ne volume same contents] at foundOther
    exact small other (List.mem_of_getElem? foundOther)

section Rewritten

variable (rewritten : fs.Rewritten store inodeNumber file (extents inodeNumber) marked contents
  extentAfter after markedAfter)

include rewritten

/-- A file's blocks after a write to it are no other file's. -/
theorem Rewritten.disjoint (holds : fs.Holds store volume extents marked)
    (inside : inodeNumber < volume.length) {other : Nat} (otherInside : other < volume.length)
    (different : other ≠ inodeNumber) :
    extentAfter.ids.Disjoint (extents other).ids := by
  intro id idIn shared
  rcases rewritten.origin id idIn with old | new
  · exact holds.apart other inodeNumber otherInside inside different shared old
  · have isMarked := (holds.inData otherInside id shared).2
    rw [new.2.1] at isMarked
    contradiction

/-- Another file is stored as before a write. -/
theorem Rewritten.placed_other (geometry : fs.Geometry totalBlocks)
    (holds : fs.Holds store volume extents marked) (inside : inodeNumber < volume.length)
    {number : Nat} {other : File} (found : volume[number]? = some other)
    (different : number ≠ inodeNumber) :
    ∃ record, (after (fs.inodeAreaStartBlock + number)).view metaCodec 0 = some record ∧
      Placed other record after (extents number) := by
  obtain ⟨numberInside, -⟩ := List.getElem?_eq_some_iff.mp found
  obtain ⟨inodeKept, blocksKept⟩ :=
    (holds.untouched geometry inside).2 number numberInside different
  obtain ⟨record, seen, placed⟩ := holds.placed number other found
  have inodeArea := geometry.inodeArea
  have dataBitmap := geometry.dataBitmap
  have dataArea := geometry.dataArea
  refine ⟨record, ?_, placed.congr fun id idIn => rewritten.frame id (blocksKept id idIn) ?_⟩
  · rw [rewritten.frame _ inodeKept (by omega)]
    exact seen
  · have lower := (holds.inData numberInside id idIn).1.1
    omega

/-- After a write the blocks hold the volume with the new contents. -/
theorem Rewritten.holds (geometry : fs.Geometry totalBlocks)
    (holds : fs.Holds store volume extents marked) (found : volume[inodeNumber]? = some file)
    (keeps : dataBlocks file.contents.length ≤ dataBlocks contents.length) :
    fs.Holds after (volume.write inodeNumber contents)
      (Function.update extents inodeNumber extentAfter) markedAfter := by
  obtain ⟨inside, -⟩ := List.getElem?_eq_some_iff.mp found
  refine ⟨?_, by simpa using holds.counted, ?_, ?_, rewritten.marks, ?_, ?_⟩
  · rw [Volume.length_write]
    refine holds.inodes.congr fun id ownId =>
      rewritten.frame id ((holds.untouched geometry inside).1 id ownId) ?_
    have := geometry.inodeBitmap
    have := ownId.1
    omega
  · intro number other foundOther
    by_cases same : number = inodeNumber
    · subst same
      rw [Volume.getElem?_write_self found] at foundOther
      obtain rfl := Option.some.inj foundOther
      rw [Function.update_self]
      exact rewritten.placed
    · rw [Volume.getElem?_write_of_ne volume same] at foundOther
      rw [Function.update_of_ne same]
      exact rewritten.placed_other geometry holds inside foundOther same
  · intro left right leftInside rightInside different
    rw [Volume.length_write] at leftInside rightInside
    by_cases isLeft : left = inodeNumber
    · rw [isLeft, Function.update_self, Function.update_of_ne (by omega)]
      exact rewritten.disjoint holds inside rightInside (by omega)
    · rw [Function.update_of_ne isLeft]
      by_cases isRight : right = inodeNumber
      · rw [isRight, Function.update_self]
        exact (rewritten.disjoint holds inside leftInside isLeft).symm
      · rw [Function.update_of_ne isRight]
        exact holds.apart left right leftInside rightInside different
  · intro number numberInside id idIn
    rw [Volume.length_write] at numberInside
    by_cases same : number = inodeNumber
    · rw [same, Function.update_self] at idIn
      rcases rewritten.origin id idIn with old | ⟨⟨lower, upper⟩, -, isMarked⟩
      · obtain ⟨lower, upper, isMarked⟩ := holds.owned inodeNumber inside id old
        exact ⟨lower, upper, rewritten.kept _ isMarked⟩
      · exact ⟨lower, upper, isMarked⟩
    · rw [Function.update_of_ne same] at idIn
      obtain ⟨lower, upper, isMarked⟩ := holds.owned number numberInside id idIn
      exact ⟨lower, upper, rewritten.kept _ isMarked⟩
  · intro small bit bitInside isMarked
    obtain ⟨bound, oldSmall⟩ := small_of_write found keeps small
    obtain ⟨keptIds, newIds⟩ := rewritten.exact bound
    rw [Volume.length_write]
    rcases newIds bit isMarked with old | new
    · obtain ⟨number, numberInside, idIn⟩ := holds.exact oldSmall bit bitInside old
      refine ⟨number, numberInside, ?_⟩
      by_cases same : number = inodeNumber
      · rw [same, Function.update_self]
        exact keptIds _ (same ▸ idIn)
      · rwa [Function.update_of_ne same]
    · refine ⟨inodeNumber, inside, ?_⟩
      rwa [Function.update_self]

end Rewritten

/-- The steps of `CAFS::write` on the blocks: the closure on the inode's `Meta`, then the loop
over the data blocks. -/
theorem Holds.wp_write (holds : fs.Holds store volume extents marked)
    (geometry : fs.Geometry totalBlocks) (found : volume[inodeNumber]? = some file)
    (wide : contents.length < 2 ^ 64)
    (keeps : dataBlocks file.contents.length ≤ dataBlocks contents.length)
    {post : List Nat × List Nat → (Nat → Block) → Prop}
    (goal : ∀ extentAfter after markedAfter,
      fs.Rewritten store inodeNumber file (extents inodeNumber) marked contents extentAfter after
        markedAfter →
      post (extentAfter.index, extentAfter.data) after)
    (full : ∀ reached, fs.Exhausted store marked reached → fs.dataBitmap.totalCount <
        fs.dataBitmap.used marked + growth file.contents.length contents.length →
      failed .runOutOfDataBlock reached) :
    (modifyAt metaCodec (fs.inodeAreaStartBlock + inodeNumber) 0 fun record =>
      fs.resize record contents.length).wp (Prog.deviceRules totalBlocks) []
      (fun found middle => (fillBlocks found.2 contents).wp (Prog.deviceRules totalBlocks) []
        (fun _ after => post found after) failed middle) failed store := by
  obtain ⟨inside, -⟩ := List.getElem?_eq_some_iff.mp found
  obtain ⟨record, seen, placed⟩ := holds.placed inodeNumber file found
  have counted := Nat.lt_of_lt_of_le inside holds.counted
  have space := geometry.workspace counted
  have onDevice : fs.inodeAreaStartBlock + inodeNumber < totalBlocks := by
    obtain ⟨-, -, dataBitmap, dataArea, within, -⟩ := geometry
    omega
  refine wp_modifyAt (by simp) seen ⟨onDevice, by simp, show 0 < 5 by decide⟩ ?_
  refine wp_resize space holds.marks placed.laid (Block.fits_of_view (by simp) seen)
    (holds.inData inside) wide (placed.size ▸ keeps) ?_ (placed.size ▸ full)
  intro resized extentAfter middle markedAfter regrown
  refine wp_fillBlocks (List.nodup_append.mp regrown.laid.distinct).2.1 ?_ ?_
  · intro id idIn
    refine ⟨?_, by simp, show 0 < 5 by decide⟩
    rcases regrown.origin id (List.mem_append_right _ idIn) with old | new
    · exact (space.area id (holds.inData inside id old).1).1
    · exact (space.area id new.1).1
  · intro after frame filled
    exact goal extentAfter after markedAfter (regrown.rewritten geometry counted placed.size
      placed.type placed.name (holds.inData inside) frame filled)

end Write

section Add

variable {type : InodeType} {name : NameBytes}

/-- `Bitmap::alloc` of an inode finds the number of files. -/
theorem Holds.wp_allocInode (holds : fs.Holds store volume extents marked)
    (geometry : fs.Geometry totalBlocks) {post : Option Nat → (Nat → Block) → Prop}
    (goal : ∀ after, volume.length < fs.inodeBitmap.totalCount →
      fs.inodeBitmap.Marks after (fun number => decide (number < volume.length + 1)) →
      (∀ id, ¬fs.inodeBitmap.Owns id → after id = store id) → post (some volume.length) after)
    (full : volume.length = fs.inodeBitmap.totalCount → post none store) :
    fs.inodeBitmap.alloc.wp (Prog.deviceRules totalBlocks) [] post failed store := by
  have room : ([] : List Nat).length < (Prog.deviceRules totalBlocks).limit := Nat.zero_lt_succ 4
  refine Bitmap.wp_alloc holds.inodes ?_ room ?_ ?_
  · rintro id ⟨lower, upper⟩
    obtain ⟨first, inodeArea, dataBitmap, dataArea, within, -⟩ := geometry
    exact ⟨show id < totalBlocks by omega, by simp⟩
  · intro bit after inside clear below marksAfter frame
    have next : bit = volume.length := by
      rw [decide_eq_false_iff_not] at clear
      by_contra different
      have lower := below volume.length (by omega)
      rw [decide_eq_true_iff] at lower
      omega
    subst next
    refine goal after inside ?_ frame
    have marksEq : (fun number => decide (number < volume.length + 1)) =
        Function.update (fun number => decide (number < volume.length)) volume.length true := by
      funext number
      by_cases same : number = volume.length
      · simp [same]
      · rw [Function.update_of_ne same, decide_eq_decide]
        omega
    rw [marksEq]
    exact marksAfter
  · intro allMarked
    have counted := holds.counted
    refine full (by_contra fun different => ?_)
    have last := allMarked volume.length (by omega)
    rw [decide_eq_true_iff] at last
    omega

/-- A new `Meta` under the next inode number is an empty file. -/
theorem Holds.add (holds : fs.Holds store volume extents marked)
    (geometry : fs.Geometry totalBlocks) (free : volume.length < fs.inodeBitmap.totalCount)
    (marks : fs.inodeBitmap.Marks after fun number => decide (number < volume.length + 1))
    (seen : (after (fs.inodeAreaStartBlock + volume.length)).view metaCodec 0 =
      some (Meta.init type name))
    (frame : ∀ id, ¬fs.inodeBitmap.Owns id → id ≠ fs.inodeAreaStartBlock + volume.length →
      after id = store id) :
    fs.Holds after (volume.add type name) (Function.update extents volume.length ⟨[], []⟩)
      marked := by
  have others : ∀ number < volume.length,
      Function.update extents volume.length ⟨[], []⟩ number = extents number :=
    fun number inside => Function.update_of_ne (Nat.ne_of_lt inside) _ _
  have empty : (Function.update extents volume.length ⟨[], []⟩ volume.length).ids = [] := by
    rw [Function.update_self]
    rfl
  have above : ∀ id, fs.inodeAreaStartBlock ≤ id → ¬fs.inodeBitmap.Owns id := by
    rintro id lower ⟨-, upper⟩
    have := geometry.inodeBitmap
    have := geometry.inodeArea
    omega
  have dataBitmap := geometry.dataBitmap
  have dataArea := geometry.dataArea
  refine ⟨by simpa using marks, by simpa using free, ?_, ?_, ?_, ?_, ?_⟩
  · intro number file found
    by_cases last : number = volume.length
    · subst last
      rw [Volume.getElem?_add_self] at found
      obtain rfl := Option.some.inj found
      rw [Function.update_self]
      exact ⟨Meta.init type name, seen, .init after type name, rfl, rfl, rfl, fun _ => rfl⟩
    · obtain ⟨inside, -⟩ := List.getElem?_eq_some_iff.mp found
      rw [Volume.length_add] at inside
      have old : number < volume.length := by omega
      rw [Volume.getElem?_add_of_lt old] at found
      obtain ⟨record, recordSeen, placed⟩ := holds.placed number file found
      refine ⟨record, ?_, ?_⟩
      · rw [frame _ (above _ (Nat.le_add_right _ _)) (by omega)]
        exact recordSeen
      · rw [others number old]
        refine placed.congr fun id idIn => ?_
        have lower := (holds.inData old id idIn).1.1
        exact frame id (above id (by omega)) (by omega)
  · intro left right leftInside rightInside different
    rw [Volume.length_add] at leftInside rightInside
    by_cases isLeft : left = volume.length
    · rw [isLeft, empty]
      exact List.disjoint_nil_left _
    · by_cases isRight : right = volume.length
      · rw [isRight, empty]
        exact List.disjoint_nil_right _
      · rw [others left (by omega), others right (by omega)]
        exact holds.apart left right (by omega) (by omega) different
  · refine holds.marks.congr fun id own => frame id (above id ?_) ?_
    · have := own.1
      omega
    · have := own.1
      omega
  · intro number inside id idIn
    rw [Volume.length_add] at inside
    by_cases last : number = volume.length
    · rw [last, empty] at idIn
      simp at idIn
    · rw [others number (by omega)] at idIn
      exact holds.owned number (by omega) id idIn
  · intro small bit inside isMarked
    have oldSmall : ∀ file ∈ volume, file.contents.length ≤ l4Max :=
      fun file fileIn => small file (List.mem_append_left _ fileIn)
    obtain ⟨number, numberInside, idIn⟩ := holds.exact oldSmall bit inside isMarked
    refine ⟨number, ?_, ?_⟩
    · rw [Volume.length_add]
      omega
    · rwa [others number numberInside]

/-- `CaInode::new` under the inode number just marked. -/
theorem Holds.wp_new {middle : Nat → Block} (holds : fs.Holds store volume extents marked)
    (geometry : fs.Geometry totalBlocks) (free : volume.length < fs.inodeBitmap.totalCount)
    (marks : fs.inodeBitmap.Marks middle fun number => decide (number < volume.length + 1))
    (frame : ∀ id, ¬fs.inodeBitmap.Owns id → middle id = store id) {name : String}
    {post : CaInode → (Nat → Block) → Prop}
    (goal : ∀ bytes after, nameBytes (utf8Bytes name) = some bytes →
      fs.Holds after (volume.add type bytes)
        (Function.update extents volume.length ⟨[], []⟩) marked →
      (∀ id, ¬fs.inodeBitmap.Owns id → id ≠ fs.inodeAreaStartBlock + volume.length →
        after id = store id) →
      post (fs.inodeOf volume.length ⟨type, bytes, []⟩ ⟨[], []⟩) after)
    (longName : nameBytes (utf8Bytes name) = none → failed .nameTooLong middle) :
    (CaInode.new volume.length type (fs.inodeAreaStartBlock + volume.length) 0 name).wp
      (Prog.deviceRules totalBlocks) [] post failed middle := by
  have onDevice : fs.inodeAreaStartBlock + volume.length < totalBlocks := by
    obtain ⟨-, -, dataBitmap, dataArea, within, -⟩ := geometry
    omega
  unfold CaInode.new
  cases isName : nameBytes (utf8Bytes name) with
  | none => exact longName isName
  | some bytes =>
    refine Scoped.wp_bind.mpr (wp_overwriteAt (by simp)
      ⟨onDevice, by simp, Nat.zero_lt_succ 4⟩ ?_)
    have outside : ∀ id, ¬fs.inodeBitmap.Owns id →
        id ≠ fs.inodeAreaStartBlock + volume.length →
        Function.update middle (fs.inodeAreaStartBlock + volume.length)
          ((middle (fs.inodeAreaStartBlock + volume.length)).patch metaCodec 0
            (Meta.init type bytes)) id = store id := by
      intro id notBitmap different
      rw [Function.update_of_ne different]
      exact frame id notBitmap
    refine goal bytes _ isName (holds.add geometry free (marks.congr fun id own => ?_) ?_ outside)
      outside
    · refine Function.update_of_ne ?_ _ _
      have := geometry.inodeBitmap
      have := geometry.inodeArea
      have := own.2
      omega
    · rw [Function.update_self]
      exact Block.view_patch _ _ _ _ (by simp) (Meta.fits_init type bytes)

end Add

end Cafs

end Canyon.Fs
