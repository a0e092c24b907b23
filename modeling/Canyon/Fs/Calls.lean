import Canyon.Fs.InodeCache

/-!
# Calls on the file system

One specification for each call of `CAFS`: what it returns, and the inode cache and the blocks
that it leaves, from a file system that represents a volume.
-/

namespace Canyon.Fs

open Canyon.Lib

/-- The blocks hold a volume and the inode cache describes it. -/
structure Cafs.Represents (fs : Cafs) (totalBlocks : Nat) (inodes : Inodes)
    (store : Nat → Block) (volume : Volume) (extents : Nat → Extent) (marked : Nat → Bool) :
    Prop where
  /-- The parts of the device are in order. -/
  geometry : fs.Geometry totalBlocks
  /-- The blocks hold the volume. -/
  holds : fs.Holds store volume extents marked
  /-- The cache describes the volume. -/
  coherent : inodes.Coherent fs volume extents

namespace Inodes

/-- The cache after `Arc::new` and a push: the entries kept, and one for the new object. -/
def inserted (inodes : Inodes) (object : CaInode) (queue : List Nat) : Inodes :=
  ⟨queue ++ [inodes.next], inodes.next :: inodes.handles,
    Function.update inodes.heap inodes.next object, inodes.next + 1⟩

/-- The cache after `write` has brought an object up to date and dropped its handle. -/
def wrote (inodes : Inodes) (pointer size : Nat) (blocks : List Nat) : Inodes :=
  { inodes with
    handles := inodes.handles.erase pointer
    heap := Function.update inodes.heap pointer { inodes.heap pointer with size, blocks } }

/-- What `cainode` does to the cache: a hit is one more handle, a miss makes room for a new
object. -/
inductive Looked (inodes : Inodes) (object : CaInode) : Nat → Inodes → Prop where
  /-- The inode is in the cache. -/
  | hit {pointer : Nat} (found : inodes.find object.inodeNumber = some pointer) :
      Looked inodes object pointer { inodes with handles := pointer :: inodes.handles }
  /-- The inode is read from the device. -/
  | miss {queue : List Nat} (absent : inodes.find object.inodeNumber = none)
      (done : substitute inodes.queue inodes.handles = .ok queue) :
      Looked inodes object inodes.next (inodes.inserted object queue)

/-- What `create` does to the cache: an entry for the new inode, the lookup of the parent, a
second entry for the new inode; the parent's object is brought up to date on the way. -/
inductive Created (inodes : Inodes) (object parent : CaInode) (size : Nat) (blocks : List Nat) :
    Inodes → Prop where
  /-- The substitutions of the three insertions. -/
  | mk {queue last : List Nat} {looked : Inodes} {pointer : Nat}
      (added : substitute inodes.queue (inodes.next :: inodes.next :: inodes.handles) =
        .ok queue)
      (found : (inodes.inserted object queue).Looked parent pointer looked)
      (pushed : substitute looked.queue (inodes.next :: looked.handles) = .ok last) :
      Created inodes object parent size blocks ⟨last ++ [inodes.next],
        inodes.next :: inodes.handles,
        Function.update looked.heap pointer { looked.heap pointer with size, blocks },
        looked.next⟩

variable {inodes after : Inodes} {fs : Cafs} {volume : Volume} {extents : Nat → Extent}
  {queue : List Nat} {pointer : Nat} {object : CaInode}

/-- Handles of the cache stay in the queue of a substitution. -/
theorem Coherent.held (coherent : inodes.Coherent fs volume extents)
    (done : substitute inodes.queue inodes.handles = .ok queue) :
    ∀ other ∈ inodes.handles, other ∈ queue :=
  fun other otherIn => (substituted done).held other (coherent.pinned other otherIn) otherIn

/-- `cainode` keeps the cache coherent and returns the inode's object. -/
theorem Coherent.looked (coherent : inodes.Coherent fs volume extents) {number : Nat} {file : File}
    (found : volume[number]? = some file)
    (looked : inodes.Looked (fs.inodeOf number file (extents number)) pointer after) :
    after.Coherent fs volume extents ∧ pointer ∈ after.queue ∧
      after.heap pointer = fs.inodeOf number file (extents number) ∧
      after.handles = pointer :: inodes.handles := by
  cases looked with
  | hit hit =>
    obtain ⟨pointerIn, isNumber⟩ := find_some hit
    have isNumber : (inodes.heap pointer).inodeNumber = number := isNumber
    obtain ⟨same, foundSame, equal⟩ := coherent.entry pointerIn
    rw [isNumber] at foundSame equal
    obtain rfl := Option.some.inj (found.symm.trans foundSame)
    exact ⟨coherent.clone pointerIn, pointerIn, equal, rfl⟩
  | miss absent done =>
    refine ⟨coherent.insert (substituted done).subset (coherent.held done)
      ((substituted done).room coherent.bounded) (find_none absent) found, ?_,
      Function.update_self _ _ _, rfl⟩
    simp [inserted]

/-- A write keeps the inode numbers of the objects. -/
theorem inodeNumber_wrote (inodes : Inodes) (pointer size : Nat) (blocks : List Nat)
    (other : Nat) : ((inodes.wrote pointer size blocks).heap other).inodeNumber =
      (inodes.heap other).inodeNumber := by
  show (Function.update inodes.heap pointer _ other).inodeNumber = _
  by_cases same : other = pointer
  · rw [same, Function.update_self]
  · rw [Function.update_of_ne same]

/-- A handle taken for a write is dropped after it. -/
theorem wrote_cloned (inodes : Inodes) (pointer size : Nat) (blocks : List Nat) :
    wrote { inodes with handles := pointer :: inodes.handles } pointer size blocks =
      { inodes with
        heap := Function.update inodes.heap pointer
          { inodes.heap pointer with size, blocks } } := by
  rw [wrote, List.erase_cons_head]

/-- A lookup adds at most one entry. -/
theorem Looked.length_queue_le (looked : inodes.Looked object pointer after) :
    after.queue.length ≤ inodes.queue.length + 1 := by
  cases looked with
  | hit found => exact Nat.le_succ _
  | @miss queue absent done =>
    obtain ⟨removed, perm⟩ := (substituted done).part
    have total := perm.length_eq
    rw [List.length_append] at total
    show (queue ++ [inodes.next]).length ≤ _
    rw [List.length_append, List.length_singleton]
    omega

/-- A lookup leaves a new object as it is. -/
theorem Looked.heap_inserted {parent : CaInode}
    (looked : (inodes.inserted object queue).Looked parent pointer after) :
    after.heap inodes.next = object := by
  cases looked with
  | hit found => exact Function.update_self _ _ _
  | miss absent done =>
    show Function.update (Function.update inodes.heap inodes.next object) (inodes.next + 1)
      parent inodes.next = object
    rw [Function.update_of_ne (Nat.ne_of_lt (Nat.lt_succ_self _)), Function.update_self]

/-- The handle that `create` returns is on the new inode. -/
theorem Created.inodeNumber_next {parent : CaInode} {size : Nat} {blocks : List Nat}
    (created : inodes.Created object parent size blocks after) :
    (after.heap inodes.next).inodeNumber = object.inodeNumber := by
  obtain @⟨_, _, looked, pointer, -, found, -⟩ := created
  rw [← found.heap_inserted]
  dsimp only
  by_cases same : inodes.next = pointer
  · rw [same, Function.update_self]
  · rw [Function.update_of_ne same]

/-- A second lookup finds the object of the first. -/
theorem Coherent.looked_again (coherent : inodes.Coherent fs volume extents) {writer : Nat}
    (pointerIn : pointer ∈ inodes.queue)
    (isNumber : (inodes.heap pointer).inodeNumber = object.inodeNumber)
    (looked : inodes.Looked object writer after) :
    writer = pointer ∧ after = { inodes with handles := pointer :: inodes.handles } := by
  cases looked with
  | hit hit =>
    obtain ⟨writerIn, same⟩ := find_some hit
    obtain rfl := coherent.unique writer writerIn pointer pointerIn (same.trans isNumber.symm)
    exact ⟨rfl, rfl⟩
  | miss absent done => exact absurd isNumber (find_none absent pointer pointerIn)

/-- The entry of a new inode keeps the cache coherent. -/
theorem Coherent.inserted (coherent : inodes.Coherent fs volume extents) {type : InodeType}
    {name : NameBytes}
    (done : substitute inodes.queue (inodes.next :: inodes.next :: inodes.handles) = .ok queue) :
    (inodes.inserted (fs.inodeOf volume.length ⟨type, name, []⟩ ⟨[], []⟩) queue).Coherent fs
      (volume.add type name) (Function.update extents volume.length ⟨[], []⟩) := by
  have absent : ∀ other ∈ inodes.queue, (inodes.heap other).inodeNumber ≠ volume.length := by
    intro other otherIn same
    obtain ⟨file, found, -⟩ := coherent.entry otherIn
    obtain ⟨inside, -⟩ := List.getElem?_eq_some_iff.mp found
    omega
  have held : ∀ other ∈ inodes.handles, other ∈ queue := fun other otherIn =>
    (substituted done).held other (coherent.pinned other otherIn) (by simp [otherIn])
  have inserted := (coherent.add type name ⟨[], []⟩).insert (substituted done).subset held
    ((substituted done).room coherent.bounded) absent (Volume.getElem?_add_self volume type name)
  rw [Function.update_self] at inserted
  exact inserted

/-- `create` keeps the cache coherent. -/
theorem Coherent.created (coherent : inodes.Coherent fs volume extents) {type : InodeType}
    {name : NameBytes} {parent : Nat} {file : File} (found : volume[parent]? = some file)
    {contents : List UInt8} {extent : Extent}
    (created : inodes.Created (fs.inodeOf volume.length ⟨type, name, []⟩ ⟨[], []⟩)
      (fs.inodeOf parent file (extents parent)) contents.length extent.data after) :
    after.Coherent fs ((volume.add type name).write parent contents)
      (Function.update (Function.update extents volume.length ⟨[], []⟩) parent extent) := by
  obtain ⟨inside, -⟩ := List.getElem?_eq_some_iff.mp found
  have foundAfter : (volume.add type name)[parent]? = some file := by
    rw [Volume.getElem?_add_of_lt inside]
    exact found
  have extentEq : Function.update extents volume.length ⟨[], []⟩ parent = extents parent :=
    Function.update_of_ne (Nat.ne_of_lt inside) _ _
  obtain @⟨queue, last, looked, pointer, added, isLooked, pushed⟩ := created
  rw [← extentEq] at isLooked
  have inserted : (inodes.inserted (fs.inodeOf volume.length ⟨type, name, []⟩ ⟨[], []⟩)
      queue).Coherent fs (volume.add type name)
      (Function.update extents volume.length ⟨[], []⟩) := coherent.inserted added
  obtain ⟨lookedCoherent, pointerIn, isObject, handlesEq⟩ := inserted.looked foundAfter isLooked
  have isNumber : (looked.heap pointer).inodeNumber = parent := by rw [isObject, Cafs.inodeOf]
  have written := lookedCoherent.write pointerIn isNumber foundAfter contents extent
  have newIn : inodes.next ∈ looked.queue :=
    lookedCoherent.pinned _ (by simp [handlesEq, Inodes.inserted])
  have room := (substituted pushed).room lookedCoherent.bounded
  have held : ∀ other ∈ looked.handles, other ∈ last := fun other otherIn =>
    (substituted pushed).held other (lookedCoherent.pinned other otherIn) (by simp [otherIn])
  have final := (written.push (substituted pushed).subset held room newIn).drop pointer
  dsimp only at final
  rw [handlesEq, List.erase_cons_head] at final
  exact final

end Inodes

namespace Cafs

variable {fs : Cafs} {totalBlocks : Nat} {inodes : Inodes} {store : Nat → Block} {volume : Volume}
  {extents : Nat → Extent} {marked : Nat → Bool} {failed : Panic → (Nat → Block) → Prop}
  {number parent : Nat} {file : File} {post : Nat → Inodes → (Nat → Block) → Prop}

/-- The blocks of a file may be asked for while nothing is held. -/
theorem Represents.admits (rep : fs.Represents totalBlocks inodes store volume extents marked)
    (inside : number < volume.length) :
    ∀ id ∈ (extents number).ids, (Prog.deviceRules totalBlocks).Admits [] id := by
  intro id idIn
  have space := rep.geometry.workspace (Nat.lt_of_lt_of_le inside rep.holds.counted)
  have valid := (space.area id (rep.holds.inData inside id idIn).1).1
  exact ⟨valid, by simp, Nat.zero_lt_succ 4⟩

/-- `cainode` returns the object of a file. -/
theorem wp_cainode (rep : fs.Represents totalBlocks inodes store volume extents marked)
    (found : volume[number]? = some file)
    (goal : ∀ pointer after,
      inodes.Looked (fs.inodeOf number file (extents number)) pointer after →
      post pointer after store)
    (full : inodes.find number = none →
      Inodes.substitute inodes.queue inodes.handles = .error .runOutOfInodeCache →
      failed .runOutOfInodeCache store) :
    FsM.wp (Prog.deviceRules totalBlocks) (fs.cainode number) inodes post failed store := by
  obtain ⟨inside, -⟩ := List.getElem?_eq_some_iff.mp found
  obtain ⟨record, seen, placed⟩ := rep.holds.placed number file found
  have counted := Nat.lt_of_lt_of_le inside rep.holds.counted
  have space := rep.geometry.workspace counted
  have onDevice : fs.inodeAreaStartBlock + number < totalBlocks := by
    obtain ⟨-, -, dataBitmap, dataArea, within, -⟩ := rep.geometry
    omega
  refine FsM.wp_bind.mpr (FsM.wp_get.mpr ?_)
  cases search : inodes.find number with
  | some pointer => exact goal pointer _ (.hit search)
  | none =>
    refine FsM.wp_bind.mpr (FsM.wp_substituteInode ?_ ?_)
    · intro queue done
      rw [inodePosOf_eq]
      refine FsM.wp_bind.mpr (FsM.wp_onBlocks.mpr (wp_from placed seen
        ⟨onDevice, by simp, Nat.zero_lt_succ 4⟩ ?_ (Nat.le_refl 5)
        (goal _ _ (.miss search done))))
      intro id idIn
      exact space.area id (rep.holds.inData inside id (List.mem_append_left _ idIn)).1
    · intro error stuck
      obtain ⟨rfl, -⟩ := Inodes.substitute_error stuck
      exact full search stuck

/-- `write` stores the contents and brings the inode's object up to date. -/
theorem wp_write (rep : fs.Represents totalBlocks inodes store volume extents marked)
    (found : volume[number]? = some file) {contents : List UInt8} (wide : contents.length < 2 ^ 64)
    (keeps : dataBlocks file.contents.length ≤ dataBlocks contents.length)
    {post : Unit → Inodes → (Nat → Block) → Prop}
    (goal : ∀ pointer looked extentAfter after markedAfter,
      inodes.Looked (fs.inodeOf number file (extents number)) pointer looked →
      fs.Rewritten store number file (extents number) marked contents extentAfter after
        markedAfter →
      post () (looked.wrote pointer contents.length extentAfter.data) after)
    (noCache : inodes.find number = none →
      Inodes.substitute inodes.queue inodes.handles = .error .runOutOfInodeCache →
      failed .runOutOfInodeCache store)
    (noData : ∀ reached, fs.Exhausted store marked reached → fs.dataBitmap.totalCount <
        fs.dataBitmap.used marked + growth file.contents.length contents.length →
      failed .runOutOfDataBlock reached) :
    FsM.wp (Prog.deviceRules totalBlocks) (fs.write number contents) inodes post failed store := by
  refine FsM.wp_bind.mpr (wp_cainode rep found ?_ noCache)
  intro pointer looked isLooked
  rw [inodePosOf_eq]
  refine FsM.wp_bind.mpr (FsM.wp_onBlocks.mpr ?_)
  refine Scoped.wp_mono (rep.holds.wp_write rep.geometry found wide keeps ?_ noData)
    (fun ids middle filled => FsM.wp_bind.mpr (FsM.wp_onBlocks.mpr filled)) fun _ _ => id
  intro extentAfter after markedAfter rewritten
  exact goal pointer looked extentAfter after markedAfter isLooked rewritten

/-- A write that keeps the number of data blocks leaves a file system that represents the volume
with the new contents. -/
theorem Represents.wrote (rep : fs.Represents totalBlocks inodes store volume extents marked)
    (found : volume[number]? = some file) {contents : List UInt8}
    (keeps : dataBlocks file.contents.length ≤ dataBlocks contents.length) {pointer : Nat}
    {looked : Inodes} {extentAfter : Extent} {after : Nat → Block} {markedAfter : Nat → Bool}
    (isLooked : inodes.Looked (fs.inodeOf number file (extents number)) pointer looked)
    (rewritten : fs.Rewritten store number file (extents number) marked contents extentAfter
      after markedAfter) :
    fs.Represents totalBlocks (looked.wrote pointer contents.length extentAfter.data) after
      (volume.write number contents) (Function.update extents number extentAfter)
      markedAfter := by
  obtain ⟨coherent, pointerIn, isObject, -⟩ := rep.coherent.looked found isLooked
  have isNumber : (looked.heap pointer).inodeNumber = number := by rw [isObject, inodeOf]
  exact ⟨rep.geometry, rewritten.holds rep.geometry rep.holds found keeps,
    (coherent.write pointerIn isNumber found contents extentAfter).drop pointer⟩

/-- `add_inode_cache` makes room for one more entry. -/
theorem wp_addInodeCache {pointer : Nat} {rules : Scoped.Discipline Nat}
    {post : Unit → Inodes → (Nat → Block) → Prop}
    (goal : ∀ queue, Inodes.substitute inodes.queue inodes.handles = .ok queue →
      post () { inodes with
        queue := queue ++ [pointer]
        handles := inodes.handles.erase pointer } store)
    (full : Inodes.substitute inodes.queue inodes.handles = .error .runOutOfInodeCache →
      failed .runOutOfInodeCache store) :
    FsM.wp rules (fs.addInodeCache pointer) inodes post failed store := by
  refine FsM.wp_bind.mpr (FsM.wp_substituteInode ?_ ?_)
  · intro queue done
    exact goal queue done
  · intro error stuck
    obtain ⟨rfl, -⟩ := Inodes.substitute_error stuck
    exact full stuck

/-- `alloc_inode_meta` adds an empty file. -/
theorem wp_allocInodeMeta (rep : fs.Represents totalBlocks inodes store volume extents marked)
    {type : InodeType} {name : String}
    (goal : ∀ bytes queue after, nameBytes (utf8Bytes name) = some bytes →
      Inodes.substitute inodes.queue (inodes.next :: inodes.next :: inodes.handles) =
        .ok queue →
      fs.Holds after (volume.add type bytes)
        (Function.update extents volume.length ⟨[], []⟩) marked →
      (∀ id, ¬fs.inodeBitmap.Owns id → id ≠ fs.inodeAreaStartBlock + volume.length →
        after id = store id) →
      post inodes.next
        (inodes.inserted (fs.inodeOf volume.length ⟨type, bytes, []⟩ ⟨[], []⟩) queue) after)
    (noInode : volume.length = fs.inodeBitmap.totalCount → failed .runOutOfInodeBlock store)
    (longName : ∀ reached, nameBytes (utf8Bytes name) = none → failed .nameTooLong reached)
    (noCache : ∀ reached, inodes.queue.length = inodeCacheSize →
      failed .runOutOfInodeCache reached) :
    FsM.wp (Prog.deviceRules totalBlocks) (fs.allocInodeMeta type name) inodes post failed
      store := by
  refine FsM.wp_bind.mpr (FsM.wp_onBlocks.mpr (rep.holds.wp_allocInode rep.geometry ?_ ?_))
  · intro middle free marks frame
    dsimp only
    rw [inodePosOf_eq]
    refine FsM.wp_bind.mpr (FsM.wp_onBlocks.mpr (rep.holds.wp_new rep.geometry free marks frame
      ?_ (longName middle)))
    intro bytes after isName holds outside
    refine FsM.wp_bind.mpr (FsM.wp_newHandle.mpr (FsM.wp_bind.mpr
      (FsM.wp_cloneHandle.mpr (FsM.wp_bind.mpr (wp_addInodeCache ?_ ?_)))))
    swap
    · intro stuck
      exact noCache _ (Inodes.substitute_error stuck).2.1
    intro queue done
    have once : (inodes.next :: inodes.next :: inodes.handles).erase inodes.next =
        inodes.next :: inodes.handles := List.erase_cons_head ..
    have reached := goal bytes queue after isName done holds outside
    rw [Inodes.inserted, ← once] at reached
    exact reached
  · intro allUsed
    exact noInode allUsed

/-- The contents that `create` writes to the parent: those it reads, and the entry of the new
inode. -/
def extended (fs : Cafs) (store : Nat → Block) (volume : Volume) (extents : Nat → Extent)
    (parent : Nat) (file : File) : List UInt8 :=
  appendEntry ((fs.inodeOf parent file (extents parent)).bytesOn store) volume.length

/-- The new contents are no longer than the tree of the parent allows, but for one entry. -/
theorem Represents.length_extended_lt
    (rep : fs.Represents totalBlocks inodes store volume extents marked)
    (found : volume[parent]? = some file) :
    (fs.extended store volume extents parent file).length < 2 ^ 64 := by
  obtain ⟨record, -, placed⟩ := rep.holds.placed parent file found
  have bound := placed.laid.tree.length_data_le
  have few : ((fs.inodeOf parent file (extents parent)).bytesOn store).length ≤
      (extents parent).data.length * blockSize := CaInode.length_bytesOn_le _ store
  have longer := length_appendEntry_le
    ((fs.inodeOf parent file (extents parent)).bytesOn store) volume.length
  obtain ⟨-, -, -, -, -, -, -, top⟩ := levelConstants
  rw [extended]
  omega

/-- `create` reads the parent's contents after it has made the new inode. -/
theorem wp_readParent (rep : fs.Represents totalBlocks inodes store volume extents marked)
    (found : volume[parent]? = some file)
    {post : Nat × Nat × List UInt8 → Inodes → (Nat → Block) → Prop}
    (goal : ∀ pointer looked,
      inodes.Looked (fs.inodeOf parent file (extents parent)) pointer looked →
      post (pointer, parent, (fs.inodeOf parent file (extents parent)).bytesOn store) looked
        store)
    (full : inodes.find parent = none →
      Inodes.substitute inodes.queue inodes.handles = .error .runOutOfInodeCache →
      failed .runOutOfInodeCache store) :
    FsM.wp (Prog.deviceRules totalBlocks) (fs.readParent parent) inodes post failed store := by
  obtain ⟨inside, -⟩ := List.getElem?_eq_some_iff.mp found
  refine FsM.wp_bind.mpr (wp_cainode rep found ?_ full)
  intro pointer looked isLooked
  obtain ⟨-, -, isObject, -⟩ := rep.coherent.looked found isLooked
  refine FsM.wp_bind.mpr (FsM.wp_deref.mpr (FsM.wp_bind.mpr (FsM.wp_onBlocks.mpr ?_)))
  rw [isObject]
  refine CaInode.wp_data _ (fun id idIn => ?_) (goal pointer looked isLooked)
  exact rep.admits inside id (List.mem_append_right _ idIn)

/-- A new inode leaves the data blocks of the others as they are. -/
theorem Represents.bytesOn_added
    (rep : fs.Represents totalBlocks inodes store volume extents marked)
    (found : volume[parent]? = some file) (free : volume.length < fs.inodeBitmap.totalCount)
    {added : Nat → Block}
    (frame : ∀ id, ¬fs.inodeBitmap.Owns id → id ≠ fs.inodeAreaStartBlock + volume.length →
      added id = store id) :
    (fs.inodeOf parent file (extents parent)).bytesOn added =
      (fs.inodeOf parent file (extents parent)).bytesOn store := by
  obtain ⟨inside, -⟩ := List.getElem?_eq_some_iff.mp found
  refine CaInode.bytesOn_congr _ fun id idIn => ?_
  have lower := (rep.holds.inData inside id (List.mem_append_right _ idIn)).1.1
  obtain ⟨first, inodeArea, dataBitmap, dataArea, -, -⟩ := rep.geometry
  refine frame id (fun own => ?_) (by omega)
  have := own.2
  omega

/-- `create` adds an empty file and extends the contents of its parent. -/
theorem wp_create (rep : fs.Represents totalBlocks inodes store volume extents marked)
    (found : volume[parent]? = some file) {name : String}
    (keeps : dataBlocks file.contents.length ≤
      dataBlocks (fs.extended store volume extents parent file).length)
    (goal : ∀ bytes created extent after markedAfter,
      nameBytes (utf8Bytes name) = some bytes →
      inodes.Created (fs.inodeOf volume.length ⟨.file, bytes, []⟩ ⟨[], []⟩)
        (fs.inodeOf parent file (extents parent))
        (fs.extended store volume extents parent file).length extent.data created →
      fs.Represents totalBlocks created after
        ((volume.add .file bytes).write parent (fs.extended store volume extents parent file))
        (Function.update (Function.update extents volume.length ⟨[], []⟩) parent extent)
        markedAfter →
      fs.dataBitmap.used markedAfter = fs.dataBitmap.used marked +
        growth file.contents.length (fs.extended store volume extents parent file).length →
      (Bitmap.Lowest marked → Bitmap.Lowest markedAfter) →
      (file.contents.length ≤ l4Max → after 0 = store 0) →
      post inodes.next created after)
    (noInode : volume.length = fs.inodeBitmap.totalCount → failed .runOutOfInodeBlock store)
    (longName : ∀ reached, nameBytes (utf8Bytes name) = none → failed .nameTooLong reached)
    (noCache : ∀ reached, inodeCacheSize ≤ inodes.queue.length + 2 →
      failed .runOutOfInodeCache reached)
    (noData : ∀ reached, volume.length < fs.inodeBitmap.totalCount →
      fs.inodeBitmap.Marks reached (fun number => decide (number < volume.length + 1)) →
      fs.dataBitmap.totalCount < fs.dataBitmap.used marked +
        growth file.contents.length (fs.extended store volume extents parent file).length →
      failed .runOutOfDataBlock reached) :
    FsM.wp (Prog.deviceRules totalBlocks) (fs.create parent name) inodes post failed store := by
  obtain ⟨inside, -⟩ := List.getElem?_eq_some_iff.mp found
  refine FsM.wp_bind.mpr (wp_allocInodeMeta rep ?_ noInode longName fun reached full =>
    noCache reached (by omega))
  intro bytes queue added isName addedQueue holds frame
  have foundAfter : (volume.add .file bytes)[parent]? = some file := by
    rw [Volume.getElem?_add_of_lt inside]
    exact found
  have extentEq : Function.update extents volume.length ⟨[], []⟩ parent = extents parent :=
    Function.update_of_ne (Nat.ne_of_lt inside) _ _
  have repAdded : fs.Represents totalBlocks
      (inodes.inserted (fs.inodeOf volume.length ⟨.file, bytes, []⟩ ⟨[], []⟩) queue) added
      (volume.add .file bytes) (Function.update extents volume.length ⟨[], []⟩) marked :=
    ⟨rep.geometry, holds, rep.coherent.inserted addedQueue⟩
  have fewer : queue.length ≤ inodes.queue.length := by
    obtain ⟨removed, perm⟩ := (Inodes.substituted addedQueue).part
    have total := perm.length_eq
    rw [List.length_append] at total
    omega
  have free : volume.length < fs.inodeBitmap.totalCount := by simpa using holds.counted
  have contentsEq := rep.bytesOn_added found free frame
  have addedMarks : ∀ reached, fs.Exhausted added marked reached →
      fs.inodeBitmap.Marks reached fun number => decide (number < volume.length + 1) := by
    intro reached exhausted
    have marks := holds.inodes
    rw [Volume.length_add] at marks
    refine marks.congr fun id own => exhausted.frame id fun ownData => ?_
    have first := rep.geometry.inodeBitmap
    have inodeArea := rep.geometry.inodeArea
    have dataBitmap := rep.geometry.dataBitmap
    have := own.2
    have := ownData.1
    omega
  refine FsM.wp_bind.mpr (wp_readParent repAdded foundAfter ?_ ?_)
  swap
  · intro _ stuck
    have full : (queue ++ [inodes.next]).length = inodeCacheSize :=
      (Inodes.substitute_error stuck).2.1
    rw [List.length_append, List.length_singleton] at full
    exact noCache _ (by omega)
  intro pointer looked isLooked
  obtain ⟨coherent, pointerIn, isObject, handlesEq⟩ :=
    repAdded.coherent.looked foundAfter isLooked
  refine FsM.wp_bind.mpr (FsM.wp_deref.mpr ?_)
  rw [isLooked.heap_inserted]
  rw [extentEq, contentsEq]
  refine FsM.wp_bind.mpr (wp_write ⟨rep.geometry, holds, coherent⟩ foundAfter
    (rep.length_extended_lt found) keeps ?_ ?_ fun reached exhausted =>
      noData reached free (addedMarks reached exhausted))
  swap
  · intro absent
    exact absurd (by rw [isObject, inodeOf]) (Inodes.find_none absent pointer pointerIn)
  intro writer again extent after markedAfter isAgain rewritten
  obtain ⟨sameWriter, rfl⟩ := coherent.looked_again pointerIn (by rw [isObject]) isAgain
  obtain rfl := sameWriter.symm
  rw [extentEq] at isLooked
  rw [Inodes.wrote_cloned]
  refine FsM.wp_bind.mpr (FsM.wp_cloneHandle.mpr (FsM.wp_bind.mpr (wp_addInodeCache ?_ ?_)))
  · intro last pushed
    have created : inodes.Created (fs.inodeOf volume.length ⟨.file, bytes, []⟩ ⟨[], []⟩)
        (fs.inodeOf parent file (extents parent))
        (fs.extended store volume extents parent file).length extent.data _ :=
      .mk addedQueue isLooked pushed
    have final := goal bytes _ extent after markedAfter isName created
      ⟨rep.geometry, rewritten.holds rep.geometry holds foundAfter keeps,
        rep.coherent.created found created⟩ rewritten.used rewritten.lowest ?_
    · have handlesBack : ((inodes.next :: looked.handles).erase inodes.next).erase pointer =
          inodes.next :: inodes.handles := by
        rw [List.erase_cons_head, handlesEq, List.erase_cons_head]
        rfl
      rw [← handlesBack] at final
      exact final
    · intro bound
      rw [rewritten.frame 0 (rep.geometry.zero_untouched _ _ _) fun _ => .inl bound]
      have first := rep.geometry.inodeBitmap
      have inodeArea := rep.geometry.inodeArea
      exact frame 0 (fun own => absurd own.1 (by omega)) (by omega)
  · intro stuck
    have full : looked.queue.length = inodeCacheSize := (Inodes.substitute_error stuck).2.1
    have longer : looked.queue.length ≤ (queue ++ [inodes.next]).length + 1 :=
      isLooked.length_queue_le
    rw [List.length_append, List.length_singleton] at longer
    exact noCache _ (by omega)

/-- What `sub_inodes` lists for an inode with these bytes. -/
def listing (type : InodeType) (bytes : List UInt8) : List Nat :=
  if type = .file ∨ bytes = [] then []
  else (bytes.splitOnP (· == 0)).map fun part => inodeNumberFrom (part.take 10)

/-- The parts of a directory's contents are long enough to be entries. -/
def Listable (type : InodeType) (bytes : List UInt8) : Prop :=
  type = .dir → bytes ≠ [] → ∀ part ∈ bytes.splitOnP (· == 0), 10 ≤ part.length

/-- The loop of `sub_inodes` reads every part that is long enough. -/
theorem parseEntries_eq {parts : List (List UInt8)} (long : ∀ part ∈ parts, 10 ≤ part.length) :
    parseEntries parts = .pure (parts.map fun part => inodeNumberFrom (part.take 10)) := by
  induction parts with
  | nil => rfl
  | cons part parts ih =>
    rw [parseEntries, if_pos (long part (by simp)),
      ih fun other otherIn => long other (by simp [otherIn])]
    rfl

/-- The loop of `sub_inodes` fails at a part that is too short. -/
theorem parseEntries_fail {parts : List (List UInt8)}
    (short : ¬∀ part ∈ parts, 10 ≤ part.length) :
    parseEntries parts = .fail .indexOutOfRange := by
  induction parts with
  | nil => simp at short
  | cons part parts ih =>
    rw [parseEntries]
    split
    · rename_i long
      rw [ih fun rest => short (by simpa [long] using rest)]
      rfl
    · rfl

/-- `sub_inodes` lists the entries of a directory. -/
theorem wp_subInodes (rep : fs.Represents totalBlocks inodes store volume extents marked)
    {number : Nat} {file : File} (found : volume[number]? = some file)
    {post : List Nat → Inodes → (Nat → Block) → Prop}
    (goal : ∀ pointer looked,
      inodes.Looked (fs.inodeOf number file (extents number)) pointer looked →
      Listable file.type ((fs.inodeOf number file (extents number)).bytesOn store) →
      post (listing file.type ((fs.inodeOf number file (extents number)).bytesOn store))
        { looked with handles := looked.handles.erase pointer } store)
    (full : inodes.find number = none →
      Inodes.substitute inodes.queue inodes.handles = .error .runOutOfInodeCache →
      failed .runOutOfInodeCache store)
    (malformed : ¬Listable file.type ((fs.inodeOf number file (extents number)).bytesOn store) →
      failed .indexOutOfRange store) :
    FsM.wp (Prog.deviceRules totalBlocks) (fs.subInodes number) inodes post failed store := by
  obtain ⟨inside, -⟩ := List.getElem?_eq_some_iff.mp found
  refine FsM.wp_bind.mpr (wp_cainode rep found ?_ full)
  intro pointer looked isLooked
  obtain ⟨-, -, isObject, -⟩ := rep.coherent.looked found isLooked
  refine FsM.wp_bind.mpr (FsM.wp_deref.mpr ?_)
  rw [isObject]
  have finish := goal pointer looked isLooked
  have typeEq : (fs.inodeOf number file (extents number)).type = file.type := rfl
  rw [typeEq]
  by_cases isFile : file.type = .file
  · rw [if_pos isFile]
    rw [listing, if_pos (.inl isFile)] at finish
    exact finish fun isDir => absurd (isFile.symm.trans isDir) (by decide)
  · rw [if_neg isFile]
    refine FsM.wp_bind.mpr (FsM.wp_onBlocks.mpr (CaInode.wp_data _ ?_ ?_))
    · intro id idIn
      exact rep.admits inside id (List.mem_append_right _ idIn)
    by_cases empty : (fs.inodeOf number file (extents number)).bytesOn store = []
    · rw [empty, List.isEmpty_nil, if_pos rfl]
      rw [listing, if_pos (.inr empty)] at finish
      exact finish fun _ some => absurd empty some
    · rw [List.isEmpty_eq_false_iff.mpr empty, if_neg Bool.false_ne_true]
      rw [listing, if_neg (by tauto)] at finish
      refine FsM.wp_bind.mpr (FsM.wp_onBlocks.mpr ?_)
      by_cases long : ∀ part ∈
          ((fs.inodeOf number file (extents number)).bytesOn store).splitOnP (· == 0),
          10 ≤ part.length
      · rw [parseEntries_eq long]
        exact finish fun _ _ => long
      · rw [parseEntries_fail long]
        have isDir : file.type = .dir := by
          cases isType : file.type with
          | file => exact absurd isType isFile
          | dir => rfl
        exact malformed fun listable => long (listable isDir empty)

/-- One more entry is listed after the others. -/
theorem listing_appendEntry {bytes : List UInt8} (listable : Listable .dir bytes)
    (small : number < 2 ^ 64) :
    Listable .dir (appendEntry bytes number) ∧
      listing .dir (appendEntry bytes number) = listing .dir bytes ++ [number] := by
  have nonempty : appendEntry bytes number ≠ [] := by
    have longer := lt_length_appendEntry bytes number
    exact List.ne_nil_of_length_pos (by omega)
  have isNumber : inodeNumberFrom ((inodeNumberBinary number).take 10) = number := by
    rw [List.take_of_length_le (by rw [length_inodeNumberBinary]),
      inodeNumberFrom_inodeNumberBinary small]
  constructor
  · intro _ _ part partIn
    rw [splitOnP_appendEntry, List.mem_append, List.mem_singleton] at partIn
    rcases partIn with old | isEntry
    · by_cases empty : bytes = []
      · rw [if_pos empty] at old
        exact absurd old List.not_mem_nil
      · rw [if_neg empty] at old
        exact listable rfl empty part old
    · rw [isEntry, length_inodeNumberBinary]
  · rw [listing, if_neg (by simp [nonempty]), splitOnP_appendEntry, List.map_append,
      List.map_singleton, isNumber, listing]
    by_cases empty : bytes = []
    · rw [if_pos empty, if_pos (.inr empty)]
      rfl
    · rw [if_neg empty, if_neg (by simp [empty])]

/-- Entries are listed in the order in which they were added. -/
theorem listing_foldl_appendEntry {bytes : List UInt8} (listable : Listable .dir bytes)
    {children : List Nat} (small : ∀ child ∈ children, child < 2 ^ 64) :
    Listable .dir (children.foldl appendEntry bytes) ∧
      listing .dir (children.foldl appendEntry bytes) = listing .dir bytes ++ children := by
  induction children generalizing bytes with
  | nil => exact ⟨listable, (List.append_nil _).symm⟩
  | cons child children ih =>
    obtain ⟨longer, listed⟩ := listing_appendEntry listable (small child List.mem_cons_self)
    obtain ⟨longest, all⟩ :=
      ih longer fun other otherIn => small other (List.mem_cons_of_mem _ otherIn)
    refine ⟨longest, all.trans ?_⟩
    rw [listed, List.append_assoc, List.singleton_append]

/-- The contents of a directory list its children. -/
theorem listing_directoryBytes {children : List Nat} (small : ∀ child ∈ children, child < 2 ^ 64) :
    Listable .dir (directoryBytes children) ∧
      listing .dir (directoryBytes children) = children :=
  listing_foldl_appendEntry (fun _ some => absurd rfl some) small

/-- `df` reports the blocks that are not marked. -/
theorem wp_df (rep : fs.Represents totalBlocks inodes store volume extents marked)
    {post : Nat × Nat → Inodes → (Nat → Block) → Prop}
    (goal : post ((fs.dataBitmap.totalCount - fs.dataBitmap.used marked) * blockSize,
      fs.dataBitmap.totalCount * blockSize) inodes store) :
    FsM.wp (Prog.deviceRules totalBlocks) fs.df inodes post failed store := by
  have room : ([] : List Nat).length < (Prog.deviceRules totalBlocks).limit := Nat.zero_lt_succ 4
  refine FsM.wp_bind.mpr (FsM.wp_onBlocks.mpr
    (Bitmap.wp_freeCount rep.holds.marks ?_ room ?_))
  · rintro id ⟨lower, upper⟩
    obtain ⟨-, -, -, dataArea, within, -⟩ := rep.geometry
    exact ⟨show id < totalBlocks by omega, by simp⟩
  · have total : (List.range fs.dataBitmap.totalCount).length = fs.dataBitmap.used marked +
        (List.range fs.dataBitmap.totalCount).countP fun bit => decide ¬marked bit = true :=
      List.length_eq_countP_add_countP marked
    have free : ((List.range fs.dataBitmap.totalCount).countP fun bit => !marked bit) =
        fs.dataBitmap.totalCount - fs.dataBitmap.used marked := by
      have same : ((List.range fs.dataBitmap.totalCount).countP fun bit => !marked bit) =
          (List.range fs.dataBitmap.totalCount).countP fun bit => decide ¬marked bit = true :=
        List.countP_congr fun bit _ => by simp
      rw [List.length_range] at total
      omega
    rw [free]
    exact goal

/-- `flush` leaves the contents of all blocks as they are. -/
theorem wp_flush {rules : Scoped.Discipline Nat} {post : Unit → Inodes → (Nat → Block) → Prop}
    (goal : post () inodes store) : FsM.wp rules fs.flush inodes post failed store :=
  ⟨rfl, goal⟩

end Cafs

end Canyon.Fs
