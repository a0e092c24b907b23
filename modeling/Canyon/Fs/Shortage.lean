import Canyon.Fs.Ownership

/-!
# Allocations that fail

`create` and `write` take inodes and data blocks one by one, and panic at the first that is
missing. What they took before stays marked: the call leaves the file system as it was only
when it could take nothing at all.
-/

namespace Canyon.Fs

open Canyon.Lib

/-- Positions of a bitmap that the blocks do not mark. -/
def Bitmap.freeOn (bitmap : Bitmap) (store : Nat → Block) : Nat :=
  (List.range bitmap.totalCount).countP fun bit => !bitmap.bitOn store bit

/-- The bytes that `CaInode::from` and `CaInode::data` read for an inode. -/
def Cafs.bytesOf (fs : Cafs) (store : Nat → Block) (inodeNumber : Nat) :
    Option (List UInt8) :=
  let (blockId, offset) := fs.inodePosOf inodeNumber
  let program : Prog (List UInt8) := do
    let inode ← CaInode.from inodeNumber blockId offset
    inode.data
  match program.run store with
  | .ok bytes _ => some bytes
  | .error _ _ => none

/-- Two contents of the blocks are the same file system: the same bitmaps and, for every
allocated inode, the same `Meta` and the same bytes. -/
structure Cafs.Unchanged (fs : Cafs) (before after : Nat → Block) : Prop where
  /-- The inode bitmap is the same. -/
  inodeBits : ∀ bit < fs.inodeBitmap.totalCount,
    fs.inodeBitmap.bitOn after bit = fs.inodeBitmap.bitOn before bit
  /-- The data bitmap is the same. -/
  dataBits : ∀ bit < fs.dataBitmap.totalCount,
    fs.dataBitmap.bitOn after bit = fs.dataBitmap.bitOn before bit
  /-- The `Meta`s are the same. -/
  metas : ∀ number ∈ fs.allocatedInodes before,
    (after (fs.inodePosOf number).1).view metaCodec (fs.inodePosOf number).2 =
      (before (fs.inodePosOf number).1).view metaCodec (fs.inodePosOf number).2
  /-- The contents of files and directories are the same. -/
  contents : ∀ number ∈ fs.allocatedInodes before,
    fs.bytesOf after number = fs.bytesOf before number

/-- Nothing has changed when no block has. -/
theorem Cafs.Unchanged.refl (fs : Cafs) (store : Nat → Block) : fs.Unchanged store store :=
  ⟨fun _ _ => rfl, fun _ _ => rfl, fun _ _ => rfl, fun _ _ => rfl⟩

namespace Call

/-- The inodes that a call names are there; the contents of a parent are such that its tree
can describe them, and contents to write are no longer than a `u64` can count. -/
def Asks (volume : Volume) : Call → Prop
  | .create parent _ => ∃ file, volume[parent]? = some file ∧ file.contents.length ≤ l4Max
  | .write inodeNumber contents => inodeNumber < volume.length ∧ contents.length < 2 ^ 64
  | _ => True

/-- A bitmap has too few free positions for a call. -/
def Short (fs : Cafs) (store : Nat → Block) (volume : Volume) : Call → Prop
  | .create parent _ => fs.inodeBitmap.freeOn store = 0 ∨ ∃ file, volume[parent]? = some file ∧
      fs.dataBitmap.freeOn store < Cafs.growth file.contents.length
        (appendEntry file.contents volume.length).length
  | .write inodeNumber contents => ∃ file, volume[inodeNumber]? = some file ∧
      fs.dataBitmap.freeOn store < Cafs.growth file.contents.length contents.length
  | _ => False

/-- The first position that a call asks for is missing: `create` starts with an inode, `write`
with a data block. -/
def Starved (fs : Cafs) (store : Nat → Block) : Call → Prop
  | .create _ _ => fs.inodeBitmap.freeOn store = 0
  | .write _ _ => fs.dataBitmap.freeOn store = 0
  | _ => False

end Call

namespace Bitmap

variable {bitmap : Bitmap} {store : Nat → Block} {marked : Nat → Bool}

/-- A position is free or in use. -/
theorem Marks.freeOn_add_used (marks : bitmap.Marks store marked) :
    bitmap.freeOn store + bitmap.used marked = bitmap.totalCount := by
  have split := List.length_eq_countP_add_countP marked (l := List.range bitmap.totalCount)
  have free : bitmap.freeOn store =
      (List.range bitmap.totalCount).countP fun bit => !marked bit := by
    refine List.countP_congr fun bit bitIn => ?_
    rw [marks.bitOn_eq (List.mem_range.mp bitIn)]
  have others : (List.range bitmap.totalCount).countP (fun bit => decide ¬marked bit = true) =
      (List.range bitmap.totalCount).countP fun bit => !marked bit :=
    List.countP_congr fun bit _ => by simp
  rw [List.length_range, others] at split
  rw [free, used]
  omega

/-- Nothing is free when every position is marked. -/
theorem freeOn_eq_zero_iff : bitmap.freeOn store = 0 ↔
    ∀ bit < bitmap.totalCount, bitmap.bitOn store bit = true := by
  simp [freeOn, List.countP_eq_zero]

end Bitmap

namespace Session

variable {session after : Session} {totalBlocks : Nat} {volume : Volume}
  {extents : Nat → Extent} {marked : Nat → Bool} {store : Nat → Block} {number : Nat}
  {file : File} {error : Panic}

/-- The blocks when a write has run out of data blocks: all are marked, and if all were marked
before the write, nothing has changed. -/
theorem Serves.write_stopped (serves : session.Serves totalBlocks volume extents marked store)
    (found : volume[number]? = some file) {contents : List UInt8}
    (wide : contents.length < 2 ^ 64)
    (short : session.fs.dataBitmap.freeOn store <
      Cafs.growth file.contents.length contents.length)
    (ran : session.exec (session.fs.write number contents) = .error error after)
    (isShort : error = .runOutOfInodeBlock ∨ error = .runOutOfDataBlock) :
    session.fs.Exhausted store marked after.contents := by
  have keeps : dataBlocks file.contents.length ≤ dataBlocks contents.length := by
    by_contra lowers
    have shrinks : contents.length ≤ file.contents.length := by
      by_contra longer
      exact lowers (dataBlocks_mono (Nat.le_of_lt (Nat.lt_of_not_le longer)))
    have fewerIndex := indexBlockCount_mono shrinks
    rw [Cafs.growth] at short
    omega
  have spec : FsM.wp (Prog.deviceRules totalBlocks) (session.fs.write number contents)
      session.inodes (fun _ _ _ => True) (fun error reached =>
        error = .runOutOfInodeBlock ∨ error = .runOutOfDataBlock →
          session.fs.Exhausted store marked reached) store :=
    Cafs.wp_write serves.represents found wide keeps (fun _ _ _ _ _ _ _ => trivial)
      (fun _ _ never => by simp at never) fun _ exhausted _ _ => exhausted
  exact serves.backed.panicked spec ran isShort

/-- A write that ran out of data blocks has left the file system as it was exactly when no data
block was free. -/
theorem Serves.write_unchanged_iff
    (serves : session.Serves totalBlocks volume extents marked store)
    (exhausted : session.fs.Exhausted store marked after.contents) :
    session.fs.Unchanged store after.contents ↔ session.fs.dataBitmap.freeOn store = 0 := by
  have marks := serves.represents.holds.marks
  constructor
  · intro unchanged
    obtain ⟨all, marksAll, allMarked⟩ := exhausted.full
    refine Bitmap.freeOn_eq_zero_iff.mpr fun bit inside => ?_
    rw [← unchanged.dataBits bit inside, marksAll.bitOn_eq inside]
    exact allMarked bit inside
  · intro none
    have unmoved := exhausted.unmoved fun bit inside => by
      rw [← marks.bitOn_eq inside]
      exact Bitmap.freeOn_eq_zero_iff.mp none bit inside
    rw [unmoved]
    exact .refl _ _

/-- The blocks when `create` has run out: unchanged when there was no inode; with an inode more
in the inode bitmap when there was no data block. -/
theorem Serves.create_stopped (serves : session.Serves totalBlocks volume extents marked store)
    (found : volume[number]? = some file) (bound : file.contents.length ≤ l4Max) {name : String}
    (ran : session.exec (session.fs.create number name) = .error error after)
    (isShort : error = .runOutOfInodeBlock ∨ error = .runOutOfDataBlock) :
    volume.length = session.fs.inodeBitmap.totalCount ∧ after.contents = store ∨
      volume.length < session.fs.inodeBitmap.totalCount ∧
        session.fs.inodeBitmap.Marks after.contents
          fun number => decide (number < volume.length + 1) := by
  have keeps := keeps_appendEntry file.contents volume.length
  rw [← extended_eq serves found bound] at keeps
  have spec : FsM.wp (Prog.deviceRules totalBlocks) (session.fs.create number name)
      session.inodes (fun _ _ _ => True) (fun error reached =>
        error = .runOutOfInodeBlock ∨ error = .runOutOfDataBlock →
        volume.length = session.fs.inodeBitmap.totalCount ∧ reached = store ∨
          volume.length < session.fs.inodeBitmap.totalCount ∧
            session.fs.inodeBitmap.Marks reached
              fun number => decide (number < volume.length + 1)) store :=
    Cafs.wp_create serves.represents found keeps (fun _ _ _ _ _ _ _ _ _ _ _ => trivial)
      (fun full _ => .inl ⟨full, rfl⟩) (fun _ _ never => by simp at never)
      (fun _ _ never => by simp at never) fun _ free marks _ _ => .inr ⟨free, marks⟩
  exact serves.backed.panicked spec ran isShort

/-- A `create` that ran out has left the file system as it was exactly when no inode was
free. -/
theorem Serves.create_unchanged_iff
    (serves : session.Serves totalBlocks volume extents marked store)
    (stopped : volume.length = session.fs.inodeBitmap.totalCount ∧ after.contents = store ∨
      volume.length < session.fs.inodeBitmap.totalCount ∧
        session.fs.inodeBitmap.Marks after.contents
          fun number => decide (number < volume.length + 1)) :
    session.fs.Unchanged store after.contents ↔ session.fs.inodeBitmap.freeOn store = 0 := by
  have marks := serves.represents.holds.inodes
  rcases stopped with ⟨full, unmoved⟩ | ⟨free, marksAfter⟩
  · have none : session.fs.inodeBitmap.freeOn store = 0 := by
      refine Bitmap.freeOn_eq_zero_iff.mpr fun bit inside => ?_
      rw [marks.bitOn_eq inside, decide_eq_true_iff]
      omega
    rw [unmoved]
    exact iff_of_true (.refl _ _) none
  · have before : session.fs.inodeBitmap.bitOn store volume.length = false := by
      rw [marks.bitOn_eq free, decide_eq_false_iff_not]
      omega
    refine iff_of_false (fun unchanged => ?_) fun none => ?_
    · have same := unchanged.inodeBits volume.length free
      rw [marksAfter.bitOn_eq free, before] at same
      simp at same
    · rw [Bitmap.freeOn_eq_zero_iff.mp none volume.length free] at before
      contradiction

/-- A call that stopped because a bitmap had too few free positions has left both bitmaps, every
`Meta` and all contents as they were exactly when the first position it asked for was missing:
an inode for `create`, a data block for `write`. -/
theorem shortage_unchanged_iff
    (serves : session.Serves totalBlocks volume extents marked store) {call : Call}
    (asks : call.Asks volume) (short : call.Short session.fs session.contents volume)
    (ran : session.exec (call.run session.fs) = .error error after)
    (isShort : error = .runOutOfInodeBlock ∨ error = .runOutOfDataBlock) :
    session.fs.Unchanged session.contents after.contents ↔
      call.Starved session.fs session.contents := by
  rw [serves.backed.contents_eq] at short ⊢
  cases call with
  | create parent name =>
    obtain ⟨file, found, bound⟩ := asks
    exact serves.create_unchanged_iff
      (serves.create_stopped found bound (exec_map_error.mp ran) isShort)
  | write number contents =>
    obtain ⟨inside, wide⟩ := asks
    obtain ⟨file, found, few⟩ := short
    exact serves.write_unchanged_iff
      (serves.write_stopped found wide few (exec_map_error.mp ran) isShort)
  | inode | subInodes | df | flush | drop => exact short.elim

end Session

/-- A write that asks for more data blocks than are free panics. -/
theorem Tracks.write_panics {totalBlocks inodeBitmapBlocks : Nat} {volume : Volume}
    {session : Session} {extents : Nat → Extent} {marked : Nat → Bool} {store : Nat → Block}
    (tracks : Tracks totalBlocks inodeBitmapBlocks volume session extents marked store)
    {number : Nat} {file : File} (found : volume[number]? = some file) {contents : List UInt8}
    (wide : contents.length < 2 ^ 64)
    (keeps : dataBlocks file.contents.length ≤ dataBlocks contents.length)
    (short : session.fs.dataBitmap.freeOn store <
      Cafs.growth file.contents.length contents.length) :
    ∃ after, session.exec ((Call.write number contents).run session.fs) =
      .error .runOutOfDataBlock after := by
  obtain ⟨inside, -⟩ := List.getElem?_eq_some_iff.mp found
  have rep := tracks.serves.represents
  have total := rep.holds.marks.freeOn_add_used
  have spec : FsM.wp (Prog.deviceRules totalBlocks) (session.fs.write number contents)
      session.inodes (fun _ _ _ => False) (fun error _ => error = .runOutOfDataBlock) store := by
    refine Cafs.wp_write rep found wide keeps ?_
      (fun absent => absurd absent (tracks.find_ne_none inside)) fun _ _ _ => rfl
    intro _ _ _ _ markedAfter _ rewritten
    have used := rewritten.used
    have most := session.fs.dataBitmap.used_le markedAfter
    omega
  obtain ⟨_, after, ran, rfl⟩ := tracks.serves.backed.panics spec
  exact ⟨after, Session.exec_map_error.mpr ran⟩

/-- A data block is free or taken by a file. -/
theorem Tracks.freeOn_add_blocks {totalBlocks inodeBitmapBlocks : Nat} {volume : Volume}
    {session : Session} {extents : Nat → Extent} {marked : Nat → Bool} {store : Nat → Block}
    (tracks : Tracks totalBlocks inodeBitmapBlocks volume session extents marked store)
    (isSmall : volume.Small) : session.fs.dataBitmap.freeOn store + volume.blocks =
      (Cafs.parted totalBlocks inodeBitmapBlocks).dataBitmap.totalCount := by
  have holds := tracks.serves.represents.holds
  rw [← holds.used_eq_blocks isSmall, ← tracks.parts]
  exact holds.marks.freeOn_add_used

/-- A device with 4096 data blocks: the root directory has one of them, and `test.txt` all the
others. A longer write to `test.txt` panics and changes nothing. -/
theorem shortage_unchanged_iff_full : ∃ bytes session after,
    History Call.Tidy (Disk.new 8195) 8195 1 (testVolume bytes (List.replicate 2062336 0))
      session ∧
      session.exec ((Call.write 1 (List.replicate 2062337 0)).run session.fs) =
        .error .runOutOfDataBlock after ∧
      session.fs.Unchanged session.contents after.contents := by
  have small : 8195 < 2 ^ 64 := by decide
  have length : ∀ n, (List.replicate n (0 : UInt8)).length = n := fun _ => List.length_replicate
  obtain ⟨bytes, created, -, first⟩ := exists_createdHistory small ⟨by decide, by decide⟩
    (show 0 < 1 by decide) (by decide)
  have empty := File.blocks_empty .file bytes
  have filled : File.blocks ⟨.file, bytes, List.replicate 2062336 0⟩ = 4095 := by
    show (indexBlocks (List.replicate 2062336 (0 : UInt8)).length).indexBlockCount +
      dataBlocks (List.replicate 2062336 (0 : UInt8)).length = 4095
    rw [length]
    decide
  have space : (testVolume bytes []).blocks +
      Cafs.growth 0 (List.replicate 2062336 (0 : UInt8)).length ≤
      (Cafs.parted 8195 1).dataBitmap.totalCount := by
    rw [testVolume_blocks, empty, length]
    decide
  obtain ⟨session, history⟩ : ∃ session, History Call.Tidy (Disk.new 8195) 8195 1
      (testVolume bytes (List.replicate 2062336 0)) session :=
    first.wrote small (show (testVolume bytes [])[1]? = some ⟨.file, bytes, []⟩ from rfl)
      (by rw [length]; decide) (dataBlocks_mono (Nat.zero_le _)) space
  obtain ⟨isSmall, extents, marked, store, tracks⟩ := history.tidy small
  have bits : (Cafs.parted 8195 1).dataBitmap.totalCount = 4096 := by decide
  have none : session.fs.dataBitmap.freeOn store = 0 := by
    have total := tracks.freeOn_add_blocks isSmall
    rw [testVolume_blocks, filled, bits] at total
    omega
  have found : (testVolume bytes (List.replicate 2062336 0))[1]? =
      some ⟨.file, bytes, List.replicate 2062336 0⟩ := rfl
  have wide : (List.replicate 2062337 (0 : UInt8)).length < 2 ^ 64 := by
    rw [length]
    decide
  have keeps : dataBlocks (List.replicate 2062336 (0 : UInt8)).length ≤
      dataBlocks (List.replicate 2062337 (0 : UInt8)).length := by
    rw [length, length]
    decide
  have grows : 0 < Cafs.growth (List.replicate 2062336 (0 : UInt8)).length
      (List.replicate 2062337 (0 : UInt8)).length := by
    rw [length, length]
    decide
  obtain ⟨after, ran⟩ := tracks.write_panics found wide keeps (none ▸ grows)
  have asks : (Call.write 1 (List.replicate 2062337 0)).Asks
      (testVolume bytes (List.replicate 2062336 0)) := ⟨Nat.one_lt_two, wide⟩
  rw [← tracks.serves.backed.contents_eq] at none
  have short : (Call.write 1 (List.replicate 2062337 0)).Short session.fs session.contents
      (testVolume bytes (List.replicate 2062336 0)) := ⟨_, found, none ▸ grows⟩
  exact ⟨bytes, session, after, history, ran,
    (Session.shortage_unchanged_iff tracks.serves asks short ran (.inr rfl)).mpr none⟩

/-- On a device with 4096 data blocks, of which the root directory has one, a write of two
megabytes to `test.txt` panics with all data blocks marked. -/
theorem write_leaks_blocks : ∃ bytes session after,
    History Call.Tidy (Disk.new 8195) 8195 1 (testVolume bytes []) session ∧
      session.exec ((Call.write 1 (List.replicate 2097152 0)).run session.fs) =
        .error .runOutOfDataBlock after ∧
      ¬session.fs.Unchanged session.contents after.contents := by
  have small : 8195 < 2 ^ 64 := by decide
  have length : (List.replicate 2097152 (0 : UInt8)).length = 2097152 := List.length_replicate
  have wide : (List.replicate 2097152 (0 : UInt8)).length < 2 ^ 64 := by
    rw [length]
    decide
  obtain ⟨bytes, session, -, history⟩ := exists_createdHistory small ⟨by decide, by decide⟩
    (show 0 < 1 by decide) (by decide)
  obtain ⟨isSmall, extents, marked, store, tracks⟩ := history.tidy small
  have bits : (Cafs.parted 8195 1).dataBitmap.totalCount = 4096 := by decide
  have free : session.fs.dataBitmap.freeOn store = 4095 := by
    have total := tracks.freeOn_add_blocks isSmall
    rw [testVolume_blocks, File.blocks_empty, bits] at total
    omega
  have found : (testVolume bytes [])[1]? = some ⟨.file, bytes, []⟩ := rfl
  have keeps : dataBlocks 0 ≤ dataBlocks (List.replicate 2097152 (0 : UInt8)).length :=
    dataBlocks_mono (Nat.zero_le _)
  have short : session.fs.dataBitmap.freeOn store <
      Cafs.growth 0 (List.replicate 2097152 (0 : UInt8)).length := by
    rw [free, length]
    decide
  obtain ⟨after, ran⟩ := tracks.write_panics found wide keeps short
  have exhausted := tracks.serves.write_stopped found wide short
    (Session.exec_map_error.mp ran) (.inr rfl)
  refine ⟨bytes, session, after, history, ran, fun unchanged => ?_⟩
  rw [tracks.serves.backed.contents_eq] at unchanged
  have none := (tracks.serves.write_unchanged_iff exhausted).mp unchanged
  omega

end Canyon.Fs
