import Canyon.Fs.Folder
import Canyon.Fs.Remount

/-!
# Disk images

The tool that makes the disk image of the kernel: it sets a device up, stores two files in the root
directory and flushes. It panics exactly when the files do not fit on the device; otherwise a mount
of the image shows a folder with the two files.
-/

namespace Canyon.Fs

open Canyon.Lib
open EStateM (Result)

/-! ## The tool -/

/-- `create` in the root directory and `write` to the inode that it returns. The handle is kept. -/
def Session.storeFile (session : Session) (name : String) (contents : List UInt8) :
    Option Session :=
  match session.exec (session.fs.create 0 name) with
  | .ok inode session =>
    match session.exec (session.fs.write (session.inodes.heap inode).inodeNumber contents) with
    | .ok _ session => some session
    | .error _ _ => none
  | .error _ _ => none

/-- `total_blocks` in `create_img`: the product is checked, and the shift drops high bits. -/
def imgBlocks (size : Nat) : Option Nat :=
  if 2 * size < 2 ^ 64 then some (2 * size * 2 ^ 10 % 2 ^ 64) else none

/-- `create_img`, with the bytes of `rootfs/hello`: the device that it writes to `cafs.bin`. -/
def createImg (size : Nat) (file : List UInt8) : Option Disk := do
  let totalBlocks ← imgBlocks size
  let inodeBitmapBlocks := 10
  let session ← Session.fromInit (Disk.new totalBlocks) totalBlocks inodeBitmapBlocks
  let session ← session.storeFile "test.txt" (utf8Bytes "Test File")
  let session ← session.storeFile "hello" file
  match session.exec session.fs.flush with
  | .ok _ session => some session.manager.device
  | .error _ _ => none

/-! ## Volumes made by `create` -/

/-- A root directory and its files. -/
def Volume.ofFiles (files : List (NameBytes × List UInt8)) : Volume :=
  ⟨.dir, rootName, directoryBytes (List.range' 1 files.length)⟩ ::
    files.map fun file => ⟨.file, file.1, file.2⟩

namespace Volume

variable (files : List (NameBytes × List UInt8))

/-- One inode for each file, and one for the root directory. -/
@[simp] theorem length_ofFiles : (ofFiles files).length = files.length + 1 := by
  rw [ofFiles, List.length_cons, List.length_map]

/-- The root directory. -/
theorem getElem?_ofFiles_zero : (ofFiles files)[0]? =
    some ⟨.dir, rootName, directoryBytes (List.range' 1 files.length)⟩ :=
  rfl

/-- The blocks of the root directory and of its files. -/
theorem blocks_ofFiles : (ofFiles files).blocks = blocksFor (11 * files.length - 1) +
    (files.map fun file => blocksFor file.2.length).sum := by
  have directory : File.blocks ⟨.dir, rootName, directoryBytes (List.range' 1 files.length)⟩ =
      blocksFor (11 * files.length - 1) := by
    show blocksFor _ = _
    rw [length_directoryBytes, List.length_range']
  rw [blocks, ofFiles, List.map_cons, List.sum_cons, directory, List.map_map]
  rfl

/-- A new file at the end, with its entry in the root directory and its contents. -/
theorem ofFiles_concat (bytes : NameBytes) (contents : List UInt8) :
    (((ofFiles files).add .file bytes).write 0
        (appendEntry (directoryBytes (List.range' 1 files.length)) (files.length + 1))).write
      (files.length + 1) contents = ofFiles (files ++ [(bytes, contents)]) := by
  have listed : directoryBytes (List.range' 1 (files.length + 1)) =
      appendEntry (directoryBytes (List.range' 1 files.length)) (files.length + 1) := by
    rw [List.range'_1_concat, directoryBytes_concat, Nat.add_comm]
  have after : ofFiles (files ++ [(bytes, contents)]) = ⟨.dir, rootName, appendEntry
      (directoryBytes (List.range' 1 files.length)) (files.length + 1)⟩ ::
        ((files.map fun file => ⟨.file, file.1, file.2⟩) ++ [⟨.file, bytes, contents⟩]) := by
    rw [ofFiles, List.length_append, List.length_singleton, listed, List.map_append,
      List.map_singleton]
  have stored := modify_concat_length (fun file : File => { file with contents })
    (files.map fun file => ⟨.file, file.1, file.2⟩) ⟨.file, bytes, []⟩
  rw [List.length_map] at stored
  rw [after, ← stored]
  rfl

end Volume

/-! ## Storing a file -/

section Storing

variable {device : Disk} {totalBlocks inodeBitmapBlocks : Nat}
  {files : List (NameBytes × List UInt8)} {session after : Session} {name : String}
  {bytes : NameBytes} {contents : List UInt8}

/-- The entry of a new file is one that the tree of the root directory can describe. -/
theorem entry_bounded (few : files.length ≤ 14) :
    (appendEntry (directoryBytes (List.range' 1 files.length)) (files.length + 1)).length ≤
      l4Max := by
  have longer := length_appendEntry_le (directoryBytes (List.range' 1 files.length))
    (files.length + 1)
  have listed := length_directoryBytes (List.range' 1 files.length)
  have limit : 200 ≤ l4Max := by decide
  rw [List.length_range'] at listed
  omega

/-- A write to a new file is tidy. -/
theorem Call.tidy_write_empty {volume : Volume} {number : Nat} {file : File}
    (found : volume[number]? = some file) (empty : file.contents = [])
    (short : contents.length ≤ l4Max) : (Call.write number contents).Tidy volume := by
  refine ⟨(List.getElem?_eq_some_iff.mp found).1, ?_, ?_⟩
  · intro _ _ written
    obtain ⟨rfl, rfl⟩ := Prod.mk.inj (Option.some.inj written)
    exact short
  · intro _ _ other written foundOther
    obtain ⟨rfl, rfl⟩ := Prod.mk.inj (Option.some.inj written)
    obtain rfl := Option.some.inj (found.symm.trans foundOther)
    rw [empty]
    exact dataBlocks_mono (Nat.zero_le _)

/-- The volume between `create` and `write`. -/
def Volume.withEmpty (files : List (NameBytes × List UInt8)) (bytes : NameBytes) : Volume :=
  ((ofFiles files).add .file bytes).write 0
    (appendEntry (directoryBytes (List.range' 1 files.length)) (files.length + 1))

/-- The new file is empty. -/
theorem Volume.getElem?_withEmpty (files : List (NameBytes × List UInt8)) (bytes : NameBytes) :
    (withEmpty files bytes)[files.length + 1]? = some ⟨.file, bytes, []⟩ := by
  have last := (ofFiles files).getElem?_add_self .file bytes
  rw [length_ofFiles] at last
  rw [withEmpty, Volume.getElem?_write_of_ne _ (Nat.succ_ne_zero _)]
  exact last

/-- `create` in the root directory has added an empty file. -/
theorem History.createdEmpty (small : totalBlocks < 2 ^ 64)
    (history : History Call.Tidy device totalBlocks inodeBitmapBlocks (Volume.ofFiles files)
      session) (few : files.length ≤ 14) (isName : nameBytes (utf8Bytes name) = some bytes)
    {inode : Nat} (ran : session.exec (session.fs.create 0 name) = .ok inode after) :
    History Call.Tidy device totalBlocks inodeBitmapBlocks (Volume.withEmpty files bytes) after ∧
      (after.inodes.heap inode).inodeNumber = files.length + 1 := by
  obtain ⟨isSmall, extents, marked, store, tracks⟩ := history.tidy small
  have found := Volume.getElem?_ofFiles_zero files
  have tidy : (Call.create 0 name).Tidy (Volume.ofFiles files) := by
    refine ⟨⟨_, found, rfl⟩, Call.bounded_create found ?_ name, Call.keeping_create _ 0 name⟩
    rw [Volume.length_ofFiles]
    exact entry_bounded few
  have answered : session.exec ((Call.create 0 name).run session.fs) =
      .ok (.handle inode) after := by
    rw [Call.run, Session.exec_map, ran]
  have historyAfter := history.snoc tidy answered
  simp only [Volume.after, isName, found, Volume.length_ofFiles] at historyAfter
  obtain ⟨-, -, isNumber, -⟩ := tracks.create found rfl
    (isSmall _ (List.mem_of_getElem? found)) ran
  rw [Volume.length_ofFiles] at isNumber
  exact ⟨historyAfter, isNumber⟩

/-- A file that was stored has joined the others. -/
theorem History.stored (small : totalBlocks < 2 ^ 64)
    (history : History Call.Tidy device totalBlocks inodeBitmapBlocks (Volume.ofFiles files)
      session) (few : files.length ≤ 14) (isName : nameBytes (utf8Bytes name) = some bytes)
    (short : contents.length ≤ l4Max) (stored : session.storeFile name contents = some after) :
    History Call.Tidy device totalBlocks inodeBitmapBlocks
      (Volume.ofFiles (files ++ [(bytes, contents)])) after := by
  rw [Session.storeFile] at stored
  cases ranCreate : session.exec (session.fs.create 0 name) with
  | error error reached =>
    rw [ranCreate] at stored
    contradiction
  | ok inode created =>
    obtain ⟨historyCreated, isNumber⟩ := history.createdEmpty small few isName ranCreate
    rw [ranCreate] at stored
    dsimp only at stored
    rw [isNumber] at stored
    cases ranWrite : created.exec (created.fs.write (files.length + 1) contents) with
    | error error reached =>
      rw [ranWrite] at stored
      contradiction
    | ok value reached =>
      rw [ranWrite] at stored
      obtain rfl := Option.some.inj stored
      have answered : created.exec ((Call.write (files.length + 1) contents).run created.fs) =
          .ok .done reached := by
        rw [Call.run, Session.exec_map, ranWrite]
      rw [← Volume.ofFiles_concat]
      exact historyCreated.snoc
        (Call.tidy_write_empty (Volume.getElem?_withEmpty files bytes) rfl short) answered

/-- The blocks of a volume with one more file. -/
theorem Volume.blocks_withEmpty (files : List (NameBytes × List UInt8)) (bytes : NameBytes)
    (contents : List UInt8) :
    (ofFiles (files ++ [(bytes, contents)])).blocks =
        (withEmpty files bytes).blocks + Cafs.growth 0 contents.length ∧
      (withEmpty files bytes).blocks = (ofFiles files).blocks +
        Cafs.growth (directoryBytes (List.range' 1 files.length)).length
          (appendEntry (directoryBytes (List.range' 1 files.length))
            (files.length + 1)).length := by
  have nothing : blocksFor 0 = 0 := by decide
  have stored : (ofFiles (files ++ [(bytes, contents)])).blocks + blocksFor 0 =
      (withEmpty files bytes).blocks + blocksFor contents.length := by
    rw [← ofFiles_concat, ← withEmpty]
    exact Volume.blocks_write (getElem?_withEmpty files bytes) contents
  have grown := blocksFor_add_growth (dataBlocks_mono (Nat.zero_le contents.length))
  have root : ((ofFiles files).add .file bytes)[0]? =
      some ⟨.dir, rootName, directoryBytes (List.range' 1 files.length)⟩ := rfl
  have listed : (withEmpty files bytes).blocks +
      blocksFor (directoryBytes (List.range' 1 files.length)).length =
      ((ofFiles files).add .file bytes).blocks + blocksFor
        (appendEntry (directoryBytes (List.range' 1 files.length)) (files.length + 1)).length :=
    Volume.blocks_write root _
  have grownRoot := blocksFor_add_growth
    (keeps_appendEntry (directoryBytes (List.range' 1 files.length)) (files.length + 1))
  have added : ((ofFiles files).add .file bytes).blocks = (ofFiles files).blocks + blocksFor 0 := by
    rw [blocks, add, List.map_append, List.sum_append, List.map_singleton, List.sum_singleton]
    rfl
  omega

/-- A file is stored exactly when there is room for it on the device. -/
theorem History.storeFile_iff (small : totalBlocks < 2 ^ 64) (positive : 0 < inodeBitmapBlocks)
    (history : History Call.Tidy device totalBlocks inodeBitmapBlocks (Volume.ofFiles files)
      session) (few : files.length ≤ 14) (isName : nameBytes (utf8Bytes name) = some bytes)
    (short : contents.length ≤ l4Max) :
    (∃ after, session.storeFile name contents = some after) ↔
      (Volume.ofFiles (files ++ [(bytes, contents)])).blocks ≤
        (Cafs.parted totalBlocks inodeBitmapBlocks).dataBitmap.totalCount := by
  constructor
  · rintro ⟨after, stored⟩
    obtain ⟨isSmall, extents, marked, store, tracks⟩ :=
      (history.stored small few isName short stored).tidy small
    rw [← tracks.parts, ← tracks.serves.represents.holds.used_eq_blocks isSmall]
    exact Bitmap.used_le _ marked
  · intro fits
    obtain ⟨isSmall, extents, marked, store, tracks⟩ := history.tidy small
    obtain ⟨whole, half⟩ := Volume.blocks_withEmpty files bytes contents
    have inodes : files.length + 1 <
        (Cafs.parted totalBlocks inodeBitmapBlocks).inodeBitmap.totalCount := by
      show files.length + 1 < inodeBitmapBlocks * 4096
      omega
    obtain ⟨inode, created, ranCreate⟩ := tracks.create_returns isSmall
      (Volume.getElem?_ofFiles_zero files) isName (by rw [Volume.length_ofFiles]; omega)
      (by rw [Volume.length_ofFiles]; exact inodes) (by
        rw [Volume.length_ofFiles]
        show _ + Cafs.growth (directoryBytes _).length (appendEntry (directoryBytes _) _).length ≤ _
        omega)
    obtain ⟨historyCreated, isNumber⟩ := history.createdEmpty small few isName ranCreate
    obtain ⟨smallCreated, _, _, _, tracksCreated⟩ := historyCreated.tidy small
    have wide : contents.length < 2 ^ 64 := by
      obtain ⟨-, -, -, -, -, -, -, top⟩ := levelConstants
      omega
    obtain ⟨value, after, ranWrite⟩ := tracksCreated.write_returns smallCreated
      (Volume.getElem?_withEmpty files bytes) wide (dataBlocks_mono (Nat.zero_le _))
      (Nat.le_trans (Nat.le_of_eq whole.symm) fits)
    refine ⟨after, ?_⟩
    rw [Session.storeFile, ranCreate]
    dsimp only
    rw [isNumber, ranWrite]

end Storing

/-! ## The image -/

/-- The files of the image. -/
def imgFolder (file : List UInt8) : Folder :=
  ⟨[("test.txt", utf8Bytes "Test File"), ("hello", file)],
    show ["test.txt", "hello"].Nodup by decide⟩

section Image

variable {size : Nat} {file : List UInt8} {disk : Disk}

/-- Blocks of the device of an image. -/
theorem imgBlocks_eq (narrow : size < 2 ^ 53) : imgBlocks size = some (2048 * size) := by
  have inside : 2 * size < 2 ^ 64 := by omega
  have small : 2 * size * 2 ^ 10 < 2 ^ 64 := by omega
  rw [imgBlocks, if_pos inside, Nat.mod_eq_of_lt small]
  congr 1
  omega

/-- Data blocks of the device of an image. -/
theorem img_totalCount (size : Nat) : (Cafs.parted (2048 * size) 10).dataBitmap.totalCount =
    (2048 * size - 40971) / 4097 * 4096 := by
  show (2048 * size - 1 - (10 + 10 * 4096)) / (4096 + 1) * 4096 = _
  rw [Nat.sub_sub]

/-- The name of a file of the image can be stored. -/
theorem exists_imgNames : ∃ test hello, nameBytes (utf8Bytes "test.txt") = some test ∧
    nameBytes (utf8Bytes "hello") = some hello := by
  obtain ⟨test, isTest⟩ := (nameBytes_eq_some_iff (utf8Bytes "test.txt")).mpr (by decide)
  obtain ⟨hello, isHello⟩ := (nameBytes_eq_some_iff (utf8Bytes "hello")).mpr (by decide)
  exact ⟨test, hello, isTest, isHello⟩

/-- The blocks of the files of the image. -/
theorem blocks_img (test hello : NameBytes) (file : List UInt8) :
    (Volume.ofFiles [(test, utf8Bytes "Test File"), (hello, file)]).blocks =
      2 + blocksFor file.length := by
  have directory : blocksFor 21 = 1 := by decide
  have first : blocksFor (utf8Bytes "Test File").length = 1 := by decide
  rw [Volume.blocks_ofFiles]
  show blocksFor 21 + (blocksFor (utf8Bytes "Test File").length + (blocksFor file.length + 0)) = _
  omega

/-- The steps of `create_img`. -/
theorem createImg_eq_some_iff (narrow : size < 2 ^ 53) : createImg size file = some disk ↔
    ∃ start middle full flushed,
      Session.fromInit (Disk.new (2048 * size)) (2048 * size) 10 = some start ∧
      start.storeFile "test.txt" (utf8Bytes "Test File") = some middle ∧
      middle.storeFile "hello" file = some full ∧
      full.exec full.fs.flush = .ok () flushed ∧ flushed.manager.device = disk := by
  have flushes : ∀ full : Session, (match full.exec full.fs.flush with
      | .ok _ session => some session.manager.device
      | .error _ _ => none) = some disk ↔
      ∃ flushed, full.exec full.fs.flush = .ok () flushed ∧ flushed.manager.device = disk := by
    intro full
    cases full.exec full.fs.flush with
    | ok value flushed => simp
    | error error reached => simp
  simp only [createImg, imgBlocks_eq narrow, Option.bind_eq_bind, Option.bind_some,
    Option.bind_eq_some_iff, flushes, exists_and_left]

/-- What the steps leave: a run of `init` and of tidy calls. -/
theorem history_of_createImg (narrow : size < 2 ^ 53) (short : file.length ≤ l4Max)
    {test hello : NameBytes} (isTest : nameBytes (utf8Bytes "test.txt") = some test)
    (isHello : nameBytes (utf8Bytes "hello") = some hello) {start middle full : Session}
    (isStart : Session.fromInit (Disk.new (2048 * size)) (2048 * size) 10 = some start)
    (first : start.storeFile "test.txt" (utf8Bytes "Test File") = some middle)
    (second : middle.storeFile "hello" file = some full) :
    History Call.Tidy (Disk.new (2048 * size)) (2048 * size) 10
      (Volume.ofFiles [(test, utf8Bytes "Test File"), (hello, file)]) full := by
  have small : 2048 * size < 2 ^ 64 := by omega
  have begun : History Call.Tidy (Disk.new (2048 * size)) (2048 * size) 10 (Volume.ofFiles [])
      start := ⟨start, isStart, .refl⟩
  have one := begun.stored small (Nat.zero_le _) isTest (by decide) first
  exact one.stored small (show 1 ≤ 14 by decide) isHello short second

/-- The tool makes an image when the files fit. -/
theorem exists_createImg (narrow : size < 2 ^ 53) (short : file.length ≤ l4Max)
    {test hello : NameBytes} (isTest : nameBytes (utf8Bytes "test.txt") = some test)
    (isHello : nameBytes (utf8Bytes "hello") = some hello)
    (fits : (Volume.ofFiles [(test, utf8Bytes "Test File"), (hello, file)]).blocks ≤
      (Cafs.parted (2048 * size) 10).dataBitmap.totalCount) :
    ∃ disk, createImg size file = some disk := by
  have small : 2048 * size < 2 ^ 64 := by omega
  have fitting : Cafs.Fitting (2048 * size) 10 := by
    rw [blocks_img, img_totalCount] at fits
    have large : 40971 ≤ 2048 * size := by omega
    exact ⟨by decide, large⟩
  obtain ⟨start, isStart⟩ := Session.exists_fromInit small fitting (by decide)
    (show 2048 * size ≤ (Disk.new (2048 * size)).totalBlocks from Nat.le_refl _)
  have begun : History Call.Tidy (Disk.new (2048 * size)) (2048 * size) 10 (Volume.ofFiles [])
      start := ⟨start, isStart, .refl⟩
  have fewer : (Volume.ofFiles ([] ++ [(test, utf8Bytes "Test File")])).blocks ≤
      (Cafs.parted (2048 * size) 10).dataBitmap.totalCount := by
    refine Nat.le_trans ?_ fits
    rw [blocks_img, Volume.blocks_ofFiles]
    exact Nat.le_trans (show blocksFor 10 + (blocksFor 9 + 0) ≤ 2 by decide)
      (Nat.le_add_right 2 _)
  obtain ⟨middle, first⟩ := (begun.storeFile_iff small (by decide) (Nat.zero_le _) isTest
    (by decide)).mpr fewer
  have one := begun.stored small (Nat.zero_le _) isTest (by decide) first
  obtain ⟨full, second⟩ := (one.storeFile_iff small (by decide) (show 1 ≤ 14 by decide) isHello
    short).mpr fits
  have history := history_of_createImg narrow short isTest isHello isStart first second
  obtain ⟨-, extents, marked, store, tracks⟩ := history.tidy small
  obtain ⟨flushed, ran, -⟩ := tracks.serves.backed.flush_settled
  exact ⟨_, (createImg_eq_some_iff narrow).mpr
    ⟨start, middle, full, flushed, isStart, first, second, ran, rfl⟩⟩

/-- The tool makes an image exactly when the files fit: one block for the root directory, one for
`test.txt`, and the blocks of `hello`, out of the data blocks that the bitmaps leave. -/
theorem createImg_returns_iff (narrow : size < 2 ^ 53) (short : file.length ≤ l4Max) :
    (∃ disk, createImg size file = some disk) ↔
      2 + blocksFor file.length ≤ (2048 * size - 40971) / 4097 * 4096 := by
  have small : 2048 * size < 2 ^ 64 := by omega
  obtain ⟨test, hello, isTest, isHello⟩ := exists_imgNames
  rw [← img_totalCount, ← blocks_img test hello file]
  constructor
  · rintro ⟨disk, made⟩
    obtain ⟨start, middle, full, -, isStart, first, second, -⟩ :=
      (createImg_eq_some_iff narrow).mp made
    have history := history_of_createImg narrow short isTest isHello isStart first second
    obtain ⟨isSmall, extents, marked, store, tracks⟩ := history.tidy small
    rw [← tracks.parts, ← tracks.serves.represents.holds.used_eq_blocks isSmall]
    exact Bitmap.used_le _ marked
  · exact exists_createImg narrow short isTest isHello

/-- A device has the blocks of an image. -/
structure ImgOn (device : Disk) (size : Nat) (file : List UInt8) (fs : Cafs)
    (extents : Nat → Extent) (marked : Nat → Bool) (test hello : NameBytes) : Prop where
  /-- The parts are in order. -/
  geometry : fs.Geometry (2048 * size)
  /-- The super block describes them. -/
  headed : fs.Headed device.data
  /-- The blocks hold the two files. -/
  holds : fs.Holds device.data
    (Volume.ofFiles [(test, utf8Bytes "Test File"), (hello, file)]) extents marked
  /-- The device has the blocks. -/
  onDevice : 2048 * size ≤ device.totalBlocks
  /-- The trees of the inodes can describe the files. -/
  isSmall : (Volume.ofFiles [(test, utf8Bytes "Test File"), (hello, file)]).Small
  /-- The first name. -/
  testKey : nameString test = "test.txt"
  /-- The second name. -/
  helloKey : nameString hello = "hello"

/-- The tool leaves the blocks of an image. -/
theorem exists_imgOn (narrow : size < 2 ^ 53) (short : file.length ≤ l4Max)
    (made : createImg size file = some disk) : ∃ fs extents marked test hello,
    ImgOn disk size file fs extents marked test hello := by
  have small : 2048 * size < 2 ^ 64 := by omega
  obtain ⟨test, hello, isTest, isHello⟩ := exists_imgNames
  obtain ⟨start, middle, full, flushed, isStart, first, second, ran, rfl⟩ :=
    (createImg_eq_some_iff narrow).mp made
  have history := history_of_createImg narrow short isTest isHello isStart first second
  obtain ⟨isSmall, extents, marked, store, tracks⟩ := history.tidy small
  have headed := history.headed small
  have backed := tracks.serves.backed
  obtain ⟨same, ranSame, onDisk, onDevice⟩ := backed.flush_settled
  obtain rfl : same = flushed := (Result.ok.inj (ranSame.symm.trans ran)).2
  rw [backed.contents_eq, ← onDisk] at headed
  have holds := tracks.serves.represents.holds
  rw [← onDisk] at holds
  have testKey : nameString test = "test.txt" := by
    rw [nameString_of_nameBytes isTest]
    decide
  have helloKey : nameString hello = "hello" := by
    rw [nameString_of_nameBytes isHello]
    decide
  exact ⟨_, extents, marked, test, hello, tracks.serves.represents.geometry, headed, holds,
    onDevice, isSmall, testKey, helloKey⟩

/-- The root directory of an image lists files. -/
theorem Volume.files_img (test hello : NameBytes) (file : List UInt8) :
    ∀ child ∈ [1, 2], child ≠ 0 ∧ ∃ stored, (ofFiles
      [(test, utf8Bytes "Test File"), (hello, file)])[child]? = some stored ∧
        stored.type = .file := by
  intro child childIn
  rcases List.mem_pair.mp childIn with rfl | rfl
  · exact ⟨by decide, _, rfl, rfl⟩
  · exact ⟨by decide, _, rfl, rfl⟩

namespace ImgOn

variable {device : Disk} {fs : Cafs} {extents : Nat → Extent} {marked : Nat → Bool}
  {test hello : NameBytes}

/-- A mount shows the folder of the two files. -/
theorem mounts (img : ImgOn device size file fs extents marked test hello) (depth : Nat) :
    ∃ vfs volume children, Vfs.new (depth + 2) device = some vfs ∧
      vfs.Mirrors (2048 * size) volume children (imgFolder file) := by
  obtain ⟨vfs, mounted, shown, roomy, few, isTree, -⟩ := Vfs.exists_new img.geometry img.headed
    img.holds img.onDevice img.isSmall (Volume.getElem?_ofFiles_zero _) rfl rfl
    (Volume.files_img test hello file) depth
  have fresh : vfs.Fresh (2048 * size) _ _ := ⟨shown, roomy, few, _, rfl, isTree⟩
  refine ⟨vfs, _, _, mounted, fresh.mirrors rfl (Volume.getElem?_ofFiles_zero _) rfl ?_⟩
  show [("test.txt", utf8Bytes "Test File"), ("hello", file)] =
    [(nameString test, utf8Bytes "Test File"), (nameString hello, file)]
  rw [img.testKey, img.helloKey]

end ImgOn

/-- A file of the image is read back. -/
theorem Vfs.Mirrors.reads_img {vfs : Vfs} {totalBlocks : Nat} {volume : Volume}
    {children : List Nat} (mirrors : vfs.Mirrors totalBlocks volume children (imgFolder file))
    {path : String} (name : String) {contents : List UInt8}
    (isParsed : parsePath path = some ⟨[], name⟩)
    (looked : (imgFolder file).look name = some contents) : vfs.Reads path contents := by
  obtain ⟨reply, after, ran⟩ := mirrors.reads isParsed
  have allowed : (imgFolder file).Allows (.readUnstable path) := trivial
  have isReply := (mirrors.call allowed ran).1
  have found : (imgFolder file).missing [name] = none := by
    rw [Folder.missing, looked]
    rfl
  simp only [Folder.reply, VfsCall.path, VfsCall.searched, Path.components, isParsed,
    Option.map_some, List.nil_append, found, looked, Option.getD_some, Option.some.injEq]
    at isReply
  exact ⟨after, isReply ▸ ran⟩

/-- A mount of an image returns, lists the two files, reads back their bytes, and goes on as the
folder of the two files does, whatever users do with it that a folder allows. -/
theorem createImg_mounts (narrow : size < 2 ^ 53) (short : file.length ≤ l4Max)
    (made : createImg size file = some disk) (depth : Nat) :
    ∃ vfs, Vfs.new (depth + 2) disk = some vfs ∧ vfs.lsRoot = ["/", "test.txt", "hello"] ∧
      vfs.Reads "/test.txt" (utf8Bytes "Test File") ∧ vfs.Reads "/hello" file ∧
      ∀ events after, Trace (Vfs.Shown (depth + 2)) vfs events after →
        Folder.contract.Permits (imgFolder file) events →
        Folder.contract.Explains (imgFolder file) events := by
  obtain ⟨_, _, _, _, _, img⟩ := exists_imgOn narrow short made
  obtain ⟨vfs, volume, children, mounted, mirrors⟩ := img.mounts depth
  refine ⟨vfs, mounted, mirrors.lsRoot_eq, mirrors.reads_img "test.txt" (by decide) rfl,
    mirrors.reads_img "hello" (by decide) rfl, ?_⟩
  intro events after trace permits
  exact (mirrors.trace trace permits).1

end Image

/-- The first bytes of a program. -/
def testProgram : List UInt8 := [0x7F, 0x45, 0x4C, 0x46]

/-- The default size has room for a small program. -/
theorem createImg_returns_iff_default : ∃ disk, createImg 50 testProgram = some disk :=
  (createImg_returns_iff (by decide) (by decide)).mpr (by decide)

/-- A mount of the image finds the small program. -/
theorem createImg_mounts_default : ∃ disk vfs, createImg 50 testProgram = some disk ∧
    Vfs.new 2 disk = some vfs ∧ vfs.Reads "/hello" testProgram := by
  obtain ⟨test, hello, isTest, isHello⟩ := exists_imgNames
  have fits : (Volume.ofFiles [(test, utf8Bytes "Test File"), (hello, testProgram)]).blocks ≤
      (Cafs.parted (2048 * 50) 10).dataBitmap.totalCount := by
    rw [blocks_img, img_totalCount]
    decide
  have narrow : 50 < 2 ^ 53 := by decide
  have short : testProgram.length ≤ l4Max := by decide
  obtain ⟨disk, made⟩ := exists_createImg narrow short isTest isHello fits
  obtain ⟨vfs, mounted, -, -, reads, -⟩ := createImg_mounts narrow short made 0
  exact ⟨disk, vfs, made, mounted, reads⟩

end Canyon.Fs
