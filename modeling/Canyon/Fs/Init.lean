import Canyon.Fs.Calls

/-!
# Setting up a device

`CAFS::init` clears the blocks of a device, writes the super block and makes the root
directory. What it leaves represents the volume with the root directory alone.
-/

namespace Canyon.Fs

open Canyon.Lib

/-- The name of the root directory, "/". -/
def rootName : NameBytes := ⟨(47 :: List.replicate nameLengthLimit 0).toArray, by simp⟩

/-- The bytes of the root directory's name. -/
theorem nameBytes_root : nameBytes (utf8Bytes "/") = some rootName := by
  have bytes : utf8Bytes "/" = [47] := by decide
  rw [bytes]
  rfl

/-- The volume of a device just set up. -/
def Volume.initial : Volume := [⟨.dir, rootName, []⟩]

/-- No file has a block. -/
def Extent.none : Nat → Extent := fun _ => ⟨[], []⟩

/-- A cleared block is a bitmap block of zeros. -/
theorem Block.patch_zeros (block : Block) :
    block.patch bitmapBlock 0 (Vector.replicate _ 0) = Block.zero := by
  have word : u64.encode 0 = List.replicate 8 0 := by decide
  have words : bitmapBlock.encode (Vector.replicate _ 0) = List.replicate blockSize 0 := by
    show (Vector.replicate (blockSize / 8) 0).toList.flatMap u64.encode = _
    rw [Vector.toList_replicate, List.flatMap_replicate, word, List.flatten_replicate_replicate]
    rfl
  refine Block.ext ?_
  rw [Block.patch, dif_pos (by simp)]
  simp [words, Block.zero, List.drop_of_length_le, block.length_bytes]

/-- A bitmap in cleared blocks marks nothing. -/
theorem Bitmap.marks_zeros {bitmap : Bitmap} {store : Nat → Block}
    (cleared : ∀ id, bitmap.Owns id → store id = Block.zero) :
    bitmap.Marks store fun _ => false := by
  intro blockId inside
  have zeros : bitmapBlock.Fits (Vector.replicate (blockSize / 8) 0) := by
    intro value valueIn
    rw [Vector.toList_replicate, List.mem_replicate] at valueIn
    rw [valueIn.2]
    exact Nat.two_pow_pos 64
  refine ⟨Vector.replicate (blockSize / 8) 0, ?_, ?_⟩
  · rw [cleared _ ⟨by omega, by omega⟩, ← Block.patch_zeros Block.zero]
    exact Block.view_patch _ _ _ _ (by simp) zeros
  · intro position _
    have word : BitmapBlock.word (Vector.replicate (blockSize / 8) 0) (position / 64) = 0 := by
      unfold BitmapBlock.word
      rw [Vector.getElem?_replicate]
      split <;> rfl
    rw [BitmapBlock.bit, word, Nat.zero_testBit]

namespace Cafs

variable {fs : Cafs} {store : Nat → Block} {totalBlocks : Nat}
  {failed : Panic → (Nat → Block) → Prop}

/-- The loop of `init` clears the blocks it is given. -/
theorem wp_clearBlocks {ids : List Nat} {rules : Scoped.Discipline Nat} {held : List Nat}
    (admits : ∀ id ∈ ids, rules.Admits held id) {post : Unit → (Nat → Block) → Prop}
    (goal : ∀ after, (∀ id ∈ ids, after id = Block.zero) →
      (∀ id, id ∉ ids → after id = store id) → post () after) :
    (clearBlocks ids).wp rules held post failed store := by
  induction ids generalizing store with
  | nil => exact goal store (by simp) fun _ _ => rfl
  | cons id ids ih =>
    refine Scoped.wp_bind.mpr (Scoped.wp_write.mpr ⟨admits id (by simp), ?_⟩)
    refine ih (fun other otherIn => admits other (by simp [otherIn])) ?_
    intro after cleared frame
    refine goal after ?_ ?_
    · intro other otherIn
      by_cases later : other ∈ ids
      · exact cleared other later
      · obtain rfl := (List.mem_cons.mp otherIn).resolve_right later
        rw [frame other later]
        exact Function.update_self _ _ _
    · intro other outside
      obtain ⟨different, notIn⟩ := not_or.mp (List.mem_cons.not.mp outside)
      rw [frame other notIn]
      exact Function.update_of_ne different _ _

/-- Cleared bitmaps hold the volume without files. -/
theorem holds_empty (inodes : ∀ id, fs.inodeBitmap.Owns id → store id = Block.zero)
    (data : ∀ id, fs.dataBitmap.Owns id → store id = Block.zero) :
    fs.Holds store [] Extent.none fun _ => false := by
  refine ⟨?_, Nat.zero_le _, by simp, by simp, Bitmap.marks_zeros data, by simp, by simp⟩
  have none : (fun number => decide (number < ([] : Volume).length)) = fun _ => false := by
    funext number
    simp
  rw [none]
  exact Bitmap.marks_zeros inodes

/-- The parts that `init` makes of a device. -/
def parted (totalBlocks inodeBitmapBlocks : Nat) : Cafs :=
  layout inodeBitmapBlocks (inodeBitmapBlocks * blockBits)
    ((totalBlocks - 1 - (inodeBitmapBlocks + inodeBitmapBlocks * blockBits)) / (blockBits + 1))

/-- The device has room for the inodes, and `init` can compute its parts. -/
def Fitting (totalBlocks inodeBitmapBlocks : Nat) : Prop :=
  inodeBitmapBlocks * blockBits * blockSize ≤ u64Max - blockSize ∧
    1 + (inodeBitmapBlocks + inodeBitmapBlocks * blockBits) ≤ totalBlocks

/-- The super block that `init` writes, by the formulas of its sizes. -/
def plan (totalBlocks inodeBitmapBlocks : Nat) : SuperBlock :=
  let inodeNum := (Bitmap.mk 1 inodeBitmapBlocks).totalCount
  let inodeAreaBlocks := (inodeNum * metaCodec.width + blockSize - 1) / blockSize
  let dataTotalBlocks := totalBlocks - 1 - (inodeBitmapBlocks + inodeAreaBlocks)
  let dataBitmapBlocks := dataTotalBlocks / (blockBits + 1)
  SuperBlock.initialize totalBlocks inodeBitmapBlocks inodeAreaBlocks dataBitmapBlocks
    (dataTotalBlocks - dataBitmapBlocks)

/-- The inodes take a block each. -/
theorem inodeArea_eq (inodeBitmapBlocks : Nat) :
    (inodeBitmapBlocks * blockBits * blockSize + blockSize - 1) / blockSize =
      inodeBitmapBlocks * blockBits := by
  have block : blockSize = 512 := rfl
  rw [block]
  omega

/-- The sizes of the parts. -/
theorem plan_eq (totalBlocks inodeBitmapBlocks : Nat) :
    plan totalBlocks inodeBitmapBlocks = SuperBlock.initialize totalBlocks inodeBitmapBlocks
      (inodeBitmapBlocks * blockBits)
      ((totalBlocks - 1 - (inodeBitmapBlocks + inodeBitmapBlocks * blockBits)) / (blockBits + 1))
      (totalBlocks - 1 - (inodeBitmapBlocks + inodeBitmapBlocks * blockBits) -
        (totalBlocks - 1 - (inodeBitmapBlocks + inodeBitmapBlocks * blockBits)) /
          (blockBits + 1)) := by
  unfold plan
  dsimp only [Bitmap.totalCount]
  rw [width_metaCodec, inodeArea_eq]

/-- The super block describes the parts of the file system, and their block numbers are `u64`s. -/
def Headed (fs : Cafs) (store : Nat → Block) : Prop :=
  ∃ block, (store 0).view superBlock 0 = some block ∧ block.isValid = true ∧
    layout block.inodeBitmapBlocks block.inodeAreaBlocks block.dataBitmapBlocks = fs ∧
    fs.dataAreaStartBlock ≤ u64Max

/-- The description is that of the super block. -/
theorem Headed.congr (headed : fs.Headed store) {after : Nat → Block}
    (same : after 0 = store 0) : fs.Headed after := by
  obtain ⟨block, seen, described⟩ := headed
  exact ⟨block, same ▸ seen, described⟩

/-- The cache after `init`: the root directory, and no handle. -/
def initialInodes (fs : Cafs) : Inodes :=
  ⟨[0], [], Function.update Inodes.new.heap 0 (fs.inodeOf 0 ⟨.dir, rootName, []⟩ ⟨[], []⟩), 1⟩

variable {inodeBitmapBlocks : Nat}

/-- The parts that `init` makes are in order. -/
theorem geometry_parted (wide : totalBlocks ≤ 2 ^ 64)
    (fitting : Fitting totalBlocks inodeBitmapBlocks) :
    (parted totalBlocks inodeBitmapBlocks).Geometry totalBlocks := by
  have bits : blockBits = 4096 := rfl
  obtain ⟨-, room⟩ := fitting
  refine ⟨rfl, rfl, ?_, rfl, ?_, wide⟩
  · simp only [parted, layout, Bitmap.totalCount]
    omega
  · simp only [parted, layout, Bitmap.totalCount, bits] at room ⊢
    omega

/-- The super block that `init` writes survives the disk. -/
theorem view_plan {block : Block} (small : totalBlocks < 2 ^ 64)
    (fitting : Fitting totalBlocks inodeBitmapBlocks) :
    (block.patch superBlock 0 (plan totalBlocks inodeBitmapBlocks)).view superBlock 0 =
      some (plan totalBlocks inodeBitmapBlocks) := by
  have bits : blockBits = 4096 := rfl
  obtain ⟨-, room⟩ := fitting
  refine Block.view_patch _ _ _ _ (by rw [width_superBlock]; decide) ?_
  rw [plan_eq]
  refine ⟨show fsMagic < 256 ^ 4 by decide, show 0 < 256 ^ 4 by decide, ?_, ?_, ?_, ?_, ?_⟩
  · show totalBlocks < 2 ^ 64
    omega
  · show inodeBitmapBlocks < 2 ^ 64
    omega
  · show inodeBitmapBlocks * blockBits < 2 ^ 64
    omega
  · show (totalBlocks - 1 - (inodeBitmapBlocks + inodeBitmapBlocks * blockBits)) /
      (blockBits + 1) < 2 ^ 64
    rw [bits] at room ⊢
    omega
  · show totalBlocks - 1 - (inodeBitmapBlocks + inodeBitmapBlocks * blockBits) -
      (totalBlocks - 1 - (inodeBitmapBlocks + inodeBitmapBlocks * blockBits)) /
        (blockBits + 1) < 2 ^ 64
    rw [bits] at room ⊢
    omega

/-- That super block describes the parts of the device. -/
theorem headed_of_plan (small : totalBlocks < 2 ^ 64)
    (fitting : Fitting totalBlocks inodeBitmapBlocks)
    (seen : (store 0).view superBlock 0 = some (plan totalBlocks inodeBitmapBlocks)) :
    (parted totalBlocks inodeBitmapBlocks).Headed store := by
  refine ⟨_, seen, rfl, ?_, ?_⟩
  · rw [plan_eq]
    rfl
  · have bits : blockBits = 4096 := rfl
    obtain ⟨-, room⟩ := fitting
    simp only [parted, layout, bits, u64Max] at room ⊢
    omega

/-- The inodes take a block each, unless their number overflows. -/
theorem wp_inodeAreaBlocksOf {rules : Scoped.Discipline Nat} {post : Nat → (Nat → Block) → Prop}
    (goal : inodeBitmapBlocks * blockBits * blockSize ≤ u64Max - blockSize →
      post (inodeBitmapBlocks * blockBits) store)
    (overflow : u64Max - blockSize < inodeBitmapBlocks * blockBits * blockSize →
      failed .arithmeticOverflow store) :
    (inodeAreaBlocksOf inodeBitmapBlocks).wp rules [] post failed store := by
  unfold inodeAreaBlocksOf
  dsimp only
  split
  · rename_i narrow
    have done := goal narrow
    rw [← inodeArea_eq] at done
    exact done
  · rename_i large
    exact overflow (Nat.not_le.mp large)

/-- The root directory on a cleared device. -/
theorem wp_allocRoot {inodeBitmapBlocks : Nat} (small : totalBlocks < 2 ^ 64)
    (fitting : Fitting totalBlocks inodeBitmapBlocks)
    (cleared : ∀ id < totalBlocks, 0 < id → store id = Block.zero)
    {post : Nat → Inodes → (Nat → Block) → Prop}
    (goal : ∀ after, 0 < inodeBitmapBlocks →
      (parted totalBlocks inodeBitmapBlocks).Represents totalBlocks
        (parted totalBlocks inodeBitmapBlocks).initialInodes after Volume.initial Extent.none
        (fun _ => false) →
      after 0 = store 0 →
      post 0 { (parted totalBlocks inodeBitmapBlocks).initialInodes with handles := [0] } after)
    (noInode : inodeBitmapBlocks = 0 → failed .runOutOfInodeBlock store) :
    FsM.wp (Prog.deviceRules totalBlocks)
      ((parted totalBlocks inodeBitmapBlocks).allocInodeMeta .dir "/") Inodes.new post failed
      store := by
  have bits : blockBits = 4096 := rfl
  have count : (parted totalBlocks inodeBitmapBlocks).inodeBitmap.totalCount =
      inodeBitmapBlocks * 4096 := rfl
  have geometry := geometry_parted (Nat.le_of_lt small) fitting
  have first := geometry.inodeBitmap
  have inodeArea := geometry.inodeArea
  have dataBitmap := geometry.dataBitmap
  have dataArea := geometry.dataArea
  have within := geometry.inside
  have empty : (parted totalBlocks inodeBitmapBlocks).Holds store [] Extent.none
      fun _ => false := by
    refine holds_empty ?_ ?_ <;> rintro id ⟨lower, upper⟩ <;> exact cleared id (by omega) (by omega)
  have new : Inodes.new.Coherent (parted totalBlocks inodeBitmapBlocks) [] Extent.none := .new
  refine wp_allocInodeMeta ⟨geometry, empty, new⟩ ?_ ?_ ?_ ?_
  · intro bytes queue after isName done holds frame
    obtain rfl := Option.some.inj (nameBytes_root.symm.trans isName)
    have coherent : (Inodes.new.inserted ((parted totalBlocks inodeBitmapBlocks).inodeOf 0
        ⟨.dir, rootName, []⟩ ⟨[], []⟩) queue).Coherent (parted totalBlocks inodeBitmapBlocks)
        Volume.initial (Function.update Extent.none 0 ⟨[], []⟩) := new.inserted done
    obtain rfl := Except.ok.inj done
    have extents : Function.update Extent.none 0 ⟨[], []⟩ = Extent.none :=
      Function.update_eq_self 0 Extent.none
    rw [List.length_nil, extents] at holds
    rw [extents] at coherent
    have room := holds.counted
    rw [count, Volume.length_add] at room
    refine goal after (by omega) ⟨geometry, holds, coherent.drop 0⟩ ?_
    exact frame 0 (fun own => absurd own.1 (by omega)) (by omega)
  · intro none
    rw [count, List.length_nil] at none
    exact noInode (by omega)
  · intro reached tooLong
    rw [nameBytes_root] at tooLong
    contradiction
  · intro reached full
    exact absurd full (by decide)

/-- `init` leaves the volume with the root directory alone, and its super block. -/
theorem wp_init (small : totalBlocks < 2 ^ 64) {post : Cafs → Inodes → (Nat → Block) → Prop}
    (goal : ∀ after, Fitting totalBlocks inodeBitmapBlocks → 0 < inodeBitmapBlocks →
      (parted totalBlocks inodeBitmapBlocks).Represents totalBlocks
        (parted totalBlocks inodeBitmapBlocks).initialInodes after Volume.initial Extent.none
        (fun _ => false) →
      (after 0).view superBlock 0 = some (plan totalBlocks inodeBitmapBlocks) →
      post (parted totalBlocks inodeBitmapBlocks)
        (parted totalBlocks inodeBitmapBlocks).initialInodes after)
    (overflow : ¬Fitting totalBlocks inodeBitmapBlocks → failed .arithmeticOverflow store)
    (noInode : inodeBitmapBlocks = 0 → ∀ reached, failed .runOutOfInodeBlock reached) :
    FsM.wp (Prog.deviceRules totalBlocks) (init totalBlocks inodeBitmapBlocks) Inodes.new post
      failed store := by
  refine FsM.wp_bind.mpr (FsM.wp_onBlocks.mpr (wp_inodeAreaBlocksOf ?_ fun large =>
    overflow fun fitting => absurd fitting.1 (Nat.not_le.mpr large)))
  intro narrow
  by_cases room : 1 + (inodeBitmapBlocks + inodeBitmapBlocks * blockBits) ≤ totalBlocks
  · have fitting : Fitting totalBlocks inodeBitmapBlocks := ⟨narrow, room⟩
    rw [subtract_eq (show 1 ≤ totalBlocks by omega)]
    refine FsM.wp_bind.mpr (FsM.wp_onBlocks.mpr ?_)
    rw [Scoped.wp, subtract_eq (by omega)]
    refine FsM.wp_bind.mpr (FsM.wp_onBlocks.mpr ?_)
    rw [Scoped.wp]
    refine FsM.wp_bind.mpr (FsM.wp_onBlocks.mpr (wp_clearBlocks ?_ ?_))
    · intro id idIn
      exact ⟨List.mem_range.mp idIn, by simp, Nat.zero_lt_succ 4⟩
    intro cleared zeros _
    refine FsM.wp_bind.mpr (FsM.wp_onBlocks.mpr (wp_overwriteAt (by rw [width_superBlock]; decide)
      ⟨show 0 < totalBlocks by omega, by simp, Nat.zero_lt_succ 4⟩ ?_))
    refine FsM.wp_bind.mpr (wp_allocRoot small fitting ?_ ?_ fun none => noInode none _)
    · intro id inside positive
      rw [Function.update_of_ne (by omega)]
      exact zeros id (List.mem_range.mpr inside)
    · intro after positive rep head
      rw [Function.update_self, ← plan_eq] at head
      have isRoot : ((parted totalBlocks inodeBitmapBlocks).initialInodes.heap 0).inodeNumber =
          0 := congrArg CaInode.inodeNumber (Function.update_self 0 _ Inodes.new.heap)
      refine FsM.wp_bind.mpr (FsM.wp_deref.mpr (FsM.wp_bind.mpr (FsM.wp_dropHandle.mpr ?_)))
      rw [if_pos isRoot]
      refine FsM.wp_bind.mpr (wp_flush (goal after fitting positive rep ?_))
      rw [head]
      exact view_plan small fitting
  · have unfit : ¬Fitting totalBlocks inodeBitmapBlocks := fun fitting => room fitting.2
    refine FsM.wp_bind.mpr (FsM.wp_onBlocks.mpr ?_)
    unfold subtract
    split
    · refine FsM.wp_bind.mpr (FsM.wp_onBlocks.mpr ?_)
      rw [if_neg (by omega)]
      exact overflow unfit
    · exact overflow unfit

end Cafs

end Canyon.Fs
