import Mathlib.Algebra.Order.Floor.Div
import Mathlib.Tactic
import Canyon.Fs.Layout

/-!
# The level plan of a file

How many data blocks and index blocks of each level a file of a given size has. The plan is
computed level by level from the size in bytes; `indexBlocks_shape` says what tree it
describes, `indexBlocks_minimal` that no smaller tree would do, and `indexBlockCount_mono` that a
larger file never has fewer index blocks.
-/

namespace Canyon.Fs

/-- `DIRECT_MAX`: bytes that the direct blocks hold. -/
def directMax : Nat := directCount * blockSize

/-- `BLOCK_TABLE_INDIRECT_MAX`. -/
def blockTableIndirectMax : Nat := indirectLen * blockSize

/-- `BLOCK_TABLE_MAX`. -/
def blockTableMax : Nat := directMax + blockTableIndirectMax

/-- `BLOCK_DIRECTORY_INDIRECT_MAX`. -/
def blockDirectoryIndirectMax : Nat := indirectLen * indirectLen * blockSize

/-- `BLOCK_DIRECTORY_MAX`. -/
def blockDirectoryMax : Nat := directMax + blockDirectoryIndirectMax

/-- `L3_INDIRECT_MAX`. -/
def l3IndirectMax : Nat := indirectLen * indirectLen * indirectLen * blockSize

/-- `L3_MAX`. -/
def l3Max : Nat := directMax + l3IndirectMax

/-- `L4_INDIRECT_MAX`. -/
def l4IndirectMax : Nat := indirectLen * indirectLen * indirectLen * indirectLen * blockSize

/-- `L4_MAX`: bytes of the largest file the index can describe. -/
def l4Max : Nat := directMax + l4IndirectMax

/-- `LevelInfo`: blocks of each level. -/
structure LevelInfo where
  /-- `l4`. -/
  l4 : Nat
  /-- `l3`. -/
  l3 : Nat
  /-- `block_directory`. -/
  blockDirectory : Nat
  /-- `block_table`. -/
  blockTable : Nat
  /-- `direct`. -/
  direct : Nat
  deriving DecidableEq, Repr

/-- `LevelInfo::root_level`. -/
def LevelInfo.rootLevel (info : LevelInfo) : Option IndirectBlockType :=
  if info.l4 = 1 then some .l4
  else if info.l3 = 1 then some .l3
  else if info.blockDirectory = 1 then some .blockDirectory
  else if info.blockTable = 1 then some .blockTable
  else none

/-- `LevelInfo::index_block_count`. -/
def LevelInfo.indexBlockCount (info : LevelInfo) : Nat :=
  info.l4 + info.l3 + info.blockDirectory + info.blockTable

/-- `Meta::_data_blocks`. -/
def dataBlocks (size : Nat) : Nat := (size + blockSize - 1) / blockSize

/-- Bytes past the direct blocks, as `index_blocks` and `forward` compute them. -/
def indirectSize (size : Nat) : Nat := if size ≥ directMax then size - directMax else 0

/-- `Meta::index_blocks`. -/
def indexBlocks (size : Nat) : LevelInfo :=
  let blockTableLen :=
    (indirectSize size + blockTableIndirectMax - 1) / blockTableIndirectMax
  let blockDirectoryLen :=
    (indirectSize size + blockDirectoryIndirectMax - 1) / blockDirectoryIndirectMax
  let l3Len := (indirectSize size + l3IndirectMax - 1) / l3IndirectMax
  if size > l3Max then ⟨1, l3Len, blockDirectoryLen, blockTableLen, directCount⟩
  else if size > blockDirectoryMax then ⟨0, 1, blockDirectoryLen, blockTableLen, directCount⟩
  else if size > blockTableMax then ⟨0, 0, 1, blockTableLen, directCount⟩
  else if size > directMax then ⟨0, 0, 0, 1, directCount⟩
  else ⟨0, 0, 0, 0, (size + blockSize - 1) / blockSize⟩

/-- The constants of the plan, in bytes. -/
theorem levelConstants : directMax = 18432 ∧ blockTableIndirectMax = 32256 ∧
    blockTableMax = 50688 ∧ blockDirectoryIndirectMax = 2032128 ∧ blockDirectoryMax = 2050560 ∧
    l3IndirectMax = 128024064 ∧ l3Max = 128042496 ∧ l4Max = 8065534464 := by
  decide

/-- The bytes past the direct blocks are what is left of the size. -/
theorem indirectSize_eq (size : Nat) : indirectSize size = size - directMax := by
  unfold indirectSize
  split <;> omega

/-- The tree that the plan of a size describes. Each level that is present has room below it
for the next, the topmost one is a single node, and the tables have room for the data blocks
that are not direct. -/
inductive Shape (size : Nat) (info : LevelInfo) : Prop where
  /-- Direct blocks only. -/
  | direct (small : size ≤ directMax) (l4 : info.l4 = 0) (l3 : info.l3 = 0)
      (directory : info.blockDirectory = 0) (table : info.blockTable = 0)
      (data : dataBlocks size ≤ directCount)
  /-- One block table. -/
  | blockTable (large : directMax < size) (l4 : info.l4 = 0) (l3 : info.l3 = 0)
      (directory : info.blockDirectory = 0) (table : info.blockTable = 1)
      (data : dataBlocks size ≤ directCount + indirectLen * info.blockTable)
  /-- One block directory. -/
  | blockDirectory (large : directMax < size) (l4 : info.l4 = 0) (l3 : info.l3 = 0)
      (directory : info.blockDirectory = 1)
      (table : info.blockTable ≤ indirectLen * info.blockDirectory)
      (data : dataBlocks size ≤ directCount + indirectLen * info.blockTable)
  /-- One block of the third level. -/
  | l3 (large : directMax < size) (l4 : info.l4 = 0) (l3 : info.l3 = 1)
      (directory : info.blockDirectory ≤ indirectLen * info.l3)
      (table : info.blockTable ≤ indirectLen * info.blockDirectory)
      (data : dataBlocks size ≤ directCount + indirectLen * info.blockTable)
  /-- One block of the fourth level. -/
  | l4 (large : directMax < size) (l4 : info.l4 = 1) (l3 : info.l3 ≤ indirectLen * info.l4)
      (directory : info.blockDirectory ≤ indirectLen * info.l3)
      (table : info.blockTable ≤ indirectLen * info.blockDirectory)
      (data : dataBlocks size ≤ directCount + indirectLen * info.blockTable)

variable {size small large number : Nat}

/-- The plan of every size up to `L4_MAX` describes a tree. -/
theorem indexBlocks_shape (bound : size ≤ l4Max) : Shape size (indexBlocks size) := by
  obtain ⟨direct, table, tableMax, directory, directoryMax, l3, l3Max, l4Max⟩ := levelConstants
  have count : directCount = 36 := rfl
  have length : indirectLen = 63 := rfl
  have data : dataBlocks size = (size + 511) / 512 := rfl
  rw [l4Max] at bound
  unfold indexBlocks
  simp only [indirectSize_eq, direct, table, tableMax, directory, directoryMax, l3, l3Max, count]
  split
  · apply Shape.l4 <;> simp only [direct, data, count, length] <;> omega
  · split
    · apply Shape.l3 <;> simp only [direct, data, count, length] <;> omega
    · split
      · apply Shape.blockDirectory <;> simp only [direct, data, count, length] <;> omega
      · split
        · apply Shape.blockTable <;> simp only [direct, data, count, length] <;> omega
        · apply Shape.direct <;> simp only [direct, data, count] <;> omega

/-- A file with more bytes than the direct blocks hold has a block table. -/
theorem indexBlocks_blockTable_pos (large : directMax < size) :
    0 < (indexBlocks size).blockTable := by
  obtain ⟨direct, table, tableMax, directory, directoryMax, l3, l3Max, -⟩ := levelConstants
  unfold indexBlocks
  simp only [indirectSize_eq, direct, table, tableMax, directory, directoryMax, l3, l3Max] at *
  split_ifs <;> simp only <;> omega

/-- A file with more bytes than the direct blocks hold has a root. -/
theorem indexBlocks_rootLevel (large : directMax < size) : (indexBlocks size).rootLevel ≠ none := by
  unfold indexBlocks LevelInfo.rootLevel
  split_ifs <;> simp_all

/-- A plan has at most one block of the fourth level. -/
theorem indexBlocks_single (size : Nat) : (indexBlocks size).l4 ≤ 1 := by
  unfold indexBlocks
  split_ifs <;> simp

/-- A larger file has no fewer data blocks. -/
theorem dataBlocks_mono (order : small ≤ large) : dataBlocks small ≤ dataBlocks large :=
  Nat.div_le_div_right (by omega)

/-- Index blocks of a size, with the constants written out. -/
theorem indexBlockCount_eq (size : Nat) : (indexBlocks size).indexBlockCount =
    if size > 128042496 then
      1 + (size - 18432 + 128024063) / 128024064 + (size - 18432 + 2032127) / 2032128 +
        (size - 18432 + 32255) / 32256
    else if size > 2050560 then
      1 + (size - 18432 + 2032127) / 2032128 + (size - 18432 + 32255) / 32256
    else if size > 50688 then 1 + (size - 18432 + 32255) / 32256
    else if size > 18432 then 1 else 0 := by
  obtain ⟨direct, table, tableMax, directory, directoryMax, l3, l3Max, -⟩ := levelConstants
  unfold indexBlocks LevelInfo.indexBlockCount
  simp only [indirectSize_eq, direct, table, tableMax, directory, directoryMax, l3, l3Max]
  split_ifs <;> simp only [Nat.zero_add, Nat.add_zero] <;> omega

/-- A larger file has no fewer index blocks. -/
theorem indexBlockCount_mono (order : small ≤ large) :
    (indexBlocks small).indexBlockCount ≤ (indexBlocks large).indexBlockCount := by
  rw [indexBlockCount_eq, indexBlockCount_eq]
  split_ifs <;> omega

/-- Two sizes with as many data blocks have the same number of index blocks. -/
theorem indexBlockCount_congr {left right : Nat} (same : dataBlocks left = dataBlocks right) :
    (indexBlocks left).indexBlockCount = (indexBlocks right).indexBlockCount := by
  simp only [dataBlocks, blockSize] at same
  rw [indexBlockCount_eq, indexBlockCount_eq]
  split_ifs <;> omega

/-! ## The plan is the least tree -/

/-- `LevelInfo::type_count`. -/
def LevelInfo.typeCount (info : LevelInfo) : IndirectBlockType → Nat
  | .blockTable => info.blockTable
  | .blockDirectory => info.blockDirectory
  | .l3 => info.l3
  | .l4 => info.l4

/-- Bytes of the data blocks below one full node of a level. -/
def IndirectBlockType.span : IndirectBlockType → Nat
  | .blockTable => blockTableIndirectMax
  | .blockDirectory => blockDirectoryIndirectMax
  | .l3 => l3IndirectMax
  | .l4 => l4IndirectMax

/-- Bytes past the direct blocks that do without a level. -/
def IndirectBlockType.under : IndirectBlockType → Nat
  | .blockTable => 0
  | .blockDirectory => blockTableIndirectMax
  | .l3 => blockDirectoryIndirectMax
  | .l4 => l3IndirectMax

/-- A level is needed when one full node of the level below is not enough. -/
theorem IndirectBlockType.under_eq_span {lower upper : IndirectBlockType}
    (next : upper.toNat = lower.toNat + 1) : upper.under = lower.span := by
  cases lower <;> cases upper <;> first | rfl | cases next

/-- A node has as many nodes of the level below as it has entries. -/
theorem IndirectBlockType.span_eq_mul {lower upper : IndirectBlockType}
    (next : upper.toNat = lower.toNat + 1) : upper.span = lower.span * indirectLen := by
  cases lower <;> cases upper <;> first | rfl | cases next

/-- One full node of a level holds more than does without the level. -/
theorem IndirectBlockType.under_lt_span (level : IndirectBlockType) :
    level.under < level.span := by
  cases level <;> decide

/-- Nodes of a level: none while the levels below do, and then as many as the bytes past the
direct blocks need. -/
theorem typeCount_eq (bound : size ≤ l4Max) (level : IndirectBlockType) :
    (indexBlocks size).typeCount level =
      if level.under < size - directMax then (size - directMax) ⌈/⌉ level.span else 0 := by
  obtain ⟨direct, table, tableMax, directory, directoryMax, l3, l3Max, l4Max⟩ := levelConstants
  have top : l4IndirectMax = 8065516032 := by decide
  rw [l4Max] at bound
  unfold indexBlocks
  simp only [Nat.ceilDiv_eq_add_pred_div, indirectSize_eq, IndirectBlockType.span,
    IndirectBlockType.under, direct, table, tableMax, directory, directoryMax, l3, l3Max, top]
  cases level <;> simp only [LevelInfo.typeCount] <;> split_ifs <;>
    (try dsimp only) <;> omega

/-- Rounding up twice is rounding up once. -/
theorem ceilDiv_ceilDiv {inner outer : Nat} (innerPos : 0 < inner) (outerPos : 0 < outer) :
    (number ⌈/⌉ inner) ⌈/⌉ outer = number ⌈/⌉ (inner * outer) := by
  refine eq_of_forall_ge_iff fun bound => ?_
  rw [ceilDiv_le_iff_le_mul outerPos, ceilDiv_le_iff_le_mul innerPos,
    ceilDiv_le_iff_le_mul (Nat.mul_pos innerPos outerPos), mul_assoc]

/-- More than one node is needed once one is not enough. -/
theorem one_lt_ceilDiv {span : Nat} (positive : 0 < span) :
    1 < number ⌈/⌉ span ↔ span < number := by
  rw [← not_le, ceilDiv_le_iff_le_mul positive, mul_one, not_le]

/-- A node is needed once there is something. -/
theorem ceilDiv_ne_zero {span : Nat} (positive : 0 < span) : number ⌈/⌉ span ≠ 0 ↔ 0 < number := by
  rw [← Nat.pos_iff_ne_zero, ← not_le, ceilDiv_le_iff_le_mul positive, mul_zero, not_le]

/-- The least tree for a size: as many block tables as the data blocks past the direct ones fill,
and one more level exactly when the level below has more than one node. -/
structure LevelInfo.Minimal (info : LevelInfo) (size : Nat) : Prop where
  /-- Block tables for the bytes past the direct blocks. -/
  table : info.blockTable = (size - directMax) ⌈/⌉ (indirectLen * blockSize)
  /-- A level that is there has as few nodes as hold the level below. -/
  nodes : ∀ lower upper : IndirectBlockType, upper.toNat = lower.toNat + 1 →
    info.typeCount upper ≠ 0 → info.typeCount upper = info.typeCount lower ⌈/⌉ indirectLen
  /-- A level is there when the level below has more than one node. -/
  present : ∀ lower upper : IndirectBlockType, upper.toNat = lower.toNat + 1 →
    (info.typeCount upper ≠ 0 ↔ 1 < info.typeCount lower)
  /-- The root is of the topmost level that is there. -/
  root : ∀ level : IndirectBlockType, info.rootLevel = some level ↔
    info.typeCount level ≠ 0 ∧ ∀ above, level.toNat < above.toNat → info.typeCount above = 0
  /-- The root is the only node of its level. -/
  single : ∀ level : IndirectBlockType, info.rootLevel = some level → info.typeCount level = 1
  /-- The direct blocks and the tables have room for the data blocks. -/
  data : directMax < size → dataBlocks size ≤ directCount + indirectLen * info.blockTable

/-- The topmost level of a plan is a single node, the one that `root_level` reports. -/
theorem LevelInfo.rootLevel_eq_some_iff {info : LevelInfo} (top : info.l4 ≤ 1)
    (present : ∀ lower upper : IndirectBlockType, upper.toNat = lower.toNat + 1 →
      (info.typeCount upper ≠ 0 ↔ 1 < info.typeCount lower)) (level : IndirectBlockType) :
    (info.rootLevel = some level ↔ info.typeCount level ≠ 0 ∧
      ∀ above, level.toNat < above.toNat → info.typeCount above = 0) ∧
    (info.rootLevel = some level → info.typeCount level = 1) := by
  have directory : info.blockDirectory ≠ 0 ↔ 1 < info.blockTable :=
    present .blockTable .blockDirectory rfl
  have third : info.l3 ≠ 0 ↔ 1 < info.blockDirectory := present .blockDirectory .l3 rfl
  have fourth : info.l4 ≠ 0 ↔ 1 < info.l3 := present .l3 .l4 rfl
  have above : (∀ above : IndirectBlockType, level.toNat < above.toNat →
      info.typeCount above = 0) ↔ (level.toNat < 1 → info.blockDirectory = 0) ∧
        (level.toNat < 2 → info.l3 = 0) ∧ (level.toNat < 3 → info.l4 = 0) := by
    constructor
    · intro none
      exact ⟨none .blockDirectory, none .l3, none .l4⟩
    · rintro ⟨second, third, fourth⟩ level higher
      cases level with
      | blockTable => cases higher
      | blockDirectory => exact second higher
      | l3 => exact third higher
      | l4 => exact fourth higher
  rw [above]
  unfold rootLevel
  cases level <;> simp only [typeCount, IndirectBlockType.toNat] <;> split_ifs <;> simp <;> omega

/-- The plan of every size up to `L4_MAX` is the least tree. -/
theorem indexBlocks_minimal (bound : size ≤ l4Max) : (indexBlocks size).Minimal size := by
  have counts := typeCount_eq bound
  have positive : ∀ level : IndirectBlockType, 0 < level.span :=
    fun level => (Nat.zero_le _).trans_lt level.under_lt_span
  have present : ∀ lower upper : IndirectBlockType, upper.toNat = lower.toNat + 1 →
      ((indexBlocks size).typeCount upper ≠ 0 ↔ 1 < (indexBlocks size).typeCount lower) := by
    intro lower upper next
    have above := lower.under_lt_span
    rw [counts, counts, IndirectBlockType.under_eq_span next]
    by_cases exceeds : lower.span < size - directMax
    · rw [if_pos exceeds, if_pos (above.trans exceeds), ceilDiv_ne_zero (positive upper),
        one_lt_ceilDiv (positive lower)]
      omega
    · have small : ¬1 < (size - directMax) ⌈/⌉ lower.span :=
        mt (one_lt_ceilDiv (positive lower)).mp exceeds
      rw [if_neg exceeds]
      split_ifs <;> simp [small]
  have top := indexBlocks_single size
  refine ⟨?_, ?_, present, fun level => (LevelInfo.rootLevel_eq_some_iff top present level).1,
    fun level => (LevelInfo.rootLevel_eq_some_iff top present level).2, ?_⟩
  · have table := counts .blockTable
    rw [IndirectBlockType.under] at table
    refine table.trans ?_
    split_ifs with some
    · rfl
    · rw [Nat.eq_zero_of_not_pos some, zero_ceilDiv]
  · intro lower upper next there
    have exceeds : lower.span < size - directMax := by
      rw [counts, IndirectBlockType.under_eq_span next] at there
      by_contra under
      exact there (if_neg under)
    rw [counts, counts, if_pos (lower.under_lt_span.trans exceeds),
      IndirectBlockType.under_eq_span next, if_pos exceeds, IndirectBlockType.span_eq_mul next,
      ceilDiv_ceilDiv (positive lower) (by decide)]
  · intro large
    cases indexBlocks_shape bound with
    | direct small => omega
    | blockTable _ _ _ _ _ data => exact data
    | blockDirectory _ _ _ _ _ data => exact data
    | l3 _ _ _ _ _ data => exact data
    | l4 _ _ _ _ _ data => exact data

/-- A larger file has no fewer nodes of any level. -/
theorem typeCount_mono (order : small ≤ large) (bound : large ≤ l4Max) (level : IndirectBlockType) :
    (indexBlocks small).typeCount level ≤ (indexBlocks large).typeCount level := by
  have rest : small - directMax ≤ large - directMax := Nat.sub_le_sub_right order directMax
  have positive : 0 < level.span := (Nat.zero_le _).trans_lt level.under_lt_span
  have nodes : (small - directMax) ⌈/⌉ level.span ≤ (large - directMax) ⌈/⌉ level.span :=
    (gc_mul_ceilDiv positive).monotone_l rest
  rw [typeCount_eq (order.trans bound), typeCount_eq bound]
  split_ifs <;> omega

end Canyon.Fs
