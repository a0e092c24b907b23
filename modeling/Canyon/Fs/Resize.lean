import Canyon.Fs.Laid

/-!
# Resize runs

A `Meta` that is extended, shrunk and cleared any number of times, over a block cache, always
holds the blocks it should: `resize_keeps_blocks` describes every state of such a run and
every next step.
-/

namespace Canyon.Fs

open Canyon.Lib

/-- Blocks handed to `extend`: as many as the new size needs, all different, and none of them
zero, in the tree already or off the device. -/
structure Fresh (record : Meta) (memory : Memory) (newSize : Nat) (newData newIndex : List Nat) :
    Prop where
  /-- The file grows. -/
  grows : record.size ≤ newSize
  /-- The tree can describe the new size. -/
  bound : newSize ≤ l4Max
  /-- Data blocks for the growth. -/
  dataCount : newData.length = dataBlocks newSize - dataBlocks record.size
  /-- Index blocks for the growth. -/
  indexCount : newIndex.length =
    (indexBlocks newSize).indexBlockCount - (indexBlocks record.size).indexBlockCount
  /-- No id comes twice, and none is in the tree. -/
  distinct : ∀ index data after, record.blocks.exec memory = .ok (index, data) after →
    (index ++ newIndex ++ (data ++ newData)).Nodup
  /-- No id is zero. -/
  nonzero : ∀ id ∈ newIndex ++ newData, id ≠ 0
  /-- Every id is a block of the device. -/
  onDevice : ∀ id ∈ newIndex ++ newData, id < memory.manager.device.totalBlocks

/-- States of a run of resizes over a cache, from a freshly initialised `Meta`. -/
inductive Resized : Meta → Memory → Prop where
  /-- `Meta::init`, whatever the cache has been through before. -/
  | init {device : Disk} {manager : CacheManager} {contents : Nat → Block} (type : InodeType)
      (name : NameBytes) (wide : manager.device.totalBlocks ≤ 2 ^ 64)
      (reached : manager.Reached device contents) (idle : manager.handles = []) :
      Resized (Meta.init type name) (Memory.idle manager)
  /-- A call of `blocks`. -/
  | blocks {record : Meta} {memory final : Memory} {found : List Nat × List Nat}
      (before : Resized record memory) (ran : record.blocks.exec memory = .ok found final) :
      Resized record final
  /-- An `extend` with fresh blocks. -/
  | extend {record resized : Meta} {memory final : Memory} {newSize : Nat}
      {newData newIndex : List Nat} (before : Resized record memory)
      (fresh : Fresh record memory newSize newData newIndex)
      (ran : (record.extend newSize (indexBlocks newSize) newData newIndex).exec memory =
        .ok resized final) : Resized resized final
  /-- A `shrink`. -/
  | shrink {record resized : Meta} {memory final : Memory} {newSize : Nat}
      {dropped : List Nat × List Nat} (before : Resized record memory)
      (shrinks : newSize ≤ record.size)
      (ran : (record.shrink newSize).exec memory = .ok (dropped, resized) final) :
      Resized resized final
  /-- A `clear_size`. -/
  | clearSize {record resized : Meta} {memory final : Memory} {dropped : List Nat}
      (before : Resized record memory)
      (ran : record.clearSize.exec memory = .ok (dropped, resized) final) :
      Resized resized final

/-- A `Meta` over an idle cache, with the blocks of its tree. -/
structure Stored (record : Meta) (memory : Memory) (index data : List Nat) : Prop where
  /-- The cache stands for contents in which the tree is laid out. -/
  laid : ∃ contents, memory.Holding [] contents ∧ record.Laid contents index data
  /-- The blocks are on the device. -/
  onDevice : ∀ id ∈ index ++ data, id < memory.manager.device.totalBlocks
  /-- Block numbers of the device are `u64`s. -/
  wide : memory.manager.device.totalBlocks ≤ 2 ^ 64
  /-- The tree can describe the size. -/
  bound : record.size ≤ l4Max

/-- A size that the tree can describe is a `u64`. -/
theorem lt_of_bound {size : Nat} (bound : size ≤ l4Max) : size < 2 ^ 64 := by
  obtain ⟨-, -, -, -, -, -, -, l4Max⟩ := levelConstants
  omega

namespace Stored

variable {record : Meta} {memory : Memory} {index data : List Nat}

/-- Index blocks may be asked for while nothing is held. -/
theorem free (stored : Stored record memory index data) :
    ∀ id ∈ index, (Prog.deviceRules memory.manager.device.totalBlocks).Valid id ∧
      id ∉ ([] : List Nat) :=
  fun id idIn => ⟨stored.onDevice id (List.mem_append_left _ idIn), List.not_mem_nil⟩

/-- `blocks` returns the blocks of the tree. -/
theorem blocks (stored : Stored record memory index data) :
    ∃ final, record.blocks.exec memory = .ok (index, data) final ∧
      Stored record final index data := by
  obtain ⟨contents, holding, laid⟩ := stored.laid
  have reads : record.blocks.wp (Prog.deviceRules memory.manager.device.totalBlocks) []
      (fun found after => contents = after ∧ (index, data) = found) (fun _ _ => False) contents :=
    laid.wp_blocks record.size stored.free (show 4 ≤ 5 by decide) ⟨rfl, rfl⟩
  obtain ⟨_, final, _, ran, finalHolding, total, rfl, rfl⟩ := Prog.returns_of_wp holding reads
  exact ⟨final, ran, ⟨contents, finalHolding, laid⟩, total ▸ stored.onDevice, total ▸ stored.wide,
    stored.bound⟩

/-- `extend` with fresh blocks returns, and appends them. -/
theorem extend (stored : Stored record memory index data) {newSize : Nat}
    {newData newIndex : List Nat} (fresh : Fresh record memory newSize newData newIndex) :
    ∃ resized final, (record.extend newSize (indexBlocks newSize) newData newIndex).exec memory =
        .ok resized final ∧ resized.size = newSize ∧
      Stored resized final (sortIds (index ++ newIndex)) (data ++ newData) := by
  obtain ⟨contents, holding, laid⟩ := stored.laid
  obtain ⟨unchanged, read, -⟩ := stored.blocks
  have distinct := fresh.distinct index data unchanged read
  have newSmall : ∀ id ∈ newIndex ++ newData, id ≠ 0 ∧ id < 2 ^ 64 := fun id idIn =>
    ⟨fresh.nonzero id idIn, Nat.lt_of_lt_of_le (fresh.onDevice id idIn) stored.wide⟩
  have allOn : ∀ id ∈ index ++ newIndex ++ (data ++ newData),
      id < memory.manager.device.totalBlocks := by
    intro id idIn
    simp only [List.mem_append] at idIn
    by_cases old : id ∈ index ++ data
    · exact stored.onDevice id old
    · rw [List.mem_append] at old
      exact fresh.onDevice id (List.mem_append.mpr (by tauto))
  have wide : newSize < 2 ^ 64 := lt_of_bound fresh.bound
  have planned := laid.planned stored.bound
  have moreData := dataBlocks_mono fresh.grows
  have moreIndex := indexBlockCount_mono fresh.grows
  have indexLength : (index ++ newIndex).length = (indexBlocks newSize).indexBlockCount := by
    rw [List.length_append, planned.1, fresh.indexCount]
    omega
  have dataLength : (data ++ newData).length = dataBlocks newSize := by
    rw [List.length_append, planned.2, fresh.dataCount]
    omega
  have appends : (record.extend newSize (indexBlocks newSize) newData newIndex).wp
      (Prog.deviceRules memory.manager.device.totalBlocks) []
      (fun resized after => resized.size = newSize ∧
        resized.Laid after (sortIds (index ++ newIndex)) (data ++ newData))
      (fun _ _ => False) contents :=
    laid.wp_extend fresh.grows wide fresh.dataCount fresh.indexCount distinct newSmall
      (fun id idIn => ⟨allOn id (List.mem_append_left _ idIn), List.not_mem_nil⟩)
      (fun large => absurd stored.bound (Nat.not_le_of_lt large)) (show 4 ≤ 5 by decide)
      (fun _ _ _ _ forwarded laid => by
        obtain ⟨rfl, rfl⟩ := forwarded.exact fresh.bound indexLength dataLength
        exact ⟨forwarded.size, laid⟩)
  obtain ⟨resized, final, after, ran, finalHolding, total, size, laidAfter⟩ :=
    Prog.returns_of_wp holding appends
  refine ⟨resized, final, ran, size, ⟨after, finalHolding, laidAfter⟩, ?_, total ▸ stored.wide,
    size ▸ fresh.bound⟩
  intro id idIn
  rw [total]
  exact allOn id (((sortIds_perm _).append_right _).mem_iff.mp idIn)

/-- `shrink` returns, keeps a prefix of the data blocks and gives back all others. -/
theorem shrink (stored : Stored record memory index data) {newSize : Nat}
    (shrinks : newSize ≤ record.size) :
    ∃ resized final, (record.shrink newSize).exec memory =
        .ok (((index.drop (indexBlocks newSize).indexBlockCount).reverse,
          (data.drop (dataBlocks newSize)).reverse), resized) final ∧ resized.size = newSize ∧
      Stored resized final (sortIds (index.take (indexBlocks newSize).indexBlockCount))
        (data.take (dataBlocks newSize)) := by
  obtain ⟨contents, holding, laid⟩ := stored.laid
  obtain ⟨indexEq, dataEq⟩ := laid.left_of_bound shrinks stored.bound
  obtain ⟨indexLength, dataLength⟩ := laid.planned stored.bound
  have fewerData := dataBlocks_mono shrinks
  have fewerIndex := indexBlockCount_mono shrinks
  have keptIndex : (index.take (indexBlocks newSize).indexBlockCount).length =
      (indexBlocks newSize).indexBlockCount := by
    rw [List.length_take]
    omega
  have keptData : (data.take (dataBlocks newSize)).length = dataBlocks newSize := by
    rw [List.length_take]
    omega
  have keeps : (record.shrink newSize).wp
      (Prog.deviceRules memory.manager.device.totalBlocks) []
      (fun found after => ((index.drop (indexBlocks newSize).indexBlockCount).reverse,
          (data.drop (dataBlocks newSize)).reverse) = found.1 ∧ found.2.size = newSize ∧
        found.2.Laid after (sortIds (index.take (indexBlocks newSize).indexBlockCount))
          (data.take (dataBlocks newSize)))
      (fun _ _ => False) contents :=
    laid.wp_shrink shrinks (lt_of_bound (Nat.le_trans shrinks stored.bound)) (.inl stored.bound)
      stored.free (fun large => absurd stored.bound (Nat.not_le_of_lt large))
      (show 4 ≤ 5 by decide) (fun _ _ _ _ forwarded laid => by
        rw [indexEq, dataEq] at forwarded ⊢
        obtain ⟨rfl, rfl⟩ :=
          forwarded.exact (Nat.le_trans shrinks stored.bound) keptIndex keptData
        exact ⟨rfl, forwarded.size, laid⟩)
  obtain ⟨⟨_, resized⟩, final, after, ran, finalHolding, total, rfl, size, laidAfter⟩ :=
    Prog.returns_of_wp holding keeps
  refine ⟨resized, final, ran, size, ⟨after, finalHolding, laidAfter⟩, ?_, total ▸ stored.wide,
    size ▸ Nat.le_trans shrinks stored.bound⟩
  have kept : (index.take (indexBlocks newSize).indexBlockCount ++
      data.take (dataBlocks newSize)).Sublist (index ++ data) :=
    (List.take_sublist _ _).append (List.take_sublist _ _)
  intro id idIn
  rw [total]
  exact stored.onDevice id
    (kept.subset (((sortIds_perm _).append_right _).mem_iff.mp idIn))

/-- `clear_size` returns, and gives back every block. -/
theorem clearSize (stored : Stored record memory index data) :
    ∃ final, record.clearSize.exec memory =
        .ok (index ++ data, Meta.init record.type record.name) final ∧
      Stored (Meta.init record.type record.name) final [] [] := by
  obtain ⟨contents, holding, laid⟩ := stored.laid
  have clears : record.clearSize.wp (Prog.deviceRules memory.manager.device.totalBlocks) []
      (fun found _ => (index ++ data, Meta.init record.type record.name) = found)
      (fun _ _ => False) contents :=
    laid.wp_clearSize stored.free (show 4 ≤ 5 by decide) rfl
  obtain ⟨_, final, after, ran, finalHolding, total, rfl⟩ := Prog.returns_of_wp holding clears
  exact ⟨final, ran, ⟨after, finalHolding, Meta.Laid.init after record.type record.name⟩,
    by simp, total ▸ stored.wide, Nat.zero_le _⟩

end Stored

/-- In every state of a run of resizes, the tree of the `Meta` is laid out in the cache. -/
theorem Resized.stored {record : Meta} {memory : Memory} (reached : Resized record memory) :
    ∃ index data, Stored record memory index data := by
  induction reached with
  | @init device manager contents type name wide reached idle =>
    exact ⟨[], [], ⟨contents, .idle reached.coherent idle, .init contents type name⟩,
      by simp, wide, Nat.zero_le _⟩
  | blocks before ran ih =>
    obtain ⟨index, data, stored⟩ := ih
    obtain ⟨final, returned, kept⟩ := stored.blocks
    rw [returned] at ran
    cases ran
    exact ⟨index, data, kept⟩
  | extend before fresh ran ih =>
    obtain ⟨index, data, stored⟩ := ih
    obtain ⟨resized, final, returned, -, kept⟩ := stored.extend fresh
    rw [returned] at ran
    cases ran
    exact ⟨_, _, kept⟩
  | shrink before shrinks ran ih =>
    obtain ⟨index, data, stored⟩ := ih
    obtain ⟨resized, final, returned, -, kept⟩ := stored.shrink shrinks
    rw [returned] at ran
    cases ran
    exact ⟨_, _, kept⟩
  | clearSize before ran ih =>
    obtain ⟨index, data, stored⟩ := ih
    obtain ⟨final, returned, kept⟩ := stored.clearSize
    rw [returned] at ran
    cases ran
    exact ⟨_, _, kept⟩

/-- In every state of a run of resizes, `blocks` returns as many different index blocks and data
blocks as the size needs, and every next resize returns: `extend` appends its blocks to the
list, `shrink` keeps the planned prefix of it and gives back the rest, and `clear_size` gives
back everything. No block is lost, and none comes twice. -/
theorem resize_keeps_blocks {record : Meta} {memory : Memory} (reached : Resized record memory) :
    ∃ index data after, record.blocks.exec memory = .ok (index, data) after ∧
      index.length = (indexBlocks record.size).indexBlockCount ∧
      data.length = dataBlocks record.size ∧ (index ++ data).Nodup ∧
      (∀ newSize newData newIndex, Fresh record memory newSize newData newIndex →
        ∃ resized final indexAfter after,
          (record.extend newSize (indexBlocks newSize) newData newIndex).exec memory =
            .ok resized final ∧ resized.size = newSize ∧
          resized.blocks.exec final = .ok (indexAfter, data ++ newData) after ∧
          indexAfter.Perm (index ++ newIndex)) ∧
      (∀ newSize ≤ record.size, ∃ droppedIndex droppedData resized final indexAfter after,
          (record.shrink newSize).exec memory =
            .ok ((droppedIndex, droppedData), resized) final ∧ resized.size = newSize ∧
          resized.blocks.exec final =
            .ok (indexAfter, data.take (dataBlocks newSize)) after ∧
          indexAfter.length = (indexBlocks newSize).indexBlockCount ∧
          (indexAfter ++ droppedIndex).Perm index ∧
          data.take (dataBlocks newSize) ++ droppedData.reverse = data) ∧
      ∃ ids resized final after, record.clearSize.exec memory = .ok (ids, resized) final ∧
        resized.size = 0 ∧ ids.Perm (index ++ data) ∧
        resized.blocks.exec final = .ok ([], []) after := by
  obtain ⟨index, data, stored⟩ := reached.stored
  obtain ⟨after, read, -⟩ := stored.blocks
  obtain ⟨_, -, laid⟩ := stored.laid
  obtain ⟨indexLength, dataLength⟩ := laid.planned stored.bound
  refine ⟨index, data, after, read, indexLength, dataLength, laid.distinct, ?_, ?_, ?_⟩
  · intro newSize newData newIndex fresh
    obtain ⟨resized, final, ran, size, kept⟩ := stored.extend fresh
    obtain ⟨after, readAfter, -⟩ := kept.blocks
    exact ⟨resized, final, _, after, ran, size, readAfter, sortIds_perm _⟩
  · intro newSize shrinks
    obtain ⟨resized, final, ran, size, kept⟩ := stored.shrink shrinks
    obtain ⟨after, readAfter, -⟩ := kept.blocks
    obtain ⟨_, -, laidAfter⟩ := kept.laid
    refine ⟨_, _, resized, final, _, after, ran, size, readAfter,
      size ▸ (laidAfter.planned kept.bound).1, ?_, ?_⟩
    · have whole := List.take_append_drop (indexBlocks newSize).indexBlockCount index
      have parts := (sortIds_perm (index.take (indexBlocks newSize).indexBlockCount)).append
        (List.reverse_perm (index.drop (indexBlocks newSize).indexBlockCount))
      rwa [whole] at parts
    · rw [List.reverse_reverse, List.take_append_drop]
  · obtain ⟨final, ran, kept⟩ := stored.clearSize
    obtain ⟨after, readAfter, -⟩ := kept.blocks
    exact ⟨_, _, final, after, ran, rfl, List.Perm.refl _, readAfter⟩

/-- A run on a device of four blocks: a file is extended to 600 bytes with blocks 3 and 1. -/
theorem resize_keeps_blocks_extended :
    ∃ record memory index after, Resized record memory ∧ record.size = 600 ∧
      record.blocks.exec memory = .ok (index, [3, 1]) after := by
  have started : Resized (Meta.init .file (Vector.replicate _ 0))
      (Memory.idle (CacheManager.new (Disk.new 4))) :=
    .init .file _ (show 4 ≤ 2 ^ 64 by decide) .new rfl
  have none : (Meta.init .file (Vector.replicate _ 0)).blocks = .pure ([], []) := by
    simp [Meta.blocks, Meta.init, Meta.directIds, present, sortIds, Vector.toList_replicate]
  have fresh : Fresh (Meta.init .file (Vector.replicate _ 0))
      (Memory.idle (CacheManager.new (Disk.new 4))) 600 [3, 1] [] := by
    refine ⟨by decide, by decide, by decide, by decide, ?_, by decide, by decide⟩
    intro index data after read
    rw [none] at read
    cases read
    decide
  obtain ⟨_, _, _, read, -, -, -, grows, -⟩ := resize_keeps_blocks started
  rw [none] at read
  cases read
  obtain ⟨resized, final, index, after, ran, size, readAfter, -⟩ := grows 600 [3, 1] [] fresh
  exact ⟨resized, final, index, after, .extend started fresh ran, size, readAfter⟩

end Canyon.Fs
