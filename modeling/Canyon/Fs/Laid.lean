import Canyon.Fs.TreeLayout

/-!
# Files laid out on the device

`Meta.Laid` is the invariant of a file: its tree holds its blocks, and as many as planned
while the tree can describe its size. `extend`, `shrink` and `clear_size` keep it.
-/

namespace Canyon.Fs

open Canyon.Lib

/-- The invariant of a file's `Meta`: its tree holds these index blocks and data blocks, all
different, and as many as the plan says while the tree can describe the size. -/
structure Meta.Laid (record : Meta) (store : Nat → Block) (index data : List Nat) : Prop where
  /-- The tree holds the blocks. -/
  tree : BlockTree store record index data
  /-- No block is in the tree twice. -/
  distinct : (index ++ data).Nodup
  /-- Block numbers are non-zero `u64`s. -/
  small : ∀ id ∈ index ++ data, id ≠ 0 ∧ id < 2 ^ 64
  /-- Blocks are as many as planned. -/
  planned : record.size ≤ l4Max →
    index.length = (indexBlocks record.size).indexBlockCount ∧
      data.length = dataBlocks record.size

/-- Popping no more ids than there are cannot fail: it takes a suffix, last id first. -/
theorem popMany_eq {count : Nat} {ids : List Nat} (enough : count ≤ ids.length)
    (collected : List Nat) :
    popMany count ids collected = .pure (ids.take (ids.length - count),
      collected ++ (ids.drop (ids.length - count)).reverse) := by
  induction count generalizing ids collected with
  | zero => simp [popMany]
  | succ count ih =>
    rcases List.eq_nil_or_concat' ids with rfl | ⟨front, last, rfl⟩
    · simp at enough
    · have fewer : count ≤ front.length := by simpa using enough
      have cut : (front ++ [last]).length - (count + 1) = front.length - count := by
        simp only [List.length_append, List.length_singleton]
        omega
      rw [popMany, List.getLast?_concat]
      simp only [List.dropLast_concat, ih fewer, cut]
      rw [List.take_append_of_le_length (by omega), List.drop_append_of_le_length (by omega)]
      simp

/-- What `forward` leaves is laid out. -/
theorem Forwarded.laid {record laid : Meta} {index data indexAfter dataAfter : List Nat}
    {store after : Nat → Block}
    (forwarded : Forwarded record index data store laid after indexAfter dataAfter)
    (distinct : (index ++ data).Nodup) (small : ∀ id ∈ index ++ data, id ≠ 0 ∧ id < 2 ^ 64)
    (planned : record.size ≤ l4Max →
      index.length = (indexBlocks record.size).indexBlockCount ∧
        data.length = dataBlocks record.size) :
    laid.Laid after (sortIds indexAfter) dataAfter := by
  have kept := forwarded.indexPart.append forwarded.dataPart
  have sorted := (sortIds_perm indexAfter).append_right dataAfter
  refine ⟨forwarded.tree, sorted.nodup_iff.mpr (distinct.sublist kept),
    fun id idIn => small id (kept.subset (sorted.mem_iff.mp idIn)), fun bound => ?_⟩
  rw [forwarded.size] at bound ⊢
  obtain ⟨indexLength, dataLength⟩ := planned bound
  obtain ⟨rfl, rfl⟩ := forwarded.exact bound indexLength dataLength
  exact ⟨(sortIds_perm indexAfter).length_eq.trans indexLength, dataLength⟩

namespace Meta.Laid

variable {store after : Nat → Block} {record : Meta} {index data : List Nat}
  {rules : Scoped.Discipline Nat} {held : List Nat} {failed : Panic → (Nat → Block) → Prop}

/-- A freshly initialised `Meta` has no blocks. -/
theorem init (store : Nat → Block) (type : InodeType) (name : NameBytes) :
    (Meta.init type name).Laid store [] [] := by
  have none : (Meta.init type name).directIds = [] := by
    simp [Meta.init, Meta.directIds, present, Vector.toList_replicate]
  refine ⟨none ▸ .direct rfl, List.nodup_nil, by simp, fun _ => ⟨rfl, ?_⟩⟩
  show 0 = dataBlocks 0
  decide

/-- The invariant depends on the index blocks only. -/
theorem congr (laid : record.Laid store index data) (same : ∀ id ∈ index, after id = store id) :
    record.Laid after index data :=
  { laid with tree := laid.tree.congr same }

/-- `blocks` returns the blocks of the invariant, whatever size the `Meta` has. -/
theorem wp_blocks (laid : record.Laid store index data) (size : Nat)
    {post : List Nat × List Nat → (Nat → Block) → Prop}
    (free : ∀ id ∈ index, rules.Valid id ∧ id ∉ held) (room : held.length + 4 ≤ rules.limit)
    (goal : post (index, data) store) :
    { record with size }.blocks.wp rules held post failed store := by
  have read : record.blocks.wp rules held post failed store :=
    Fs.wp_blocks laid.tree (List.nodup_append.mp laid.distinct).1 free room goal
  exact read

/-- `extend` lays out the file with the new blocks after the old ones. -/
theorem wp_extend (laid : record.Laid store index data) {newSize : Nat}
    {newData newIndex : List Nat} {post : Meta → (Nat → Block) → Prop}
    (grows : record.size ≤ newSize) (wide : newSize < 2 ^ 64)
    (dataCount : newData.length = dataBlocks newSize - dataBlocks record.size)
    (indexCount : newIndex.length = (indexBlocks newSize).indexBlockCount -
      (indexBlocks record.size).indexBlockCount)
    (fresh : (index ++ newIndex ++ (data ++ newData)).Nodup)
    (small : ∀ id ∈ newIndex ++ newData, id ≠ 0 ∧ id < 2 ^ 64)
    (free : ∀ id ∈ index ++ newIndex, rules.Valid id ∧ id ∉ held)
    (zero : l4Max < record.size → rules.Valid 0 ∧ 0 ∉ held)
    (room : held.length + 4 ≤ rules.limit)
    (goal : ∀ resized after indexAfter dataAfter,
      Forwarded { record with size := newSize } (index ++ newIndex) (data ++ newData) store
        resized after indexAfter dataAfter →
      resized.Laid after (sortIds indexAfter) dataAfter → post resized after) :
    (record.extend newSize (indexBlocks newSize) newData newIndex).wp rules held post failed
      store := by
  have moreData := dataBlocks_mono grows
  have moreIndex := indexBlockCount_mono grows
  have allSmall : ∀ id ∈ (index ++ newIndex) ++ (data ++ newData), id ≠ 0 ∧ id < 2 ^ 64 := by
    intro id idIn
    simp only [List.mem_append] at idIn
    by_cases old : id ∈ index ++ data
    · exact laid.small id old
    · rw [List.mem_append] at old
      exact small id (List.mem_append.mpr (by tauto))
  have lengths : record.size ≤ l4Max →
      (index ++ newIndex).length = (indexBlocks newSize).indexBlockCount ∧
        (data ++ newData).length = dataBlocks newSize := by
    intro bound
    obtain ⟨indexLength, dataLength⟩ := laid.planned bound
    rw [List.length_append, List.length_append, indexLength, dataLength]
    omega
  simp only [Meta.extend, ge_iff_le, grows, ↓reduceIte, Scoped.bind_eq]
  refine Scoped.wp_bind.mpr (laid.wp_blocks newSize
    (fun id idIn => free id (List.mem_append_left _ idIn)) room ?_)
  refine wp_forward wide (List.nodup_append.mp fresh).1 free ?_ (by omega) allSmall ?_
  · intro short
    refine zero (Nat.lt_of_not_le fun bound => ?_)
    have enough := (lengths bound).1
    exact absurd enough (Nat.ne_of_lt short)
  · intro resized after indexAfter dataAfter forwarded
    exact goal resized after indexAfter dataAfter forwarded
      (forwarded.laid fresh allSmall fun bound => lengths (Nat.le_trans grows bound))

/-- Index blocks left by a shrink. -/
def indexLeft (oldSize newSize : Nat) (index : List Nat) : Nat :=
  index.length - ((indexBlocks oldSize).indexBlockCount - (indexBlocks newSize).indexBlockCount)

/-- Data blocks left by a shrink. -/
def dataLeft (oldSize newSize : Nat) (data : List Nat) : Nat :=
  data.length - (dataBlocks oldSize - dataBlocks newSize)

/-- A shrink that the tree can describe leaves as many blocks as planned. -/
theorem left_of_bound (laid : record.Laid store index data) {newSize : Nat}
    (shrinks : newSize ≤ record.size) (bound : record.size ≤ l4Max) :
    indexLeft record.size newSize index = (indexBlocks newSize).indexBlockCount ∧
      dataLeft record.size newSize data = dataBlocks newSize := by
  have fewerData := dataBlocks_mono shrinks
  have fewerIndex := indexBlockCount_mono shrinks
  obtain ⟨indexLength, dataLength⟩ := laid.planned bound
  rw [indexLeft, dataLeft, indexLength, dataLength]
  omega

/-- A shrink within the last block leaves all blocks. -/
theorem left_of_same {oldSize newSize : Nat} (same : dataBlocks newSize = dataBlocks oldSize)
    (index data : List Nat) :
    indexLeft oldSize newSize index = index.length ∧
      dataLeft oldSize newSize data = data.length := by
  have sameIndex := indexBlockCount_congr same
  rw [indexLeft, dataLeft]
  omega

/-- `shrink` lays out the file with a prefix of its data blocks and of its index blocks, and
returns the rest of both, last block first. None of its pops and subtractions fails. -/
theorem wp_shrink (laid : record.Laid store index data) {newSize : Nat}
    {post : (List Nat × List Nat) × Meta → (Nat → Block) → Prop} (shrinks : newSize ≤ record.size)
    (wide : newSize < 2 ^ 64)
    (enough : record.size ≤ l4Max ∨ dataBlocks newSize = dataBlocks record.size)
    (free : ∀ id ∈ index, rules.Valid id ∧ id ∉ held)
    (zero : l4Max < record.size → rules.Valid 0 ∧ 0 ∉ held)
    (room : held.length + 4 ≤ rules.limit)
    (goal : ∀ resized after indexAfter dataAfter,
      Forwarded { record with size := newSize }
        (index.take (indexLeft record.size newSize index))
        (data.take (dataLeft record.size newSize data)) store resized after
        indexAfter dataAfter →
      resized.Laid after (sortIds indexAfter) dataAfter →
      post (((index.drop (indexLeft record.size newSize index)).reverse,
        (data.drop (dataLeft record.size newSize data)).reverse), resized) after) :
    (record.shrink newSize).wp rules held post failed store := by
  have fewerData := dataBlocks_mono shrinks
  have fewerIndex := indexBlockCount_mono shrinks
  have pops : (indexBlocks record.size).indexBlockCount - (indexBlocks newSize).indexBlockCount ≤
      index.length ∧ dataBlocks record.size - dataBlocks newSize ≤ data.length := by
    rcases enough with bound | same
    · obtain ⟨indexLength, dataLength⟩ := laid.planned bound
      omega
    · have sameIndex := indexBlockCount_congr same
      omega
  have lengths : record.size ≤ l4Max →
      (index.take (indexLeft record.size newSize index)).length =
        (indexBlocks newSize).indexBlockCount ∧
      (data.take (dataLeft record.size newSize data)).length = dataBlocks newSize := by
    intro bound
    obtain ⟨indexLength, dataLength⟩ := laid.planned bound
    obtain ⟨indexEq, dataEq⟩ := laid.left_of_bound shrinks bound
    rw [List.length_take, List.length_take, indexEq, dataEq]
    omega
  have bounded : newSize ≤ l4Max → record.size ≤ l4Max := by
    intro newBound
    rcases enough with bound | same
    · exact bound
    · obtain ⟨-, -, -, -, -, -, -, l4Max⟩ := levelConstants
      simp only [dataBlocks, blockSize] at same
      omega
  have kept : (index.take (indexLeft record.size newSize index) ++
      data.take (dataLeft record.size newSize data)).Sublist (index ++ data) :=
    (List.take_sublist _ _).append (List.take_sublist _ _)
  have keptSmall := fun id idIn => laid.small id (kept.subset idIn)
  have keptDistinct := laid.distinct.sublist kept
  simp only [Meta.shrink, shrinks, ↓reduceIte, Scoped.bind_eq, Scoped.pure_eq]
  refine Scoped.wp_bind.mpr (laid.wp_blocks newSize free room ?_)
  dsimp only
  rw [subtract_eq fewerIndex, Scoped.bind, popMany_eq pops.1, Scoped.bind,
    subtract_eq fewerData, Scoped.bind, popMany_eq pops.2, Scoped.bind]
  refine Scoped.wp_bind.mpr (wp_forward wide (List.nodup_append.mp keptDistinct).1
    (fun id idIn => free id (List.mem_of_mem_take idIn)) ?_ (by omega) keptSmall ?_)
  · intro short
    refine zero (Nat.lt_of_not_le fun bound => ?_)
    exact absurd (lengths bound).1 (Nat.ne_of_lt short)
  · intro resized after indexAfter dataAfter forwarded
    exact goal resized after indexAfter dataAfter forwarded
      (forwarded.laid keptDistinct keptSmall fun bound => lengths (bounded bound))

/-- `clear_size` returns every block of the file and writes nothing. -/
theorem wp_clearSize (laid : record.Laid store index data)
    {post : List Nat × Meta → (Nat → Block) → Prop}
    (free : ∀ id ∈ index, rules.Valid id ∧ id ∉ held) (room : held.length + 4 ≤ rules.limit)
    (goal : post (index ++ data, Meta.init record.type record.name) store) :
    record.clearSize.wp rules held post failed store :=
  Scoped.wp_bind.mpr (laid.wp_blocks record.size free room goal)

end Meta.Laid

end Canyon.Fs
