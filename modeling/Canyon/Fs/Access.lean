import Canyon.Fs.Resize

/-!
# Random access

`Meta::get_block_id` finds one data block of a file by dividing its number at each level of the
index. `Reaches` says where the data blocks of a tree lie that `forward` has written: every node
but the last of its level is full. On such a tree the descent finds what `blocks` lists.
-/

namespace Canyon.Fs

open Canyon.Lib

/-! ## The descent -/

/-- `divisor` of `IndirectBlock::get_block_id`; it is not asked for a block table. -/
def IndirectBlockType.divisor : IndirectBlockType → Nat
  | .blockTable => 1
  | .blockDirectory => indirectLen
  | .l3 => indirectLen * indirectLen
  | .l4 => indirectLen * indirectLen * indirectLen

/-- `self.entries[index]`. -/
def IndirectBlock.entry (node : IndirectBlock) (index : Nat) : Prog Nat :=
  match node.entries[index]? with
  | some id => .pure id
  | none => .fail .indexOutOfRange

/-- `IndirectBlock::get_block_id`. -/
def IndirectBlock.getBlockId : Nat → IndirectBlock → Nat → Prog Nat
  | 0, _, _ => .fail .stackOverflow
  | depth + 1, node, innerId =>
    match node.type with
    | .blockTable => node.entry innerId
    | dir => do
      let id ← node.entry (innerId / dir.divisor)
      readAt indirectBlock id 0 fun child => child.getBlockId depth (innerId % dir.divisor)

/-- `Meta::get_block_id`. -/
def Meta.getBlockId (record : Meta) (innerId : Nat) : Prog (Option Nat) :=
  if dataBlocks record.size ≤ innerId then return none
  else if inside : innerId < directCount then return some record.direct[innerId]
  else readAt indirectBlock record.indirect 0 fun node => do
    return some (← node.getBlockId callDepth (innerId - directCount))

/-! ## Trees without gaps -/

/-- The part of a list that belongs to the node at `position`, when each has `width` items. -/
def chunk (width position : Nat) (items : List Nat) : List Nat :=
  (items.drop (position * width)).take width

variable {position : Nat}

/-- Parts of a part are parts of the list. -/
theorem chunk_chunk {width count inner : Nat} (inside : inner < count) (items : List Nat) :
    chunk width inner (chunk (count * width) position items) =
      chunk width (position * count + inner) items := by
  have room : inner * width + width ≤ count * width := by
    rw [← Nat.succ_mul]
    exact Nat.mul_le_mul_right width inside
  unfold chunk
  rw [List.drop_take, List.take_take, List.drop_drop, Nat.min_eq_left (by omega), Nat.add_mul,
    Nat.mul_assoc]

/-- Members of a part. -/
theorem getElem?_chunk {width inner : Nat} (inside : inner < width) (items : List Nat) :
    (chunk width position items)[inner]? = items[position * width + inner]? := by
  rw [chunk, List.getElem?_take_of_lt inside, List.getElem?_drop]

/-- Length of a part. -/
theorem length_chunk (width position : Nat) (items : List Nat) :
    (chunk width position items).length = min width (items.length - position * width) := by
  rw [chunk, List.length_take, List.length_drop]

/-- An array takes no more than its length. -/
theorem padded_take (count : Nat) (ids : List Nat) :
    padded count (ids.take count) = padded count ids := by
  refine Vector.toList_inj.mp ?_
  rw [toList_padded, toList_padded, List.take_append, List.take_append, List.take_take,
    List.length_take, Nat.min_self]
  congr 2
  omega

/-- An entry that was given. -/
theorem getElem?_padded {count : Nat} {ids : List Nat} (few : ids.length ≤ count)
    (inside : position < ids.length) : (padded count ids)[position]? = ids[position]? := by
  rw [← Vector.getElem?_toList, toList_padded, List.getElem?_take_of_lt (by omega),
    List.getElem?_append_left inside]

/-- The type of the nodes of a level. -/
def levelType : Nat → IndirectBlockType
  | 0 => .blockTable
  | 1 => .blockDirectory
  | 2 => .l3
  | _ => .l4

/-- Data blocks below one entry of a node. -/
theorem divisor_levelType {level : Nat} (shallow : level < 4) :
    (levelType level).divisor = indirectLen ^ level := by
  interval_cases level <;> rfl

/-- A node reaches these data blocks, in order. The nodes of every level are listed. -/
inductive Reaches (store : Nat → Block) (nodes : Nat → List Nat) : Nat → Nat → List Nat → Prop
    where
  /-- A block table lists the data blocks. -/
  | table {id : Nat} {data : List Nat} (listed : id ∈ nodes 0)
      (seen : (store id).view indirectBlock 0 = some ⟨padded indirectLen data, levelType 0⟩)
      (few : data.length ≤ indirectLen) : Reaches store nodes 0 id data
  /-- Another node lists nodes of the level below, each of which reaches the next data blocks. -/
  | inner {level id : Nat} {ids data : List Nat} (listed : id ∈ nodes (level + 1))
      (seen : (store id).view indirectBlock 0 =
        some ⟨padded indirectLen ids, levelType (level + 1)⟩)
      (few : ids.length ≤ indirectLen)
      (enough : data.length ≤ ids.length * indirectLen ^ (level + 1))
      (below : ∀ position child, ids[position]? = some child →
        Reaches store nodes level child (chunk (indirectLen ^ (level + 1)) position data)) :
      Reaches store nodes (level + 1) id data

section Read

variable {store : Nat → Block} {nodes : Nat → List Nat} {rules : Scoped.Discipline Nat}
  {failed : Panic → (Nat → Block) → Prop} {level id : Nat} {data : List Nat} {node : IndirectBlock}

/-- A node of a tree without gaps is an index block of its level. -/
theorem Reaches.view (reaches : Reaches store nodes level id data) :
    ∃ node, (store id).view indirectBlock 0 = some node := by
  cases reaches with
  | table listed seen few => exact ⟨_, seen⟩
  | inner listed seen few enough below => exact ⟨_, seen⟩

/-- Nodes are listed. -/
theorem Reaches.listed (reaches : Reaches store nodes level id data) : id ∈ nodes level := by
  cases reaches with
  | table listed seen few => exact listed
  | inner listed seen few enough below => exact listed

/-- The rule of an entry that is there. -/
theorem IndirectBlock.entry_eq {index : Nat} (found : node.entries[index]? = some id) :
    node.entry index = .pure id := by
  rw [entry, found]

/-- `get_block_id` on a node above the block tables. -/
theorem IndirectBlock.getBlockId_inner (notTable : node.type ≠ .blockTable) (depth innerId : Nat) :
    node.getBlockId (depth + 1) innerId =
      (node.entry (innerId / node.type.divisor)).bind fun id =>
        readAt indirectBlock id 0 fun child =>
          child.getBlockId depth (innerId % node.type.divisor) := by
  obtain ⟨entries, type⟩ := node
  cases type with
  | blockTable => exact absurd rfl notTable
  | blockDirectory => rfl
  | l3 => rfl
  | l4 => rfl

/-- `get_block_id` on a node finds the data block, and no index is out of range. -/
theorem Reaches.wp_getBlockId {depth innerId found : Nat} {held : List Nat}
    {post : Nat → (Nat → Block) → Prop} (reaches : Reaches store nodes level id data)
    (shallow : level < 4) (deep : level < depth)
    (seen : (store id).view indirectBlock 0 = some node) (hit : data[innerId]? = some found)
    (apart : ∀ lower upper, lower < upper → (nodes lower).Disjoint (nodes upper))
    (free : ∀ lower < level, ∀ other ∈ nodes lower, rules.Valid other ∧ other ∉ held)
    (room : held.length + level ≤ rules.limit) (goal : post found store) :
    (node.getBlockId depth innerId).wp rules held post failed store := by
  obtain ⟨inside, -⟩ := List.getElem?_eq_some_iff.mp hit
  obtain ⟨depth, rfl⟩ := Nat.exists_eq_succ_of_ne_zero (Nat.ne_of_gt (Nat.zero_lt_of_lt deep))
  induction reaches generalizing depth innerId held node with
  | @table id data listed isTable few =>
    obtain rfl := Option.some.inj (seen.symm.trans isTable)
    have entry : (padded indirectLen data)[innerId]? = some found := by
      rw [getElem?_padded few inside, hit]
    simp only [IndirectBlock.getBlockId, levelType]
    rw [IndirectBlock.entry_eq entry]
    exact goal
  | @inner level id ids data listed isNode few enough below ih =>
    obtain rfl := Option.some.inj (seen.symm.trans isNode)
    have positive : 0 < indirectLen ^ (level + 1) := Nat.pow_pos (by decide)
    have whole := Nat.div_add_mod' innerId (indirectLen ^ (level + 1))
    have offset := Nat.mod_lt innerId positive
    have position : innerId / indirectLen ^ (level + 1) < ids.length :=
      (Nat.div_lt_iff_lt_mul positive).mpr (by omega)
    obtain ⟨child, isChild⟩ : ∃ child, ids[innerId / indirectLen ^ (level + 1)]? = some child :=
      ⟨_, List.getElem?_eq_getElem position⟩
    have entry : (padded indirectLen ids)[innerId / indirectLen ^ (level + 1)]? = some child := by
      rw [getElem?_padded few position, isChild]
    have hitBelow : (chunk (indirectLen ^ (level + 1)) (innerId / indirectLen ^ (level + 1))
        data)[innerId % indirectLen ^ (level + 1)]? = some found := by
      rw [getElem?_chunk offset, whole, hit]
    have childReaches := below _ child isChild
    obtain ⟨childNode, childSeen⟩ := childReaches.view
    have own := free level (Nat.lt_succ_self level) child childReaches.listed
    have notTable : levelType (level + 1) ≠ .blockTable := by
      have bound : level < 3 := by omega
      interval_cases level <;> decide
    rw [IndirectBlock.getBlockId_inner notTable, divisor_levelType shallow,
      IndirectBlock.entry_eq entry]
    refine wp_readAt (by simp) childSeen ⟨own.1, own.2, by omega⟩ ?_
    obtain ⟨depth, rfl⟩ := Nat.exists_eq_succ_of_ne_zero (show depth ≠ 0 by omega)
    refine ih _ child isChild (by omega) childSeen hitBelow ?_
      (by simp only [List.length_cons]; omega) ?_ depth (by omega)
    · intro lower isLower other otherIn
      have otherFree := free lower (by omega) other otherIn
      refine ⟨otherFree.1, ?_⟩
      rw [List.mem_cons, not_or]
      refine ⟨?_, otherFree.2⟩
      rintro rfl
      exact apart lower level isLower otherIn childReaches.listed
    · obtain ⟨insideBelow, -⟩ := List.getElem?_eq_some_iff.mp hitBelow
      exact insideBelow

end Read

/-! ## Trees that `forward` writes -/

section Write

variable {store : Nat → Block} {nodes : Nat → List Nat} {ids : List Nat} {position id : Nat}

/-- The entries of one node of a level that was written. -/
theorem Written.view {type : IndirectBlockType} {entries : List Nat}
    (written : Written store type ids entries) (isNode : ids[position]? = some id)
    (nonzero : id ≠ 0) :
    (store id).view indirectBlock 0 =
      some ⟨padded indirectLen (chunk indirectLen position entries), type⟩ := by
  induction ids generalizing entries position with
  | nil => simp at isNode
  | cons first ids ih =>
    obtain ⟨seen, rest⟩ := written
    cases position with
    | zero =>
      obtain rfl := Option.some.inj isNode
      rw [chunk, Nat.zero_mul, List.drop_zero, padded_take]
      exact seen nonzero
    | succ position =>
      have following : chunk indirectLen position (entries.drop indirectLen) =
          chunk indirectLen (position + 1) entries := by
        rw [chunk, chunk, List.drop_drop, Nat.succ_mul, Nat.add_comm]
      rw [← following]
      exact ih rest isNode

/-- Block tables that were written reach their data blocks. -/
theorem Written.reaches_tables {data : List Nat} (written : Written store .blockTable ids data)
    (nonzero : ∀ id ∈ ids, id ≠ 0) (listed : ∀ id ∈ ids, id ∈ nodes 0)
    (isNode : ids[position]? = some id) :
    Reaches store nodes 0 id (chunk (indirectLen ^ 1) position data) := by
  have member := List.mem_of_getElem? isNode
  rw [Nat.pow_one]
  refine .table (listed id member) (written.view isNode (nonzero id member)) ?_
  rw [length_chunk]
  exact Nat.min_le_left _ _

/-- Nodes that were written over nodes that reach data blocks reach them all. -/
theorem Written.reaches_inner {level : Nat} {entries data : List Nat}
    (written : Written store (levelType (level + 1)) ids entries) (nonzero : ∀ id ∈ ids, id ≠ 0)
    (listed : ∀ id ∈ ids, id ∈ nodes (level + 1))
    (enough : data.length ≤ entries.length * indirectLen ^ (level + 1))
    (below : ∀ {position child : Nat}, entries[position]? = some child →
      Reaches store nodes level child (chunk (indirectLen ^ (level + 1)) position data))
    (isNode : ids[position]? = some id) :
    Reaches store nodes (level + 1) id (chunk (indirectLen ^ (level + 2)) position data) := by
  have member := List.mem_of_getElem? isNode
  have power : indirectLen ^ (level + 2) = indirectLen * indirectLen ^ (level + 1) :=
    Nat.pow_succ'
  rw [power]
  refine .inner (listed id member) (written.view isNode (nonzero id member)) ?_ ?_ ?_
  · rw [length_chunk]
    exact Nat.min_le_left _ _
  · rw [length_chunk, length_chunk]
    rcases Nat.le_total indirectLen (entries.length - position * indirectLen) with full | last
    · rw [Nat.min_eq_left full]
      exact Nat.min_le_left _ _
    · rw [Nat.min_eq_right last, Nat.sub_mul, Nat.mul_assoc]
      exact Nat.le_trans (Nat.min_le_right _ _) (Nat.sub_le_sub_right enough _)
  · intro inner child isChild
    have inside : inner < indirectLen := by
      obtain ⟨few, -⟩ := List.getElem?_eq_some_iff.mp isChild
      rw [length_chunk] at few
      omega
    rw [getElem?_chunk inside] at isChild
    rw [chunk_chunk inside]
    exact below isChild

end Write

/-- The ids of a level, counted from the tables up. -/
def LevelIds.nodes (levels : LevelIds) : Nat → List Nat
  | 0 => levels.l1Ids
  | 1 => levels.l2Ids
  | 2 => levels.l3Ids
  | 3 => levels.l4Ids
  | _ => []

/-- No id is on two levels. -/
theorem LevelIds.apart {levels : LevelIds} (distinct : levels.all.Nodup) (lower upper : Nat)
    (order : lower < upper) : (levels.nodes lower).Disjoint (levels.nodes upper) := by
  simp only [LevelIds.all, List.nodup_append', List.disjoint_append_left] at distinct
  obtain ⟨⟨⟨-, -, apart43⟩, -, apart42, apart32⟩, -, ⟨apart41, apart31⟩, apart21⟩ := distinct
  by_cases high : upper < 4
  · interval_cases upper <;> interval_cases lower
    · exact apart21.symm
    · exact apart31.symm
    · exact apart32.symm
    · exact apart41.symm
    · exact apart42.symm
    · exact apart43.symm
  · have none : levels.nodes upper = [] := by
      unfold LevelIds.nodes
      split <;> first | omega | rfl
    rw [none]
    exact List.disjoint_nil_right _

/-- A level of one node reaches all data blocks. -/
theorem reaches_root {store : Nat → Block} {nodes : Nat → List Nat} {level : Nat}
    {ids data : List Nat} (single : ids.length = 1)
    (enough : data.length ≤ ids.length * indirectLen ^ (level + 1))
    (reaches : ∀ {position id : Nat}, ids[position]? = some id →
      Reaches store nodes level id (chunk (indirectLen ^ (level + 1)) position data)) :
    Reaches store nodes level (ids.headD 0) data := by
  obtain ⟨root, rfl⟩ := List.length_eq_one_iff.mp single
  have whole : chunk (indirectLen ^ (level + 1)) 0 data = data := by
    rw [single, Nat.one_mul] at enough
    rw [chunk, Nat.zero_mul, List.drop_zero, List.take_of_length_le enough]
  have reached := reaches (show [root][0]? = some root from rfl)
  rwa [whole] at reached

/-- With as many ids as planned, the root that `forward` stores reaches all data blocks. -/
theorem Shape.reaches {store : Nat → Block} {size : Nat} {info : LevelInfo}
    (shape : Shape size info) (large : directMax < size) {levels : LevelIds} {data : List Nat}
    (l4 : levels.l4Ids.length = info.l4) (l3 : levels.l3Ids.length = info.l3)
    (l2 : levels.l2Ids.length = info.blockDirectory) (l1 : levels.l1Ids.length = info.blockTable)
    (nonzero : ∀ id ∈ levels.all, id ≠ 0) (length : data.length = dataBlocks size - directCount)
    (written : levels.Written store data) (old : Nat) :
    ∃ level < 4, Reaches store levels.nodes level (info.root levels old) data := by
  have len : indirectLen = 63 := rfl
  simp only [LevelIds.all, List.mem_append] at nonzero
  have nonzero4 : ∀ id ∈ levels.l4Ids, id ≠ 0 := fun id idIn => nonzero id (by tauto)
  have nonzero3 : ∀ id ∈ levels.l3Ids, id ≠ 0 := fun id idIn => nonzero id (by tauto)
  have nonzero2 : ∀ id ∈ levels.l2Ids, id ≠ 0 := fun id idIn => nonzero id (by tauto)
  have nonzero1 : ∀ id ∈ levels.l1Ids, id ≠ 0 := fun id idIn => nonzero id (by tauto)
  have reaches1 : ∀ {position id : Nat}, levels.l1Ids[position]? = some id → Reaches store
      levels.nodes 0 id (chunk (indirectLen ^ 1) position data) :=
    written.l1.reaches_tables nonzero1 fun _ idIn => idIn
  have reaches2 : data.length ≤ levels.l1Ids.length * indirectLen ^ 1 →
      ∀ {position id : Nat}, levels.l2Ids[position]? = some id → Reaches store
        levels.nodes 1 id (chunk (indirectLen ^ 2) position data) := fun enough =>
    written.l2.reaches_inner nonzero2 (fun _ idIn => idIn) enough
      reaches1
  have reaches3 : data.length ≤ levels.l1Ids.length * indirectLen ^ 1 →
      data.length ≤ levels.l2Ids.length * indirectLen ^ 2 →
      ∀ {position id : Nat}, levels.l3Ids[position]? = some id → Reaches store
        levels.nodes 2 id (chunk (indirectLen ^ 3) position data) := fun tables enough =>
    written.l3.reaches_inner nonzero3 (fun _ idIn => idIn) enough
      (reaches2 tables)
  have reaches4 : data.length ≤ levels.l1Ids.length * indirectLen ^ 1 →
      data.length ≤ levels.l2Ids.length * indirectLen ^ 2 →
      data.length ≤ levels.l3Ids.length * indirectLen ^ 3 →
      ∀ {position id : Nat}, levels.l4Ids[position]? = some id → Reaches store
        levels.nodes 3 id (chunk (indirectLen ^ 4) position data) :=
    fun tables directories enough =>
      written.l4.reaches_inner nonzero4 (fun _ idIn => idIn) enough
        (reaches3 tables directories)
  have square : indirectLen ^ 2 = 3969 := rfl
  have cube : indirectLen ^ 3 = 250047 := rfl
  have fourth : indirectLen ^ 4 = 15752961 := rfl
  rw [Nat.pow_one] at reaches2 reaches3 reaches4
  rw [square] at reaches3 reaches4
  rw [cube] at reaches4
  unfold LevelInfo.root
  cases shape with
  | direct small => omega
  | blockTable large l4Eq l3Eq directory table room =>
    rw [len] at room
    refine ⟨0, by decide, ?_⟩
    rw [if_neg (by omega), if_neg (by omega), if_neg (by omega), if_pos table]
    exact reaches_root (by omega) (by rw [Nat.pow_one, len]; omega) reaches1
  | blockDirectory large l4Eq l3Eq directory table room =>
    rw [len] at table room
    refine ⟨1, by decide, ?_⟩
    rw [if_neg (by omega), if_neg (by omega), if_pos directory]
    exact reaches_root (by omega) (by rw [square]; omega) (reaches2 (by rw [len]; omega))
  | l3 large l4Eq l3Eq directory table room =>
    rw [len] at directory table room
    refine ⟨2, by decide, ?_⟩
    rw [if_neg (by omega), if_pos l3Eq]
    exact reaches_root (by omega) (by rw [cube]; omega)
      (reaches3 (by rw [len]; omega) (by omega))
  | l4 large l4Eq l3Room directory table room =>
    rw [len] at l3Room directory table room
    refine ⟨3, by decide, ?_⟩
    rw [if_pos l4Eq]
    exact reaches_root (by omega) (by rw [fourth]; omega)
      (reaches4 (by rw [len]; omega) (by omega) (by omega))

/-- Lists of blocks for a file of a size that the tree can describe: as many as planned, all
different, and none of them zero. -/
structure Planned (size : Nat) (index data : List Nat) : Prop where
  /-- The tree can describe the size. -/
  bound : size ≤ l4Max
  /-- Index blocks for the size. -/
  indexCount : index.length = (indexBlocks size).indexBlockCount
  /-- Data blocks for the size. -/
  dataCount : data.length = dataBlocks size
  /-- No id comes twice. -/
  distinct : (index ++ data).Nodup
  /-- No id is zero. -/
  nonzero : ∀ id ∈ index ++ data, id ≠ 0
  /-- Every id is a `u64`. -/
  wide : ∀ id ∈ index ++ data, id < 2 ^ 64

section Forwarded

variable {record laid : Meta} {index data indexAfter dataAfter : List Nat}
  {store after : Nat → Block}

/-- A planned index is dealt out to the levels. -/
theorem Planned.dealt {size : Nat} (planned : Planned size index data) :
    ((indexBlocks size).deal index).l4Ids.length = (indexBlocks size).l4 ∧
      ((indexBlocks size).deal index).all = index := by
  have dealt := dealt_deal (indexBlocks_single size) fun id idIn =>
    planned.nonzero id (List.mem_append_left _ idIn)
  obtain ⟨l4, all⟩ := dealt.full (Nat.le_of_eq planned.indexCount.symm)
  rw [List.take_of_length_le (Nat.le_of_eq planned.indexCount)] at all
  exact ⟨l4, all⟩

/-- The root that `forward` stores for a planned index reaches the data blocks past the direct
ones. -/
theorem Forwarded.reaches
    (forwarded : Forwarded record index data store laid after indexAfter dataAfter)
    (planned : Planned record.size index data) (large : directMax < record.size) :
    ∃ level < 4, Reaches after ((indexBlocks record.size).deal index).nodes level laid.indirect
      (data.drop directCount) := by
  have dealt := dealt_deal (indexBlocks_single record.size) fun id idIn =>
    planned.nonzero id (List.mem_append_left _ idIn)
  obtain ⟨l4, all⟩ := planned.dealt
  obtain ⟨written, root⟩ := forwarded.nodes large
  rw [root]
  refine (indexBlocks_shape planned.bound).reaches large l4 dealt.l3 dealt.l2 dealt.l1 ?_ ?_ written
    record.indirect
  · rw [all]
    exact fun id idIn => planned.nonzero id (List.mem_append_left _ idIn)
  · rw [List.length_drop, planned.dataCount]

/-- `get_block_id` on a tree that `forward` has written finds what `blocks` lists. -/
theorem Forwarded.wp_getBlockId {rules : Scoped.Discipline Nat} {held : List Nat}
    {failed : Panic → (Nat → Block) → Prop} {post : Option Nat → (Nat → Block) → Prop}
    (forwarded : Forwarded record index data store laid after indexAfter dataAfter)
    (planned : Planned record.size index data)
    (free : ∀ id ∈ index, rules.Valid id ∧ id ∉ held) (room : held.length + 4 ≤ rules.limit)
    (innerId : Nat) (goal : post data[innerId]? after) :
    (laid.getBlockId innerId).wp rules held post failed after := by
  have count := planned.dataCount
  unfold Meta.getBlockId
  rw [forwarded.size]
  by_cases past : dataBlocks record.size ≤ innerId
  · rw [if_pos past]
    rw [List.getElem?_eq_none (by omega)] at goal
    exact goal
  · have inside : innerId < data.length := by omega
    rw [if_neg past]
    by_cases direct : innerId < directCount
    · have slot : laid.direct[innerId] = data[innerId] := by
        have entry : (padded directCount data)[innerId]? = data[innerId]? := by
          rw [← padded_take, getElem?_padded (by simp) (by rw [List.length_take]; omega),
            List.getElem?_take_of_lt direct]
        rw [← forwarded.direct, Vector.getElem?_eq_getElem direct,
          List.getElem?_eq_getElem inside] at entry
        exact Option.some.inj entry
      rw [dif_pos direct, slot]
      rw [List.getElem?_eq_getElem inside] at goal
      exact goal
    · have large : directMax < record.size := by
        obtain ⟨isMax, -⟩ := levelConstants
        have size : dataBlocks record.size = (record.size + 511) / 512 := rfl
        have slots : directCount = 36 := rfl
        omega
      obtain ⟨level, shallow, reaches⟩ := forwarded.reaches planned large
      obtain ⟨-, all⟩ := planned.dealt
      have listed : ∀ level, ∀ id ∈ ((indexBlocks record.size).deal index).nodes level,
          id ∈ index := by
        intro level id idIn
        rw [← all]
        simp only [LevelIds.all, List.mem_append]
        unfold LevelIds.nodes at idIn
        split at idIn
        · exact .inr idIn
        · exact .inl (.inr idIn)
        · exact .inl (.inl (.inr idIn))
        · exact .inl (.inl (.inl idIn))
        · cases idIn
      have distinct : ((indexBlocks record.size).deal index).all.Nodup := by
        rw [all]
        exact (List.nodup_append.mp planned.distinct).1
      have apart := LevelIds.apart distinct
      obtain ⟨node, seen⟩ := reaches.view
      have own := free laid.indirect (listed level _ reaches.listed)
      rw [dif_neg direct]
      refine wp_readAt (by simp) seen ⟨own.1, own.2, by omega⟩ (Scoped.wp_bind.mpr ?_)
      have hit : (data.drop directCount)[innerId - directCount]? = some data[innerId] := by
        rw [List.getElem?_drop, Nat.add_sub_cancel' (by omega), List.getElem?_eq_getElem inside]
      refine reaches.wp_getBlockId shallow (Nat.lt_trans shallow (by decide)) seen hit apart
        ?_ ?_ ?_
      · intro lower isLower other otherIn
        have otherFree := free other (listed lower other otherIn)
        refine ⟨otherFree.1, ?_⟩
        rw [List.mem_cons, not_or]
        refine ⟨?_, otherFree.2⟩
        rintro rfl
        exact apart lower level isLower otherIn reaches.listed
      · simp only [List.length_cons]
        omega
      · rw [List.getElem?_eq_getElem inside] at goal
        exact goal

end Forwarded

/-! ## `forward`, `blocks` and `get_block_id` on the device -/

/-- `forward` on the `Meta` in a block, with its size set and the plan of that size. -/
def forwardAt (blockId size : Nat) (index data : List Nat) : Prog Unit :=
  modifyAt metaCodec blockId 0 fun record => do
    return ((), ← { record with size }.forward (indexBlocks size) index data)

/-- `blocks` on the `Meta` in a block. -/
def blocksAt (blockId : Nat) : Prog (List Nat × List Nat) :=
  readAt metaCodec blockId 0 fun record => record.blocks

/-- `get_block_id` on the `Meta` in a block. -/
def getBlockIdAt (blockId innerId : Nat) : Prog (Option Nat) :=
  readAt metaCodec blockId 0 fun record => record.getBlockId innerId

/-- A `Meta` on the device of an idle cache, and blocks for it. -/
structure Prepared (memory : Memory) (contents : Nat → Block) (blockId size : Nat)
    (index data : List Nat) : Prop where
  /-- The cache stands for these contents, whatever they are. -/
  holding : memory.Holding [] contents
  /-- The block has a `Meta`. -/
  record : ∃ record, (contents blockId).view metaCodec 0 = some record
  /-- It is on the device. -/
  onDevice : blockId < memory.manager.device.totalBlocks
  /-- The lists fit the size. -/
  planned : Planned size index data
  /-- The block of the `Meta` is not among them. -/
  apart : blockId ∉ index ++ data
  /-- The index blocks are on the device. -/
  indexOn : ∀ id ∈ index, id < memory.manager.device.totalBlocks

section Device

variable {memory : Memory} {contents : Nat → Block} {blockId size : Nat} {index data : List Nat}

/-- What `forward` leaves on the device. -/
structure Relaid (memory : Memory) (contents after : Nat → Block) (blockId size : Nat)
    (index data : List Nat) (laid : Meta) (middle : Memory) : Prop where
  /-- The cache stands for the new contents. -/
  holding : middle.Holding [] after
  /-- The device is as large as before. -/
  total : middle.manager.device.totalBlocks = memory.manager.device.totalBlocks
  /-- The `Meta` in its block. -/
  seen : (after blockId).view metaCodec 0 = some laid
  /-- It was laid out over the contents, but for its own block. -/
  forwarded : ∃ record, record.size = size ∧
    Forwarded record index data (Function.update contents blockId (after blockId)) laid after
      index data

variable {laid : Meta} {store after : Nat → Block}

/-- A tree that was laid out stays when another block changes. -/
theorem Forwarded.update {record : Meta}
    (forwarded : Forwarded record index data store laid after index data)
    (planned : Planned record.size index data) (apart : blockId ∉ index) (block : Block) :
    Forwarded record index data (Function.update store blockId block) laid
      (Function.update after blockId block) index data := by
  have same : ∀ id ∈ index, Function.update after blockId block id = after id := by
    intro id idIn
    refine Function.update_of_ne ?_ _ _
    rintro rfl
    exact apart idIn
  obtain ⟨-, all⟩ := planned.dealt
  refine { forwarded with tree := ?_, frame := ?_, nodes := ?_, spilled := ?_ }
  · exact forwarded.tree.congr fun id idIn => same id ((sortIds_perm _).mem_iff.mp idIn)
  · intro id outside cause
    by_cases own : id = blockId
    · rw [own, Function.update_self, Function.update_self]
    · rw [Function.update_of_ne own, Function.update_of_ne own]
      exact forwarded.frame id outside cause
  · intro large
    obtain ⟨written, root⟩ := forwarded.nodes large
    have inside : ∀ id ∈ ((indexBlocks record.size).deal index).all,
        Function.update after blockId block id = after id := by
      rw [all]
      exact same
    simp only [LevelIds.all, List.mem_append] at inside
    refine ⟨⟨?_, ?_, ?_, ?_⟩, root⟩
    · exact written.l4.congr fun id idIn _ => inside id (.inl (.inl (.inl idIn)))
    · exact written.l3.congr fun id idIn _ => inside id (.inl (.inl (.inr idIn)))
    · exact written.l2.congr fun id idIn _ => inside id (.inl (.inr idIn))
    · exact written.l1.congr fun id idIn _ => inside id (.inr idIn)
  · intro _ short
    exact absurd planned.indexCount (Nat.ne_of_lt short)

/-- `forward` returns. -/
theorem Prepared.forwards (prepared : Prepared memory contents blockId size index data) :
    ∃ middle after laid, (forwardAt blockId size index data).exec memory = .ok () middle ∧
      Relaid memory contents after blockId size index data laid middle := by
  obtain ⟨record, seen⟩ := prepared.record
  have planned := prepared.planned
  have apart : blockId ∉ index := fun member =>
    prepared.apart (List.mem_append_left _ member)
  have spec : (forwardAt blockId size index data).wp
      (Prog.deviceRules memory.manager.device.totalBlocks) []
      (fun _ after => ∃ laid, (after blockId).view metaCodec 0 = some laid ∧
        Forwarded { record with size } index data
          (Function.update contents blockId (after blockId)) laid after index data)
      (fun _ _ => False) contents := by
    refine wp_modifyAt (by simp) seen ⟨prepared.onDevice, by simp, Nat.zero_lt_succ 4⟩ ?_
    refine Scoped.wp_bind.mpr (wp_forward (lt_of_bound planned.bound)
      (List.nodup_append.mp planned.distinct).1 ?_ ?_ (show 1 < 5 by decide) ?_ ?_)
    · intro id idIn
      refine ⟨prepared.indexOn id idIn, ?_⟩
      rw [List.mem_singleton]
      rintro rfl
      exact apart idIn
    · intro short
      exact absurd planned.indexCount (Nat.ne_of_lt short)
    · exact fun id idIn => ⟨planned.nonzero id idIn, planned.wide id idIn⟩
    · intro laid between indexAfter dataAfter forwarded
      obtain ⟨rfl, rfl⟩ :=
        forwarded.exact planned.bound planned.indexCount planned.dataCount
      refine ⟨laid, ?_, ?_⟩
      · rw [Function.update_self]
        exact Block.view_patch _ _ _ _ (by simp) forwarded.fits
      · rw [Function.update_self]
        exact forwarded.update planned apart _
  obtain ⟨_, middle, after, ran, holding, total, laid, seenAfter, forwarded⟩ :=
    Prog.returns_of_wp prepared.holding spec
  exact ⟨middle, after, laid, ran, holding, total, seenAfter, _, rfl, forwarded⟩

/-- The entries of an index block: ids in use first, and zeros after them. -/
def Filled (store : Nat → Block) (id : Nat) (used : List Nat) : Prop :=
  used.length ≤ indirectLen ∧ ∃ type,
    (store id).view indirectBlock 0 = some ⟨padded indirectLen used, type⟩

/-- A node that was written has some of the entries. -/
theorem Written.filled {type : IndirectBlockType} {ids entries : List Nat}
    (written : Written store type ids entries) {id : Nat} (idIn : id ∈ ids) (nonzero : id ≠ 0) :
    ∃ used, Filled store id used ∧ ∀ entry ∈ used, entry ∈ entries := by
  obtain ⟨position, isNode⟩ := List.getElem?_of_mem idIn
  refine ⟨chunk indirectLen position entries, ⟨?_, type, written.view isNode nonzero⟩, ?_⟩
  · rw [length_chunk]
    exact Nat.min_le_left _ _
  · exact fun entry entryIn => List.mem_of_mem_drop (List.mem_of_mem_take entryIn)

/-- Every index block of a tree that was laid out has ids of the tree and zeros after them. -/
theorem Forwarded.filled {record : Meta}
    (forwarded : Forwarded record index data store laid after index data)
    (planned : Planned record.size index data) :
    ∀ id ∈ index, ∃ used, Filled after id used ∧ ∀ entry ∈ used, entry ∈ index ++ data := by
  intro id idIn
  have nonzero := planned.nonzero id (List.mem_append_left _ idIn)
  have large : directMax < record.size := by
    have some := List.length_pos_of_mem idIn
    obtain ⟨isMax, -⟩ := levelConstants
    rw [planned.indexCount, indexBlockCount_eq] at some
    split_ifs at some <;> omega
  obtain ⟨-, all⟩ := planned.dealt
  obtain ⟨written, -⟩ := forwarded.nodes large
  have inside : ∀ level, level ∈ [((indexBlocks record.size).deal index).l3Ids,
      ((indexBlocks record.size).deal index).l2Ids,
      ((indexBlocks record.size).deal index).l1Ids] → ∀ entry ∈ level, entry ∈ index ++ data := by
    intro level isLevel entry entryIn
    refine List.mem_append_left _ ?_
    rw [← all]
    simp only [LevelIds.all, List.mem_append]
    simp only [List.mem_cons, List.not_mem_nil, or_false] at isLevel
    rcases isLevel with rfl | rfl | rfl
    · exact .inl (.inl (.inr entryIn))
    · exact .inl (.inr entryIn)
    · exact .inr entryIn
  rw [← all] at idIn
  simp only [LevelIds.all, List.mem_append] at idIn
  rcases idIn with ((inL4 | inL3) | inL2) | inL1
  · obtain ⟨used, filled, part⟩ := written.l4.filled inL4 nonzero
    exact ⟨used, filled, fun entry entryIn => inside _ (by simp) entry (part entry entryIn)⟩
  · obtain ⟨used, filled, part⟩ := written.l3.filled inL3 nonzero
    exact ⟨used, filled, fun entry entryIn => inside _ (by simp) entry (part entry entryIn)⟩
  · obtain ⟨used, filled, part⟩ := written.l2.filled inL2 nonzero
    exact ⟨used, filled, fun entry entryIn => inside _ (by simp) entry (part entry entryIn)⟩
  · obtain ⟨used, filled, part⟩ := written.l1.filled inL1 nonzero
    exact ⟨used, filled, fun entry entryIn =>
      List.mem_append_right _ (List.mem_of_mem_drop (part entry entryIn))⟩

/-- `blocks` after `forward` returns what was laid out. -/
theorem Relaid.blocks {middle : Memory}
    (prepared : Prepared memory contents blockId size index data)
    (relaid : Relaid memory contents after blockId size index data laid middle) :
    ∃ final, (blocksAt blockId).exec middle = .ok (sortIds index, data) final := by
  have distinct := (List.nodup_append.mp prepared.planned.distinct).1
  obtain ⟨record, -, forwarded⟩ := relaid.forwarded
  have spec : (blocksAt blockId).wp (Prog.deviceRules middle.manager.device.totalBlocks) []
      (fun found _ => (sortIds index, data) = found) (fun _ _ => False) after := by
    refine wp_readAt (by simp) relaid.seen
      ⟨relaid.total ▸ prepared.onDevice, by simp, Nat.zero_lt_succ 4⟩ ?_
    refine wp_blocks forwarded.tree ((sortIds_perm _).nodup_iff.mpr distinct) ?_
      (show 1 + 4 ≤ 5 by decide) rfl
    intro id idIn
    have member := (sortIds_perm _).mem_iff.mp idIn
    refine ⟨relaid.total ▸ prepared.indexOn id member, ?_⟩
    rw [List.mem_singleton]
    rintro rfl
    exact prepared.apart (List.mem_append_left _ member)
  obtain ⟨_, final, _, ran, -, -, rfl⟩ := Prog.returns_of_wp relaid.holding spec
  exact ⟨final, ran⟩

/-- `get_block_id` after `forward` returns the data block at a position. -/
theorem Relaid.getBlockId {middle : Memory}
    (prepared : Prepared memory contents blockId size index data)
    (relaid : Relaid memory contents after blockId size index data laid middle) (innerId : Nat) :
    ∃ final, (getBlockIdAt blockId innerId).exec middle = .ok data[innerId]? final := by
  obtain ⟨record, rfl, forwarded⟩ := relaid.forwarded
  have spec : (getBlockIdAt blockId innerId).wp
      (Prog.deviceRules middle.manager.device.totalBlocks) []
      (fun found _ => data[innerId]? = found) (fun _ _ => False) after := by
    refine wp_readAt (by simp) relaid.seen
      ⟨relaid.total ▸ prepared.onDevice, by simp, Nat.zero_lt_succ 4⟩ ?_
    refine forwarded.wp_getBlockId prepared.planned ?_ ?_ innerId rfl
    · intro id idIn
      refine ⟨relaid.total ▸ prepared.indexOn id idIn, ?_⟩
      rw [List.mem_singleton]
      rintro rfl
      exact prepared.apart (List.mem_append_left _ idIn)
    · exact show 1 + 4 ≤ 5 by decide
  obtain ⟨_, final, _, ran, -, -, rfl⟩ := Prog.returns_of_wp relaid.holding spec
  exact ⟨final, ran⟩

/-- A device of forty blocks, each with an empty `Meta` in it. -/
def emptyDisk : Disk :=
  ⟨40, fun _ => Block.zero.patch metaCodec 0 (Meta.init .file (Vector.replicate _ 0))⟩

/-- A file with one data block more than there are direct slots: block 1 is the block table, the
data blocks are 2 to 38. -/
theorem prepared_emptyDisk : Prepared (Memory.idle (CacheManager.new emptyDisk)) emptyDisk.data 0
    18433 [1] (List.range' 2 37) := by
  refine ⟨.idle (CacheManager.Coherent.new emptyDisk) rfl,
    ⟨Meta.init .file (Vector.replicate _ 0), ?_⟩, show 0 < 40 by decide, ?_,
    by decide, by decide⟩
  · refine Block.view_patch _ _ _ (Meta.init .file (Vector.replicate _ 0)) (by simp)
      (metaCodec_fits (Nat.two_pow_pos 64) ?_ (Nat.two_pow_pos 64))
    intro id idIn
    rw [Meta.init, Vector.toList_replicate, List.mem_replicate] at idIn
    rw [idIn.2]
    exact Nat.two_pow_pos 64
  · exact ⟨by decide, by decide, by decide, by decide, by decide, by decide⟩

/-- `blocks` is the inverse of `forward`: it returns the index list, sorted, and the data list.
Direct slots and index entries that are not used are zero, and only the `Meta` and the given
index blocks change. -/
theorem forward_blocks_inverse (prepared : Prepared memory contents blockId size index data) :
    ∃ middle after laid final,
      (forwardAt blockId size index data).exec memory = .ok () middle ∧
      middle.Holding [] after ∧ (after blockId).view metaCodec 0 = some laid ∧
      laid.size = size ∧
      (blocksAt blockId).exec middle = .ok (sortIds index, data) final ∧
      laid.direct = padded directCount data ∧
      (∀ id ∈ index, ∃ used, Filled after id used ∧ ∀ entry ∈ used, entry ∈ index ++ data) ∧
      ∀ id, id ≠ blockId → id ∉ index → after id = contents id := by
  obtain ⟨middle, after, laid, ran, relaid⟩ := prepared.forwards
  obtain ⟨final, read⟩ := relaid.blocks prepared
  obtain ⟨record, sizeEq, forwarded⟩ := relaid.forwarded
  have planned := prepared.planned
  rw [← sizeEq] at planned
  refine ⟨middle, after, laid, final, ran, relaid.holding, relaid.seen,
    forwarded.size.trans sizeEq, read, forwarded.direct, forwarded.filled planned, ?_⟩
  intro id other outside
  rw [forwarded.frame id outside (.inr (Nat.le_of_eq planned.indexCount.symm)),
    Function.update_of_ne other]

/-- The file with one data block more than there are direct slots. -/
theorem forward_blocks_inverse_emptyDisk : ∃ middle final,
    (forwardAt 0 18433 [1] (List.range' 2 37)).exec (Memory.idle (CacheManager.new emptyDisk)) =
      .ok () middle ∧
    (blocksAt 0).exec middle = .ok (sortIds [1], List.range' 2 37) final := by
  obtain ⟨middle, _, _, final, ran, -, -, -, read, -⟩ := forward_blocks_inverse prepared_emptyDisk
  exact ⟨middle, final, ran, read⟩

/-- After `forward`, `get_block_id` returns without an index out of range: nothing from the
number of data blocks on, and before it the data block that `blocks` lists at this position. -/
theorem getBlockId_agrees (prepared : Prepared memory contents blockId size index data)
    {middle : Memory} (ran : (forwardAt blockId size index data).exec memory = .ok () middle) :
    ∃ sorted listed final, (blocksAt blockId).exec middle = .ok (sorted, listed) final ∧
      listed.length = dataBlocks size ∧
      ∀ innerId, ∃ last,
        (getBlockIdAt blockId innerId).exec middle = .ok listed[innerId]? last := by
  obtain ⟨_, after, laid, again, relaid⟩ := prepared.forwards
  obtain ⟨-, rfl⟩ := EStateM.Result.ok.inj (ran.symm.trans again)
  obtain ⟨final, read⟩ := relaid.blocks prepared
  exact ⟨sortIds index, data, final, read, prepared.planned.dataCount,
    relaid.getBlockId prepared⟩

/-- The last data block of the file with one data block more than there are direct slots. -/
theorem getBlockId_agrees_emptyDisk : ∃ (middle last : Memory) (listed : List Nat),
    (forwardAt 0 18433 [1] (List.range' 2 37)).exec (Memory.idle (CacheManager.new emptyDisk)) =
      .ok () middle ∧
    listed.length = dataBlocks 18433 ∧
    (getBlockIdAt 0 36).exec middle = .ok listed[36]? last := by
  obtain ⟨middle, _, _, ran, -⟩ := prepared_emptyDisk.forwards
  obtain ⟨_, listed, _, -, length, found⟩ := getBlockId_agrees prepared_emptyDisk ran
  obtain ⟨last, hit⟩ := found 36
  exact ⟨middle, last, listed, ran, length, hit⟩

end Device

end Canyon.Fs
