import Canyon.Fs.Levels

/-!
# The block tree of a file

The operations of `Meta` on the tree of index blocks: `blocks` flattens it, `forward` writes
it anew from two lists of block numbers, and `extend`, `shrink` and `clear_size` go through
both. An operation on a borrowed `Meta` is a program that returns the `Meta` it leaves.
-/

namespace Canyon.Fs

open Canyon.Lib

/-! ## Flattening -/

/-- Nesting of `_to_vec` that a stack is taken to hold; trees have at most four levels. -/
def callDepth : Nat := 64

/-- Which entries of a node `_to_vec` follows: those that are present and not filtered out. -/
def IndirectBlock.followed (node : IndirectBlock) (filter : Option (List Nat)) : List Nat :=
  node.entries.toList.filter fun id => id != 0 && match filter with
    | none => true
    | some excluded => !excluded.contains id

/-- `IndirectBlock::_to_vec`, on the pair of `data_ids` and `index_ids`. -/
def IndirectBlock.toVecFrom (filter : Option (List Nat)) : Nat → IndirectBlock →
    List Nat × List Nat → Prog (List Nat × List Nat)
  | 0, _, _ => .fail .stackOverflow
  | depth + 1, node, found =>
    match node.type with
    | .blockTable => .pure (found.1 ++ node.followed filter, found.2)
    | _ => (node.followed filter).foldlM (fun found id =>
        readAt indirectBlock id 0 fun child =>
          toVecFrom filter depth child (found.1, found.2 ++ [id])) found

/-- `IndirectBlock::to_vec`: the index ids and the data ids below a node. -/
def IndirectBlock.toVec (node : IndirectBlock) (filter : Option (List Nat)) :
    Prog (List Nat × List Nat) := do
  let found ← node.toVecFrom filter callDepth ([], [])
  return (found.2, found.1)

/-- `index.sort()`. -/
def sortIds (ids : List Nat) : List Nat := ids.mergeSort

/-- Block numbers that are present: zero stands for none. -/
def present (ids : List Nat) : List Nat := ids.filter (· != 0)

/-- Direct block numbers that are present. -/
def Meta.directIds (record : Meta) : List Nat := present record.direct.toList

/-- `Meta::blocks`: the index ids in order of their numbers, and the data ids in file order. -/
def Meta.blocks (record : Meta) : Prog (List Nat × List Nat) :=
  if record.indirect ≠ 0 then do
    let below ← readAt indirectBlock record.indirect 0 fun node => node.toVec none
    return (sortIds (record.indirect :: below.1), record.directIds ++ below.2)
  else return (sortIds [], record.directIds)

/-! ## Laying out -/

/-- `ids.chain(repeat(0)).take(count)` as an array. -/
def padded (count : Nat) (ids : List Nat) : Vector Nat count :=
  ⟨((ids ++ List.replicate count 0).take count).toArray, by simp⟩

/-- The loops of `forward` over the nodes of one level: each node takes the next entries. -/
def writeLevel (type : IndirectBlockType) : List Nat → List Nat → Prog Unit
  | [], _ => return ()
  | id :: ids, entries => do
    overwriteAt indirectBlock id 0 ⟨padded indirectLen entries, type⟩
    writeLevel type ids (entries.drop indirectLen)

/-- The index ids that `forward` takes for each level. -/
structure LevelIds where
  /-- `l4_id`, when there is one. -/
  l4Ids : List Nat
  /-- `l3_ids`. -/
  l3Ids : List Nat
  /-- `l2_ids`. -/
  l2Ids : List Nat
  /-- `l1_ids`. -/
  l1Ids : List Nat

/-- How `forward` deals out index ids: from the root down, and zeros once they run out. -/
def LevelInfo.deal (info : LevelInfo) (index : List Nat) : LevelIds :=
  let l4Id := if info.l4 ≠ 0 then index.headD 0 else 0
  let index := if info.l4 ≠ 0 then index.drop 1 else index
  { l4Ids := if l4Id ≠ 0 then [l4Id] else []
    l3Ids := (padded info.l3 index).toList
    l2Ids := (padded info.blockDirectory (index.drop info.l3)).toList
    l1Ids := (padded info.blockTable ((index.drop info.l3).drop info.blockDirectory)).toList }

/-- The loops of `forward`, from the root down: each level lists the one below it. -/
def LevelIds.write (levels : LevelIds) (data : List Nat) : Prog Unit := do
  writeLevel .l4 levels.l4Ids levels.l3Ids
  writeLevel .l3 levels.l3Ids levels.l2Ids
  writeLevel .blockDirectory levels.l2Ids levels.l1Ids
  writeLevel .blockTable levels.l1Ids data

/-- The root that `forward` stores: the first id of the level that has one node. -/
def LevelInfo.root (info : LevelInfo) (levels : LevelIds) (old : Nat) : Nat :=
  if info.l4 = 1 then levels.l4Ids.headD 0
  else if info.l3 = 1 then levels.l3Ids.headD 0
  else if info.blockDirectory = 1 then levels.l2Ids.headD 0
  else if info.blockTable = 1 then levels.l1Ids.headD 0
  else old

/-- `Meta::forward`. -/
def Meta.forward (record : Meta) (info : LevelInfo) (index data : List Nat) : Prog Meta :=
  let direct := padded directCount data
  if indirectSize record.size ≠ 0 then do
    let levels := info.deal index
    levels.write (data.drop directCount)
    return { record with direct, indirect := info.root levels record.indirect }
  else return { record with direct, indirect := 0 }

/-- `Meta::init`. -/
def Meta.init (type : InodeType) (name : NameBytes) : Meta :=
  ⟨0, Vector.replicate directCount 0, 0, type, name⟩

/-- `Meta::extend`. -/
def Meta.extend (record : Meta) (newSize : Nat) (newInfo : LevelInfo)
    (newData newIndex : List Nat) : Prog Meta :=
  if newSize ≥ record.size then do
    let record := { record with size := newSize }
    let found ← record.blocks
    record.forward newInfo (found.1 ++ newIndex) (found.2 ++ newData)
  else .fail .extendSmaller

/-- `u64` subtraction. -/
def subtract (left right : Nat) : Prog Nat :=
  if right ≤ left then return left - right else .fail .arithmeticOverflow

/-- `collected.push(ids.pop().unwrap())`, a number of times: the ids left and collected. -/
def popMany : Nat → List Nat → List Nat → Prog (List Nat × List Nat)
  | 0, ids, collected => return (ids, collected)
  | count + 1, ids, collected =>
    match ids.getLast? with
    | none => .fail .unwrapNone
    | some last => popMany count ids.dropLast (collected ++ [last])

/-- `Meta::shrink`: the index ids and the data ids it returns, and the `Meta` it leaves. -/
def Meta.shrink (record : Meta) (newSize : Nat) : Prog ((List Nat × List Nat) × Meta) :=
  if newSize ≤ record.size then do
    let newInfo := indexBlocks newSize
    let prevDataBlocks := dataBlocks record.size
    let currInfo := indexBlocks record.size
    let record := { record with size := newSize }
    let found ← record.blocks
    let surplus ← subtract currInfo.indexBlockCount newInfo.indexBlockCount
    let index ← popMany surplus found.1 []
    let surplus ← subtract prevDataBlocks (dataBlocks newSize)
    let data ← popMany surplus found.2 []
    let record ← record.forward newInfo index.1 data.1
    return ((index.2, data.2), record)
  else .fail .shrinkLarger

/-- `Meta::clear_size`: the ids it returns, and the `Meta` it leaves. -/
def Meta.clearSize (record : Meta) : Prog (List Nat × Meta) := do
  let found ← record.blocks
  return (found.1 ++ found.2, Meta.init record.type record.name)

/-- A subtraction that does not overflow. -/
theorem subtract_eq {left right : Nat} (order : right ≤ left) :
    subtract left right = .pure (left - right) := by
  simp [subtract, order]

/-- The plan of every size up to `L4_MAX` is the least tree. No level of it, nor the number of its
index blocks or data blocks, falls when the size grows, so that the subtractions of `write` and
`shrink` do not overflow. -/
theorem level_plan_exact_mono :
    (∀ size ≤ l4Max, (indexBlocks size).Minimal size) ∧
    ∀ small large, small ≤ large → large ≤ l4Max →
      (∀ level, (indexBlocks small).typeCount level ≤ (indexBlocks large).typeCount level) ∧
      (indexBlocks small).indexBlockCount ≤ (indexBlocks large).indexBlockCount ∧
      dataBlocks small ≤ dataBlocks large ∧
      subtract (indexBlocks large).indexBlockCount (indexBlocks small).indexBlockCount =
        .pure ((indexBlocks large).indexBlockCount - (indexBlocks small).indexBlockCount) ∧
      subtract (dataBlocks large) (dataBlocks small) =
        .pure (dataBlocks large - dataBlocks small) := by
  refine ⟨fun _ bound => indexBlocks_minimal bound, fun small large order bound => ?_⟩
  have index := indexBlockCount_mono order
  have data := dataBlocks_mono order
  exact ⟨typeCount_mono order bound, index, data, subtract_eq index, subtract_eq data⟩

/-- One byte more than three levels hold takes a fourth. -/
theorem level_plan_exact_mono_l3 :
    (indexBlocks (l3Max + 1)).Minimal (l3Max + 1) ∧
      (indexBlocks l3Max).indexBlockCount ≤ (indexBlocks (l3Max + 1)).indexBlockCount :=
  ⟨level_plan_exact_mono.1 _ (by decide),
    (level_plan_exact_mono.2 l3Max (l3Max + 1) (Nat.le_succ _) (by decide)).2.1⟩

end Canyon.Fs
