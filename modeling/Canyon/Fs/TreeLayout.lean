import Canyon.Lib.Forest
import Canyon.Fs.Tree

/-!
# What the block tree holds

`BlockTree` says which index blocks and which data blocks a `Meta` has in a store. `blocks`
returns exactly these, and `forward` lays out what it is given: all of it when it fits the
plan of a size up to `L4_MAX`, and a part of it otherwise.
-/

namespace Canyon.Fs

open Canyon.Lib

/-- Entries present in the index block that a block holds. -/
def children (store : Nat → Block) (id : Nat) : List Nat :=
  match (store id).view indirectBlock 0 with
  | some node => node.followed none
  | none => []

/-- A block holds an index block that fits its level: a table on the lowest one only. -/
def NodeKind (store : Nat → Block) (level id : Nat) : Prop :=
  ∃ node, (store id).view indirectBlock 0 = some node ∧ (node.type = .blockTable ↔ level = 0)

/-- The index blocks, by number, and the data blocks, in file order, of a `Meta`. -/
inductive BlockTree (store : Nat → Block) (record : Meta) : List Nat → List Nat → Prop where
  /-- Direct blocks only. -/
  | direct (plain : record.indirect = 0) : BlockTree store record [] record.directIds
  /-- Direct blocks and those below the root of the index. -/
  | indexed {level : Nat} {inner data : List Nat} (rooted : record.indirect ≠ 0)
      (shallow : level < 4)
      (layered : Layered (children store) (NodeKind store) level [record.indirect] inner data) :
      BlockTree store record (sortIds (record.indirect :: inner)) (record.directIds ++ data)

/-- Sorting keeps the ids. -/
theorem sortIds_perm (ids : List Nat) : (sortIds ids).Perm ids := List.mergeSort_perm ids _

/-- Sorted ids depend on the ids only, not on their order. -/
theorem sortIds_congr {left right : List Nat} (same : left.Perm right) :
    sortIds left = sortIds right := by
  have both := (sortIds_perm left).trans (same.trans (sortIds_perm right).symm)
  have sorted (ids : List Nat) : (sortIds ids).Pairwise fun a b => decide (a ≤ b) = true :=
    List.pairwise_mergeSort (by simp only [decide_eq_true_eq]; omega) (by simp; omega) ids
  exact both.eq_of_pairwise (fun a b _ _ ab ba => Nat.le_antisymm (by simpa using ab)
    (by simpa using ba)) (sorted left) (sorted right)

variable {store after : Nat → Block} {id : Nat} {record : Meta} {index data ids entries : List Nat}
  {type : IndirectBlockType}

/-- A node of a tree holds an index block. -/
theorem view_of_typed {level : Nat} (typed : Typed (children store) (NodeKind store) level id) :
    ∃ node, (store id).view indirectBlock 0 = some node := by
  cases level with
  | zero =>
    obtain ⟨node, seen, -⟩ := typed
    exact ⟨node, seen⟩
  | succ level =>
    obtain ⟨⟨node, seen, -⟩, -⟩ := typed
    exact ⟨node, seen⟩

section Read

variable {store : Nat → Block} {rules : Scoped.Discipline Nat} {held : List Nat}
  {post : List Nat × List Nat → (Nat → Block) → Prop} {failed : Panic → (Nat → Block) → Prop}

/-- `_to_vec` on a node collects the leaves and the inner nodes below it. -/
theorem wp_toVecFrom {level depth : Nat} (deep : level < depth) {id : Nat}
    {node : IndirectBlock} (seen : (store id).view indirectBlock 0 = some node)
    (typed : Typed (children store) (NodeKind store) level id)
    (distinct : (innerNodes (children store) level id).Nodup)
    (free : ∀ inner ∈ innerNodes (children store) level id, rules.Valid inner ∧ inner ∉ held)
    (room : held.length + level ≤ rules.limit) {found : List Nat × List Nat}
    (goal : post (found.1 ++ leaves (children store) level id,
      found.2 ++ innerNodes (children store) level id) store) :
    (node.toVecFrom none depth found).wp rules held post failed store := by
  induction level generalizing depth id node held post found with
  | zero =>
    obtain ⟨depth, rfl⟩ := Nat.exists_eq_succ_of_ne_zero (Nat.ne_of_gt deep)
    obtain ⟨other, otherSeen, table⟩ := typed
    obtain rfl : node = other := Option.some.inj (seen.symm.trans otherSeen)
    have below : children store id = node.followed none := by simp [children, seen]
    simp only [IndirectBlock.toVecFrom, table.mpr rfl, Scoped.wp]
    simpa [leaves, innerNodes, below] using goal
  | succ level ih =>
    obtain ⟨depth, rfl⟩ := Nat.exists_eq_succ_of_ne_zero (Nat.ne_of_gt (Nat.zero_lt_of_lt deep))
    obtain ⟨⟨other, otherSeen, table⟩, childrenTyped⟩ := typed
    obtain rfl : node = other := Option.some.inj (seen.symm.trans otherSeen)
    have below : children store id = node.followed none := by simp [children, seen]
    have inner : node.type ≠ .blockTable := by simp [table]
    simp only [leaves, innerNodes, below] at goal distinct free childrenTyped
    have unfolded : node.toVecFrom none (depth + 1) found =
        (node.followed none).foldlM (fun found id => readAt indirectBlock id 0 fun child =>
          child.toVecFrom none depth (found.1, found.2 ++ [id])) found := by
      rw [IndirectBlock.toVecFrom]
      split
      · contradiction
      · rfl
    rw [unfolded]
    refine Scoped.wp_foldlM (fun done state after => store = after ∧
      state = (found.1 ++ done.flatMap (leaves (children store) level), found.2 ++
        done.flatMap fun child => child :: innerNodes (children store) level child))
      ⟨rfl, by simp⟩ ?_ ?_
    · rintro done child rest _ _ whole ⟨rfl, rfl⟩
      have childIn : child ∈ node.followed none := by simp [whole]
      have childTyped := childrenTyped child childIn
      obtain ⟨childNode, childSeen⟩ := view_of_typed childTyped
      have own := List.nodup_cons.mp ((List.nodup_flatMap.mp distinct).1 child childIn)
      have ownFree : ∀ inner ∈ child :: innerNodes (children store) level child,
          rules.Valid inner ∧ inner ∉ held := fun inner innerIn =>
        free inner (List.mem_flatMap.mpr ⟨child, childIn, innerIn⟩)
      have admits : rules.Admits held child :=
        ⟨(ownFree child List.mem_cons_self).1, (ownFree child List.mem_cons_self).2, by omega⟩
      refine wp_readAt (by simp) childSeen admits ?_
      refine ih (by omega) childSeen childTyped own.2 ?_ (by simp only [List.length_cons]; omega)
        ⟨rfl, by simp⟩
      intro inner innerIn
      have innerFree := ownFree inner (List.mem_cons_of_mem _ innerIn)
      refine ⟨innerFree.1, ?_⟩
      rw [List.mem_cons, not_or]
      exact ⟨fun same => own.1 (same ▸ innerIn), innerFree.2⟩
    · rintro _ _ ⟨rfl, rfl⟩
      exact goal

/-- `blocks` returns the index blocks and the data blocks of the tree. -/
theorem wp_blocks {record : Meta} {index data : List Nat}
    (tree : BlockTree store record index data) (distinct : index.Nodup)
    (free : ∀ id ∈ index, rules.Valid id ∧ id ∉ held) (room : held.length + 4 ≤ rules.limit)
    (goal : post (index, data) store) :
    record.blocks.wp rules held post failed store := by
  cases tree with
  | direct plain =>
    simpa [Meta.blocks, plain, sortIds, Scoped.wp] using goal
  | @indexed level inner data rooted shallow layered =>
    have perm := layered.innerNodes_perm
    have leavesEq := layered.leaves_eq
    have typed := layered.typed record.indirect List.mem_cons_self
    simp only [List.flatMap_cons, List.flatMap_nil, List.append_nil] at perm leavesEq
    have members : ∀ id ∈ record.indirect :: inner, rules.Valid id ∧ id ∉ held :=
      fun id idIn => free id ((sortIds_perm _).mem_iff.mpr idIn)
    have sorted := List.nodup_cons.mp ((sortIds_perm _).nodup_iff.mp distinct)
    obtain ⟨node, seen⟩ := view_of_typed typed
    have root := members record.indirect List.mem_cons_self
    have admits : rules.Admits held record.indirect := ⟨root.1, root.2, by omega⟩
    simp only [Meta.blocks, rooted, ne_eq, not_false_eq_true, ↓reduceIte, Scoped.bind_eq]
    refine Scoped.wp_bind.mpr (wp_readAt (by simp) seen admits ?_)
    refine Scoped.wp_bind.mpr (wp_toVecFrom ?_ seen typed (perm.nodup_iff.mpr sorted.2) ?_ ?_ ?_)
    · exact Nat.lt_trans shallow (by decide)
    · intro id idIn
      have idFree := members id (List.mem_cons_of_mem _ (perm.mem_iff.mp idIn))
      refine ⟨idFree.1, ?_⟩
      rw [List.mem_cons, not_or]
      exact ⟨fun same => sorted.1 (perm.mem_iff.mp (same ▸ idIn)), idFree.2⟩
    · simp only [List.length_cons]
      omega
    · simpa [Scoped.wp, leavesEq, sortIds_congr (perm.cons record.indirect)] using goal

end Read

/-- A node lists at most 63 blocks. -/
theorem length_children_le (store : Nat → Block) (id : Nat) :
    (children store id).length ≤ 63 := by
  unfold children
  cases (store id).view indirectBlock 0 with
  | none => simp
  | some node =>
    refine Nat.le_trans (List.length_filter_le _ _) ?_
    rw [Vector.length_toList]
    decide

/-- A tree has no more data blocks than its levels can name. -/
theorem BlockTree.length_data_le (tree : BlockTree store record index data) :
    data.length * blockSize ≤ l4Max := by
  have direct : record.directIds.length ≤ 36 := by
    refine Nat.le_trans (List.length_filter_le _ _) ?_
    rw [Vector.length_toList]
    decide
  have block : blockSize = 512 := rfl
  obtain ⟨-, -, -, -, -, -, -, bound⟩ := levelConstants
  rw [block, bound]
  cases tree with
  | direct plain => omega
  | @indexed level inner data rooted shallow layered =>
    have few := layered.length_leaves_le (length_children_le store)
    have levels : 63 ^ (level + 1) ≤ 63 ^ 4 := Nat.pow_le_pow_right (by decide) shallow
    have top : 63 ^ 4 = 15752961 := by decide
    rw [List.length_singleton, Nat.one_mul] at few
    rw [List.length_append]
    omega

/-- A tree has no more index blocks than the largest file that it can describe. -/
theorem BlockTree.length_index_le (tree : BlockTree store record index data) :
    index.length ≤ (indexBlocks l4Max).indexBlockCount := by
  have most : (indexBlocks l4Max).indexBlockCount = 254080 := by decide
  rw [most]
  cases tree with
  | direct plain => exact Nat.zero_le _
  | @indexed level inner data rooted shallow layered =>
    have few := layered.length_nodes_le (length_children_le store)
    have levels : ∑ i ∈ Finset.range (level + 1), 63 ^ i ≤ ∑ i ∈ Finset.range 4, 63 ^ i :=
      Finset.sum_le_sum_of_subset (Finset.range_mono shallow)
    have top : ∑ i ∈ Finset.range 4, 63 ^ i = 254080 := by decide
    rw [(sortIds_perm _).length_eq, List.length_cons]
    rw [List.length_singleton, Nat.one_mul] at few
    omega

/-- A tree depends on its index blocks only. -/
theorem BlockTree.congr (tree : BlockTree store record index data)
    (same : ∀ id ∈ index, after id = store id) : BlockTree after record index data := by
  cases tree with
  | direct plain => exact .direct plain
  | @indexed level inner data rooted shallow layered =>
    refine .indexed rooted shallow (layered.congr ?_)
    intro id idIn
    have equal := same id ((sortIds_perm _).mem_iff.mpr (by simpa using idIn))
    simp only [children, NodeKind, equal]
    exact ⟨trivial, fun _ kind => kind⟩

/-! ## Writing -/

/-- Ids that are present in two lists are those of the one, then those of the other. -/
theorem present_append (left right : List Nat) :
    present (left ++ right) = present left ++ present right :=
  List.filter_append ..

/-- Ids none of which is zero are all present. -/
theorem present_of_nonzero (nonzero : ∀ id ∈ ids, id ≠ 0) : present ids = ids := by
  refine List.filter_eq_self.mpr fun id idIn => ?_
  simpa using nonzero id idIn

/-- Members of the ids that are present. -/
theorem mem_present : id ∈ present ids ↔ id ∈ ids ∧ id ≠ 0 := by
  simp [present]

/-- An array padded with zeros, as a list. -/
theorem toList_padded (count : Nat) (ids : List Nat) :
    (padded count ids).toList = (ids ++ List.replicate count 0).take count := by
  simp [padded, Vector.toList]

/-- The entries of a padded array that are present are those it was filled with. -/
theorem present_padded (count : Nat) (ids : List Nat) :
    present (padded count ids).toList = present (ids.take count) := by
  rw [toList_padded, List.take_append, present_append, List.take_replicate]
  simp [present]

/-- Entries of a padded array are ids or zero. -/
theorem mem_padded {count : Nat} (idIn : id ∈ (padded count ids).toList) : id ∈ ids ∨ id = 0 := by
  rw [toList_padded] at idIn
  have member := List.mem_of_mem_take idIn
  simp only [List.mem_append, List.mem_replicate] at member
  tauto

/-- Ids that do not fill their slots leave the last one empty. -/
theorem getLast?_padded {count : Nat} (short : ids.length < count) :
    (padded count ids).toList.getLast? = some 0 := by
  rw [toList_padded, List.getLast?_eq_getElem?, List.length_take, List.length_append,
    List.length_replicate, Nat.min_eq_left (by omega), List.getElem?_take_of_lt (by omega),
    List.getElem?_append_right (by omega), List.getElem?_replicate_of_lt (by omega)]

/-- What a loop of `forward` leaves in the nodes of one level: each has the next entries. A node
with number zero is no node of the tree. -/
def Written (store : Nat → Block) (type : IndirectBlockType) : List Nat → List Nat → Prop
  | [], _ => True
  | id :: ids, entries =>
    (id ≠ 0 → (store id).view indirectBlock 0 = some ⟨padded indirectLen entries, type⟩) ∧
      Written store type ids (entries.drop indirectLen)

/-- The nodes of a level depend on their own blocks only. -/
theorem Written.congr (written : Written store type ids entries)
    (same : ∀ id ∈ ids, id ≠ 0 → after id = store id) : Written after type ids entries := by
  induction ids generalizing entries with
  | nil => trivial
  | cons id ids ih =>
    obtain ⟨first, rest⟩ := written
    refine ⟨fun nonzero => ?_, ih rest fun other otherIn => same other (by simp [otherIn])⟩
    rw [same id List.mem_cons_self nonzero]
    exact first nonzero

/-- The nodes of one level are written. A node with number zero is no node of the tree. -/
structure Wired (store : Nat → Block) (type : IndirectBlockType) (ids entries : List Nat) :
    Prop where
  /-- Every node holds an index block of the type. -/
  kinds : ∀ id ∈ ids, id ≠ 0 →
    ∃ node, (store id).view indirectBlock 0 = some node ∧ node.type = type
  /-- The entries of the nodes, one after the other, are part of the entries to write. -/
  part : ((present ids).flatMap (children store)).Sublist (present entries)
  /-- They are all of them when the nodes have room and are all there. -/
  full : entries.length ≤ indirectLen * ids.length → (∀ id ∈ ids, id ≠ 0) →
    ids.flatMap (children store) = present entries

/-- A node lists the next entries that are present. -/
theorem children_written
    (seen : (store id).view indirectBlock 0 = some ⟨padded indirectLen entries, type⟩) :
    children store id = present (entries.take indirectLen) := by
  rw [← present_padded]
  simp [children, seen, IndirectBlock.followed, present]

/-- A level that was written is wired. -/
theorem Written.wired (written : Written store type ids entries) :
    Wired store type ids entries := by
  induction ids generalizing entries with
  | nil =>
    refine ⟨by simp, by simp [present], fun enough _ => ?_⟩
    have none : entries = [] := by simpa using enough
    simp [none, present]
  | cons id ids ih =>
    obtain ⟨seen, rest⟩ := written
    have wired := ih rest
    have parts : present entries =
        present (entries.take indirectLen) ++ present (entries.drop indirectLen) := by
      rw [← present_append, List.take_append_drop]
    constructor
    · intro other otherIn nonzero
      rcases List.mem_cons.mp otherIn with rfl | later
      · exact ⟨_, seen nonzero, rfl⟩
      · exact wired.kinds other later nonzero
    · rw [parts]
      by_cases zero : id = 0
      · have head : present (id :: ids) = present ids := by simp [present, zero]
        rw [head]
        exact wired.part.trans (List.sublist_append_right _ _)
      · have head : present (id :: ids) = id :: present ids := by simp [present, zero]
        rw [head, List.flatMap_cons, children_written (seen zero)]
        exact (List.Sublist.refl _).append wired.part
    · intro enough nonzero
      have room : (entries.drop indirectLen).length ≤ indirectLen * ids.length := by
        rw [List.length_cons, Nat.mul_succ] at enough
        rw [List.length_drop]
        omega
      have later := wired.full room fun other otherIn =>
        nonzero other (List.mem_cons_of_mem _ otherIn)
      rw [List.flatMap_cons, later, children_written (seen (nonzero id List.mem_cons_self)), parts]

section Write

variable {store : Nat → Block} {rules : Scoped.Discipline Nat} {held : List Nat}
  {failed : Panic → (Nat → Block) → Prop} {entries ids data index : List Nat}
  {type : IndirectBlockType} {levels : LevelIds} {info : LevelInfo}

/-- A node just written is read back. -/
theorem view_written (block : Block) (type : IndirectBlockType)
    (small : ∀ id ∈ entries, id < 2 ^ 64) :
    (block.patch indirectBlock 0 ⟨padded indirectLen entries, type⟩).view indirectBlock 0 =
      some ⟨padded indirectLen entries, type⟩ := by
  refine Block.view_patch _ _ _ _ (by simp) (indirectBlock_fits ?_)
  intro id idIn
  rcases mem_padded idIn with member | rfl
  · exact small id member
  · decide

/-- What the last node of a level gets when its number is zero: it is written to block zero. -/
def Spilled (after : Nat → Block) (type : IndirectBlockType) (ids entries : List Nat) : Prop :=
  ids.getLast? = some 0 → ∃ block : Block, after 0 = block.patch indirectBlock 0
    ⟨padded indirectLen (entries.drop (indirectLen * (ids.length - 1))), type⟩

/-- One loop of `forward` writes the nodes of its level and no other block. -/
theorem wp_writeLevel {post : Unit → (Nat → Block) → Prop} (distinct : (present ids).Nodup)
    (free : ∀ id ∈ ids, rules.Valid id ∧ id ∉ held) (room : held.length < rules.limit)
    (small : ∀ id ∈ entries, id < 2 ^ 64)
    (goal : ∀ after, (∀ id, id ∉ ids → after id = store id) → Written after type ids entries →
      Spilled after type ids entries → post () after) :
    (writeLevel type ids entries).wp rules held post failed store := by
  induction ids generalizing entries store with
  | nil => exact goal store (fun _ _ => rfl) trivial (by simp [Spilled])
  | cons id ids ih =>
    have own := free id List.mem_cons_self
    have restDistinct : (present ids).Nodup :=
      distinct.sublist ((List.sublist_cons_self id ids).filter _)
    refine Scoped.wp_bind.mpr (wp_overwriteAt (by simp) ⟨own.1, own.2, room⟩ ?_)
    refine ih restDistinct (fun other otherIn => free other (List.mem_cons_of_mem _ otherIn))
      (fun other otherIn => small other (List.mem_of_mem_drop otherIn)) ?_
    intro after frame written spilled
    refine goal after ?_ ⟨fun nonzero => ?_, written⟩ fun last => ?_
    · intro other otherOut
      rw [List.mem_cons, not_or] at otherOut
      rw [frame other otherOut.2, Function.update_of_ne otherOut.1]
    · have fresh : id ∉ ids := by
        have head : present (id :: ids) = id :: present ids := by simp [present, nonzero]
        rw [head, List.nodup_cons] at distinct
        exact fun member => distinct.1 (mem_present.mpr ⟨member, nonzero⟩)
      rw [frame id fresh, Function.update_self]
      exact view_written (store id) type small
    · cases ids with
      | nil =>
        obtain rfl : id = 0 := Option.some.inj last
        refine ⟨store 0, ?_⟩
        rw [frame 0 List.not_mem_nil, Function.update_self]
        rfl
      | cons next ids =>
        obtain ⟨block, isPatch⟩ := spilled last
        have steps : indirectLen + indirectLen * ((next :: ids).length - 1) =
            indirectLen * ((id :: next :: ids).length - 1) := by
          simp only [List.length_cons, Nat.add_sub_cancel, Nat.mul_add, Nat.mul_one]
          omega
        exact ⟨block, by rw [isPatch, List.drop_drop, steps]⟩

/-- Every id dealt out, from the root down. -/
def LevelIds.all (levels : LevelIds) : List Nat :=
  levels.l4Ids ++ levels.l3Ids ++ levels.l2Ids ++ levels.l1Ids

/-- What the loops of `forward` leave in the nodes of all levels. -/
structure LevelIds.Written (levels : LevelIds) (store : Nat → Block) (data : List Nat) : Prop where
  /-- The fourth level lists the third. -/
  l4 : Fs.Written store .l4 levels.l4Ids levels.l3Ids
  /-- The third level lists the block directories. -/
  l3 : Fs.Written store .l3 levels.l3Ids levels.l2Ids
  /-- The block directories list the block tables. -/
  l2 : Fs.Written store .blockDirectory levels.l2Ids levels.l1Ids
  /-- The block tables list the data blocks. -/
  l1 : Fs.Written store .blockTable levels.l1Ids data

/-- The loops of `forward` write the nodes of every level and no other block. -/
theorem wp_write {post : Unit → (Nat → Block) → Prop} (distinct : (present levels.all).Nodup)
    (free : ∀ id ∈ levels.all, rules.Valid id ∧ id ∉ held) (room : held.length < rules.limit)
    (small : ∀ id ∈ levels.all ++ data, id < 2 ^ 64)
    (goal : ∀ after, (∀ id, id ∉ levels.all → after id = store id) →
      levels.Written after data → Spilled after .blockTable levels.l1Ids data → post () after) :
    (levels.write data).wp rules held post failed store := by
  obtain ⟨l4Ids, l3Ids, l2Ids, l1Ids⟩ := levels
  simp only [LevelIds.all, List.mem_append] at free small goal
  simp only [LevelIds.all, present_append] at distinct
  obtain ⟨distinct, l1Distinct, apart1⟩ := List.nodup_append.mp distinct
  obtain ⟨distinct, l2Distinct, apart2⟩ := List.nodup_append.mp distinct
  obtain ⟨l4Distinct, l3Distinct, apart3⟩ := List.nodup_append.mp distinct
  simp only [List.mem_append, mem_present] at apart1 apart2 apart3
  refine Scoped.wp_bind.mpr (wp_writeLevel l4Distinct (fun id idIn => free id (by tauto)) room
    (fun id idIn => small id (by tauto)) ?_)
  intro store4 frame4 written4 _
  refine Scoped.wp_bind.mpr (wp_writeLevel l3Distinct (fun id idIn => free id (by tauto)) room
    (fun id idIn => small id (by tauto)) ?_)
  intro store3 frame3 written3 _
  refine Scoped.wp_bind.mpr (wp_writeLevel l2Distinct (fun id idIn => free id (by tauto)) room
    (fun id idIn => small id (by tauto)) ?_)
  intro store2 frame2 written2 _
  refine wp_writeLevel l1Distinct (fun id idIn => free id (by tauto)) room
    (fun id idIn => small id (by tauto)) ?_
  intro after frame1 written1 spilled
  have not1 : ∀ id, (id ∈ l4Ids ∨ id ∈ l3Ids) ∨ id ∈ l2Ids → id ≠ 0 → id ∉ l1Ids :=
    fun id idIn nonzero inL1 => apart1 id (by tauto) id ⟨inL1, nonzero⟩ rfl
  have not2 : ∀ id, id ∈ l4Ids ∨ id ∈ l3Ids → id ≠ 0 → id ∉ l2Ids :=
    fun id idIn nonzero inL2 => apart2 id (by tauto) id ⟨inL2, nonzero⟩ rfl
  have not3 : ∀ id, id ∈ l4Ids → id ≠ 0 → id ∉ l3Ids :=
    fun id idIn nonzero inL3 => apart3 id ⟨idIn, nonzero⟩ id ⟨inL3, nonzero⟩ rfl
  refine goal after ?_ ⟨?_, ?_, ?_, written1⟩ spilled
  · intro id idOut
    rw [frame1 id (by tauto), frame2 id (by tauto), frame3 id (by tauto), frame4 id (by tauto)]
  · refine written4.congr fun id idIn nonzero => ?_
    rw [frame1 id (not1 id (by tauto) nonzero), frame2 id (not2 id (by tauto) nonzero),
      frame3 id (not3 id idIn nonzero)]
  · refine written3.congr fun id idIn nonzero => ?_
    rw [frame1 id (not1 id (by tauto) nonzero), frame2 id (not2 id (by tauto) nonzero)]
  · refine written2.congr fun id idIn nonzero => ?_
    rw [frame1 id (not1 id (by tauto) nonzero)]

/-- The ids dealt out are the planned number of ids from the front of the list. -/
theorem present_deal (single : info.l4 ≤ 1) (nonzero : ∀ id ∈ index, id ≠ 0) :
    present (info.deal index).all = index.take info.indexBlockCount := by
  have kept : ∀ ids : List Nat, (∀ id ∈ ids, id ∈ index) → ∀ count,
      present (padded count ids).toList = ids.take count := by
    intro ids inside count
    rw [present_padded, present_of_nonzero]
    exact fun id idIn => nonzero id (inside id (List.mem_of_mem_take idIn))
  have dropped : ∀ count (ids : List Nat), (∀ id ∈ ids, id ∈ index) →
      ∀ id ∈ ids.drop count, id ∈ index :=
    fun count ids inside id idIn => inside id (List.mem_of_mem_drop idIn)
  rcases Nat.le_one_iff_eq_zero_or_eq_one.mp single with zero | one
  · have inside : ∀ id ∈ index, id ∈ index := fun _ idIn => idIn
    simp only [LevelInfo.deal, zero, LevelIds.all, present_append, LevelInfo.indexBlockCount,
      ne_eq, not_true_eq_false, ↓reduceIte, kept _ inside, kept _ (dropped _ _ inside),
      kept _ (dropped _ _ (dropped _ _ inside))]
    rw [Nat.zero_add, List.take_add, List.take_add, List.drop_drop]
    rfl
  · have inside : ∀ id ∈ index.drop 1, id ∈ index := dropped 1 index fun _ idIn => idIn
    have first : present (if ¬index.headD 0 = 0 then [index.headD 0] else []) = index.take 1 := by
      cases index with
      | nil => rfl
      | cons id rest =>
        have head := nonzero id List.mem_cons_self
        simp [head, present]
    simp only [LevelInfo.deal, one, LevelIds.all, present_append, LevelInfo.indexBlockCount,
      ne_eq, one_ne_zero, not_false_eq_true, ↓reduceIte, kept _ inside,
      kept _ (dropped _ _ inside), kept _ (dropped _ _ (dropped _ _ inside))]
    rw [first, List.take_add, List.take_add, List.take_add, List.drop_drop, List.drop_drop]

/-- Levels that index ids were dealt out to. -/
structure Dealt (info : LevelInfo) (index : List Nat) (levels : LevelIds) : Prop where
  /-- The ids are the planned number of ids from the front of the list. -/
  taken : present levels.all = index.take info.indexBlockCount
  /-- Nodes of the third level. -/
  l3 : levels.l3Ids.length = info.l3
  /-- Block directories. -/
  l2 : levels.l2Ids.length = info.blockDirectory
  /-- Block tables. -/
  l1 : levels.l1Ids.length = info.blockTable
  /-- With enough ids, every level is complete and no node is zero. -/
  full : info.indexBlockCount ≤ index.length → levels.l4Ids.length = info.l4 ∧
    levels.all = index.take info.indexBlockCount

/-- `forward` deals out the ids as planned. -/
theorem dealt_deal (single : info.l4 ≤ 1) (nonzero : ∀ id ∈ index, id ≠ 0) :
    Dealt info index (info.deal index) := by
  have dealt := present_deal single nonzero
  have l3 : (info.deal index).l3Ids.length = info.l3 := by simp [LevelInfo.deal]
  have l2 : (info.deal index).l2Ids.length = info.blockDirectory := by simp [LevelInfo.deal]
  have l1 : (info.deal index).l1Ids.length = info.blockTable := by simp [LevelInfo.deal]
  refine ⟨dealt, l3, l2, l1, fun enough => ?_⟩
  have l4 : (info.deal index).l4Ids.length ≤ info.l4 := by
    simp only [LevelInfo.deal]
    split_ifs <;> simp only [List.length_nil, List.length_singleton] <;> omega
  have total : (info.deal index).all.length = (info.deal index).l4Ids.length + info.l3 +
      info.blockDirectory + info.blockTable := by
    simp only [LevelIds.all, List.length_append, l3, l2, l1]
  have taken : (index.take info.indexBlockCount).length = info.indexBlockCount := by
    rw [List.length_take]
    omega
  have shorter : (present (info.deal index).all).length ≤ (info.deal index).all.length :=
    List.length_filter_le _ _
  rw [← dealt] at taken
  have counts : info.indexBlockCount = info.l4 + info.l3 + info.blockDirectory +
      info.blockTable := rfl
  have whole : present (info.deal index).all = (info.deal index).all :=
    List.filter_sublist.eq_of_length (by show (present _).length = _; omega)
  refine ⟨?_, whole ▸ dealt⟩
  rw [whole] at taken
  omega

/-- The last block table has no number when the ids run out. -/
theorem getLast?_deal (single : info.l4 ≤ 1) (some : 0 < info.blockTable)
    (short : index.length < info.indexBlockCount) : (info.deal index).l1Ids.getLast? = .some 0 := by
  have counts : info.indexBlockCount = info.l4 + info.l3 + info.blockDirectory +
      info.blockTable := rfl
  refine getLast?_padded ?_
  split_ifs with deep
  · simp only [List.length_drop]
    omega
  · simp only [List.length_drop]
    omega

/-- An id dealt out is one of those given, or zero once they ran out. -/
theorem Dealt.members (dealt : Dealt info index levels) (nonzero : ∀ id ∈ index, id ≠ 0) {id : Nat}
    (idIn : id ∈ levels.all) : id ∈ index ∨ id = 0 ∧ index.length < info.indexBlockCount := by
  by_cases isZero : id = 0
  · refine .inr ⟨isZero, Nat.lt_of_not_le fun enough => ?_⟩
    rw [(dealt.full enough).2] at idIn
    exact nonzero id (List.mem_of_mem_take idIn) isZero
  · have kept := mem_present.mpr ⟨idIn, isZero⟩
    rw [dealt.taken] at kept
    exact .inl (List.mem_of_mem_take kept)

/-- Some nodes of a level are the roots of a layout whose inner nodes and leaves are part of
what was to be written below them. -/
def Covers (store : Nat → Block) (level : Nat) (ids inner data : List Nat) : Prop :=
  ∀ nodes, nodes.Sublist (present ids) → ∃ index leaves,
    Layered (children store) (NodeKind store) level nodes index leaves ∧
      index.Sublist inner ∧ leaves.Sublist data

/-- Wired tables are roots of layouts of the lowest level. -/
theorem Wired.covers_tables (wired : Wired store .blockTable ids data) :
    Covers store 0 ids [] (present data) := by
  intro nodes inside
  refine ⟨[], _, .base fun id idIn => ?_, .refl _, (inside.flatMap _).trans wired.part⟩
  obtain ⟨idIn, nonzero⟩ := mem_present.mp (inside.subset idIn)
  obtain ⟨node, seen, typeEq⟩ := wired.kinds id idIn nonzero
  exact ⟨node, seen, by simp [typeEq]⟩

/-- Wired nodes over roots of layouts are roots of layouts of one more level. -/
theorem Wired.covers_inner {level : Nat} {inner : List Nat} (wired : Wired store type ids entries)
    (notTable : type ≠ .blockTable) (covers : Covers store level entries inner data) :
    Covers store (level + 1) ids (present entries ++ inner) data := by
  intro nodes inside
  have below := (inside.flatMap (children store)).trans wired.part
  obtain ⟨index, leaves, layered, indexPart, leavesPart⟩ := covers _ below
  refine ⟨_, leaves, .step (fun id idIn => ?_) layered, below.append indexPart, leavesPart⟩
  obtain ⟨idIn, nonzero⟩ := mem_present.mp (inside.subset idIn)
  obtain ⟨node, seen, typeEq⟩ := wired.kinds id idIn nonzero
  exact ⟨node, seen, by simp [typeEq, notTable]⟩

/-- A level that has one node has it first. -/
theorem headD_of_present (nonzero : ids.headD 0 ≠ 0) : [ids.headD 0].Sublist (present ids) := by
  cases ids with
  | nil => simp at nonzero
  | cons id rest =>
    have head : id ≠ 0 := nonzero
    have listed : present (id :: rest) = id :: present rest := by simp [present, head]
    rw [listed]
    exact List.cons_sublist_cons.mpr (List.nil_sublist _)

/-- The tree below the root that `forward` stores is part of what it was given. -/
theorem exists_layered {old : Nat} (topmost : info.rootLevel ≠ none)
    (rooted : info.root levels old ≠ 0) (wired4 : Wired store .l4 levels.l4Ids levels.l3Ids)
    (wired3 : Wired store .l3 levels.l3Ids levels.l2Ids)
    (wired2 : Wired store .blockDirectory levels.l2Ids levels.l1Ids)
    (wired1 : Wired store .blockTable levels.l1Ids data) :
    ∃ level inner leaves, level < 4 ∧
      Layered (children store) (NodeKind store) level [info.root levels old] inner leaves ∧
      (info.root levels old :: inner).Sublist (present levels.all) ∧
      leaves.Sublist (present data) := by
  have covers1 := wired1.covers_tables
  have covers2 := wired2.covers_inner (by decide) covers1
  have covers3 := wired3.covers_inner (by decide) covers2
  have covers4 := wired4.covers_inner (by decide) covers3
  simp only [List.append_nil] at covers2 covers3 covers4
  have all : present levels.all = present levels.l4Ids ++ (present levels.l3Ids ++
      (present levels.l2Ids ++ present levels.l1Ids)) := by
    simp only [LevelIds.all, present_append, List.append_assoc]
  rw [all]
  unfold LevelInfo.root at rooted ⊢
  unfold LevelInfo.rootLevel at topmost
  split_ifs at rooted topmost ⊢
  · have root := headD_of_present rooted
    obtain ⟨inner, leaves, layered, innerPart, leavesPart⟩ := covers4 _ root
    exact ⟨3, inner, leaves, by decide, layered, root.append innerPart, leavesPart⟩
  · have root := headD_of_present rooted
    obtain ⟨inner, leaves, layered, innerPart, leavesPart⟩ := covers3 _ root
    exact ⟨2, inner, leaves, by decide, layered,
      (root.append innerPart).trans (List.sublist_append_right _ _), leavesPart⟩
  · have root := headD_of_present rooted
    obtain ⟨inner, leaves, layered, innerPart, leavesPart⟩ := covers2 _ root
    refine ⟨1, inner, leaves, by decide, layered, ?_, leavesPart⟩
    exact ((root.append innerPart).trans (List.sublist_append_right _ _)).trans
      (List.sublist_append_right _ _)
  · have root := headD_of_present rooted
    obtain ⟨inner, leaves, layered, innerPart, leavesPart⟩ := covers1 _ root
    refine ⟨0, inner, leaves, by decide, layered, ?_, leavesPart⟩
    have single := root.append innerPart
    rw [List.append_nil] at single
    exact ((single.trans (List.sublist_append_right _ _)).trans
      (List.sublist_append_right _ _)).trans (List.sublist_append_right _ _)
  · exact absurd rfl topmost

/-- Wired tables with room for all data are a layout of the lowest level. -/
theorem Wired.layered_tables (wired : Wired store .blockTable ids data)
    (nonzero : ∀ id ∈ ids, id ≠ 0) (dataNonzero : ∀ id ∈ data, id ≠ 0)
    (enough : data.length ≤ indirectLen * ids.length) :
    Layered (children store) (NodeKind store) 0 ids [] data := by
  have written := wired.full enough nonzero
  rw [present_of_nonzero dataNonzero] at written
  rw [← written]
  refine .base fun id idIn => ?_
  obtain ⟨node, seen, typeEq⟩ := wired.kinds id idIn (nonzero id idIn)
  exact ⟨node, seen, by simp [typeEq]⟩

/-- A wired level with room for the roots of a layout makes it one level higher. -/
theorem Wired.layered_inner {level : Nat} (wired : Wired store type ids entries)
    (notTable : type ≠ .blockTable) (nonzero : ∀ id ∈ ids, id ≠ 0)
    (entriesNonzero : ∀ id ∈ entries, id ≠ 0) (enough : entries.length ≤ indirectLen * ids.length)
    (layered : Layered (children store) (NodeKind store) level entries index data) :
    Layered (children store) (NodeKind store) (level + 1) ids (entries ++ index) data := by
  have written := wired.full enough nonzero
  rw [present_of_nonzero entriesNonzero] at written
  rw [← written] at layered ⊢
  refine .step (fun id idIn => ?_) layered
  obtain ⟨node, seen, typeEq⟩ := wired.kinds id idIn (nonzero id idIn)
  exact ⟨node, seen, by simp [typeEq, notTable]⟩

/-- With as many ids as planned, the tree below the root that `forward` stores is all that it
was given. -/
theorem Shape.layered {size : Nat} (shape : Shape size info) (large : directMax < size)
    (l4 : levels.l4Ids.length = info.l4) (l3 : levels.l3Ids.length = info.l3)
    (l2 : levels.l2Ids.length = info.blockDirectory) (l1 : levels.l1Ids.length = info.blockTable)
    (nonzero : ∀ id ∈ levels.all ++ data, id ≠ 0)
    (length : data.length = dataBlocks size - directCount)
    (wired4 : Wired store .l4 levels.l4Ids levels.l3Ids)
    (wired3 : Wired store .l3 levels.l3Ids levels.l2Ids)
    (wired2 : Wired store .blockDirectory levels.l2Ids levels.l1Ids)
    (wired1 : Wired store .blockTable levels.l1Ids data) (old : Nat) :
    ∃ level inner, level < 4 ∧ levels.all = info.root levels old :: inner ∧
      Layered (children store) (NodeKind store) level [info.root levels old] inner data := by
  obtain ⟨l4Ids, l3Ids, l2Ids, l1Ids⟩ := levels
  simp only [LevelIds.all, List.mem_append] at nonzero
  dsimp only at l4 l3 l2 l1 wired4 wired3 wired2 wired1
  have nonzero4 : ∀ id ∈ l4Ids, id ≠ 0 := fun id idIn => nonzero id (by tauto)
  have nonzero3 : ∀ id ∈ l3Ids, id ≠ 0 := fun id idIn => nonzero id (by tauto)
  have nonzero2 : ∀ id ∈ l2Ids, id ≠ 0 := fun id idIn => nonzero id (by tauto)
  have nonzero1 : ∀ id ∈ l1Ids, id ≠ 0 := fun id idIn => nonzero id (by tauto)
  have tables : data.length ≤ indirectLen * l1Ids.length →
      Layered (children store) (NodeKind store) 0 l1Ids [] data :=
    wired1.layered_tables nonzero1 fun id idIn => nonzero id (by tauto)
  cases shape with
  | direct small => omega
  | blockTable large l4Eq l3Eq directory table room =>
    obtain ⟨root, rfl⟩ := List.length_eq_one_iff.mp (l1.trans table)
    obtain rfl := List.length_eq_zero_iff.mp (l4.trans l4Eq)
    obtain rfl := List.length_eq_zero_iff.mp (l3.trans l3Eq)
    obtain rfl := List.length_eq_zero_iff.mp (l2.trans directory)
    have layered := tables (by rw [l1]; omega)
    refine ⟨0, [], by omega, ?_⟩
    simpa [LevelIds.all, LevelInfo.root, l4Eq, l3Eq, directory, table] using layered
  | blockDirectory large l4Eq l3Eq directory table room =>
    obtain ⟨root, rfl⟩ := List.length_eq_one_iff.mp (l2.trans directory)
    obtain rfl := List.length_eq_zero_iff.mp (l4.trans l4Eq)
    obtain rfl := List.length_eq_zero_iff.mp (l3.trans l3Eq)
    have layered := wired2.layered_inner (by decide) nonzero2 nonzero1 (by rw [l1, l2]; omega)
      (tables (by rw [l1]; omega))
    refine ⟨1, l1Ids, by omega, ?_⟩
    simpa [LevelIds.all, LevelInfo.root, l4Eq, l3Eq, directory] using layered
  | l3 large l4Eq l3Eq directory table room =>
    obtain ⟨root, rfl⟩ := List.length_eq_one_iff.mp (l3.trans l3Eq)
    obtain rfl := List.length_eq_zero_iff.mp (l4.trans l4Eq)
    have layered := wired3.layered_inner (by decide) nonzero3 nonzero2 (by rw [l2, l3]; omega)
      (wired2.layered_inner (by decide) nonzero2 nonzero1 (by rw [l1, l2]; omega)
        (tables (by rw [l1]; omega)))
    refine ⟨2, l2Ids ++ l1Ids, by omega, ?_⟩
    simpa [LevelIds.all, LevelInfo.root, l4Eq, l3Eq] using layered
  | l4 large l4Eq l3Room directory table room =>
    obtain ⟨root, rfl⟩ := List.length_eq_one_iff.mp (l4.trans l4Eq)
    have layered := wired4.layered_inner (by decide) nonzero4 nonzero3 (by rw [l3, l4]; omega)
      (wired3.layered_inner (by decide) nonzero3 nonzero2 (by rw [l2, l3]; omega)
        (wired2.layered_inner (by decide) nonzero2 nonzero1 (by rw [l1, l2]; omega)
          (tables (by rw [l1]; omega))))
    refine ⟨3, l3Ids ++ l2Ids ++ l1Ids, by omega, ?_⟩
    simpa [LevelIds.all, LevelInfo.root, l4Eq] using layered

/-- What `forward` makes of a `Meta`, an index list and a data list: a tree that holds a part of
both, and all of both when they fit the plan of a size that the tree can describe. -/
structure Forwarded (record : Meta) (index data : List Nat) (store : Nat → Block)
    (laid : Meta) (after : Nat → Block) (indexAfter dataAfter : List Nat) : Prop where
  /-- The tree written. -/
  tree : BlockTree after laid (sortIds indexAfter) dataAfter
  /-- Its index blocks were given. -/
  indexPart : indexAfter.Sublist index
  /-- Its data blocks were given, in the same order. -/
  dataPart : dataAfter.Sublist data
  /-- It holds everything when the lists fit the plan. -/
  exact : record.size ≤ l4Max → index.length = (indexBlocks record.size).indexBlockCount →
    data.length = dataBlocks record.size → indexAfter = index ∧ dataAfter = data
  /-- Only index blocks are written, and block zero where they run out. -/
  frame : ∀ id, id ∉ index → id ≠ 0 ∨ (indexBlocks record.size).indexBlockCount ≤ index.length →
    after id = store id
  /-- The direct slots take the first data blocks. -/
  direct : laid.direct = padded directCount data
  /-- The index blocks are written as they were dealt out, below the root. -/
  nodes : directMax < record.size →
    ((indexBlocks record.size).deal index).Written after (data.drop directCount) ∧
      laid.indirect = (indexBlocks record.size).root ((indexBlocks record.size).deal index)
        record.indirect
  /-- Without index blocks there is no root. -/
  plain : record.size ≤ directMax → laid.indirect = 0
  /-- The last block table is written to block zero when the index runs out. -/
  spilled : directMax < record.size →
    index.length < (indexBlocks record.size).indexBlockCount →
    ∃ block : Block, after 0 = block.patch indirectBlock 0 ⟨padded indirectLen
      ((data.drop directCount).drop (indirectLen * ((indexBlocks record.size).blockTable - 1))),
      .blockTable⟩
  /-- The `Meta` survives the disk. -/
  fits : metaCodec.Fits laid
  /-- Its size is kept. -/
  size : laid.size = record.size
  /-- Its type is kept. -/
  type : laid.type = record.type
  /-- Its name is kept. -/
  name : laid.name = record.name

/-- Direct slots filled from the front of the data list. -/
theorem present_direct (nonzero : ∀ id ∈ data, id ≠ 0) :
    present (padded directCount data).toList = data.take directCount := by
  rw [present_padded]
  exact present_of_nonzero fun id idIn => nonzero id (List.mem_of_mem_take idIn)

/-- Levels that were written are the tree of the `Meta` that `forward` leaves. -/
theorem Dealt.forwarded {record : Meta} {after : Nat → Block}
    (isDeal : (indexBlocks record.size).deal index = levels)
    (dealt : Dealt (indexBlocks record.size) index levels) (large : directMax < record.size)
    (wide : record.size < 2 ^ 64) (small : ∀ id ∈ index ++ data, id ≠ 0 ∧ id < 2 ^ 64)
    (direct : ∀ id ∈ (padded directCount data).toList, id < 2 ^ 64)
    (frame : ∀ id, id ∉ levels.all → after id = store id)
    (written : levels.Written after (data.drop directCount))
    (spilled : Spilled after .blockTable levels.l1Ids (data.drop directCount)) :
    ∃ indexAfter dataAfter, Forwarded record index data store
      { record with
        direct := padded directCount data
        indirect := (indexBlocks record.size).root levels record.indirect }
      after indexAfter dataAfter := by
  have wired4 := written.l4.wired
  have wired3 := written.l3.wired
  have wired2 := written.l2.wired
  have wired1 := written.l1.wired
  have nodes : directMax < record.size →
      ((indexBlocks record.size).deal index).Written after (data.drop directCount) ∧
        (indexBlocks record.size).root levels record.indirect =
          (indexBlocks record.size).root ((indexBlocks record.size).deal index)
            record.indirect := by
    rw [isDeal]
    exact fun _ => ⟨written, rfl⟩
  have plain : record.size ≤ directMax →
      (indexBlocks record.size).root levels record.indirect = 0 := fun few =>
    absurd few (Nat.not_le.mpr large)
  have overflow : directMax < record.size →
      index.length < (indexBlocks record.size).indexBlockCount →
      ∃ block : Block, after 0 = block.patch indirectBlock 0 ⟨padded indirectLen
        ((data.drop directCount).drop (indirectLen * ((indexBlocks record.size).blockTable - 1))),
        .blockTable⟩ := by
    intro _ short
    have last := getLast?_deal (indexBlocks_single record.size)
      (indexBlocks_blockTable_pos large) short
    rw [isDeal] at last
    rw [← dealt.l1]
    exact spilled last
  have indexNonzero : ∀ id ∈ index, id ≠ 0 :=
    fun id idIn => (small id (List.mem_append_left _ idIn)).1
  have dataNonzero : ∀ id ∈ data, id ≠ 0 :=
    fun id idIn => (small id (List.mem_append_right _ idIn)).1
  have restNonzero : ∀ id ∈ data.drop directCount, id ≠ 0 :=
    fun id idIn => dataNonzero id (List.mem_of_mem_drop idIn)
  have frameOut : ∀ id, id ∉ index →
      id ≠ 0 ∨ (indexBlocks record.size).indexBlockCount ≤ index.length →
      after id = store id := by
    intro id idOut cause
    refine frame id fun idIn => ?_
    rcases dealt.members indexNonzero idIn with member | ⟨rfl, short⟩
    · exact idOut member
    · omega
  by_cases planned : record.size ≤ l4Max ∧
      index.length = (indexBlocks record.size).indexBlockCount ∧
      data.length = dataBlocks record.size
  · obtain ⟨bound, indexLength, dataLength⟩ := planned
    obtain ⟨l4, all⟩ := dealt.full (Nat.le_of_eq indexLength.symm)
    rw [List.take_of_length_le (Nat.le_of_eq indexLength)] at all
    obtain ⟨level, inner, shallow, listed, layered⟩ :=
      (indexBlocks_shape bound).layered large l4 dealt.l3 dealt.l2 dealt.l1
        (fun id idIn => by
          rw [all] at idIn
          exact (List.mem_append.mp idIn).elim (indexNonzero id) (restNonzero id))
        (by rw [List.length_drop, dataLength]) wired4 wired3 wired2 wired1 record.indirect
    have root := small ((indexBlocks record.size).root levels record.indirect)
      (List.mem_append_left _ (by rw [← all, listed]; exact List.mem_cons_self))
    have tree : BlockTree after { record with
        direct := padded directCount data
        indirect := (indexBlocks record.size).root levels record.indirect } _ _ :=
      .indexed root.1 shallow layered
    rw [Meta.directIds, present_direct dataNonzero, List.take_append_drop, ← listed, all] at tree
    exact ⟨index, data, tree, .refl _, .refl _, fun _ _ _ => ⟨rfl, rfl⟩, frameOut,
      rfl, nodes, plain, overflow, metaCodec_fits wide direct root.2, rfl, rfl, rfl⟩
  · have unplanned : record.size ≤ l4Max →
        index.length = (indexBlocks record.size).indexBlockCount →
        data.length = dataBlocks record.size → False :=
      fun bound indexLength dataLength => planned ⟨bound, indexLength, dataLength⟩
    by_cases rooted : (indexBlocks record.size).root levels record.indirect = 0
    · have tree : BlockTree after { record with
          direct := padded directCount data
          indirect := (indexBlocks record.size).root levels record.indirect } _ _ :=
        .direct rooted
      rw [Meta.directIds, present_direct dataNonzero] at tree
      refine ⟨[], data.take directCount, by simpa [sortIds] using tree, List.nil_sublist _,
        List.take_sublist _ _, fun bound indexLength dataLength =>
          (unplanned bound indexLength dataLength).elim, frameOut, rfl, nodes, plain, overflow,
        metaCodec_fits wide direct ?_, rfl, rfl, rfl⟩
      rw [rooted]
      exact Nat.two_pow_pos 64
    · obtain ⟨level, inner, leaves, shallow, layered, indexPart, leavesPart⟩ :=
        exists_layered (indexBlocks_rootLevel large) rooted wired4 wired3 wired2 wired1
      rw [dealt.taken] at indexPart
      have inside := indexPart.trans (List.take_sublist _ index)
      have root := small ((indexBlocks record.size).root levels record.indirect)
        (List.mem_append_left _ (inside.subset List.mem_cons_self))
      have tree : BlockTree after { record with
          direct := padded directCount data
          indirect := (indexBlocks record.size).root levels record.indirect } _ _ :=
        .indexed rooted shallow layered
      rw [Meta.directIds, present_direct dataNonzero] at tree
      rw [present_of_nonzero restNonzero] at leavesPart
      have dataPart := (List.Sublist.refl (data.take directCount)).append leavesPart
      rw [List.take_append_drop] at dataPart
      exact ⟨_, _, tree, inside, dataPart, fun bound indexLength dataLength =>
          (unplanned bound indexLength dataLength).elim, frameOut, rfl, nodes, plain, overflow,
        metaCodec_fits wide direct root.2, rfl, rfl, rfl⟩

/-- `forward` lays out any lists of block numbers. -/
theorem wp_forward {record : Meta} {post : Meta → (Nat → Block) → Prop}
    (wide : record.size < 2 ^ 64) (distinct : index.Nodup)
    (free : ∀ id ∈ index, rules.Valid id ∧ id ∉ held)
    (zero : index.length < (indexBlocks record.size).indexBlockCount → rules.Valid 0 ∧ 0 ∉ held)
    (room : held.length < rules.limit) (small : ∀ id ∈ index ++ data, id ≠ 0 ∧ id < 2 ^ 64)
    (goal : ∀ laid after indexAfter dataAfter,
      Forwarded record index data store laid after indexAfter dataAfter → post laid after) :
    (record.forward (indexBlocks record.size) index data).wp rules held post failed store := by
  have indexNonzero : ∀ id ∈ index, id ≠ 0 :=
    fun id idIn => (small id (List.mem_append_left _ idIn)).1
  have directFits : ∀ id ∈ (padded directCount data).toList, id < 2 ^ 64 := by
    intro id idIn
    rcases mem_padded idIn with member | rfl
    · exact (small id (List.mem_append_right _ member)).2
    · decide
  by_cases large : directMax < record.size
  · have indirect : indirectSize record.size ≠ 0 := by
      rw [indirectSize_eq]
      omega
    have dealt := dealt_deal (indexBlocks_single record.size) indexNonzero
    have unfolded : record.forward (indexBlocks record.size) index data =
        (((indexBlocks record.size).deal index).write (data.drop directCount)).bind fun _ =>
          .pure { record with
            direct := padded directCount data
            indirect := (indexBlocks record.size).root ((indexBlocks record.size).deal index)
              record.indirect } := by
      simp [Meta.forward, indirect]
    rw [unfolded]
    refine Scoped.wp_bind.mpr (wp_write ?_ ?_ room ?_ ?_)
    · rw [dealt.taken]
      exact distinct.sublist (List.take_sublist _ _)
    · intro id idIn
      rcases dealt.members indexNonzero idIn with member | ⟨rfl, short⟩
      · exact free id member
      · exact zero short
    · intro id idIn
      rcases List.mem_append.mp idIn with idIn | idIn
      · rcases dealt.members indexNonzero idIn with member | ⟨rfl, -⟩
        · exact (small id (List.mem_append_left _ member)).2
        · decide
      · exact (small id (List.mem_append_right _ (List.mem_of_mem_drop idIn))).2
    · intro after frame written spilled
      obtain ⟨indexAfter, dataAfter, forwarded⟩ := Dealt.forwarded rfl dealt large wide small
        directFits frame written spilled
      exact goal _ after indexAfter dataAfter forwarded
  · have plain : indirectSize record.size = 0 := by
      rw [indirectSize_eq]
      omega
    have few : dataBlocks record.size ≤ directCount := by
      obtain ⟨direct, -⟩ := levelConstants
      simp only [dataBlocks, directCount, blockSize]
      omega
    have none : (indexBlocks record.size).indexBlockCount = 0 := by
      obtain ⟨direct, -⟩ := levelConstants
      rw [indexBlockCount_eq]
      split_ifs <;> omega
    have unfolded : record.forward (indexBlocks record.size) index data =
        .pure { record with direct := padded directCount data, indirect := 0 } := by
      simp [Meta.forward, plain]
    have tree : BlockTree store { record with
        direct := padded directCount data
        indirect := 0 } _ _ := .direct rfl
    rw [Meta.directIds, present_direct fun id idIn =>
      (small id (List.mem_append_right _ idIn)).1] at tree
    rw [unfolded]
    refine goal _ store [] (data.take directCount) ⟨by simpa [sortIds] using tree,
      List.nil_sublist _, List.take_sublist _ _, ?_, fun _ _ _ => rfl, rfl,
      fun isLarge => absurd isLarge large, fun _ => rfl, fun isLarge => absurd isLarge large,
      metaCodec_fits wide directFits (Nat.two_pow_pos 64), rfl, rfl, rfl⟩
    intro _ indexLength dataLength
    rw [none] at indexLength
    exact ⟨(List.length_eq_zero_iff.mp indexLength).symm,
      List.take_of_length_le (by omega)⟩

end Write

/-! ## Past the reach of the tree -/

/-- A block table without entries. -/
def emptyTable : IndirectBlock := ⟨Vector.replicate indirectLen 0, .blockTable⟩

/-- Past the reach of the tree, the plan asks for more index blocks than the tree has, and for
more block tables than its data blocks fill. -/
theorem indexBlocks_past {size : Nat} (past : l4Max < size) : directMax < size ∧
    (indexBlocks l4Max).indexBlockCount < (indexBlocks size).indexBlockCount ∧
    l4Max ≤ (directCount + indirectLen * ((indexBlocks size).blockTable - 1)) * blockSize := by
  obtain ⟨direct, table, tableMax, directory, directoryMax, l3, l3Max, top⟩ := levelConstants
  have least : (indexBlocks l4Max).indexBlockCount < (indexBlocks (l4Max + 1)).indexBlockCount := by
    decide
  have order := indexBlockCount_mono (Nat.succ_le_of_lt past)
  refine ⟨by omega, Nat.lt_of_lt_of_le least order, ?_⟩
  rw [indexBlocks, if_pos (by omega)]
  simp only [indirectSize_eq, direct, table, directCount, indirectLen, blockSize]
  omega

/-- A file past the reach of its tree, laid out again with no more data blocks, spills an empty
block table. -/
theorem Forwarded.spills {resized old : Meta} {middle : Nat → Block}
    {newIndex newData indexAfter dataAfter : List Nat}
    (forwarded : Forwarded record (index ++ newIndex) (data ++ newData) middle resized after
      indexAfter dataAfter)
    (tree : BlockTree store old index data) (past : l4Max < record.size) (noIndex : newIndex = [])
    (noData : newData = []) :
    ∃ block : Block, after 0 = block.patch indirectBlock 0 emptyTable := by
  subst noIndex noData
  rw [List.append_nil, List.append_nil] at forwarded
  obtain ⟨large, manyIndex, manyTables⟩ := indexBlocks_past past
  obtain ⟨block, isPatch⟩ :=
    forwarded.spilled large (Nat.lt_of_le_of_lt tree.length_index_le manyIndex)
  have spent : (data.drop directCount).drop
      (indirectLen * ((indexBlocks record.size).blockTable - 1)) = [] := by
    rw [List.drop_drop, List.drop_eq_nil_iff]
    exact Nat.le_of_mul_le_mul_right (Nat.le_trans tree.length_data_le manyTables)
      (show 0 < blockSize by decide)
  rw [spent] at isPatch
  exact ⟨block, isPatch⟩

end Canyon.Fs
