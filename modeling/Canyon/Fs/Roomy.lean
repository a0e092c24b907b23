import Canyon.Fs.Packed

/-!
# Callers that drop their handles

The inode cache between the calls of a user who keeps no handle. A lookup then finds an entry to
give up as long as there is one that is filed only once; the root directory is, since `create`
files only new inodes twice.
-/

namespace Canyon.Fs

open Canyon.Lib

/-- An entry without other owners can be given up. -/
theorem findEvictable_ne_none {queue handles : List Nat} {pointer : Nat}
    (once : queue.count pointer = 1) (unheld : pointer ∉ handles) :
    findEvictable queue handles ≠ none := by
  rw [findEvictable, Ne, List.findIdx?_eq_none_iff]
  intro none
  have member : pointer ∈ queue := List.count_pos_iff.mp (by omega)
  have alone := none pointer member
  rw [strongCount, once, List.count_eq_zero.mpr unheld] at alone
  simp at alone

namespace Inodes

variable {inodes after : Inodes} {fs : Cafs} {volume : Volume} {extents : Nat → Extent}
  {object : CaInode}

/-- A lookup whose handle is dropped. -/
inductive Visited (inodes : Inodes) (object : CaInode) : Inodes → Prop where
  /-- The lookup, and the cache without the handle. -/
  | mk {looked : Inodes} {pointer : Nat} (isLooked : inodes.Looked object pointer looked) :
      Visited inodes object { looked with handles := looked.handles.erase pointer }

/-- What a visit does: nothing, or a new object in the place of an entry. -/
theorem Visited.cases (visited : inodes.Visited object after) :
    after = inodes ∨ ∃ queue, substitute inodes.queue inodes.handles = .ok queue ∧
      after = { inodes.inserted object queue with handles := inodes.handles } := by
  obtain ⟨isLooked⟩ := visited
  cases isLooked with
  | hit found =>
    left
    rw [List.erase_cons_head]
  | @miss queue absent done =>
    right
    refine ⟨queue, done, ?_⟩
    rw [Inodes.inserted, List.erase_cons_head]

/-- A visit keeps the cache coherent. -/
theorem Coherent.visited (coherent : inodes.Coherent fs volume extents) {number : Nat}
    {file : File} (found : volume[number]? = some file)
    (visited : inodes.Visited (fs.inodeOf number file (extents number)) after) :
    after.Coherent fs volume extents := by
  obtain @⟨looked, pointer, isLooked⟩ := visited
  exact (coherent.looked found isLooked).1.drop pointer

/-- A visit leaves the handles as they are. -/
theorem Visited.handles (visited : inodes.Visited object after) :
    after.handles = inodes.handles := by
  rcases visited.cases with rfl | ⟨queue, -, rfl⟩
  · rfl
  · rfl

/-- A substitution adds nothing to the queue. -/
theorem Substituted.length_le {queue handles after : List Nat}
    (substituted : Substituted queue handles after) : after.length ≤ queue.length := by
  obtain ⟨removed, perm⟩ := substituted.part
  have whole := perm.length_eq
  rw [List.length_append] at whole
  omega

/-- A lookup adds at most one entry. -/
theorem Looked.length_le {pointer : Nat} (looked : inodes.Looked object pointer after) :
    after.queue.length ≤ inodes.queue.length + 1 := by
  cases looked with
  | hit found => exact Nat.le_succ _
  | @miss queue absent done =>
    have kept := (substituted done).length_le
    show (queue ++ [inodes.next]).length ≤ _
    rw [List.length_append, List.length_singleton]
    omega

/-- A visit adds at most one entry. -/
theorem Visited.length_le (visited : inodes.Visited object after) :
    after.queue.length ≤ inodes.queue.length + 1 := by
  obtain ⟨isLooked⟩ := visited
  exact isLooked.length_le

/-- `create` adds at most three entries. -/
theorem Created.length_le {parent : CaInode} {size : Nat} {blocks : List Nat}
    (created : inodes.Created object parent size blocks after) :
    after.queue.length ≤ inodes.queue.length + 3 := by
  obtain @⟨queue, last, looked, pointer, added, isLooked, pushed⟩ := created
  have afterAdd := (substituted added).length_le
  have afterPush := (substituted pushed).length_le
  have afterLook : looked.queue.length ≤ (queue ++ [inodes.next]).length + 1 :=
    isLooked.length_le
  show (last ++ [inodes.next]).length ≤ _
  rw [List.length_append, List.length_singleton] at afterLook ⊢
  omega

/-- A queue that is not full needs no room. -/
theorem substitute_ne_error {queue handles : List Nat} (short : queue.length < inodeCacheSize)
    (error : Panic) : substitute queue handles ≠ .error error := by
  intro stuck
  obtain ⟨-, full, -⟩ := substitute_error stuck
  omega

/-- The root directory is filed once. -/
def Single (inodes : Inodes) : Prop :=
  ∀ pointer ∈ inodes.queue, (inodes.heap pointer).inodeNumber = 0 →
    inodes.queue.count pointer = 1

/-- A cache of which no entry is held, with room for one more inode at any time. -/
structure Roomy (inodes : Inodes) : Prop where
  /-- Nobody holds an inode. -/
  idle : inodes.handles = []
  /-- The root directory is filed once. -/
  single : inodes.Single
  /-- The queue is not full, or an entry can be given up. -/
  spare : inodes.queue.length ≠ inodeCacheSize ∨
    ∃ pointer ∈ inodes.queue, inodes.queue.count pointer = 1

/-- The empty cache. -/
theorem Roomy.new : Inodes.new.Roomy :=
  ⟨rfl, by simp [Single, Inodes.new], .inl (by simp [Inodes.new, inodeCacheSize])⟩

/-- Room is made when it is needed. -/
theorem Roomy.substitute_ok (roomy : inodes.Roomy) (error : Panic) :
    substitute inodes.queue inodes.handles ≠ .error error := by
  intro stuck
  obtain ⟨-, full, none⟩ := substitute_error stuck
  obtain ⟨pointer, -, once⟩ := roomy.spare.resolve_left (not_not.mpr full)
  refine findEvictable_ne_none once ?_ none
  rw [roomy.idle]
  exact List.not_mem_nil

/-- An entry filed once that a substitution keeps is filed once. -/
theorem Substituted.count_eq_one {queue handles after : List Nat}
    (substituted : Substituted queue handles after) {pointer : Nat}
    (once : queue.count pointer = 1) (stays : pointer ∈ after) : after.count pointer = 1 := by
  obtain ⟨removed, perm⟩ := substituted.part
  have least := List.count_pos_iff.mpr stays
  rw [← perm.count_eq, List.count_append] at once
  omega

/-- A new object has one entry. -/
theorem count_inserted_next (allocated : ∀ pointer ∈ inodes.queue, pointer < inodes.next)
    {queue : List Nat} (part : ∀ pointer ∈ queue, pointer ∈ inodes.queue) :
    (queue ++ [inodes.next]).count inodes.next = 1 := by
  have fresh : inodes.next ∉ queue := fun isIn =>
    Nat.lt_irrefl _ (allocated _ (part _ isIn))
  rw [List.count_append, List.count_eq_zero.mpr fresh, List.count_singleton_self]

/-- The other entries are filed as often as before. -/
theorem count_concat_of_ne {pointer new : Nat} (different : pointer ≠ new) (queue : List Nat) :
    (queue ++ [new]).count pointer = queue.count pointer := by
  rw [List.count_append, List.count_singleton, beq_false_of_ne (Ne.symm different)]
  rfl

/-- A new entry leaves the root directory filed once. -/
theorem Single.inserted (single : inodes.Single)
    (allocated : ∀ pointer ∈ inodes.queue, pointer < inodes.next) {queue handles : List Nat}
    (isSubstituted : Substituted inodes.queue handles queue) (object : CaInode) :
    (inodes.inserted object queue).Single := by
  intro pointer pointerIn isRoot
  show (queue ++ [inodes.next]).count pointer = 1
  by_cases isNew : pointer = inodes.next
  · rw [isNew]
    exact count_inserted_next allocated isSubstituted.subset
  · have stays : pointer ∈ queue := by
      have split : pointer ∈ queue ++ [inodes.next] := pointerIn
      rw [List.mem_append, List.mem_singleton] at split
      exact split.resolve_right isNew
    have sameObject : (inodes.inserted object queue).heap pointer = inodes.heap pointer :=
      Function.update_of_ne isNew _ _
    rw [sameObject] at isRoot
    rw [count_concat_of_ne isNew]
    exact isSubstituted.count_eq_one
      (single pointer (isSubstituted.subset pointer stays) isRoot) stays

/-- A visit leaves room. -/
theorem Roomy.visited (roomy : inodes.Roomy) (coherent : inodes.Coherent fs volume extents)
    (visited : inodes.Visited object after) : after.Roomy := by
  rcases visited.cases with rfl | ⟨queue, done, rfl⟩
  · exact roomy
  have isSubstituted := substituted done
  refine ⟨roomy.idle, roomy.single.inserted coherent.allocated isSubstituted object,
    .inr ⟨inodes.next, by simp [inserted], ?_⟩⟩
  exact count_inserted_next coherent.allocated isSubstituted.subset

/-- Objects brought up to date leave room. -/
theorem Roomy.congr (roomy : inodes.Roomy) (queue : after.queue = inodes.queue)
    (handles : after.handles = inodes.handles)
    (numbers : ∀ pointer, (after.heap pointer).inodeNumber = (inodes.heap pointer).inodeNumber) :
    after.Roomy := by
  refine ⟨handles.trans roomy.idle, ?_, ?_⟩
  · intro pointer pointerIn isRoot
    rw [queue] at pointerIn ⊢
    rw [numbers] at isRoot
    exact roomy.single pointer pointerIn isRoot
  · rw [queue]
    exact roomy.spare

/-- `create` in the root directory leaves room: the root directory can be given up. -/
theorem Roomy.created (roomy : inodes.Roomy) (coherent : inodes.Coherent fs volume extents)
    (rooted : 0 < volume.length) {type : InodeType} {name : NameBytes} {root : File}
    (found : volume[0]? = some root) {contents : List UInt8} {extent : Extent}
    (created : inodes.Created (fs.inodeOf volume.length ⟨type, name, []⟩ ⟨[], []⟩)
      (fs.inodeOf 0 root (extents 0)) contents.length extent.data after) :
    Roomy { after with handles := inodes.handles } := by
  have coherentAfter := coherent.created found created
  obtain @⟨queue, last, looked, pointer, added, isLooked, pushed⟩ := created
  have isAdded := substituted added
  have inserted : (inodes.inserted (fs.inodeOf volume.length ⟨type, name, []⟩ ⟨[], []⟩)
      queue).Coherent fs (volume.add type name)
      (Function.update extents volume.length ⟨[], []⟩) := coherent.inserted added
  have singleInserted := roomy.single.inserted coherent.allocated isAdded
    (fs.inodeOf volume.length ⟨type, name, []⟩ ⟨[], []⟩)
  have foundAdded : (volume.add type name)[0]? = some root := by
    rw [Volume.getElem?_add_of_lt rooted]
    exact found
  have extentEq : Function.update extents volume.length ⟨[], []⟩ 0 = extents 0 :=
    Function.update_of_ne (Nat.ne_of_lt rooted) _ _
  rw [← extentEq] at isLooked
  obtain ⟨lookedCoherent, pointerIn, isObject, handlesEq⟩ := inserted.looked foundAdded isLooked
  have isRoot : (looked.heap pointer).inodeNumber = 0 := by rw [isObject, Cafs.inodeOf]
  have lookedOnce : looked.queue.count pointer = 1 := by
    cases isLooked with
    | hit hit => exact singleInserted pointer pointerIn isRoot
    | miss absent done =>
      exact singleInserted.inserted inserted.allocated (substituted done) _ _ pointerIn isRoot
  have stays : pointer ∈ last :=
    (substituted pushed).held pointer pointerIn (by simp [handlesEq])
  have different : pointer ≠ inodes.next := by
    rintro rfl
    have isNew := isLooked.heap_inserted
    rw [isNew] at isRoot
    exact Nat.ne_of_gt rooted isRoot
  have once : (last ++ [inodes.next]).count pointer = 1 := by
    rw [count_concat_of_ne different]
    exact (substituted pushed).count_eq_one lookedOnce stays
  have finalIn : pointer ∈ last ++ [inodes.next] := List.mem_append_left _ stays
  have finalRoot : (Function.update looked.heap pointer
      { looked.heap pointer with size := contents.length, blocks := extent.data }
        pointer).inodeNumber = 0 := by
    rw [Function.update_self]
    exact isRoot
  refine ⟨roomy.idle, fun other otherIn otherRoot => ?_, .inr ⟨pointer, finalIn, once⟩⟩
  have same := coherentAfter.unique other otherIn pointer finalIn (otherRoot.trans finalRoot.symm)
  rw [same]
  exact once

end Inodes

end Canyon.Fs
