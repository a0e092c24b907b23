import Canyon.Fs.Calls

/-!
# Packed inode caches

`create` files a new inode twice. From a device just set up the inode cache therefore holds
every inode, all but the root directory twice, until it is full; then `create` finds no entry
to give up, and panics.
-/

namespace Canyon.Fs

open Canyon.Lib

namespace Inodes

variable {inodes after : Inodes} {fs : Cafs} {volume : Volume} {extents : Nat → Extent}

/-- All of a number of inodes are in the cache, and all but the root directory twice. -/
structure Packed (inodes : Inodes) (count : Nat) : Prop where
  /-- Every inode has an entry. -/
  present : ∀ number < count, ∃ pointer ∈ inodes.queue,
    (inodes.heap pointer).inodeNumber = number
  /-- The root directory has one entry, every other inode two. -/
  length : inodes.queue.length + 1 = 2 * count
  /-- An inode that is not the root directory has two entries. -/
  twice : ∀ pointer ∈ inodes.queue, (inodes.heap pointer).inodeNumber ≠ 0 →
    2 ≤ inodes.queue.count pointer

/-- A queue that is not full stays as it is. -/
theorem substitute_of_ne {queue : List Nat} (notFull : queue.length ≠ inodeCacheSize)
    (handles : List Nat) : substitute queue handles = .ok queue :=
  if_neg notFull

/-- Every lookup in a packed cache is a hit. -/
theorem Packed.looked {count pointer : Nat} {object : CaInode} (packed : inodes.Packed count)
    (inside : object.inodeNumber < count) (looked : inodes.Looked object pointer after) :
    inodes.find object.inodeNumber = some pointer ∧
      after = { inodes with handles := pointer :: inodes.handles } := by
  cases looked with
  | hit found => exact ⟨found, rfl⟩
  | miss absent done =>
    obtain ⟨pointer, pointerIn, isNumber⟩ := packed.present _ inside
    exact absurd isNumber (find_none absent pointer pointerIn)

/-- The entries of a packed cache stay while objects are brought up to date. -/
theorem Packed.congr {count : Nat} (packed : inodes.Packed count)
    (queue : after.queue = inodes.queue)
    (numbers : ∀ pointer ∈ inodes.queue,
      (after.heap pointer).inodeNumber = (inodes.heap pointer).inodeNumber) :
    after.Packed count := by
  refine ⟨fun number inside => ?_, by rw [queue]; exact packed.length, ?_⟩
  · obtain ⟨pointer, pointerIn, isNumber⟩ := packed.present number inside
    exact ⟨pointer, by rwa [queue], by rw [numbers pointer pointerIn, isNumber]⟩
  · intro pointer pointerIn
    rw [queue] at pointerIn ⊢
    rw [numbers pointer pointerIn]
    exact packed.twice pointer pointerIn

/-- The full queue of a packed cache has no entry to give up while the root directory and the
inode added last are held. -/
theorem Packed.findEvictable_none {count root new : Nat} {others : List Nat}
    (packed : inodes.Packed count) (coherent : inodes.Coherent fs volume extents)
    (rootIn : root ∈ inodes.queue) (isRoot : (inodes.heap root).inodeNumber = 0)
    (held : root ∈ others ∧ new ∈ others) :
    findEvictable (inodes.queue ++ [new]) others = none := by
  by_contra some
  obtain ⟨index, found⟩ := Option.ne_none_iff_exists'.mp some
  obtain ⟨pointer, at_index, once, unheld⟩ := findEvictable_some found
  have pointerIn := List.mem_of_getElem? at_index
  rcases List.mem_append.mp pointerIn with old | isNew
  · by_cases zero : (inodes.heap pointer).inodeNumber = 0
    · have same := coherent.unique pointer old root rootIn (zero.trans isRoot.symm)
      exact unheld (same ▸ held.1)
    · have more := packed.twice pointer old zero
      rw [List.count_append] at once
      omega
  · rw [List.mem_singleton] at isNew
    exact unheld (isNew ▸ held.2)

/-- A second entry for the inode added last is made only while there is room. -/
theorem Packed.pushed {count root new : Nat} {others last : List Nat}
    (packed : inodes.Packed count) (coherent : inodes.Coherent fs volume extents)
    (rootIn : root ∈ inodes.queue) (isRoot : (inodes.heap root).inodeNumber = 0)
    (held : root ∈ others ∧ new ∈ others)
    (done : substitute (inodes.queue ++ [new]) others = .ok last) :
    last = inodes.queue ++ [new] := by
  by_cases full : (inodes.queue ++ [new]).length = inodeCacheSize
  · rw [substitute, if_pos full, packed.findEvictable_none coherent rootIn isRoot held] at done
    contradiction
  · rw [substitute_of_ne full] at done
    exact (Except.ok.inj done).symm

/-- The lookup of the root directory after an inode was added. -/
theorem Packed.looked_root {object parent : CaInode} {pointer : Nat}
    (packed : inodes.Packed volume.length) (coherent : inodes.Coherent fs volume extents)
    (isNew : object.inodeNumber = volume.length) (isRoot : parent.inodeNumber = 0)
    (some : 0 < volume.length)
    (looked : (inodes.inserted object inodes.queue).Looked parent pointer after) :
    pointer ∈ inodes.queue ∧ (inodes.heap pointer).inodeNumber = 0 ∧
      after = { inodes.inserted object inodes.queue with
        handles := pointer :: inodes.next :: inodes.handles } := by
  have old : ∀ other ∈ inodes.queue,
      (inodes.inserted object inodes.queue).heap other = inodes.heap other := fun other otherIn =>
    Function.update_of_ne (Nat.ne_of_lt (coherent.allocated other otherIn)) _ _
  cases looked with
  | hit found =>
    obtain ⟨pointerIn, isNumber⟩ := find_some found
    rcases List.mem_append.mp pointerIn with stays | new
    · refine ⟨stays, ?_, rfl⟩
      rw [← old pointer stays, isNumber, isRoot]
    · rw [List.mem_singleton.mp new] at isNumber
      have newNumber : ((inodes.inserted object inodes.queue).heap inodes.next) = object :=
        Function.update_self _ _ _
      rw [newNumber, isNew, isRoot] at isNumber
      omega
  | miss absent done =>
    obtain ⟨root, rootIn, isNumber⟩ := packed.present 0 some
    refine absurd ?_ (find_none absent root (List.mem_append_left _ rootIn))
    rw [old root rootIn, isNumber, isRoot]

/-- `create` in the root directory keeps the cache packed. -/
theorem Packed.created {object parent : CaInode} {size : Nat} {blocks : List Nat}
    (packed : inodes.Packed volume.length) (coherent : inodes.Coherent fs volume extents)
    (isNew : object.inodeNumber = volume.length) (isRoot : parent.inodeNumber = 0)
    (some : 0 < volume.length)
    (created : inodes.Created object parent size blocks after) :
    after.Packed (volume.length + 1) := by
  obtain @⟨queue, last, looked, pointer, added, found, pushed⟩ := created
  have odd : inodes.queue.length ≠ inodeCacheSize := by
    have length := packed.length
    have cache : inodeCacheSize = 32 := rfl
    omega
  rw [substitute_of_ne odd] at added
  obtain rfl := Except.ok.inj added
  obtain ⟨rootIn, rootNumber, rfl⟩ := packed.looked_root coherent isNew isRoot some found
  obtain rfl := packed.pushed coherent rootIn rootNumber (by simp) pushed
  have numbers : ∀ other ∈ inodes.queue, (Function.update
      (inodes.inserted object inodes.queue).heap pointer
      { (inodes.inserted object inodes.queue).heap pointer with size, blocks }
        other).inodeNumber = (inodes.heap other).inodeNumber := by
    intro other otherIn
    have old : (inodes.inserted object inodes.queue).heap other = inodes.heap other :=
      Function.update_of_ne (Nat.ne_of_lt (coherent.allocated other otherIn)) _ _
    by_cases same : other = pointer
    · rw [same, Function.update_self, ← same, old]
    · rw [Function.update_of_ne same, old]
  have newNumber : (Function.update (inodes.inserted object inodes.queue).heap pointer
      { (inodes.inserted object inodes.queue).heap pointer with size, blocks }
        inodes.next).inodeNumber = volume.length := by
    have isObject : (inodes.inserted object inodes.queue).heap inodes.next = object :=
      Function.update_self _ _ _
    rw [Function.update_of_ne (Nat.ne_of_gt (coherent.allocated pointer rootIn)), isObject,
      isNew]
  refine ⟨?_, ?_, ?_⟩ <;> dsimp only
  · intro number inside
    by_cases isLast : number = volume.length
    · exact ⟨inodes.next, by simp, newNumber.trans isLast.symm⟩
    · obtain ⟨other, otherIn, isNumber⟩ := packed.present number (by omega)
      exact ⟨other, by simp [otherIn], by rw [numbers other otherIn, isNumber]⟩
  · have length := packed.length
    simp only [List.length_append, List.length_singleton]
    omega
  · intro other otherIn notRoot
    have cases : other ∈ inodes.queue ∨ other = inodes.next := by simpa using otherIn
    rw [List.count_append, List.count_append]
    rcases cases with old | rfl
    · rw [numbers other old] at notRoot
      have more := packed.twice other old notRoot
      omega
    · rw [List.count_singleton_self]
      omega

end Inodes

end Canyon.Fs
