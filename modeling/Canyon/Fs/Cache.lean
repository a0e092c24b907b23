import Canyon.Lib.Shared
import Canyon.Fs.Device

/-!
# The block cache

`CacheManager` keeps up to `cacheSize` blocks of a disk in memory. A block in the cache is
an object shared by the queue and by the handles that `get` gave out; a miss on a full
queue evicts the first object that only the queue owns, and an object writes itself back
when its last owner drops it. This module models the manager as the source computes it,
with object identity and owner counts explicit, and proves that it behaves as a plain
store of blocks (`cacheManager_refines_store`).
-/

namespace Canyon.Fs

open Canyon.Lib
open EStateM (Result)

/-- `CACHE_SIZE`. -/
def cacheSize : Nat := 32

/-- `Cache`: one block in memory. The device it belongs to is the manager's. -/
structure Cache where
  /-- `cache`. -/
  cache : Block
  /-- `block_id`. -/
  blockId : Nat
  /-- `modified`. -/
  modified : Bool
  deriving Inhabited

/-- `CacheManager`, with the memory its shared pointers live in. -/
structure CacheManager where
  /-- `queue`: block numbers and pointers to the cached blocks. -/
  queue : List (Nat × Nat)
  /-- Pointers outside the queue, one for every live `Arc`. -/
  handles : List Nat
  /-- The objects, by pointer. -/
  heap : Nat → Cache
  /-- First pointer that names no object yet. -/
  next : Nat
  /-- `block_device`. -/
  device : Disk

namespace CacheManager

/-- `CacheManager::new`. -/
def new (device : Disk) : CacheManager := ⟨[], [], default, 0, device⟩

/-- Pointers of the queue entries. -/
def pointers (manager : CacheManager) : List Nat := manager.queue.map Prod.snd

/-- `Cache::sync` of one object: write it to the device when it is modified. -/
def sync (manager : CacheManager) (pointer : Nat) : Result Panic CacheManager Unit :=
  let object := manager.heap pointer
  if object.modified then
    match manager.device.writeBlock object.blockId object.cache with
    | .ok device => .ok () { manager with
        heap := Function.update manager.heap pointer { object with modified := false }
        device }
    | .error error => .error error manager
  else .ok () manager

/-- Drop of one `Arc` that has already left the queue or the handles: the object is dropped
with its last owner, and dropping it syncs it. -/
def dropped (manager : CacheManager) (pointer : Nat) : Result Panic CacheManager Unit :=
  if strongCount manager.pointers manager.handles pointer = 0 then manager.sync pointer
  else .ok () manager

/-- The substitution in `CacheManager::get`: a full queue gives up its first entry that has
no other owner. -/
def substitute (manager : CacheManager) : Result Panic CacheManager Unit :=
  if manager.queue.length = cacheSize then
    match findEvictable manager.pointers manager.handles with
    | some index =>
      match manager.pointers[index]? with
      | some pointer =>
        dropped { manager with queue := swapRemove manager.queue index } pointer
      | none => .error .indexOutOfRange manager
    | none => .error .runOutOfBlockCache manager
  else .ok () manager

/-- `Cache::new` and its entry in the queue; one `Arc` goes to the caller. -/
def load (manager : CacheManager) (blockId : Nat) : Result Panic CacheManager Nat :=
  match manager.device.readBlock blockId with
  | .ok block => .ok manager.next { manager with
      queue := manager.queue ++ [(blockId, manager.next)]
      handles := manager.next :: manager.handles
      heap := Function.update manager.heap manager.next ⟨block, blockId, false⟩
      next := manager.next + 1 }
  | .error error => .error error manager

/-- Entry of a block in the queue. -/
def find (manager : CacheManager) (blockId : Nat) : Option Nat :=
  (manager.queue.find? fun entry => entry.1 == blockId).map Prod.snd

/-- `CacheManager::get`. The search made again under the write lock of the queue finds what
the first one found, since no other call comes between. -/
def get (manager : CacheManager) (blockId : Nat) : Result Panic CacheManager Nat :=
  match manager.find blockId with
  | some pointer => .ok pointer { manager with handles := pointer :: manager.handles }
  | none =>
    match manager.substitute with
    | .ok _ manager => manager.load blockId
    | .error error manager => .error error manager

/-- Drop of a handle. -/
def release (manager : CacheManager) (pointer : Nat) : Result Panic CacheManager Unit :=
  dropped { manager with handles := manager.handles.erase pointer } pointer

/-- `Cache::read` through a handle: the block the closure sees. -/
def read (manager : CacheManager) (pointer : Nat) : Block := (manager.heap pointer).cache

/-- `Cache::modify` through a handle, with the block that its closure leaves. -/
def modify (manager : CacheManager) (pointer : Nat) (block : Block) : CacheManager :=
  { manager with
    heap := Function.update manager.heap pointer
      { manager.heap pointer with cache := block, modified := true } }

/-- Sync the listed objects in order. -/
def syncAll (manager : CacheManager) : List Nat → Result Panic CacheManager Unit
  | [] => .ok () manager
  | pointer :: rest =>
    match manager.sync pointer with
    | .ok _ manager => manager.syncAll rest
    | .error error manager => .error error manager

/-- `CacheManager::flush`. -/
def flush (manager : CacheManager) : Result Panic CacheManager Unit :=
  manager.syncAll manager.pointers

/-- The panics of the block cache itself. -/
def panics : List Panic := [.blockOutOfRange, .runOutOfBlockCache, .indexOutOfRange]

variable {manager after : CacheManager} {error : Panic}

/-- How `sync` can fail. -/
theorem sync_error {pointer : Nat} (failed : manager.sync pointer = .error error after) :
    error ∈ panics := by
  simp only [sync, Disk.writeBlock] at failed
  split at failed
  · split at failed
    · contradiction
    · rename_i found
      split at found
      · contradiction
      · obtain rfl := Except.error.inj found
        obtain rfl := (Result.error.inj failed).1
        decide
  · contradiction

/-- How the drop of an `Arc` can fail. -/
theorem dropped_error {pointer : Nat} (failed : manager.dropped pointer = .error error after) :
    error ∈ panics := by
  unfold dropped at failed
  split at failed
  · exact sync_error failed
  · contradiction

/-- How `get` can fail. -/
theorem get_error {blockId : Nat} (failed : manager.get blockId = .error error after) :
    error ∈ panics := by
  unfold get at failed
  split at failed
  · contradiction
  · split at failed
    · simp only [load, Disk.readBlock] at failed
      split at failed
      · contradiction
      · rename_i found
        split at found
        · contradiction
        · obtain rfl := Except.error.inj found
          obtain rfl := (Result.error.inj failed).1
          decide
    · rename_i stuck
      obtain ⟨rfl, -⟩ := Result.error.inj failed
      unfold substitute at stuck
      split at stuck
      · split at stuck
        · split at stuck
          · exact dropped_error stuck
          · obtain rfl := (Result.error.inj stuck).1
            decide
        · obtain rfl := (Result.error.inj stuck).1
          decide
      · contradiction

/-- How the sync of several objects can fail. -/
theorem syncAll_error {pointers : List Nat}
    (failed : manager.syncAll pointers = .error error after) :
    error ∈ panics := by
  induction pointers generalizing manager with
  | nil => contradiction
  | cons pointer rest ih =>
    unfold syncAll at failed
    split at failed
    · exact ih failed
    · rename_i stuck
      obtain ⟨rfl, -⟩ := Result.error.inj failed
      exact sync_error stuck

/-- The manager stands for these block contents. An object agrees with the contents of its
block, a block that is clean or not in the queue has them on the device, and every handle
points to an object of the queue. -/
structure Coherent (manager : CacheManager) (contents : Nat → Block) : Prop where
  /-- One entry for each block. -/
  ids : (manager.queue.map Prod.fst).Nodup
  /-- One entry for each object. -/
  distinct : manager.pointers.Nodup
  /-- The queue keeps to its size. -/
  bounded : manager.queue.length ≤ cacheSize
  /-- The pointers of the queue name objects. -/
  allocated : ∀ entry ∈ manager.queue, entry.2 < manager.next
  /-- An entry is filed under the block of its object. -/
  tagged : ∀ entry ∈ manager.queue, (manager.heap entry.2).blockId = entry.1
  /-- A cached block is a block of the device. -/
  inRange : ∀ entry ∈ manager.queue, entry.1 < manager.device.totalBlocks
  /-- The object of a handle is in the queue. -/
  pinned : ∀ pointer ∈ manager.handles, pointer ∈ manager.pointers
  /-- An object holds the contents of its block. -/
  cached : ∀ entry ∈ manager.queue, (manager.heap entry.2).cache = contents entry.1
  /-- An unmodified object agrees with the device. -/
  clean : ∀ entry ∈ manager.queue, (manager.heap entry.2).modified = false →
    manager.device.data entry.1 = contents entry.1
  /-- A block outside the queue has its contents on the device. -/
  backed : ∀ blockId, blockId ∉ manager.queue.map Prod.fst →
    manager.device.data blockId = contents blockId

/-- State after `Cache::sync` of an object whose block is on the device. -/
def synced (manager : CacheManager) (pointer : Nat) : CacheManager :=
  { manager with
    heap := Function.update manager.heap pointer
      { manager.heap pointer with modified := false }
    device := { manager.device with
      data := if (manager.heap pointer).modified then
          Function.update manager.device.data (manager.heap pointer).blockId
            (manager.heap pointer).cache
        else manager.device.data } }

section Sync

variable (manager : CacheManager) (pointer : Nat)

/-- A sync leaves the queue alone. -/
@[simp] theorem synced_queue : (manager.synced pointer).queue = manager.queue := rfl

/-- A sync leaves the handles alone. -/
@[simp] theorem synced_handles : (manager.synced pointer).handles = manager.handles := rfl

/-- A sync makes no object. -/
@[simp] theorem synced_next : (manager.synced pointer).next = manager.next := rfl

/-- A sync leaves the pointers of the queue alone. -/
@[simp] theorem synced_pointers : (manager.synced pointer).pointers = manager.pointers := rfl

/-- A sync leaves the size of the device alone. -/
@[simp] theorem synced_totalBlocks :
    (manager.synced pointer).device.totalBlocks = manager.device.totalBlocks := rfl

/-- A sync leaves every object alone but for the flag of its own. -/
theorem synced_heap (other : Nat) :
    (manager.synced pointer).heap other =
      if other = pointer then { manager.heap other with modified := false }
      else manager.heap other := by
  by_cases same : other = pointer
  · subst same
    simp [synced]
  · simp [synced, same]

/-- A sync leaves every object's block alone. -/
@[simp] theorem synced_cache (other : Nat) :
    ((manager.synced pointer).heap other).cache = (manager.heap other).cache := by
  rw [synced_heap]
  split <;> rfl

/-- A sync leaves every object's block number alone. -/
@[simp] theorem synced_blockId (other : Nat) :
    ((manager.synced pointer).heap other).blockId = (manager.heap other).blockId := by
  rw [synced_heap]
  split <;> rfl

/-- A sync changes the device at most at the object's block, where it leaves the object's
content if that was modified. -/
theorem synced_data (blockId : Nat) :
    (manager.synced pointer).device.data blockId =
      if (manager.heap pointer).modified ∧ blockId = (manager.heap pointer).blockId then
        (manager.heap pointer).cache
      else manager.device.data blockId := by
  by_cases modified : (manager.heap pointer).modified
  · simp [synced, modified, Function.update_apply]
  · simp [synced, modified]

/-- `Cache::sync` of an object whose block is on the device cannot fail. -/
theorem sync_eq (inRange : (manager.heap pointer).blockId < manager.device.totalBlocks) :
    manager.sync pointer = .ok () (manager.synced pointer) := by
  by_cases modified : (manager.heap pointer).modified
  · simp [sync, synced, modified, Disk.writeBlock, inRange]
  · have flag : (manager.heap pointer).modified = false := by simpa using modified
    have same : { manager.heap pointer with modified := false } = manager.heap pointer := by
      rw [← flag]
    simp [sync, synced, flag, same]

end Sync

namespace Coherent

variable {manager final : CacheManager} {contents : Nat → Block}

/-- Entries of one block are the same entry. -/
theorem entry_of_id (coherent : manager.Coherent contents) {left right : Nat × Nat}
    (leftIn : left ∈ manager.queue) (rightIn : right ∈ manager.queue)
    (same : left.1 = right.1) : left = right :=
  List.inj_on_of_nodup_map coherent.ids leftIn rightIn same

/-- Entries of one object are the same entry. -/
theorem entry_of_pointer (coherent : manager.Coherent contents) {left right : Nat × Nat}
    (leftIn : left ∈ manager.queue) (rightIn : right ∈ manager.queue)
    (same : left.2 = right.2) : left = right :=
  List.inj_on_of_nodup_map coherent.distinct leftIn rightIn same

variable {pointer blockId : Nat} {entry : Nat × Nat}

/-- The object of a handle has an entry under its block. -/
theorem entry_of_handle (coherent : manager.Coherent contents) (held : pointer ∈ manager.handles) :
    ((manager.heap pointer).blockId, pointer) ∈ manager.queue := by
  obtain ⟨entry, entryIn, rfl⟩ := List.mem_map.mp (coherent.pinned pointer held)
  rwa [coherent.tagged entry entryIn]

/-- A fresh manager stands for the contents of its device. -/
theorem new (device : Disk) : (CacheManager.new device).Coherent device.data where
  ids := List.nodup_nil
  distinct := List.nodup_nil
  bounded := Nat.zero_le _
  allocated := by intro entry member; cases member
  tagged := by intro entry member; cases member
  inRange := by intro entry member; cases member
  pinned := by intro pointer member; cases member
  cached := by intro entry member; cases member
  clean := by intro entry member; cases member
  backed := fun _ _ => rfl

/-- After the sync of an object in the queue, the device has the contents of its block. -/
theorem synced_backed (coherent : manager.Coherent contents) (entryIn : entry ∈ manager.queue) :
    (manager.synced entry.2).device.data entry.1 = contents entry.1 := by
  rw [synced_data, coherent.tagged entry entryIn]
  by_cases modified : (manager.heap entry.2).modified
  · simp [modified, coherent.cached entry entryIn]
  · simp [modified, coherent.clean entry entryIn]

/-- A sync never takes the contents of a block off the device. -/
theorem synced_keeps (coherent : manager.Coherent contents) (entryIn : entry ∈ manager.queue)
    (before : manager.device.data blockId = contents blockId) :
    (manager.synced entry.2).device.data blockId = contents blockId := by
  by_cases same : blockId = entry.1
  · subst same
    exact coherent.synced_backed entryIn
  · rw [synced_data, coherent.tagged entry entryIn]
    simp [same, before]

/-- A sync of an object in the queue keeps the contents. -/
theorem sync (coherent : manager.Coherent contents) (entryIn : entry ∈ manager.queue) :
    (manager.synced entry.2).Coherent contents where
  ids := coherent.ids
  distinct := coherent.distinct
  bounded := coherent.bounded
  allocated := coherent.allocated
  tagged := by
    intro other otherIn
    rw [synced_blockId]
    exact coherent.tagged other otherIn
  inRange := coherent.inRange
  pinned := coherent.pinned
  cached := by
    intro other otherIn
    rw [synced_cache]
    exact coherent.cached other otherIn
  clean := by
    intro other otherIn unmodified
    by_cases same : other = entry
    · subst same
      exact coherent.synced_backed otherIn
    · have apart : other.2 ≠ entry.2 := fun equal =>
        same (coherent.entry_of_pointer otherIn entryIn equal)
      rw [synced_heap, if_neg apart] at unmodified
      exact coherent.synced_keeps entryIn (coherent.clean other otherIn unmodified)
  backed := fun blockId outside => coherent.synced_keeps entryIn (coherent.backed blockId outside)

/-- An entry without handles may leave the queue once its object is synced. -/
theorem evict (coherent : manager.Coherent contents) {index : Nat}
    (found : manager.queue[index]? = some entry) (free : entry.2 ∉ manager.handles) :
    ({ manager with queue := swapRemove manager.queue index }.synced entry.2).Coherent
      contents := by
  have entryIn : entry ∈ manager.queue := List.mem_of_getElem? found
  have shuffled := swapRemove_perm manager.queue index entry found
  have fromQueue : ∀ other ∈ swapRemove manager.queue index, other ∈ manager.queue :=
    fun other otherIn => shuffled.subset (List.mem_cons_of_mem entry otherIn)
  have after := coherent.sync entryIn
  have ids := (shuffled.map Prod.fst).nodup_iff.mpr coherent.ids
  have distinct := (shuffled.map Prod.snd).nodup_iff.mpr coherent.distinct
  rw [List.map_cons, List.nodup_cons] at ids distinct
  refine ⟨ids.2, distinct.2, ?_, ?_, ?_, ?_, ?_, ?_, ?_, ?_⟩
  · have length := shuffled.length_eq
    have bounded := coherent.bounded
    simp only [List.length_cons] at length
    simp only [synced_queue]
    omega
  · exact fun other otherIn => after.allocated other (fromQueue other otherIn)
  · exact fun other otherIn => after.tagged other (fromQueue other otherIn)
  · exact fun other otherIn => after.inRange other (fromQueue other otherIn)
  · intro pointer held
    obtain ⟨other, otherIn, rfl⟩ := List.mem_map.mp (coherent.pinned pointer held)
    have apart : other ≠ entry := by
      rintro rfl
      exact free held
    have kept := shuffled.symm.subset otherIn
    exact List.mem_map_of_mem ((List.mem_cons.mp kept).resolve_left apart)
  · exact fun other otherIn => after.cached other (fromQueue other otherIn)
  · exact fun other otherIn => after.clean other (fromQueue other otherIn)
  · intro blockId outside
    by_cases same : blockId = entry.1
    · subst same
      exact coherent.synced_backed entryIn
    · apply after.backed
      intro inside
      obtain ⟨other, otherIn, rfl⟩ := List.mem_map.mp inside
      have kept := (List.mem_cons.mp (shuffled.symm.subset otherIn)).resolve_left
        (fun equal => same (congrArg Prod.fst equal))
      exact outside (List.mem_map_of_mem kept)

/-- An evictable entry leaves the queue by a swap and a sync that cannot fail. -/
theorem dropped_evicted (coherent : manager.Coherent contents) {index : Nat}
    (found : findEvictable manager.pointers manager.handles = some index) :
    ∃ entry, manager.queue[index]? = some entry ∧ entry.2 ∉ manager.handles ∧
      manager.pointers[index]? = some entry.2 ∧
      dropped { manager with queue := swapRemove manager.queue index } entry.2 =
        .ok () ({ manager with queue := swapRemove manager.queue index }.synced entry.2) := by
  obtain ⟨pointer, pointerAt, once, free⟩ := findEvictable_some found
  obtain ⟨entry, entryAt, rfl⟩ : ∃ entry, manager.queue[index]? = some entry ∧
      entry.2 = pointer := by
    simpa [pointers, List.getElem?_map, Option.map_eq_some_iff] using pointerAt
  refine ⟨entry, entryAt, free, pointerAt, ?_⟩
  have entryIn : entry ∈ manager.queue := List.mem_of_getElem? entryAt
  have gone : (swapRemove manager.pointers index).count entry.2 = 0 := by
    have counted := (swapRemove_perm manager.pointers index entry.2 pointerAt).count_eq entry.2
    rw [List.count_cons_self] at counted
    omega
  have unowned : strongCount ((swapRemove manager.queue index).map Prod.snd) manager.handles
      entry.2 = 0 := by
    rw [map_swapRemove]
    simp only [strongCount, List.count_eq_zero.mpr free, Nat.add_zero]
    exact gone
  simp only [dropped, pointers, unowned, ↓reduceIte]
  apply sync_eq
  rw [coherent.tagged entry entryIn]
  exact coherent.inRange entry entryIn

/-- The manager `substitute` leaves has room for a block, still stands for the same
contents, and has dropped no entry with a handle. -/
theorem substitute (coherent : manager.Coherent contents)
    (done : manager.substitute = .ok () final) :
    final.Coherent contents ∧ final.queue.length < cacheSize ∧
      final.handles = manager.handles ∧
      final.device.totalBlocks = manager.device.totalBlocks ∧
      (∀ entry ∈ final.queue, entry ∈ manager.queue) ∧
      ∀ entry ∈ manager.queue, entry.2 ∈ manager.handles → entry ∈ final.queue := by
  unfold CacheManager.substitute at done
  split at done
  · rename_i full
    split at done
    · rename_i index found
      obtain ⟨entry, entryAt, free, pointerAt, dropEq⟩ := coherent.dropped_evicted found
      rw [pointerAt] at done
      simp only [dropEq, Result.ok.injEq, true_and] at done
      subst done
      have shuffled := swapRemove_perm manager.queue index entry entryAt
      have length := shuffled.length_eq
      simp only [List.length_cons] at length
      refine ⟨coherent.evict entryAt free, ?_, rfl, rfl, ?_, ?_⟩
      · simp only [synced_queue]
        omega
      · exact fun other otherIn => shuffled.subset (List.mem_cons_of_mem entry otherIn)
      · intro other otherIn held
        refine (List.mem_cons.mp (shuffled.symm.subset otherIn)).resolve_left ?_
        rintro rfl
        exact free held
    · simp at done
  · rename_i room
    simp only [Result.ok.injEq, true_and] at done
    subst done
    have bounded := coherent.bounded
    exact ⟨coherent, by omega, rfl, rfl, fun _ inside => inside, fun _ inside _ => inside⟩

/-- With fewer handles than the cache has slots, `substitute` makes room. -/
theorem substitute_total (coherent : manager.Coherent contents)
    (room : manager.handles.length < cacheSize) :
    ∃ final, manager.substitute = .ok () final := by
  unfold CacheManager.substitute
  split
  · rename_i full
    have more : manager.handles.length < manager.pointers.length := by
      simpa [pointers, full] using room
    obtain ⟨index, found⟩ := Option.isSome_iff_exists.mp
      (findEvictable_isSome coherent.distinct more)
    obtain ⟨entry, -, -, pointerAt, dropEq⟩ := coherent.dropped_evicted found
    simp only [found, pointerAt, dropEq]
    exact ⟨_, rfl⟩
  · exact ⟨manager, rfl⟩

/-- A block that is not in the queue is loaded into a queue with room. -/
theorem load (coherent : manager.Coherent contents) (room : manager.queue.length < cacheSize)
    (absent : blockId ∉ manager.queue.map Prod.fst)
    (inRange : blockId < manager.device.totalBlocks) :
    ∃ final, manager.load blockId = .ok manager.next final ∧ final.Coherent contents ∧
      final.queue = manager.queue ++ [(blockId, manager.next)] ∧
      final.handles = manager.next :: manager.handles ∧
      final.device = manager.device := by
  simp only [CacheManager.load, Disk.readBlock, inRange, ↓reduceIte]
  refine ⟨_, rfl, ?_, rfl, rfl, rfl⟩
  have older : ∀ entry ∈ manager.queue, entry.2 ≠ manager.next :=
    fun entry entryIn => Nat.ne_of_lt (coherent.allocated entry entryIn)
  have fresh : manager.next ∉ manager.pointers := by
    intro member
    obtain ⟨entry, entryIn, same⟩ := List.mem_map.mp member
    exact older entry entryIn same
  refine ⟨?_, ?_, ?_, ?_, ?_, ?_, ?_, ?_, ?_, ?_⟩
  · rw [List.map_append, List.map_singleton]
    exact (List.perm_append_singleton _ _).nodup_iff.mpr
      (List.nodup_cons.mpr ⟨absent, coherent.ids⟩)
  · rw [pointers, List.map_append, List.map_singleton]
    exact (List.perm_append_singleton _ _).nodup_iff.mpr
      (List.nodup_cons.mpr ⟨fresh, coherent.distinct⟩)
  · simp only [List.length_append, List.length_singleton]
    omega
  · intro entry entryIn
    rcases List.mem_append.mp entryIn with old | new
    · exact Nat.lt_succ_of_lt (coherent.allocated entry old)
    · rw [List.mem_singleton.mp new]
      exact Nat.lt_succ_self _
  · intro entry entryIn
    rcases List.mem_append.mp entryIn with old | new
    · simp only [Function.update_of_ne (older entry old)]
      exact coherent.tagged entry old
    · rw [List.mem_singleton.mp new]
      simp
  · intro entry entryIn
    rcases List.mem_append.mp entryIn with old | new
    · exact coherent.inRange entry old
    · rw [List.mem_singleton.mp new]
      exact inRange
  · intro pointer held
    rw [pointers, List.map_append, List.mem_append]
    rcases List.mem_cons.mp held with rfl | old
    · exact Or.inr (by simp)
    · exact Or.inl (coherent.pinned pointer old)
  · intro entry entryIn
    rcases List.mem_append.mp entryIn with old | new
    · simp only [Function.update_of_ne (older entry old)]
      exact coherent.cached entry old
    · rw [List.mem_singleton.mp new]
      simpa using coherent.backed blockId absent
  · intro entry entryIn unmodified
    rcases List.mem_append.mp entryIn with old | new
    · simp only [Function.update_of_ne (older entry old)] at unmodified
      exact coherent.clean entry old unmodified
    · rw [List.mem_singleton.mp new]
      exact coherent.backed blockId absent
  · intro other outside
    apply coherent.backed
    intro inside
    exact outside (by rw [List.map_append]; exact List.mem_append_left _ inside)

/-- A block found in the queue has an entry there. -/
theorem find_some (found : manager.find blockId = some pointer) :
    (blockId, pointer) ∈ manager.queue := by
  obtain ⟨entry, entryAt, rfl⟩ := Option.map_eq_some_iff.mp found
  have same := List.find?_some entryAt
  rw [beq_iff_eq] at same
  rw [← same]
  exact List.mem_of_find?_eq_some entryAt

/-- A block not found in the queue has no entry there. -/
theorem find_none (missing : manager.find blockId = none) :
    blockId ∉ manager.queue.map Prod.fst := by
  intro inside
  obtain ⟨entry, entryIn, rfl⟩ := List.mem_map.mp inside
  rw [find, Option.map_eq_none_iff, List.find?_eq_none] at missing
  exact missing entry entryIn (by simp)

section

variable (coherent : manager.Coherent contents)

include coherent

/-- What `get` does when it returns: it hands out one more handle, to the object of the
block asked for, and changes no contents and no entry that has a handle. -/
theorem get (done : manager.get blockId = .ok pointer final) :
    final.Coherent contents ∧ (blockId, pointer) ∈ final.queue ∧
      final.handles = pointer :: manager.handles ∧
      final.device.totalBlocks = manager.device.totalBlocks ∧
      ∀ entry ∈ manager.queue, entry.2 ∈ manager.handles → entry ∈ final.queue := by
  unfold CacheManager.get at done
  split at done
  · rename_i hit found
    simp only [Result.ok.injEq] at done
    obtain ⟨rfl, rfl⟩ := done
    have entryIn := find_some found
    refine ⟨⟨coherent.ids, coherent.distinct, coherent.bounded, coherent.allocated,
      coherent.tagged, coherent.inRange, ?_, coherent.cached, coherent.clean,
      coherent.backed⟩, entryIn, rfl, rfl, fun _ inside _ => inside⟩
    intro other held
    rcases List.mem_cons.mp held with rfl | old
    · exact List.mem_map_of_mem entryIn
    · exact coherent.pinned other old
  · rename_i missing
    cases substituted : manager.substitute with
    | error error middle => simp [substituted] at done
    | ok _ middle =>
      simp only [substituted] at done
      obtain ⟨middleCoherent, room, handles, total, fromQueue, keeps⟩ :=
        coherent.substitute substituted
      have absent : blockId ∉ middle.queue.map Prod.fst := by
        intro inside
        obtain ⟨entry, entryIn, rfl⟩ := List.mem_map.mp inside
        exact find_none missing (List.mem_map_of_mem (fromQueue entry entryIn))
      have inRange : blockId < middle.device.totalBlocks := by
        by_contra outside
        simp [CacheManager.load, Disk.readBlock, outside] at done
      obtain ⟨loaded, loadEq, loadedCoherent, queueEq, handlesEq, deviceEq⟩ :=
        middleCoherent.load room absent inRange
      rw [loadEq] at done
      simp only [Result.ok.injEq] at done
      obtain ⟨rfl, rfl⟩ := done
      refine ⟨loadedCoherent, by simp [queueEq], by rw [handlesEq, handles],
        by rw [deviceEq, total], ?_⟩
      intro entry entryIn held
      rw [queueEq]
      exact List.mem_append_left _ (keeps entry entryIn held)

/-- `get` of a block of the device returns while fewer handles are out than the cache has
slots. -/
theorem get_total (inRange : blockId < manager.device.totalBlocks)
    (room : manager.handles.length < cacheSize) :
    ∃ pointer final, manager.get blockId = .ok pointer final := by
  unfold CacheManager.get
  split
  · exact ⟨_, _, rfl⟩
  · rename_i missing
    obtain ⟨middle, substituted⟩ := coherent.substitute_total room
    obtain ⟨middleCoherent, slot, -, total, fromQueue, -⟩ := coherent.substitute substituted
    have absent : blockId ∉ middle.queue.map Prod.fst := by
      intro inside
      obtain ⟨entry, entryIn, rfl⟩ := List.mem_map.mp inside
      exact find_none missing (List.mem_map_of_mem (fromQueue entry entryIn))
    obtain ⟨loaded, loadEq, -⟩ := middleCoherent.load slot absent (by rwa [total])
    simp only [substituted, loadEq]
    exact ⟨_, _, rfl⟩

/-- The drop of a handle never drops its object, which the queue still owns. -/
theorem release_eq (held : pointer ∈ manager.handles) :
    manager.release pointer =
      .ok () { manager with handles := manager.handles.erase pointer } := by
  have owned : 0 < manager.pointers.count pointer :=
    List.count_pos_iff.mpr (coherent.pinned pointer held)
  have counted : strongCount (pointers { manager with handles := manager.handles.erase pointer })
      (manager.handles.erase pointer) pointer ≠ 0 := by
    simp only [strongCount, pointers] at owned ⊢
    omega
  simp only [release, dropped, counted, ↓reduceIte]

/-- A dropped handle leaves the contents alone. -/
theorem release (pointer : Nat) :
    ({ manager with handles := manager.handles.erase pointer } : CacheManager).Coherent
      contents :=
  ⟨coherent.ids, coherent.distinct, coherent.bounded, coherent.allocated, coherent.tagged,
    coherent.inRange, fun other held => coherent.pinned other (List.mem_of_mem_erase held),
    coherent.cached, coherent.clean, coherent.backed⟩

/-- A modification through a queue entry changes the contents of its block and no other. -/
theorem modify (entryIn : entry ∈ manager.queue) (block : Block) :
    (manager.modify entry.2 block).Coherent (Function.update contents entry.1 block) := by
  have apart : ∀ other ∈ manager.queue, other ≠ entry → other.2 ≠ entry.2 ∧ other.1 ≠ entry.1 :=
    fun other otherIn different =>
      ⟨fun same => different (coherent.entry_of_pointer otherIn entryIn same),
        fun same => different (coherent.entry_of_id otherIn entryIn same)⟩
  refine ⟨coherent.ids, coherent.distinct, coherent.bounded, coherent.allocated, ?_,
    coherent.inRange, coherent.pinned, ?_, ?_, ?_⟩
  · intro other otherIn
    by_cases same : other = entry
    · subst same
      simpa [CacheManager.modify] using coherent.tagged other otherIn
    · simpa [CacheManager.modify, (apart other otherIn same).1] using coherent.tagged other otherIn
  · intro other otherIn
    by_cases same : other = entry
    · subst same
      simp [CacheManager.modify]
    · simpa [CacheManager.modify, apart other otherIn same] using coherent.cached other otherIn
  · intro other otherIn unmodified
    by_cases same : other = entry
    · subst same
      simp [CacheManager.modify] at unmodified
    · simp only [CacheManager.modify, Function.update_of_ne (apart other otherIn same).1]
        at unmodified
      rw [Function.update_of_ne (apart other otherIn same).2]
      exact coherent.clean other otherIn unmodified
  · intro blockId outside
    have different : blockId ≠ entry.1 := by
      rintro rfl
      exact outside (List.mem_map_of_mem entryIn)
    rw [Function.update_of_ne different]
    exact coherent.backed blockId outside

/-- Syncing listed objects of the queue cannot fail, keeps the contents, and leaves every
listed block on the device. -/
theorem syncAll {listed : List (Nat × Nat)} (inside : ∀ entry ∈ listed, entry ∈ manager.queue) :
    ∃ final, manager.syncAll (listed.map Prod.snd) = .ok () final ∧ final.Coherent contents ∧
      final.queue = manager.queue ∧ final.handles = manager.handles ∧
      final.device.totalBlocks = manager.device.totalBlocks ∧
      (∀ entry ∈ listed, final.device.data entry.1 = contents entry.1) ∧
      ∀ blockId, manager.device.data blockId = contents blockId →
        final.device.data blockId = contents blockId := by
  induction listed generalizing manager with
  | nil => exact ⟨manager, rfl, coherent, rfl, rfl, rfl, by simp, fun _ kept => kept⟩
  | cons entry rest ih =>
    have entryIn := inside entry List.mem_cons_self
    have inRange : (manager.heap entry.2).blockId < manager.device.totalBlocks := by
      rw [coherent.tagged entry entryIn]
      exact coherent.inRange entry entryIn
    obtain ⟨final, syncedEq, finalCoherent, queueEq, handlesEq, totalEq, listed, kept⟩ :=
      ih (coherent.sync entryIn)
        (fun other otherIn => inside other (List.mem_cons_of_mem _ otherIn))
    refine ⟨final, ?_, finalCoherent, queueEq, handlesEq, totalEq, ?_, ?_⟩
    · simp only [List.map_cons, CacheManager.syncAll, sync_eq manager entry.2 inRange, syncedEq]
    · intro other otherIn
      rcases List.mem_cons.mp otherIn with rfl | later
      · exact kept _ (coherent.synced_backed entryIn)
      · exact listed other later
    · exact fun blockId before => kept blockId (coherent.synced_keeps entryIn before)

/-- `flush` cannot fail, and leaves the contents of every block on the device. -/
theorem flush :
    ∃ final, manager.flush = .ok () final ∧ final.Coherent contents ∧
      final.queue = manager.queue ∧ final.handles = manager.handles ∧
      final.device.totalBlocks = manager.device.totalBlocks ∧
      ∀ blockId, final.device.data blockId = contents blockId := by
  obtain ⟨final, flushed, finalCoherent, queueEq, handlesEq, totalEq, listed, kept⟩ :=
    coherent.syncAll fun _ (inside : _ ∈ manager.queue) => inside
  refine ⟨final, flushed, finalCoherent, queueEq, handlesEq, totalEq, ?_⟩
  intro blockId
  by_cases cached : blockId ∈ manager.queue.map Prod.fst
  · obtain ⟨entry, entryIn, rfl⟩ := List.mem_map.mp cached
    exact listed entry entryIn
  · exact kept blockId (coherent.backed blockId cached)

end

end Coherent

/-- What callers have done with a manager: the states reached, with the block each
modification left last (the device's at the start where there was none). -/
inductive Reached (device : Disk) : CacheManager → (Nat → Block) → Prop where
  /-- `CacheManager::new`. -/
  | new : Reached device (CacheManager.new device) device.data
  /-- A `get` that returned. -/
  | get {manager final : CacheManager} {contents : Nat → Block} {blockId pointer : Nat} :
      Reached device manager contents → manager.get blockId = .ok pointer final →
      Reached device final contents
  /-- A modification through a live handle, by any closure. -/
  | modify {manager : CacheManager} {contents : Nat → Block} {pointer : Nat}
      (closure : Block → Block) :
      Reached device manager contents → pointer ∈ manager.handles →
      Reached device (manager.modify pointer (closure (manager.read pointer)))
        (Function.update contents (manager.heap pointer).blockId
          (closure (manager.read pointer)))
  /-- The drop of a live handle. -/
  | release {manager final : CacheManager} {contents : Nat → Block} {pointer : Nat} :
      Reached device manager contents → pointer ∈ manager.handles →
      manager.release pointer = .ok () final → Reached device final contents
  /-- A `flush`. -/
  | flush {manager final : CacheManager} {contents : Nat → Block} :
      Reached device manager contents → manager.flush = .ok () final →
      Reached device final contents

/-- In every state reached, the manager stands for the blocks modified last. -/
theorem Reached.coherent {device : Disk} {contents : Nat → Block}
    (reached : Reached device manager contents) : manager.Coherent contents := by
  induction reached with
  | new => exact Coherent.new device
  | get before done ih => exact (ih.get done).1
  | modify closure before held ih => exact ih.modify (ih.entry_of_handle held) _
  | release before held done ih =>
    rw [ih.release_eq held, Result.ok.injEq] at done
    exact done.2 ▸ ih.release _
  | flush before done ih =>
    obtain ⟨final, flushed, coherent, -⟩ := ih.flush
    rw [flushed, Result.ok.injEq] at done
    exact done.2 ▸ coherent

/-- The block cache is a plain store of blocks. In every state that callers can reach, the
queue has no two entries for one block and keeps to its size; handles of one block point to
one object, which is the queue's; a handle from `get` is one for the block asked for; every
read gives the block that the last modification left; and `flush` returns, with that same
block on the device, for every block. -/
theorem cacheManager_refines_store {device : Disk} {manager : CacheManager}
    {contents : Nat → Block} (reached : Reached device manager contents) :
    (manager.queue.map Prod.fst).Nodup ∧ manager.queue.length ≤ cacheSize ∧
    (∀ left ∈ manager.handles, ∀ right ∈ manager.handles,
      (manager.heap left).blockId = (manager.heap right).blockId → left = right) ∧
    (∀ pointer ∈ manager.handles, ((manager.heap pointer).blockId, pointer) ∈ manager.queue) ∧
    (∀ blockId pointer final, manager.get blockId = .ok pointer final →
      pointer ∈ final.handles ∧ (final.heap pointer).blockId = blockId) ∧
    (∀ pointer ∈ manager.handles,
      manager.read pointer = contents (manager.heap pointer).blockId) ∧
    ∃ final, manager.flush = .ok () final ∧
      ∀ blockId, final.device.data blockId = contents blockId := by
  have coherent := reached.coherent
  refine ⟨coherent.ids, coherent.bounded, ?_, fun _ held => coherent.entry_of_handle held,
    ?_, ?_, ?_⟩
  · intro left leftHeld right rightHeld same
    exact congrArg Prod.snd (coherent.entry_of_id (coherent.entry_of_handle leftHeld)
      (coherent.entry_of_handle rightHeld) same)
  · intro blockId pointer final done
    obtain ⟨finalCoherent, entryIn, handlesEq, -⟩ := coherent.get done
    exact ⟨by simp [handlesEq], finalCoherent.tagged _ entryIn⟩
  · intro pointer held
    exact coherent.cached _ (coherent.entry_of_handle held)
  · obtain ⟨final, flushed, -, -, -, -, written⟩ := coherent.flush
    exact ⟨final, flushed, written⟩

/-- A run on a device of two blocks: block 1 is taken, filled with sevens, and read through
its handle. -/
theorem cacheManager_refines_store_filled :
    ∃ manager contents, Reached (Disk.new 2) manager contents ∧ 0 ∈ manager.handles ∧
      manager.read 0 = ⟨List.replicate blockSize 7, List.length_replicate⟩ ∧
      manager.read 0 = contents (manager.heap 0).blockId := by
  have taken : Reached (Disk.new 2) _ _ :=
    .get .new (show (CacheManager.new (Disk.new 2)).get 1 = .ok 0 _ from rfl)
  have filled := Reached.modify (fun _ => ⟨List.replicate blockSize 7, List.length_replicate⟩)
    taken List.mem_cons_self
  have refines := cacheManager_refines_store filled
  exact ⟨_, _, filled, List.mem_cons_self, rfl, refines.2.2.2.2.2.1 0 List.mem_cons_self⟩

end CacheManager

end Canyon.Fs
