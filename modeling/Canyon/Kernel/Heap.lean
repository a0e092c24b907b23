import Mathlib.Algebra.Group.Nat.Defs
import Canyon.Kernel.Frame

/-!
# The kernel heap and the frame allocator

The kernel heap takes addresses one after another from a fixed virtual address, which is backed
by the physical memory mapped there; the frame allocator takes its frames from the firmware's
memory map. Nothing tells one of the other: whether they share memory depends on the map.
-/

namespace Canyon.Kernel

/-! ## Segments in any order

The frames of the allocator are those it was given, whatever order the firmware lists them in. -/

namespace Segments

/-- No segment is empty. -/
def Filled (segments : Segments) : Prop := ∀ segment ∈ segments, 1 ≤ segment.pages

/-- Segments within others: none is empty, and all frames are among those allowed. -/
structure Within (segments : Segments) (allowed : Set Nat) : Prop where
  /-- No segment is empty. -/
  filled : segments.Filled
  /-- All frames are among those allowed. -/
  subset : segments.free ⊆ allowed

variable {segments after : Segments} {allowed : Set Nat} {addr : Nat}

/-- A segment among others. -/
theorem frames_subset {segment : MemoryRange} (segmentIn : segment ∈ segments) :
    segment.frames ⊆ segments.free :=
  fun _ inside => ⟨segment, segmentIn, inside⟩

/-- A list is within when each of its segments is. -/
theorem within_iff : segments.Within allowed ↔
    ∀ segment ∈ segments, 1 ≤ segment.pages ∧ segment.frames ⊆ allowed := by
  constructor
  · intro within segment segmentIn
    exact ⟨within.filled segment segmentIn, (frames_subset segmentIn).trans within.subset⟩
  · intro each
    refine ⟨fun segment segmentIn => (each segment segmentIn).1, ?_⟩
    rintro frame ⟨segment, segmentIn, inside⟩
    exact (each segment segmentIn).2 inside

/-- Taking the first pages of a segment adds no frame. -/
theorem Within.take {before : Segments} {segment : MemoryRange} {pages : Nat}
    (within : Within (before ++ segment :: after) allowed) (few : pages ≤ segment.pages) :
    Within (before ++ (remainder segment pages ++ after)) allowed := by
  rw [within_iff] at within ⊢
  intro other otherIn
  simp only [List.mem_append] at otherIn
  rcases otherIn with early | left | late
  · exact within other (List.mem_append_left _ early)
  · obtain ⟨starts, filled, ends⟩ := mem_remainder left few
    refine ⟨filled, fun frame inside => (within segment (by simp)).2 ?_⟩
    rw [MemoryRange.mem_frames] at inside ⊢
    omega
  · exact within other (by simp [late])

section

variable (within : segments.Within allowed)

include within

/-- `allocate` returns a frame that was free, and adds none. -/
theorem Within.allocate {frame : Option Nat} (ran : segments.allocate = (frame, after)) :
    after.Within allowed ∧ ∀ found, frame = some found → found ∈ allowed := by
  rcases allocate_cases segments with ⟨-, isAllocate⟩ | ⟨segment, rest, rfl, isAllocate⟩
  · rw [isAllocate] at ran
    obtain ⟨rfl, rfl⟩ := Prod.mk.inj ran
    exact ⟨within, by simp⟩
  · rw [isAllocate] at ran
    obtain ⟨rfl, rfl⟩ := Prod.mk.inj ran
    have filled := within.filled segment List.mem_cons_self
    have inside := (within_iff.mp within segment List.mem_cons_self).2
    rw [← List.nil_append (segment :: rest)] at within
    refine ⟨within.take filled, ?_⟩
    rintro found isFound
    obtain rfl := Option.some.inj isFound
    exact inside ⟨Nat.le_refl _, by omega⟩

/-- `alloc_range` returns frames that were free, and adds none. -/
theorem Within.allocRange {pages : Nat} {frame : Option Nat}
    (ran : segments.allocRange pages = (frame, after)) :
    after.Within allowed ∧
      ∀ first, frame = some first → Set.Ico first (first + pages) ⊆ allowed := by
  rcases allocRange_cases segments pages with
    ⟨-, isRange⟩ | ⟨before, segment, rest, rfl, few, -, isRange⟩
  · rw [isRange] at ran
    obtain ⟨rfl, rfl⟩ := Prod.mk.inj ran
    exact ⟨within, by simp⟩
  · rw [isRange] at ran
    obtain ⟨rfl, rfl⟩ := Prod.mk.inj ran
    refine ⟨within.take few, ?_⟩
    rintro first isFirst
    obtain rfl := Option.some.inj isFirst
    intro found taken
    rw [Set.mem_Ico] at taken
    exact (within_iff.mp within segment (by simp)).2 ⟨taken.1, by omega⟩

/-- The loop of `deallocate` adds no frame but the one given back. -/
theorem Within.scan (isAllowed : addr ∈ allowed) (i : Nat) :
    (Segments.scan addr i segments).1.Within allowed := by
  induction segments generalizing i with
  | nil => exact within
  | cons segment rest ih =>
    rw [within_iff, List.forall_mem_cons] at within
    obtain ⟨⟨filled, inside⟩, others⟩ := within
    have last := MemoryRange.endFrame_succ filled
    have next := within_iff.mp (ih (within_iff.mpr others) (i + 1))
    have passes : Within (segment :: (Segments.scan addr (i + 1) rest).1) allowed :=
      within_iff.mpr (List.forall_mem_cons.mpr ⟨⟨filled, inside⟩, next⟩)
    rw [Segments.scan]
    split
    · exact passes
    · split
      · refine within_iff.mpr (List.forall_mem_cons.mpr ⟨⟨Nat.le_add_left _ _, ?_⟩, others⟩)
        intro frame covered
        rw [MemoryRange.mem_frames] at covered
        dsimp only at covered
        by_cases same : frame = addr
        · rwa [same]
        · exact inside ⟨covered.1, by omega⟩
      · split
        · refine within_iff.mpr (List.forall_mem_cons.mpr ⟨⟨Nat.le_add_left _ _, ?_⟩, others⟩)
          intro frame covered
          rw [MemoryRange.mem_frames] at covered
          dsimp only at covered
          by_cases same : frame = addr
          · rwa [same]
          · exact inside ⟨by omega, by omega⟩
        · split
          · exact within_iff.mpr (List.forall_mem_cons.mpr ⟨⟨filled, inside⟩, others⟩)
          · exact passes

/-- Joining two neighbours adds no frame. -/
theorem Within.join {first second : Nat} (ran : segments.join first second = some after) :
    after.Within allowed := by
  unfold Segments.join at ran
  cases foundLeft : segments[first]? with
  | none =>
    rw [foundLeft] at ran
    cases ran
  | some left =>
    cases foundRight : segments[second]? with
    | none =>
      rw [foundLeft, foundRight] at ran
      cases ran
    | some right =>
      rw [foundLeft, foundRight, Option.bind_eq_bind, Option.bind_some, Option.bind_some] at ran
      have leftIn := List.mem_of_getElem? foundLeft
      have rightIn := List.mem_of_getElem? foundRight
      rw [within_iff] at within
      have last := MemoryRange.endFrame_succ (within left leftIn).1
      split at ran
      · rename_i touches
        obtain rfl := Option.some.inj ran
        refine within_iff.mpr fun other otherIn => ?_
        rcases List.mem_or_eq_of_mem_set (List.mem_of_mem_eraseIdx otherIn) with old | rfl
        · exact within other old
        · have filled := (within left leftIn).1
          refine ⟨by dsimp only; omega, fun frame covered => ?_⟩
          rw [MemoryRange.mem_frames] at covered
          dsimp only at covered
          by_cases early : frame < left.start + left.pages
          · exact (within left leftIn).2 ⟨covered.1, early⟩
          · exact (within right rightIn).2 ⟨by omega, by omega⟩
      · obtain rfl := Option.some.inj ran
        exact within_iff.mpr within

/-- A segment of one frame put into a list. -/
theorem Within.insertAt {index : Nat} (isAllowed : addr ∈ allowed)
    (ran : segments.insertAt index ⟨addr, 1⟩ = some after) : after.Within allowed := by
  unfold Segments.insertAt at ran
  split at ran
  · rename_i inside
    obtain rfl := Option.some.inj ran
    refine within_iff.mpr fun other otherIn => ?_
    rcases (List.mem_insertIdx inside).mp otherIn with rfl | old
    · refine ⟨Nat.le_refl 1, fun frame covered => ?_⟩
      rw [MemoryRange.mem_frames] at covered
      obtain rfl : frame = addr := by
        dsimp only at covered
        omega
      exact isAllowed
    · exact within_iff.mp within other old
  · cases ran

/-- A segment of one frame at the end of a list. -/
theorem Within.push (isAllowed : addr ∈ allowed) : Within (segments ++ [⟨addr, 1⟩]) allowed := by
  refine within.insertAt isAllowed (show segments.insertAt segments.length ⟨addr, 1⟩ = _ from ?_)
  have placed := insertIdx_length_append segments [] ⟨addr, 1⟩
  rw [List.append_nil] at placed
  rw [Segments.insertAt, if_pos (Nat.le_refl _), placed]

/-- `deallocate` adds no frame but the one given back. -/
theorem Within.deallocate (isAllowed : addr ∈ allowed)
    (ran : segments.deallocate addr = some after) :
    after.Within allowed := by
  unfold Segments.deallocate at ran
  split at ran
  · obtain rfl := Option.some.inj ran
    exact within.push isAllowed
  · have scanned := within.scan isAllowed 0
    generalize Segments.scan addr 0 segments = found at ran scanned
    obtain ⟨middle, index, ok⟩ := found
    dsimp only at ran scanned
    split at ran
    · exact scanned.insertAt isAllowed ran
    · split at ran
      · obtain rfl := Option.some.inj ran
        exact scanned.push isAllowed
      · have finish : ∀ joined : Segments, joined.Within allowed →
            (if ok = .right ∧ asUsize index ≠ joined.length - 1 then do
              let next ← checkedI32 (index + 1)
              joined.join (asUsize index) (asUsize next)
            else some joined) = some after → after.Within allowed := by
          intro joined isJoined toRight
          split at toRight
          · obtain ⟨_, -, isJoin⟩ := Option.bind_eq_some_iff.mp toRight
            exact isJoined.join isJoin
          · obtain rfl := Option.some.inj toRight
            exact isJoined
        split at ran
        · obtain ⟨_, -, toLeft⟩ := Option.bind_eq_some_iff.mp ran
          obtain ⟨joined, isJoin, toRight⟩ := Option.bind_eq_some_iff.mp toLeft
          exact finish joined (scanned.join isJoin) toRight
        · exact finish middle scanned ran

end

end Segments

/-! ## The heap -/

/-- `MemoryType`, as far as `memory::init` looks at it. -/
inductive MemoryType where
  /-- `MemoryType::CONVENTIONAL`. -/
  | conventional
  /-- Any other type. -/
  | other
  deriving DecidableEq, Repr

/-- `MemoryDescriptor`. -/
structure MemoryDescriptor where
  /-- `ty`. -/
  ty : MemoryType
  /-- `phys_start`. -/
  physStart : Nat
  /-- `page_count`. -/
  pageCount : Nat
  /-- UEFI forbids empty regions. -/
  filled : 1 ≤ pageCount

/-- `PAGE_SIZE`. -/
def pageSize : Nat := 0x1000

/-- The segments that `memory::init` passes to the frame allocator. -/
def memoryInit (descriptors : List MemoryDescriptor) : Segments :=
  (descriptors.filter fun descriptor => decide (descriptor.ty = .conventional)).map
    fun descriptor => ⟨descriptor.physStart / pageSize, descriptor.pageCount⟩

/-- `physical_memory_offset` of `DEFAULT_CONFIG`. -/
def physicalMemoryOffset : Nat := 0xffff_9000_0000_0000

/-- The first address of `ALLOCATOR`. -/
def heapStart : Nat := 0xffff_9000_4000_0000

/-- One more than `usize::MAX`. -/
def usizeLimit : Nat := 0x1_0000_0000_0000_0000

/-- `Layout`. -/
structure Layout where
  /-- `size()`. -/
  size : Nat
  /-- `align()`. -/
  align : Nat
  /-- Alignments are powers of two. -/
  isAlign : ∃ exponent, align = 2 ^ exponent
  /-- The size, rounded up to the alignment, is an `isize`. -/
  fits : size + (align - 1) < 0x8000_0000_0000_0000

/-- `Allocator::alloc`: the address, and the next value of `start`. -/
def heapAlloc (start : Nat) (layout : Layout) : Option (Nat × Nat) :=
  if start + layout.align < usizeLimit then
    let address := start + layout.align - start % layout.align
    if address + layout.size < usizeLimit then some (address, address + layout.size) else none
  else none

/-- An allocation of the heap lies above what it has handed out before. -/
theorem heapAlloc_spec {start address next : Nat} {layout : Layout}
    (ran : heapAlloc start layout = some (address, next)) :
    start ≤ address ∧ next = address + layout.size ∧ next < usizeLimit := by
  unfold heapAlloc at ran
  split at ran
  · dsimp only at ran
    split at ran
    · rename_i fits
      obtain ⟨rfl, rfl⟩ := Prod.mk.inj (Option.some.inj ran)
      obtain ⟨exponent, isAlign⟩ := layout.isAlign
      have positive : 0 < layout.align := isAlign ▸ Nat.two_pow_pos exponent
      have := Nat.mod_lt start positive
      exact ⟨by omega, rfl, fits⟩
    · cases ran
  · cases ran

/-- The frame that backs a virtual address. -/
def frameOf (address : Nat) : Nat := (address - physicalMemoryOffset) / pageSize

/-- The memory of the kernel: `start` of the heap, the heap allocations that are live, the
segments of the frame allocator and the frames it has handed out. -/
structure Memory where
  /-- `start` of the heap. -/
  start : Nat
  /-- Addresses and sizes of the live heap allocations. -/
  live : List (Nat × Nat)
  /-- Segments of the frame allocator. -/
  segments : Segments
  /-- Frames handed out. -/
  out : Set Nat

namespace Memory

/-- The memory when the kernel has called `memory::init`. -/
def boot (descriptors : List MemoryDescriptor) : Memory :=
  ⟨heapStart, [], memoryInit descriptors, ∅⟩

/-- No byte of a live heap allocation lies in a frame that is free or handed out. -/
def Apart (memory : Memory) : Prop :=
  ∀ allocation ∈ memory.live, ∀ address, allocation.1 ≤ address →
    address < allocation.1 + allocation.2 → frameOf address ∉ memory.segments.free ∪ memory.out

/-- An operation of the heap or of the frame allocator that returns. Frames are given back by
those who were handed them. -/
inductive Step : Memory → Memory → Prop where
  /-- `Allocator::alloc`. -/
  | heapAlloc {memory : Memory} {layout : Layout} {address start : Nat}
      (ran : Kernel.heapAlloc memory.start layout = some (address, start)) :
      Step memory { memory with start, live := (address, layout.size) :: memory.live }
  /-- `Allocator::dealloc`. -/
  | heapDealloc {memory : Memory} (allocation : Nat × Nat) :
      Step memory { memory with live := memory.live.erase allocation }
  /-- `FrameAllocator::allocate`. -/
  | allocate {memory : Memory} {frame : Option Nat} {segments : Segments}
      (ran : memory.segments.allocate = (frame, segments)) :
      Step memory { memory with segments, out := {found | frame = some found} ∪ memory.out }
  /-- `FrameAllocator::alloc_range`. -/
  | allocRange {memory : Memory} {pages : Nat} {frame : Option Nat} {segments : Segments}
      (positive : 1 ≤ pages) (ran : memory.segments.allocRange pages = (frame, segments)) :
      Step memory { memory with
        segments
        out := {found | ∃ first, frame = some first ∧ found ∈ Set.Ico first (first + pages)} ∪
          memory.out }
  /-- `FrameAllocator::deallocate`. -/
  | deallocate {memory : Memory} {addr : Nat} {segments : Segments} (wasOut : addr ∈ memory.out)
      (ran : memory.segments.deallocate addr = some segments) :
      Step memory { memory with segments, out := memory.out \ {addr} }

/-- The heap lies above its start and below the end of the address space; the frames of the
frame allocator are those of the memory map. -/
structure Parted (descriptors : List MemoryDescriptor) (memory : Memory) : Prop where
  /-- The heap grows. -/
  grown : heapStart ≤ memory.start
  /-- Live allocations lie above the start of the heap, within the address space. -/
  placed : ∀ allocation ∈ memory.live,
    heapStart ≤ allocation.1 ∧ allocation.1 + allocation.2 < usizeLimit
  /-- Free frames are those of the map. -/
  within : memory.segments.Within (memoryInit descriptors).free
  /-- Frames handed out are those of the map. -/
  handed : memory.out ⊆ (memoryInit descriptors).free

/-- The segments of the memory map are not empty. -/
theorem memoryInit_within (descriptors : List MemoryDescriptor) :
    (memoryInit descriptors).Within (memoryInit descriptors).free := by
  refine ⟨fun segment segmentIn => ?_, fun _ inside => inside⟩
  obtain ⟨descriptor, -, rfl⟩ := List.mem_map.mp segmentIn
  exact descriptor.filled

/-- The memory after `memory::init`. -/
theorem Parted.boot (descriptors : List MemoryDescriptor) :
    Parted descriptors (boot descriptors) :=
  ⟨Nat.le_refl _, by simp [Memory.boot], memoryInit_within descriptors, Set.empty_subset _⟩

/-- An operation keeps heap and frames apart in this sense. -/
theorem Parted.step {descriptors : List MemoryDescriptor} {memory after : Memory}
    (parted : Parted descriptors memory) (step : Step memory after) :
    Parted descriptors after := by
  cases step with
  | heapAlloc ran =>
    obtain ⟨above, rfl, fits⟩ := heapAlloc_spec ran
    have grown := parted.grown
    refine { parted with grown := by dsimp only; omega, placed := ?_ }
    refine List.forall_mem_cons.mpr ⟨⟨by dsimp only; omega, fits⟩, parted.placed⟩
  | heapDealloc allocation =>
    exact { parted with
      placed := fun other otherIn => parted.placed other (List.mem_of_mem_erase otherIn) }
  | allocate ran =>
    obtain ⟨within, taken⟩ := parted.within.allocate ran
    refine { parted with within, handed := Set.union_subset ?_ parted.handed }
    exact fun found isFound => taken found isFound
  | allocRange positive ran =>
    obtain ⟨within, taken⟩ := parted.within.allocRange ran
    refine { parted with within, handed := Set.union_subset ?_ parted.handed }
    rintro found ⟨first, isFirst, inside⟩
    exact taken first isFirst inside
  | deallocate wasOut ran =>
    exact { parted with
      within := parted.within.deallocate (parted.handed wasOut) ran
      handed := Set.sdiff_subset.trans parted.handed }

/-- All memory that the kernel reaches. -/
theorem Parted.run {descriptors : List MemoryDescriptor} {memory : Memory}
    (run : Relation.ReflTransGen Step (Memory.boot descriptors) memory) :
    Parted descriptors memory := by
  induction run with
  | refl => exact .boot descriptors
  | tail _ step ih => exact ih.step step

/-- Physical frames that the heap can reach: from the first gigabyte to the end of the address
space. -/
def heapFrames : Set Nat := Set.Ico 0x4_0000 0x7_0000_0000

/-- Bytes of the heap lie in the frames that it can reach. -/
theorem frameOf_mem {address : Nat} (above : heapStart ≤ address) (below : address < usizeLimit) :
    frameOf address ∈ heapFrames := by
  unfold heapStart at above
  unfold usizeLimit at below
  simp only [frameOf, physicalMemoryOffset, pageSize, heapFrames, Set.mem_Ico]
  omega

/-- An allocation of a heap just started that reaches a frame. -/
theorem exists_heapAlloc {frame : Nat} (reached : frame ∈ heapFrames) :
    ∃ layout address next, Kernel.heapAlloc heapStart layout = some (address, next) ∧
      ∃ byte, address ≤ byte ∧ byte < address + layout.size ∧ frameOf byte = frame := by
  rw [heapFrames, Set.mem_Ico] at reached
  have fits : frame * 0x1000 - 0x4000_0000 + 1 + (1 - 1) < 0x8000_0000_0000_0000 := by omega
  refine ⟨⟨frame * 0x1000 - 0x4000_0000 + 1, 1, ⟨0, rfl⟩, fits⟩, heapStart + 1,
    heapStart + 1 + (frame * 0x1000 - 0x4000_0000 + 1), ?_,
    physicalMemoryOffset + frame * 0x1000 + 1, ?_, ?_, ?_⟩
  · unfold Kernel.heapAlloc heapStart usizeLimit
    dsimp only
    rw [if_pos (by omega), Nat.mod_one, if_pos (by omega)]
  · unfold heapStart physicalMemoryOffset
    omega
  · unfold heapStart physicalMemoryOffset
    dsimp only
    omega
  · unfold frameOf physicalMemoryOffset pageSize
    omega

/-- Heap and frame allocator never share memory exactly when the memory map has no conventional
memory where the heap can reach. -/
theorem heap_apart_iff (descriptors : List MemoryDescriptor) :
    (∀ memory, Relation.ReflTransGen Step (boot descriptors) memory → memory.Apart) ↔
      Disjoint (memoryInit descriptors).free heapFrames := by
  constructor
  · intro apart
    rw [Set.disjoint_left]
    intro frame inMap reached
    obtain ⟨layout, address, next, ran, byte, lower, upper, isFrame⟩ := exists_heapAlloc reached
    have step : Step (boot descriptors)
        { boot descriptors with start := next, live := [(address, layout.size)] } :=
      .heapAlloc ran
    have notShared := apart _ (.single step) (address, layout.size) List.mem_cons_self byte lower
      upper
    rw [isFrame] at notShared
    exact notShared (.inl inMap)
  · intro apart memory run allocation isLive address lower upper shared
    have parted := Parted.run run
    obtain ⟨above, below⟩ := parted.placed allocation isLive
    have reached := frameOf_mem (Nat.le_trans above lower) (Nat.lt_trans upper below)
    have inMap : frameOf address ∈ (memoryInit descriptors).free := by
      rcases shared with isFree | isOut
      · exact parted.within.subset isFree
      · exact parted.handed isOut
    exact Set.disjoint_left.mp apart inMap reached

/-- A memory map with conventional memory from 1 MiB to 2 GiB. -/
def twoGigabytes : List MemoryDescriptor := [⟨.conventional, 0x10_0000, 0x7_ff00, by decide⟩]

/-- With that map the first allocation of eight bytes lies in a frame that is free. -/
theorem heap_shares_free_frame : ∃ memory,
    Relation.ReflTransGen Step (boot twoGigabytes) memory ∧ ¬memory.Apart := by
  have ran : Kernel.heapAlloc heapStart ⟨8, 8, ⟨3, rfl⟩, by decide⟩ =
      some (heapStart + 8, heapStart + 16) := by decide
  refine ⟨_, .single (.heapAlloc ran), fun apart => ?_⟩
  refine apart (heapStart + 8, 8) List.mem_cons_self (heapStart + 8) (Nat.le_refl _) (by decide)
    (.inl ?_)
  exact ⟨⟨0x100, 0x7_ff00⟩, List.mem_cons_self, by decide, by decide⟩

end Memory

end Canyon.Kernel
