import Canyon.Boot.Space
import Canyon.Kernel.Dma

/-!
# What the loader hands over

The kernel never looks at the page table that the loader leaves. It adds the offset of the
configuration to a physical address and relies on the window; its heap begins at a fixed address of
the default window. Here the two sides meet: the addresses that a driver gets for a buffer are two
names of the same memory, at every point of every run of the allocators.
-/

namespace Canyon.Kernel

open Canyon.Boot Canyon.Lib
open Relation (ReflTransGen)

variable {mapper : LargeMapper} {space after : Space} {kernelStart maxPhysAddr : Nat}
  {segments : List ProgramHeader} {config : Config}

/-- `to_virt_addr` adds the offset of a window that starts with a large page. -/
theorem toVirtAddr_window (addressable : config.Addressable maxPhysAddr)
    (large : config.physicalMemoryOffset % 0x20_0000 = 0) {phys : Nat}
    (covered : phys < 0x20_0000 * (maxPhysAddr / 0x20_0000 + 1)) :
    toVirtAddr config.physicalMemoryOffset phys = some (phys + config.physicalMemoryOffset) := by
  have canonical : Canonical config.physicalMemoryOffset
      (config.physicalMemoryOffset + 0x20_0000 * (maxPhysAddr / 0x20_0000) + 0x1f_ffff) := by
    have window := addressable.window
    unfold Canonical at window ⊢
    omega
  have fits : phys + config.physicalMemoryOffset < usizeLimit := by
    unfold Canonical at canonical
    unfold usizeLimit
    omega
  rw [toVirtAddr, if_pos fits, canonical.virtAddrNew_eq (by omega) (by omega)]

/-- The frames of the memory map lie in the memory that the loader has seen. -/
theorem mem_memoryInit_lt {descriptors : List MemoryDescriptor} {frame offset : Nat}
    (covered : ∀ descriptor ∈ descriptors,
      descriptor.physStart + descriptor.pageCount * pageSize ≤ maxPhysAddr)
    (isFree : frame ∈ (memoryInit descriptors).free) (inPage : offset < pageSize) :
    frame * pageSize + offset < maxPhysAddr := by
  obtain ⟨segment, segmentIn, lower, upper⟩ := isFree
  obtain ⟨descriptor, descriptorIn, rfl⟩ := List.mem_map.mp segmentIn
  have ends := covered descriptor (List.mem_of_mem_filter descriptorIn)
  unfold pageSize at *
  dsimp only at lower upper
  omega

/-- On the space that the loader leaves, with a window that starts with a large page, and after any
run of the heap and the frame allocator: the two addresses that `alloc_dma` returns name the same
bytes, and a heap allocation in the default window lies in the memory that its address says. -/
theorem handover {descriptors : List MemoryDescriptor} {memory : Memory}
    (addressable : config.Addressable maxPhysAddr)
    (ran : space.mapKernel mapper kernelStart segments config maxPhysAddr = .ok after)
    (large : config.physicalMemoryOffset % 0x20_0000 = 0)
    (covered : ∀ descriptor ∈ descriptors,
      descriptor.physStart + descriptor.pageCount * pageSize ≤ maxPhysAddr)
    (run : ReflTransGen Memory.Step (Memory.boot descriptors) memory) :
    (∀ size vaddr paddr rest, Segments.allocDma config.physicalMemoryOffset memory.segments size =
        some ((vaddr, paddr), rest) → ∀ index < size,
      after.machine.translate (vaddr + index) = some (paddr + index)) ∧
    (config.physicalMemoryOffset = physicalMemoryOffset → ∀ allocation ∈ memory.live, ∀ address,
      allocation.1 ≤ address → address < allocation.1 + allocation.2 →
      address < physicalMemoryOffset + 0x20_0000 * (maxPhysAddr / 0x20_0000 + 1) →
      after.machine.translate address = some (address - physicalMemoryOffset)) := by
  obtain ⟨middle, parts⟩ := (Space.mapKernel_ok_iff addressable).mp ran
  have parted := Memory.Parted.run run
  have window : ∀ phys < 0x20_0000 * (maxPhysAddr / 0x20_0000 + 1),
      after.machine.translate (config.physicalMemoryOffset + phys) = some phys := by
    intro phys below
    have translated := @Space.Parts.translate_window _ _ _ _ _ _ _ parts phys (by omega)
    rw [large] at translated
    exact translated
  constructor
  · intro size vaddr paddr rest allocated index below
    obtain ⟨pages, frame, isPages, isRange, rfl, -, converted⟩ := Segments.allocDma_cases allocated
    have taken := (parted.within.allocRange isRange).2 frame rfl
    have enough : index / pageSize < pages := by
      unfold dmaPages at isPages
      split at isPages
      · obtain rfl := Option.some.inj isPages
        unfold pageSize
        omega
      · cases isPages
    have inMap : ∀ page < pages, ∀ offset < pageSize,
        (frame + page) * pageSize + offset < maxPhysAddr := fun page few offset inPage =>
      mem_memoryInit_lt covered (taken ⟨Nat.le_add_right _ _, Nat.add_lt_add_left few _⟩) inPage
    have first := inMap 0 (Nat.zero_lt_of_lt enough) 0 (by decide)
    have byte := inMap (index / pageSize) enough (index % pageSize) (Nat.mod_lt _ (by decide))
    have isByte : (frame + index / pageSize) * pageSize + index % pageSize =
        frame * pageSize + index := by
      unfold pageSize
      omega
    rw [isByte] at byte
    rw [Nat.add_zero, Nat.add_zero] at first
    rw [toVirtAddr_window addressable large (by omega)] at converted
    obtain rfl := Option.some.inj converted
    have sum : frame * pageSize + config.physicalMemoryOffset + index =
        config.physicalMemoryOffset + (frame * pageSize + index) := by omega
    rw [sum]
    exact window _ (by omega)
  · intro isDefault allocation isLive address lower upper inWindow
    have above := (parted.placed allocation isLive).1
    have starts : physicalMemoryOffset ≤ heapStart := by decide
    have sum : config.physicalMemoryOffset + (address - physicalMemoryOffset) = address := by omega
    have translated := window (address - physicalMemoryOffset) (by omega)
    rwa [sum] at translated

/-- With two gigabytes of memory and the default configuration, the first buffer of two pages is
read at both of its addresses. -/
theorem handover_first : ∃ (after : Space) (rest : Segments),
    bareSpace.mapKernel tableMapper 0x10_0000 [short] defaultConfig 0x1_0000_0000 = .ok after ∧
    Segments.allocDma physicalMemoryOffset (memoryInit Memory.twoGigabytes) 0x2000 =
      some ((0xffff_9000_0010_0000, 0x10_0000), rest) ∧
    ∀ index < 0x2000,
      after.machine.translate (0xffff_9000_0010_0000 + index) = some (0x10_0000 + index) := by
  obtain ⟨after, ran⟩ := regionsFree_short.exists_mapKernel rfl
    (fun _ isIn => mem_loads_short isIn ▸ loadable_short)
    (fun _ isIn => mem_loads_short isIn ▸ rfl) known_short (fun _ => Option.some_ne_none _)
    addressable_defaultConfig
  have covered : ∀ descriptor ∈ Memory.twoGigabytes,
      descriptor.physStart + descriptor.pageCount * pageSize ≤ 0x1_0000_0000 := by
    intro descriptor isIn
    obtain rfl := List.mem_singleton.mp isIn
    decide
  obtain ⟨rest, allocated⟩ : ∃ rest, Segments.allocDma physicalMemoryOffset
      (memoryInit Memory.twoGigabytes) 0x2000 = some ((0xffff_9000_0010_0000, 0x10_0000), rest) :=
    ⟨_, rfl⟩
  have agree := (handover addressable_defaultConfig ran rfl covered .refl).1
  exact ⟨after, rest, ran, allocated, agree 0x2000 _ _ rest allocated⟩

end Canyon.Kernel
