import Canyon.Boot.Config
import Canyon.Boot.Placement

/-!
# The address space of the kernel

After the kernel's image the loader maps its stack, to frames of its own, and then all of physical
memory at an offset, in pages of two megabytes. A large page needs an entry of the second level
that nothing uses: neither a large page nor a table for small ones. Small and large pages are read
through one table here, a large page as the 512 small ones that it stands for.
-/

namespace Canyon.Boot

open Canyon.Lib

/-- The machine, and the entries of the second level that the firmware uses. -/
structure Space where
  /-- The pages, the memory and the allocator. -/
  machine : Machine
  /-- The entry is in use, whether or not a page below it is mapped. -/
  used : Nat → Bool

namespace Machine

/-- `map_stack`. -/
def mapStack (machine : Machine) (addr pages : Nat) : Except Failure Machine := do
  let stackStart ← virt addr
  let startPage := stackStart / 0x1000
  let _stackEnd ← virt (0x1000 * startPage + 0x1000 * pages)
  (List.range pages).foldlM (fun machine index => do
    let address ← virt (0x1000 * startPage + 0x1000 * index)
    let (frame, machine) ← machine.allocateFrame
    machine.mapTo (address / 0x1000) frame) machine

/-- The physical address behind a virtual one. -/
def translate (machine : Machine) (address : Nat) : Option Nat :=
  (machine.table (address / 0x1000)).map fun frame => 0x1000 * frame + address % 0x1000

/-- The physical address in a page that is mapped. -/
theorem translate_eq {machine : Machine} {address frame : Nat}
    (isMapped : machine.table (address / 0x1000) = some frame) :
    machine.translate address = some (0x1000 * frame + address % 0x1000) := by
  rw [translate, isMapped, Option.map_some]

end Machine

namespace Space

/-- Nothing uses the entry of a large page. -/
structure Free (space : Space) (page : Nat) : Prop where
  /-- The firmware does not use the entry. -/
  unused : space.used page = false
  /-- No page below it is mapped. -/
  unmapped : ∀ index < 512, space.machine.table (512 * page + index) = none

/-- The space with one large page more. -/
def withLarge (space : Space) (page frame : Nat) : Space :=
  ⟨{ space.machine with
      table := Machine.spread space.machine.table (512 * page) 512 fun index =>
        some (512 * frame + index) },
    Function.update space.used page true⟩

end Space

/-- `Mapper<Size2MiB>` of the paging crate. -/
structure LargeMapper where
  /-- `map_to`. -/
  mapTo : Space → Nat → Nat → Except Failure Space
  /-- It maps large pages that are free, and fails on others. -/
  mapTo_ok_iff : ∀ {space after page frame},
    mapTo space page frame = .ok after ↔ space.Free page ∧ after = space.withLarge page frame

namespace Space

/-- `map_physical_memory`. -/
def mapPhysicalMemory (mapper : LargeMapper) (space : Space) (offset maxAddr : Nat) :
    Except Failure Space := do
  let last ← phys maxAddr
  (List.range (last / 0x20_0000 + 1)).foldlM (fun space frame => do
    let address ← virt (0x20_0000 * frame + offset)
    mapper.mapTo space (address / 0x20_0000) frame) space

/-- What `main` maps before it leaves the boot services. -/
def mapKernel (mapper : LargeMapper) (space : Space) (kernelStart : Nat)
    (segments : List ProgramHeader) (config : Config) (maxPhysAddr : Nat) :
    Except Failure Space := do
  let machine ← space.machine.mapElf kernelStart segments
  let machine ← machine.mapStack config.kernelStackAddress config.kernelStackSize
  ({ space with machine := machine } : Space).mapPhysicalMemory mapper config.physicalMemoryOffset
    maxPhysAddr

end Space

/-- `stacktop`, the stack pointer that `main` hands over. -/
def Config.stacktop (config : Config) : Nat :=
  config.kernelStackAddress + config.kernelStackSize * 0x1000

/-! ## The stack -/

namespace Machine

variable {machine after : Machine} {addr pages page : Nat}

/-- The stack gets one new frame for each page, when none of them is mapped. -/
theorem mapStack_ok_iff
    (canonical : Canonical (0x1000 * (addr / 0x1000)) (0x1000 * (addr / 0x1000 + pages)))
    (isAddress : virt addr = .ok addr) : machine.mapStack addr pages = .ok after ↔
      (∀ index < pages, machine.frames index ≠ none ∧
        machine.table (addr / 0x1000 + index) = none) ∧
      after = { machine with
        table := spread machine.table (addr / 0x1000) pages machine.frames
        frames := fun call => machine.frames (call + pages) } := by
  have inside : ∀ index ≤ pages, virt (0x1000 * (addr / 0x1000) + 0x1000 * index) =
      .ok (0x1000 * (addr / 0x1000) + 0x1000 * index) :=
    fun index below => virt_eq canonical (by omega) (by omega)
  have loop : machine.mapStack addr pages = machine.mapAdditional (addr / 0x1000) pages := by
    rw [mapStack, isAddress, ok_bind]
    dsimp only
    rw [inside pages (Nat.le_refl _), ok_bind, mapAdditional]
    apply foldlM_congr
    intro state index isIn
    have isPage : (0x1000 * (addr / 0x1000) + 0x1000 * index) / 0x1000 = addr / 0x1000 + index := by
      omega
    rw [inside index (Nat.le_of_lt (List.mem_range.mp isIn)), ok_bind, isPage]
  rw [loop, mapAdditional_ok_iff]

end Machine

/-! ## The window on physical memory -/

namespace Machine

variable {table target : Nat → Option Nat} {start count more : Nat}

/-- Two ranges in a row. -/
theorem spread_spread : spread (spread table start count target) (start + count) more
    (fun index => target (count + index)) = spread table start (count + more) target := by
  funext page
  unfold spread
  by_cases low : page < start
  · rw [if_neg (by omega), if_neg (by omega), if_neg (by omega)]
  by_cases first : page < start + count
  · rw [if_neg (by omega), if_pos (by omega), if_pos (by omega)]
  by_cases second : page < start + count + more
  · rw [if_pos (by omega), if_pos (by omega)]
    exact congrArg target (by omega)
  · rw [if_neg (by omega), if_neg (by omega), if_neg (by omega)]

end Machine

namespace Space

variable {mapper : LargeMapper} {space after : Space} {page offset maxAddr : Nat}

/-- The space with the first large pages of the window. -/
def withWindow (space : Space) (offset count : Nat) : Space :=
  ⟨{ space.machine with
      table := Machine.spread space.machine.table (512 * (offset / 0x20_0000)) (512 * count) some },
    fun page => space.used page ||
      decide (offset / 0x20_0000 ≤ page ∧ page < offset / 0x20_0000 + count)⟩

/-- The next large page is free if it was. -/
theorem withWindow_free_iff {count : Nat} :
    (space.withWindow offset count).Free (offset / 0x20_0000 + count) ↔
      space.Free (offset / 0x20_0000 + count) := by
  have outside : ∀ index, Machine.spread space.machine.table (512 * (offset / 0x20_0000))
      (512 * count) some (512 * (offset / 0x20_0000 + count) + index) =
        space.machine.table (512 * (offset / 0x20_0000 + count) + index) :=
    fun index => Machine.spread_of_not_mem (.inr (by omega))
  have isUsed : (space.withWindow offset count).used (offset / 0x20_0000 + count) =
      space.used (offset / 0x20_0000 + count) := by
    simp [withWindow]
  constructor
  · intro free
    exact ⟨isUsed ▸ free.unused, fun index below => (outside index).symm.trans
      (free.unmapped index below)⟩
  · intro free
    exact ⟨isUsed.trans free.unused, fun index below => (outside index).trans
      (free.unmapped index below)⟩

/-- One large page more. -/
theorem withWindow_succ {count : Nat} : space.withWindow offset (count + 1) =
    (space.withWindow offset count).withLarge (offset / 0x20_0000 + count) count := by
  have table : Machine.spread space.machine.table (512 * (offset / 0x20_0000)) (512 * (count + 1))
      some = Machine.spread (space.withWindow offset count).machine.table
        (512 * (offset / 0x20_0000 + count)) 512 fun index => some (512 * count + index) := by
    rw [Nat.mul_add, Nat.mul_add]
    exact Machine.spread_spread.symm
  have used : (space.withWindow offset (count + 1)).used =
      Function.update (space.withWindow offset count).used (offset / 0x20_0000 + count) true := by
    funext page
    by_cases last : page = offset / 0x20_0000 + count
    · rw [last, Function.update_self]
      simp [withWindow]
    · rw [Function.update_of_ne last]
      simp only [withWindow]
      congr 1
      rw [decide_eq_decide]
      omega
  exact congrArg₂ Space.mk (congrArg (fun table => { space.machine with table }) table) used

/-- No large page is none. -/
theorem withWindow_zero : space.withWindow offset 0 = space := by
  have used : (space.withWindow offset 0).used = space.used := by
    funext page
    have none : ¬(offset / 0x20_0000 ≤ page ∧ page < offset / 0x20_0000 + 0) := by omega
    simp only [withWindow, none, decide_false, Bool.or_false]
  exact congrArg₂ Space.mk
    (congrArg (fun table => { space.machine with table := table }) Machine.spread_zero) used

/-- Physical memory is mapped at the offset, rounded down to a large page, when all large pages of
the window are free. -/
theorem mapPhysicalMemory_ok_iff (physical : maxAddr < 0x10_0000_0000_0000)
    (canonical : Canonical offset (0x20_0000 * (maxAddr / 0x20_0000) + offset)) :
    space.mapPhysicalMemory mapper offset maxAddr = .ok after ↔
      (∀ index < maxAddr / 0x20_0000 + 1, space.Free (offset / 0x20_0000 + index)) ∧
        after = space.withWindow offset (maxAddr / 0x20_0000 + 1) := by
  have round : ∀ index < maxAddr / 0x20_0000 + 1, ∀ next,
      (do let address ← virt (0x20_0000 * index + offset)
          mapper.mapTo (space.withWindow offset index) (address / 0x20_0000) index) = .ok next ↔
        space.Free (offset / 0x20_0000 + index) ∧ next = space.withWindow offset (index + 1) := by
    intro index below next
    have isAddress : virt (0x20_0000 * index + offset) = .ok (0x20_0000 * index + offset) :=
      Machine.virt_eq canonical (by omega) (by omega)
    have isPage : (0x20_0000 * index + offset) / 0x20_0000 = offset / 0x20_0000 + index := by omega
    rw [isAddress, ok_bind, isPage, mapper.mapTo_ok_iff, withWindow_free_iff, withWindow_succ]
  rw [mapPhysicalMemory, phys, physAddrNew_eq physical]
  exact foldlM_range_ok_iff (space.withWindow offset) _ withWindow_zero round after

end Space

/-! ## The whole space -/

/-- A page of the stack. -/
def Config.InStack (config : Config) (page : Nat) : Prop :=
  config.kernelStackAddress / 0x1000 ≤ page ∧
    page < config.kernelStackAddress / 0x1000 + config.kernelStackSize

/-- A stack that starts with a page reaches up to the stack pointer. -/
theorem Config.inStack_of_lt_stacktop {config : Config} {address : Nat}
    (aligned : config.kernelStackAddress % 0x1000 = 0)
    (lower : config.kernelStackAddress ≤ address) (upper : address < config.stacktop) :
    config.InStack (address / 0x1000) := by
  unfold Config.stacktop at upper
  unfold Config.InStack
  omega

/-- A page of the window on physical memory. -/
def Config.InWindow (config : Config) (maxPhysAddr page : Nat) : Prop :=
  512 * (config.physicalMemoryOffset / 0x20_0000) ≤ page ∧
    page < 512 * (config.physicalMemoryOffset / 0x20_0000) + 512 * (maxPhysAddr / 0x20_0000 + 1)

/-- The stack and the window lie in one half of the address space each, and the firmware lists
physical addresses. -/
structure Config.Addressable (config : Config) (maxPhysAddr : Nat) : Prop where
  /-- The addresses of the stack are plain numbers. -/
  stack : Canonical (0x1000 * (config.kernelStackAddress / 0x1000))
    (config.kernelStackAddress + 0x1000 * config.kernelStackSize)
  /-- So are those of the window. -/
  window : Canonical config.physicalMemoryOffset
    (0x20_0000 * (maxPhysAddr / 0x20_0000) + config.physicalMemoryOffset)
  /-- Physical addresses have 52 bits. -/
  physical : maxPhysAddr < 0x10_0000_0000_0000

namespace Machine

variable {machine after : Machine} {kernelStart : Nat} {segments : List ProgramHeader}

/-- Loading takes frames from the allocator one after the other. -/
theorem frames_of_mapElf (pageAligned : kernelStart % 0x1000 = 0)
    (loadable : ∀ segment ∈ loads segments, segment.Loadable kernelStart)
    (ran : mapElf kernelStart machine segments = .ok after) :
    ∃ count, ∀ call, after.frames call = machine.frames (call + count) := by
  induction segments generalizing machine with
  | nil =>
    obtain rfl := Except.ok.inj ran
    exact ⟨0, fun _ => rfl⟩
  | cons segment rest ih =>
    obtain ⟨middle, first, ranRest⟩ := mapElf_cons.mp ran
    by_cases isLoad : segment.type = some .load
    · rw [loads_cons_of_load isLoad] at loadable
      have loaded := (mapSegment_ok_iff (loadable segment List.mem_cons_self) pageAligned
        isLoad).mp first
      obtain ⟨taken, frames⟩ := loaded.frames_eq
      obtain ⟨more, framesRest⟩ :=
        ih (fun other isIn => loadable other (List.mem_cons_of_mem _ isIn)) ranRest
      refine ⟨more + taken, fun call => ?_⟩
      rw [framesRest, frames, Nat.add_assoc]
    · rw [loads_cons_of_not_load isLoad] at loadable
      obtain ⟨-, rfl⟩ := (mapSegment_skips isLoad).mp first
      exact ih loadable ranRest

/-- The allocator goes on answering. -/
theorem answers_of_mapElf (pageAligned : kernelStart % 0x1000 = 0)
    (loadable : ∀ segment ∈ loads segments, segment.Loadable kernelStart)
    (answers : machine.Answers) (ran : mapElf kernelStart machine segments = .ok after) :
    after.Answers := by
  obtain ⟨count, frames⟩ := frames_of_mapElf pageAligned loadable ran
  exact fun call => frames call ▸ answers _

/-- The bytes of the segments lie in frames that are not given out again. -/
theorem settled_of_mapElf {all : List ProgramHeader} (pageAligned : kernelStart % 0x1000 = 0)
    (loadable : ∀ segment ∈ loads segments, segment.Loadable kernelStart)
    (apart : Apart (loads segments)) (inStep : ∀ segment ∈ loads segments, segment.InStep)
    (within : ∀ segment ∈ loads segments, segment ∈ all) (fresh : machine.Fresh kernelStart all)
    (ran : mapElf kernelStart machine segments = .ok after) :
    ∀ segment ∈ loads segments, ∀ index < segment.memSize, ∃ frame,
      after.table ((segment.virtualAddr + index) / 0x1000) = some frame ∧ after.Spares frame := by
  induction segments generalizing machine with
  | nil => exact fun segment isIn => absurd isIn List.not_mem_nil
  | cons segment rest ih =>
    obtain ⟨middle, first, ranRest⟩ := mapElf_cons.mp ran
    by_cases isLoad : segment.type = some .load
    · rw [loads_cons_of_load isLoad] at loadable apart inStep within ⊢
      obtain ⟨others, apartRest⟩ := List.pairwise_cons.mp apart
      have isFirst : segment ∈ segment :: loads rest := List.mem_cons_self
      have loaded := (mapSegment_ok_iff (loadable segment isFirst) pageAligned isLoad).mp first
      have loadableRest : ∀ other ∈ loads rest, other.Loadable kernelStart :=
        fun other isIn => loadable other (List.mem_cons_of_mem _ isIn)
      obtain ⟨count, frames⟩ := loaded.frames_eq
      obtain ⟨more, framesRest⟩ := frames_of_mapElf pageAligned loadableRest ranRest
      intro other isIn index below
      rcases List.mem_cons.mp isIn with rfl | later
      · obtain ⟨frame, mapped, spares⟩ := loaded.settled (loadable other isFirst) pageAligned
          (inStep other isFirst) fresh (within other isFirst) below
        have kept := kept_of_mapElf pageAligned loadableRest ranRest mapped spares
          fun neighbour neighbourIn => others neighbour neighbourIn _
            ⟨_, Nat.le_add_right _ _, by omega, rfl⟩
        exact ⟨frame, kept.1, spares.shift framesRest⟩
      · exact ih loadableRest apartRest
          (fun other isIn => inStep other (List.mem_cons_of_mem _ isIn))
          (fun other isIn => within other (List.mem_cons_of_mem _ isIn)) (fresh.shift frames)
          ranRest other later index below
    · rw [loads_cons_of_not_load isLoad] at loadable apart inStep within ⊢
      obtain ⟨-, rfl⟩ := (mapSegment_skips isLoad).mp first
      exact ih loadable apart inStep within fresh ranRest

end Machine

/-- The machine with the stack. -/
def Machine.withStack (machine : Machine) (config : Config) : Machine :=
  { machine with
    table := spread machine.table (config.kernelStackAddress / 0x1000) config.kernelStackSize
      machine.frames
    frames := fun call => machine.frames (call + config.kernelStackSize) }

namespace Space

variable {mapper : LargeMapper} {space after : Space} {kernelStart maxPhysAddr page : Nat}
  {segments : List ProgramHeader} {config : Config}

/-- The three parts of the mapping, with the machine that the first one leaves. -/
structure Parts (space : Space) (kernelStart : Nat) (segments : List ProgramHeader)
    (config : Config) (maxPhysAddr : Nat) (middle : Machine) (after : Space) : Prop where
  /-- The image is loaded. -/
  elf : space.machine.mapElf kernelStart segments = .ok middle
  /-- The pages of the stack are not mapped, and the allocator has a frame for each. -/
  stack : ∀ index < config.kernelStackSize, middle.frames index ≠ none ∧
    middle.table (config.kernelStackAddress / 0x1000 + index) = none
  /-- The large pages of the window are free. -/
  window : ∀ index < maxPhysAddr / 0x20_0000 + 1, Free ⟨middle.withStack config, space.used⟩
    (config.physicalMemoryOffset / 0x20_0000 + index)
  /-- The stack and the window are mapped. -/
  result : after = withWindow ⟨middle.withStack config, space.used⟩ config.physicalMemoryOffset
    (maxPhysAddr / 0x20_0000 + 1)

/-- The mapping has three parts. -/
theorem mapKernel_ok_iff (addressable : config.Addressable maxPhysAddr) :
    space.mapKernel mapper kernelStart segments config maxPhysAddr = .ok after ↔
      ∃ middle, Parts space kernelStart segments config maxPhysAddr middle after := by
  have isAddress : virt config.kernelStackAddress = .ok config.kernelStackAddress :=
    Machine.virt_eq addressable.stack (by omega) (by omega)
  have canonical : Canonical (0x1000 * (config.kernelStackAddress / 0x1000))
      (0x1000 * (config.kernelStackAddress / 0x1000 + config.kernelStackSize)) := by
    have stack := addressable.stack
    unfold Canonical at stack ⊢
    omega
  unfold mapKernel
  rw [bind_ok_iff]
  apply exists_congr
  intro middle
  rw [bind_ok_iff]
  constructor
  · rintro ⟨ranElf, stacked, ranStack, ranWindow⟩
    obtain ⟨stack, rfl⟩ := (Machine.mapStack_ok_iff canonical isAddress).mp ranStack
    obtain ⟨window, rfl⟩ :=
      (mapPhysicalMemory_ok_iff addressable.physical addressable.window).mp ranWindow
    exact ⟨ranElf, stack, window, rfl⟩
  · rintro ⟨ranElf, stack, window, rfl⟩
    exact ⟨ranElf, middle.withStack config,
      (Machine.mapStack_ok_iff canonical isAddress).mpr ⟨stack, rfl⟩,
      (mapPhysicalMemory_ok_iff addressable.physical addressable.window).mpr ⟨window, rfl⟩⟩

/-- The pages that are mapped with the stack. -/
theorem withStack_mapped_iff {machine : Machine} (answers : machine.Answers) :
    (machine.withStack config).table page ≠ none ↔
      machine.table page ≠ none ∨ config.InStack page := by
  show Machine.spread _ _ _ _ _ ≠ none ↔ _
  unfold Machine.spread Config.InStack
  split
  · rename_i inside
    exact iff_of_true (answers _) (.inr inside)
  · rename_i outside
    rw [or_iff_left outside]

/-- A large page is free when the pages of its range are. -/
theorem free_iff : (∀ index < maxPhysAddr / 0x20_0000 + 1,
    space.Free (config.physicalMemoryOffset / 0x20_0000 + index)) ↔
    ∀ page, config.InWindow maxPhysAddr page →
      space.machine.table page = none ∧ space.used (page / 512) = false := by
  constructor
  · intro free page inside
    have bounds := inside
    unfold Config.InWindow at bounds
    have isPage : config.physicalMemoryOffset / 0x20_0000 +
        (page / 512 - config.physicalMemoryOffset / 0x20_0000) = page / 512 := by omega
    have isFree := free (page / 512 - config.physicalMemoryOffset / 0x20_0000) (by omega)
    rw [isPage] at isFree
    have unmapped := isFree.unmapped (page % 512) (by omega)
    rw [Nat.div_add_mod] at unmapped
    exact ⟨unmapped, isFree.unused⟩
  · intro free index below
    have inside : ∀ inner < 512, config.InWindow maxPhysAddr
        (512 * (config.physicalMemoryOffset / 0x20_0000 + index) + inner) := by
      intro inner small
      unfold Config.InWindow
      omega
    constructor
    · have isUsed := (free _ (inside 0 (by decide))).2
      rwa [Nat.add_zero, Nat.mul_div_cancel_left _ (by decide)] at isUsed
    · exact fun inner small => (free _ (inside inner small)).1

namespace Parts

variable {middle : Machine}
  (parts : Parts space kernelStart segments config maxPhysAddr middle after)

include parts

/-- A page of the stack is not mapped by the image, and gets a frame of its own. -/
theorem stack_eq (inside : config.InStack page) : middle.table page = none ∧ ∃ frame,
    middle.frames (page - config.kernelStackAddress / 0x1000) = some frame ∧
      (middle.withStack config).table page = some frame := by
  have bounds := inside
  unfold Config.InStack at bounds
  have isPage : config.kernelStackAddress / 0x1000 +
      (page - config.kernelStackAddress / 0x1000) = page := by omega
  obtain ⟨answers, unmapped⟩ := parts.stack (page - config.kernelStackAddress / 0x1000) (by omega)
  rw [isPage] at unmapped
  obtain ⟨frame, answer⟩ := Option.ne_none_iff_exists'.mp answers
  exact ⟨unmapped, frame, answer, (if_pos inside).trans answer⟩

/-- What is mapped with the stack stays mapped. -/
theorem table_of_withStack {frame : Nat}
    (isMapped : (middle.withStack config).table page = some frame) :
    after.machine.table page = some frame := by
  have outside : ¬config.InWindow maxPhysAddr page := by
    intro inside
    have unmapped := (free_iff.mp parts.window page inside).1
    exact Option.some_ne_none frame (isMapped.symm.trans unmapped)
  rw [parts.result]
  exact (if_neg outside).trans isMapped

/-- What is mapped with the image stays mapped. -/
theorem table_of_elf {frame : Nat} (isMapped : middle.table page = some frame) :
    after.machine.table page = some frame := by
  have outside : ¬config.InStack page := by
    intro inside
    exact Option.some_ne_none frame (isMapped.symm.trans (parts.stack_eq inside).1)
  exact parts.table_of_withStack ((if_neg outside).trans isMapped)

/-- The window shows the frames in order. -/
theorem table_of_window (inside : config.InWindow maxPhysAddr page) : after.machine.table page =
    some (page - 512 * (config.physicalMemoryOffset / 0x20_0000)) := by
  rw [parts.result]
  exact if_pos inside

/-- The window shows physical memory, moved by what the offset is beyond a large page. -/
theorem translate_window {phys : Nat} (below : phys + config.physicalMemoryOffset % 0x20_0000 <
      0x20_0000 * (maxPhysAddr / 0x20_0000 + 1)) :
    after.machine.translate (config.physicalMemoryOffset + phys) =
      some (phys + config.physicalMemoryOffset % 0x20_0000) := by
  have inside : config.InWindow maxPhysAddr ((config.physicalMemoryOffset + phys) / 0x1000) := by
    unfold Config.InWindow
    omega
  rw [Machine.translate_eq (parts.table_of_window inside), Option.some.injEq]
  omega

/-- What is read through the image's pages is still read. -/
theorem readByte_of_elf {address : Nat} {byte : UInt8}
    (isRead : middle.readByte address = some byte) :
    after.machine.readByte address = some byte := by
  obtain ⟨frame, isMapped, isByte⟩ := Option.map_eq_some_iff.mp isRead
  rw [Machine.readByte, parts.table_of_elf isMapped, Option.map_some, ← isByte, parts.result]
  rfl

end Parts

end Space

open Space

variable {mapper : LargeMapper} {space : Space} {kernelStart maxPhysAddr : Nat}
  {segments : List ProgramHeader} {config : Config}

/-- The segments, the stack and the window share no page, none of their pages is mapped, and the
firmware uses no entry of the second level in the window. -/
structure RegionsFree (space : Space) (segments : List ProgramHeader) (config : Config)
    (maxPhysAddr : Nat) : Prop where
  /-- No two segments take one page. -/
  separate : (loads segments).Pairwise ProgramHeader.Separate
  /-- The pages of the segments are free, and are none of the stack or the window. -/
  image : ∀ segment ∈ loads segments, ∀ page, segment.Takes page →
    space.machine.table page = none ∧ ¬config.InStack page ∧ ¬config.InWindow maxPhysAddr page
  /-- The pages of the stack are free, and are none of the window. -/
  stack : ∀ page, config.InStack page →
    space.machine.table page = none ∧ ¬config.InWindow maxPhysAddr page
  /-- The pages of the window are free, and so are their entries of the second level. -/
  window : ∀ page, config.InWindow maxPhysAddr page →
    space.machine.table page = none ∧ space.used (page / 512) = false

/-- Free regions are mapped. -/
theorem RegionsFree.exists_mapKernel (free : RegionsFree space segments config maxPhysAddr)
    (pageAligned : kernelStart % 0x1000 = 0)
    (loadable : ∀ segment ∈ loads segments, segment.Loadable kernelStart)
    (aligned : ∀ segment ∈ loads segments, segment.virtualAddr % 0x1000 = 0)
    (known : ∀ segment ∈ segments, segment.type ≠ none) (answers : space.machine.Answers)
    (addressable : config.Addressable maxPhysAddr) :
    ∃ after, space.mapKernel mapper kernelStart segments config maxPhysAddr = .ok after := by
  obtain ⟨middle, ranElf⟩ := Machine.exists_mapElf pageAligned loadable aligned known answers
    (fun segment isIn page takes => (free.image segment isIn page takes).1) free.separate
  have mapped := fun page => @Machine.mapped_iff_of_mapElf _ _ _ _ pageAligned loadable ranElf page
  have goesOn := Machine.answers_of_mapElf pageAligned loadable answers ranElf
  refine ⟨_, (mapKernel_ok_iff addressable).mpr ⟨middle, ranElf, ?_, free_iff.mpr ?_, rfl⟩⟩
  · intro index below
    have inside : config.InStack (config.kernelStackAddress / 0x1000 + index) :=
      ⟨Nat.le_add_right _ _, Nat.add_lt_add_left below _⟩
    refine ⟨goesOn index, ?_⟩
    by_contra isMapped
    rcases (mapped _).mp isMapped with wasMapped | ⟨segment, isIn, takes⟩
    · exact wasMapped (free.stack _ inside).1
    · exact (free.image segment isIn _ takes).2.1 inside
  · intro page inside
    refine ⟨?_, (free.window page inside).2⟩
    by_contra isMapped
    rcases (withStack_mapped_iff goesOn).mp isMapped with inElf | inStack
    · rcases (mapped page).mp inElf with wasMapped | ⟨segment, isIn, takes⟩
      · exact wasMapped (free.window page inside).1
      · exact (free.image segment isIn page takes).2.2 inside
    · exact (free.stack page inStack).2 inside

/-- Regions that were mapped were free. -/
theorem RegionsFree.of_mapKernel {after : Space} (pageAligned : kernelStart % 0x1000 = 0)
    (loadable : ∀ segment ∈ loads segments, segment.Loadable kernelStart)
    (answers : space.machine.Answers) (addressable : config.Addressable maxPhysAddr)
    (ran : space.mapKernel mapper kernelStart segments config maxPhysAddr = .ok after) :
    RegionsFree space segments config maxPhysAddr := by
  obtain ⟨middle, parts⟩ := (mapKernel_ok_iff addressable).mp ran
  have ranElf := parts.elf
  obtain ⟨unmapped, separate⟩ := Machine.apart_of_mapElf pageAligned loadable ranElf
  have mapped := fun page => @Machine.mapped_iff_of_mapElf _ _ _ _ pageAligned loadable ranElf page
  have goesOn := Machine.answers_of_mapElf pageAligned loadable answers ranElf
  have windowFree : ∀ page, config.InWindow maxPhysAddr page →
      (middle.table page = none ∧ ¬config.InStack page) ∧ space.used (page / 512) = false := by
    intro page inside
    obtain ⟨isFree, unused⟩ := free_iff.mp parts.window page inside
    refine ⟨?_, unused⟩
    have notMapped := mt (withStack_mapped_iff goesOn).mpr (not_not_intro isFree)
    rw [not_or, not_not] at notMapped
    exact notMapped
  have before : ∀ page, middle.table page = none → space.machine.table page = none ∧
      ∀ segment ∈ loads segments, ¬segment.Takes page := by
    intro page isFree
    have notMapped := mt (mapped page).mpr (not_not_intro isFree)
    rw [not_or, not_not] at notMapped
    exact ⟨notMapped.1, fun segment isIn takes => notMapped.2 ⟨segment, isIn, takes⟩⟩
  refine ⟨separate, ?_, ?_, ?_⟩
  · intro segment isIn page takes
    refine ⟨unmapped segment isIn page takes, fun inside => ?_, fun inside => ?_⟩
    · exact (before page (parts.stack_eq inside).1).2 segment isIn takes
    · exact (before page (windowFree page inside).1.1).2 segment isIn takes
  · intro page inside
    exact ⟨(before page (parts.stack_eq inside).1).1,
      fun alsoInside => (windowFree page alsoInside).1.2 inside⟩
  · intro page inside
    exact ⟨(before page (windowFree page inside).1.1).1, (windowFree page inside).2⟩

/-- The loader maps a kernel whose segments start with a page if and only if the segments, the stack
and the window on physical memory share no page, none of their pages is mapped, and the firmware
uses no entry of the second level in the window. -/
theorem boot_maps_iff (pageAligned : kernelStart % 0x1000 = 0)
    (loadable : ∀ segment ∈ loads segments, segment.Loadable kernelStart)
    (aligned : ∀ segment ∈ loads segments, segment.virtualAddr % 0x1000 = 0)
    (known : ∀ segment ∈ segments, segment.type ≠ none) (answers : space.machine.Answers)
    (addressable : config.Addressable maxPhysAddr) :
    (∃ after, space.mapKernel mapper kernelStart segments config maxPhysAddr = .ok after) ↔
      RegionsFree space segments config maxPhysAddr := by
  constructor
  · rintro ⟨after, ran⟩
    exact .of_mapKernel pageAligned loadable answers addressable ran
  · intro free
    exact free.exists_mapKernel pageAligned loadable aligned known answers addressable

/-- A mapper that looks at the entries before it maps. -/
def tableMapper : LargeMapper where
  mapTo := fun space page frame =>
    if space.used page || (List.range 512).any fun index =>
        (space.machine.table (512 * page + index)).isSome then
      .error .pageAlreadyMapped
    else .ok (space.withLarge page frame)
  mapTo_ok_iff := by
    intro space after page frame
    have isFree : space.Free page ↔ (space.used page || (List.range 512).any fun index =>
        (space.machine.table (512 * page + index)).isSome) = false := by
      rw [Bool.or_eq_false_iff, List.any_eq_false]
      constructor
      · intro free
        refine ⟨free.unused, fun index isIn => ?_⟩
        rw [free.unmapped index (List.mem_range.mp isIn)]
        exact Bool.false_ne_true
      · intro unused
        refine ⟨unused.1, fun index below => ?_⟩
        simpa using unused.2 index (List.mem_range.mpr below)
    rw [isFree]
    split
    · next isUsed => simp [isUsed]
    · next isUnused => simp [isUnused, eq_comm]

/-- A machine with nothing mapped and no table of the firmware. -/
def bareSpace : Space := ⟨bare, fun _ => false⟩

/-- The default configuration can be mapped on a machine with four gigabytes. -/
theorem addressable_defaultConfig : defaultConfig.Addressable 0x1_0000_0000 where
  stack := .inr ⟨by decide, by decide⟩
  window := .inr ⟨by decide, by decide⟩
  physical := by decide

/-- The pages of the short segment lie far below the stack and the window. -/
theorem takes_short {page : Nat} (takes : short.Takes page) : page < 0x1000 := by
  have near := takes.near loadable_short
  have covers := @ProgramHeader.covers_iff short
  rw [covers (by decide), covers (by decide)] at near
  have last : (short.virtualAddr + short.memSize - 1) / 0x1000 = 2 := rfl
  omega

/-- Nothing is in the way of a small kernel with the default configuration. -/
theorem regionsFree_short : RegionsFree bareSpace [short] defaultConfig 0x1_0000_0000 := by
  have stack : ∀ {page}, defaultConfig.InStack page → page < 0xf_fff8_0200_0200 ∧
      0xf_fff8_0200_0000 ≤ page := fun inside => ⟨inside.2, inside.1⟩
  have window : ∀ {page}, defaultConfig.InWindow 0x1_0000_0000 page →
      0xf_fff9_0000_0000 ≤ page := fun inside => inside.1
  refine ⟨List.pairwise_singleton _ short, ?_, ?_, fun page _ => ⟨rfl, rfl⟩⟩
  · intro segment isIn page takes
    obtain rfl := List.mem_singleton.mp isIn
    have low := takes_short takes
    refine ⟨rfl, fun inside => ?_, fun inside => ?_⟩
    · have := stack inside
      omega
    · have := window inside
      omega
  · intro page inside
    refine ⟨rfl, fun alsoInside => ?_⟩
    have := stack inside
    have := window alsoInside
    omega

/-- The segments of the small kernel. -/
theorem mem_loads_short {segment : ProgramHeader} (isIn : segment ∈ loads [short]) :
    segment = short :=
  List.mem_singleton.mp isIn

/-- Its headers are known. -/
theorem known_short : ∀ segment ∈ [short], segment.type ≠ none := by
  intro segment isIn
  obtain rfl := List.mem_singleton.mp isIn
  exact Option.some_ne_none _

/-- A small kernel is mapped with the default configuration. -/
theorem boot_maps_short : ∃ after,
    bareSpace.mapKernel tableMapper 0x10_0000 [short] defaultConfig 0x1_0000_0000 = .ok after :=
  (boot_maps_iff rfl (fun _ isIn => mem_loads_short isIn ▸ loadable_short)
    (fun _ isIn => mem_loads_short isIn ▸ rfl) known_short (fun _ => Option.some_ne_none _)
    addressable_defaultConfig).mpr regionsFree_short

/-- What the loader leaves: every byte of a segment is where the header says; every address of the
stack has a byte of physical memory of its own, which no segment uses; a stack that starts with a
page can be used up to the stack pointer; and the window shows physical memory, moved by what the
offset is beyond a large page. -/
theorem boot_space {after : Space} (pageAligned : kernelStart % 0x1000 = 0)
    (loadable : ∀ segment ∈ loads segments, segment.Loadable kernelStart)
    (apart : Apart (loads segments)) (inStep : ∀ segment ∈ loads segments, segment.InStep)
    (fresh : space.machine.Fresh kernelStart (loads segments))
    (addressable : config.Addressable maxPhysAddr)
    (ran : space.mapKernel mapper kernelStart segments config maxPhysAddr = .ok after) :
    (∀ segment ∈ loads segments,
      Machine.Placed kernelStart space.machine after.machine segment) ∧
    (∀ address, config.InStack (address / 0x1000) → ∃ target,
      after.machine.translate address = some target ∧
      (∀ other, config.InStack (other / 0x1000) →
        after.machine.translate other = some target → other = address) ∧
      ∀ segment ∈ loads segments, ∀ index < segment.memSize,
        after.machine.translate (segment.virtualAddr + index) ≠ some target) ∧
    (config.kernelStackAddress % 0x1000 = 0 → ∀ address, config.kernelStackAddress ≤ address →
      address < config.stacktop → after.machine.translate address ≠ none) ∧
    ∀ phys, phys + config.physicalMemoryOffset % 0x20_0000 <
        0x20_0000 * (maxPhysAddr / 0x20_0000 + 1) →
      after.machine.translate (config.physicalMemoryOffset + phys) =
        some (phys + config.physicalMemoryOffset % 0x20_0000) := by
  obtain ⟨middle, parts⟩ := (mapKernel_ok_iff addressable).mp ran
  obtain ⟨count, frames⟩ := Machine.frames_of_mapElf pageAligned loadable parts.elf
  have placed := Machine.placed_of_mapElf pageAligned loadable apart inStep (fun _ => id) fresh
    parts.elf
  have settled := Machine.settled_of_mapElf pageAligned loadable apart inStep (fun _ isIn => isIn)
    fresh parts.elf
  refine ⟨?_, ?_, ?_, ?_⟩
  · intro segment isIn
    exact ⟨fun index below => parts.readByte_of_elf ((placed segment isIn).1 index below),
      fun index above below => parts.readByte_of_elf ((placed segment isIn).2 index above below)⟩
  · intro address inside
    obtain ⟨-, frame, answer, isMapped⟩ := parts.stack_eq inside
    refine ⟨0x1000 * frame + address % 0x1000, ?_, ?_, ?_⟩
    · exact Machine.translate_eq (parts.table_of_withStack isMapped)
    · intro other otherInside same
      obtain ⟨-, otherFrame, otherAnswer, otherMapped⟩ := parts.stack_eq otherInside
      rw [Machine.translate_eq (parts.table_of_withStack otherMapped), Option.some.injEq] at same
      have isFrame : otherFrame = frame := by omega
      rw [frames] at answer otherAnswer
      have isCall := fresh.distinct _ _ frame (isFrame ▸ otherAnswer) answer
      unfold Config.InStack at inside otherInside
      omega
    · intro segment isIn index below same
      obtain ⟨segmentFrame, segmentMapped, spares⟩ := settled segment isIn index below
      rw [Machine.translate_eq (parts.table_of_elf segmentMapped), Option.some.injEq] at same
      have isFrame : segmentFrame = frame := by omega
      exact spares _ (isFrame ▸ answer)
  · intro aligned address lower upper
    obtain ⟨-, frame, -, isMapped⟩ :=
      parts.stack_eq (Config.inStack_of_lt_stacktop aligned lower upper)
    rw [Machine.translate_eq (parts.table_of_withStack isMapped)]
    exact Option.some_ne_none _
  · exact fun phys below => parts.translate_window below

/-- The first gigabytes of memory are in the window of the default configuration. -/
theorem boot_space_short : ∃ after,
    bareSpace.mapKernel tableMapper 0x10_0000 [short] defaultConfig 0x1_0000_0000 = .ok after ∧
    (∀ segment ∈ loads [short], Machine.Placed 0x10_0000 bare after.machine segment) ∧
    after.machine.translate 0xffff_9000_1234_5678 = some 0x1234_5678 := by
  have loadable : ∀ segment ∈ loads [short], segment.Loadable 0x10_0000 :=
    fun _ isIn => mem_loads_short isIn ▸ loadable_short
  have fresh : bare.Fresh 0x10_0000 (loads [short]) :=
    fresh_bare fun _ isIn => mem_loads_short isIn ▸ by decide
  obtain ⟨after, ran⟩ := regionsFree_short.exists_mapKernel rfl loadable
    (fun _ isIn => mem_loads_short isIn ▸ rfl) known_short (fun _ => Option.some_ne_none _)
    addressable_defaultConfig
  obtain ⟨placed, -, -, window⟩ := boot_space rfl loadable (List.pairwise_singleton _ short)
    (fun _ isIn => mem_loads_short isIn ▸ (by decide : 0x1000 % 0x1000 + 0xffe % 0x1000 < 0x1000))
    fresh addressable_defaultConfig ran
  exact ⟨after, ran, placed, window 0x1234_5678 (by decide)⟩

end Canyon.Boot
