import Canyon.Lib.Address
import Canyon.Lib.Lists
import Mathlib.Logic.Function.Basic

/-!
# Mapping the kernel image

The loader maps the segments of the kernel's ELF file, which lies in physical memory. The frames of
the file are mapped where they are; the last one is copied first when the rest of its page must
read as zero, and the pages after it get frames of their own. The page table is a partial map from
pages to frames. Frames that `map_to` takes for the tables themselves, and the permission bits of
an entry, are left out.
-/

namespace Canyon.Boot

open Canyon.Lib

/-- How `map_elf` ends without `Ok`. -/
inductive Failure where
  /-- `MapToError::PageAlreadyMapped`. -/
  | pageAlreadyMapped
  /-- `MapToError::FrameAllocationFailed`. -/
  | frameAllocationFailed
  /-- The `unreachable!()` after an `unmap` of a page that is not mapped. -/
  | unreachable
  /-- An address or a sum of addresses that `VirtAddr` or `PhysAddr` refuses. -/
  | badAddress
  /-- `get_type().unwrap()` of a header with an unknown type. -/
  | badType
  /-- A write through a page that is not mapped. -/
  | pageFault
deriving DecidableEq, Repr

/-- `program::Type`, as far as `map_segment` looks at it. -/
inductive SegmentType where
  /-- `Type::Load`. -/
  | load
  /-- Any other known type. -/
  | other
deriving DecidableEq, Repr

/-- `program::ProgramHeader`. -/
structure ProgramHeader where
  /-- `get_type`, which fails for a number that it does not know. -/
  type : Option SegmentType
  /-- `offset`: where the segment begins in the file. -/
  offset : Nat
  /-- `virtual_addr`: where it begins in memory. -/
  virtualAddr : Nat
  /-- `file_size`: its bytes in the file. -/
  fileSize : Nat
  /-- `mem_size`: its bytes in memory. -/
  memSize : Nat
deriving DecidableEq, Repr

/-- The page table, the physical memory and the frame allocator. -/
structure Machine where
  /-- The frame that a page is mapped to. -/
  table : Nat → Option Nat
  /-- The byte at a physical address. -/
  memory : Nat → UInt8
  /-- The answers of the frame allocator to the calls to come. -/
  frames : Nat → Option Nat

/-- `VirtAddr::new`. -/
def virt (address : Nat) : Except Failure Nat :=
  (virtAddrNew address).elim (.error .badAddress) .ok

/-- `PhysAddr::new`. -/
def phys (address : Nat) : Except Failure Nat :=
  (physAddrNew address).elim (.error .badAddress) .ok

/-- `address - 1u64`. -/
def before (address : Nat) : Except Failure Nat :=
  if address = 0 then .error .badAddress else .ok (address - 1)

namespace Machine

/-- `Mapper::map_to`. -/
def mapTo (machine : Machine) (page frame : Nat) : Except Failure Machine :=
  match machine.table page with
  | some _ => .error .pageAlreadyMapped
  | none => .ok { machine with table := Function.update machine.table page (some frame) }

/-- `Mapper::unmap` and the `match` on its error. -/
def unmap (machine : Machine) (page : Nat) : Except Failure Machine :=
  match machine.table page with
  | none => .error .unreachable
  | some _ => .ok { machine with table := Function.update machine.table page none }

/-- `frame_allocator.allocate_frame().ok_or(FrameAllocationFailed)`. -/
def allocateFrame (machine : Machine) : Except Failure (Nat × Machine) :=
  match machine.frames 0 with
  | none => .error .frameAllocationFailed
  | some frame => .ok (frame, { machine with frames := fun call => machine.frames (call + 1) })

/-- `temp_page_ptr.write(last_page_ptr.read())`, through the identity mapping. -/
def copyFrame (machine : Machine) (target source : Nat) : Machine :=
  { machine with memory := fun address =>
      if address / 0x1000 = target then machine.memory (0x1000 * source + address % 0x1000)
      else machine.memory address }

/-- A byte is written through the page table. -/
def writeByte (machine : Machine) (address : Nat) (byte : UInt8) : Except Failure Machine :=
  match machine.table (address / 0x1000) with
  | none => .error .pageFault
  | some frame => .ok { machine with
      memory := Function.update machine.memory (0x1000 * frame + address % 0x1000) byte }

/-- A byte is read through the page table. -/
def readByte (machine : Machine) (address : Nat) : Option UInt8 :=
  (machine.table (address / 0x1000)).map fun frame =>
    machine.memory (0x1000 * frame + address % 0x1000)

/-- The loop over the frames of the file. -/
def mapFrames (machine : Machine) (startPage startFrame count : Nat) : Except Failure Machine :=
  (List.range count).foldlM (fun machine offset => do
    let address ← virt (0x1000 * startPage + 0x1000 * offset)
    machine.mapTo (address / 0x1000) (startFrame + offset)) machine

/-- The last page is moved to a copy of its frame. -/
def moveLast (machine : Machine) (virtStart fileSize endFrame : Nat) :
    Except Failure Machine := do
  let (newFrame, machine) ← machine.allocateFrame
  let fileEnd ← virt (virtStart + fileSize)
  let lastByte ← before fileEnd
  let lastAddress ← virt lastByte
  let machine := machine.copyFrame newFrame endFrame
  let machine ← machine.unmap (lastAddress / 0x1000)
  machine.mapTo (lastAddress / 0x1000) newFrame

/-- The last page is moved when a part of it needs to be zeroed. -/
def remapLast (machine : Machine) (zeroStart virtStart fileSize endFrame : Nat) :
    Except Failure Machine :=
  if zeroStart % 0x1000 ≠ 0 then machine.moveLast virtStart fileSize endFrame else .ok machine

/-- The loop over the additional pages. -/
def mapAdditional (machine : Machine) (startPage count : Nat) : Except Failure Machine :=
  (List.range count).foldlM (fun machine index => do
    let (frame, machine) ← machine.allocateFrame
    machine.mapTo (startPage + index) frame) machine

/-- `core::ptr::write_bytes(start, 0, count)`. -/
def writeZeros (machine : Machine) (start count : Nat) : Except Failure Machine :=
  (List.range count).foldlM (fun machine index => machine.writeByte (start + index) 0) machine

/-- What follows the frames of the file when a segment is larger in memory than in the file. -/
def mapBss (machine : Machine) (virtStart fileSize memSize endFrame : Nat) :
    Except Failure Machine := do
  let zeroStart ← virt (virtStart + fileSize)
  let zeroEnd ← virt (virtStart + memSize)
  let machine ← machine.remapLast zeroStart virtStart fileSize endFrame
  let aligned ← (alignUp zeroStart).elim (.error .badAddress) virt
  let startPage := aligned / 0x1000
  let endPage := zeroEnd / 0x1000
  let machine ← machine.mapAdditional startPage (endPage + 1 - startPage)
  machine.writeZeros zeroStart (memSize - fileSize)

/-- `map_segment`. -/
def mapSegment (kernelStart : Nat) (machine : Machine) (segment : ProgramHeader) :
    Except Failure Machine :=
  match segment.type with
  | none => .error .badType
  | some .other => .ok machine
  | some .load => do
    let fileOffset := 0x1000 * (segment.offset / 0x1000)
    let physStart ← phys (kernelStart + fileOffset)
    let virtStart ← virt segment.virtualAddr
    let fileEnd ← phys (physStart + segment.fileSize)
    let lastByte ← before fileEnd
    let startFrame := physStart / 0x1000
    let endFrame := lastByte / 0x1000
    let machine ← machine.mapFrames (virtStart / 0x1000) startFrame (endFrame + 1 - startFrame)
    if segment.memSize > segment.fileSize then
      machine.mapBss virtStart segment.fileSize segment.memSize endFrame
    else .ok machine

/-- `map_elf`. -/
def mapElf (kernelStart : Nat) (machine : Machine) (segments : List ProgramHeader) :
    Except Failure Machine :=
  segments.foldlM (mapSegment kernelStart) machine

/-! ## What each part does -/

/-- The table in which `count` pages from `start` on have the given frames. -/
def spread (table : Nat → Option Nat) (start count : Nat) (target : Nat → Option Nat) :
    Nat → Option Nat :=
  fun page => if start ≤ page ∧ page < start + count then target (page - start) else table page

/-- The memory after `count` bytes from the virtual address `start` on were zeroed. -/
def zeroed (table : Nat → Option Nat) (memory : Nat → UInt8) (start : Nat) : Nat → Nat → UInt8
  | 0 => memory
  | count + 1 =>
    match table ((start + count) / 0x1000) with
    | none => zeroed table memory start count
    | some frame => Function.update (zeroed table memory start count)
        (0x1000 * frame + (start + count) % 0x1000) 0

variable {machine after : Machine} {table target : Nat → Option Nat} {memory : Nat → UInt8}
  {start count page frame : Nat}

/-- No page is none. -/
theorem spread_zero : spread table start 0 target = table := by
  funext page
  exact if_neg (by omega)

/-- One page more. -/
theorem spread_succ : spread table start (count + 1) target =
    Function.update (spread table start count target) (start + count) (target count) := by
  funext page
  by_cases last : page = start + count
  · subst last
    rw [Function.update_self, spread, if_pos (by omega), Nat.add_sub_cancel_left]
  · rw [Function.update_of_ne last, spread, spread]
    by_cases inside : start ≤ page ∧ page < start + count
    · rw [if_pos inside, if_pos (by omega)]
    · rw [if_neg inside, if_neg (by omega)]

/-- A page outside of the range. -/
theorem spread_of_not_mem (outside : page < start ∨ start + count ≤ page) :
    spread table start count target page = table page :=
  if_neg (by omega)

/-- Zeroing changes the bytes that it writes only. -/
theorem zeroed_of_untouched {address : Nat} (untouched : ∀ index < count, ∀ frame,
      table ((start + index) / 0x1000) = some frame →
      address ≠ 0x1000 * frame + (start + index) % 0x1000) :
    zeroed table memory start count address = memory address := by
  induction count with
  | zero => rfl
  | succ count ih =>
    have earlier := ih fun index below => untouched index (Nat.lt_succ_of_lt below)
    rw [zeroed]
    cases mapped : table ((start + count) / 0x1000) with
    | none => exact earlier
    | some frame =>
      have other := untouched count (Nat.lt_succ_self count) frame mapped
      exact (Function.update_of_ne other _ _).trans earlier

/-- Every byte that it writes is zero. -/
theorem zeroed_of_touched {index : Nat} (below : index < count)
    (mapped : table ((start + index) / 0x1000) = some frame) :
    zeroed table memory start count (0x1000 * frame + (start + index) % 0x1000) = 0 := by
  induction count with
  | zero => omega
  | succ count ih =>
    rw [zeroed]
    rcases Nat.lt_succ_iff_lt_or_eq.mp below with earlier | rfl
    · cases table ((start + count) / 0x1000) with
      | none => exact ih earlier
      | some other =>
        show Function.update _ _ _ _ = _
        rw [Function.update_apply]
        split
        · rfl
        · exact ih earlier
    · rw [mapped]
      exact Function.update_self _ _ _

/-- `map_to` succeeds on pages that are not mapped. -/
theorem mapTo_ok_iff : machine.mapTo page frame = .ok after ↔ machine.table page = none ∧
    after = { machine with table := Function.update machine.table page (some frame) } := by
  unfold mapTo
  cases machine.table page with
  | none => simp only [Except.ok.injEq, true_and, eq_comm]
  | some other => simp only [reduceCtorEq, false_and]

/-- `unmap` succeeds on pages that are mapped. -/
theorem unmap_ok_iff : machine.unmap page = .ok after ↔ machine.table page ≠ none ∧
    after = { machine with table := Function.update machine.table page none } := by
  unfold unmap
  cases machine.table page with
  | none => simp only [reduceCtorEq, ne_eq, not_true_eq_false, false_and]
  | some other => simp only [Except.ok.injEq, ne_eq, reduceCtorEq, not_false_eq_true, true_and,
      eq_comm]

/-- The allocator answers once. -/
theorem allocateFrame_ok_iff {result : Nat × Machine} : machine.allocateFrame = .ok result ↔
    machine.frames 0 = some result.1 ∧
      result.2 = { machine with frames := fun call => machine.frames (call + 1) } := by
  unfold allocateFrame
  cases machine.frames 0 with
  | none => simp only [reduceCtorEq, false_and]
  | some frame => simp only [Except.ok.injEq, Option.some.injEq, Prod.ext_iff, eq_comm]

/-- A write succeeds through a page that is mapped. -/
theorem writeByte_ok_iff {address : Nat} {byte : UInt8} :
    machine.writeByte address byte = .ok after ↔ ∃ frame,
      machine.table (address / 0x1000) = some frame ∧ after = { machine with
        memory := Function.update machine.memory (0x1000 * frame + address % 0x1000) byte } := by
  unfold writeByte
  cases machine.table (address / 0x1000) with
  | none => simp only [reduceCtorEq, false_and, exists_false]
  | some frame => simp only [Except.ok.injEq, Option.some.injEq, exists_eq_left', eq_comm]

/-- An address of one half is made as it is. -/
theorem virt_eq {low high address : Nat} (canonical : Canonical low high)
    (above : low ≤ address) (below : address ≤ high) : virt address = .ok address := by
  rw [virt, canonical.virtAddrNew_eq above below]
  rfl

/-- The frames of the file are mapped in a row, when no page of the row is mapped. -/
theorem mapFrames_ok_iff {low high : Nat} (canonical : Canonical low high)
    (above : low ≤ 0x1000 * start) (below : 0x1000 * (start + count) ≤ high + 0x1000) :
    machine.mapFrames start frame count = .ok after ↔
      (∀ index < count, machine.table (start + index) = none) ∧ after = { machine with
        table := spread machine.table start count fun index => some (frame + index) } := by
  let state := fun index => { machine with
    table := spread machine.table start index fun index => some (frame + index) }
  have round : ∀ index < count, ∀ next,
      (do let address ← virt (0x1000 * start + 0x1000 * index)
          (state index).mapTo (address / 0x1000) (frame + index)) = .ok next ↔
        machine.table (start + index) = none ∧ next = state (index + 1) := by
    intro index inside next
    have address : virt (0x1000 * start + 0x1000 * index) =
        .ok (0x1000 * start + 0x1000 * index) :=
      virt_eq canonical (by omega) (by omega)
    have isPage : (0x1000 * start + 0x1000 * index) / 0x1000 = start + index := by omega
    rw [address]
    show (state index).mapTo ((0x1000 * start + 0x1000 * index) / 0x1000) _ = _ ↔ _
    rw [isPage, mapTo_ok_iff]
    dsimp only [state]
    rw [spread_of_not_mem (.inr (Nat.le_refl _)), spread_succ]
  have first : state 0 = machine := by
    simp only [state, spread_zero]
  exact foldlM_range_ok_iff state _ first round after

/-- The additional pages are mapped to one new frame each, when none of them is mapped. -/
theorem mapAdditional_ok_iff : machine.mapAdditional start count = .ok after ↔
    (∀ index < count, machine.frames index ≠ none ∧ machine.table (start + index) = none) ∧
      after = { machine with
        table := spread machine.table start count machine.frames
        frames := fun call => machine.frames (call + count) } := by
  let state := fun index => { machine with
    table := spread machine.table start index machine.frames
    frames := fun call => machine.frames (call + index) }
  have round : ∀ index < count, ∀ next,
      (do let (frame, machine) ← (state index).allocateFrame
          machine.mapTo (start + index) frame) = .ok next ↔
        (machine.frames index ≠ none ∧ machine.table (start + index) = none) ∧
          next = state (index + 1) := by
    intro index inside next
    have answer : (state index).frames 0 = machine.frames index := by
      simp only [state, Nat.zero_add]
    unfold allocateFrame
    rw [answer]
    dsimp only [state]
    rw [spread_succ]
    cases machine.frames index with
    | none =>
      constructor
      · rintro ⟨⟩
      · rintro ⟨⟨some, -⟩, -⟩
        exact absurd rfl some
    | some frame =>
      show Machine.mapTo _ (start + index) frame = _ ↔ _
      rw [mapTo_ok_iff]
      dsimp only
      rw [spread_of_not_mem (.inr (Nat.le_refl _))]
      simp only [ne_eq, reduceCtorEq, not_false_eq_true, true_and, Nat.add_assoc,
        Nat.add_comm 1 index]
  have first : state 0 = machine := by
    simp only [state, spread_zero, Nat.add_zero]
  exact foldlM_range_ok_iff state _ first round after

/-- Zeroing succeeds when every byte is mapped. -/
theorem writeZeros_ok_iff : machine.writeZeros start count = .ok after ↔
    (∀ index < count, machine.table ((start + index) / 0x1000) ≠ none) ∧
      after = { machine with memory := zeroed machine.table machine.memory start count } := by
  let state := fun index => { machine with
    memory := zeroed machine.table machine.memory start index }
  have round : ∀ index < count, ∀ next,
      (state index).writeByte (start + index) 0 = .ok next ↔
        machine.table ((start + index) / 0x1000) ≠ none ∧ next = state (index + 1) := by
    intro index inside next
    rw [writeByte_ok_iff]
    dsimp only [state]
    rw [zeroed]
    cases machine.table ((start + index) / 0x1000) with
    | none => simp only [reduceCtorEq, false_and, exists_false, ne_eq, not_true_eq_false]
    | some frame => simp only [Option.some.injEq, exists_eq_left', ne_eq, reduceCtorEq,
        not_false_eq_true, true_and]
  exact foldlM_range_ok_iff state _ rfl round after

end Machine

end Canyon.Boot
