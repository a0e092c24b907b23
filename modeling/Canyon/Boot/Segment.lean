import Canyon.Boot.PageTable

/-!
# What loading one segment does

A segment that lies in one half of the address space, and whose bytes lie in physical memory, is
loaded in at most four parts: its frames are mapped, the last of them is copied, more pages follow,
and the bytes that are not in the file are zeroed. `Loaded` lists what each part needs and leaves.
-/

namespace Canyon.Boot

open Canyon.Lib

namespace ProgramHeader

/-- The segment has bytes in the page. -/
def Covers (segment : ProgramHeader) (page : Nat) : Prop :=
  ∃ address, segment.virtualAddr ≤ address ∧
    address < segment.virtualAddr + segment.memSize ∧ address / 0x1000 = page

/-- `start_page`. -/
def startPage (segment : ProgramHeader) : Nat :=
  segment.virtualAddr / 0x1000

/-- Number of frames that `map_segment` maps for the file's bytes, which counts them from the
start of a page. -/
def fileFrames (segment : ProgramHeader) : Nat :=
  (segment.fileSize - 1) / 0x1000 + 1

/-- `last_page`. -/
def lastFilePage (segment : ProgramHeader) : Nat :=
  (segment.virtualAddr + segment.fileSize - 1) / 0x1000

/-- `zero_start`. -/
def zeroStart (segment : ProgramHeader) : Nat :=
  segment.virtualAddr + segment.fileSize

/-- The `start_page` of the additional frames. -/
def additionalPage (segment : ProgramHeader) : Nat :=
  (segment.zeroStart + 0xfff) / 0x1000

/-- Number of additional frames, up to the page of `zero_end`. -/
def additionalFrames (segment : ProgramHeader) : Nat :=
  (segment.virtualAddr + segment.memSize) / 0x1000 + 1 - segment.additionalPage

/-- `start_frame`. -/
def startFrame (kernelStart : Nat) (segment : ProgramHeader) : Nat :=
  (kernelStart + segment.offset) / 0x1000

/-- The loader gives the page a frame for the segment. -/
def Takes (segment : ProgramHeader) (page : Nat) : Prop :=
  (segment.startPage ≤ page ∧ page < segment.startPage + segment.fileFrames) ∨
    (segment.fileSize < segment.memSize ∧ segment.additionalPage ≤ page ∧
      page < segment.additionalPage + segment.additionalFrames)

/-- A segment that the loader can be asked for: it has bytes in the file and no more in the file
than in memory, its offset and its address agree within a page, it lies with the page after it in
one half of the address space, and its bytes in the file lie in physical memory. -/
structure Loadable (kernelStart : Nat) (segment : ProgramHeader) : Prop where
  /-- The file has bytes of it. -/
  sized : 0 < segment.fileSize
  /-- The bytes in the file fit in memory. -/
  fits : segment.fileSize ≤ segment.memSize
  /-- `p_offset = p_vaddr (mod 4096)`. -/
  congruent : segment.offset % 0x1000 = segment.virtualAddr % 0x1000
  /-- The addresses are plain numbers. -/
  canonical : Canonical segment.virtualAddr (segment.virtualAddr + segment.memSize + 0xfff)
  /-- The file is in physical memory. -/
  physical : kernelStart + segment.offset + segment.fileSize < 0x10_0000_0000_0000

/-- The pages of a segment in a row. -/
theorem covers_iff {segment : ProgramHeader} {page : Nat} (sized : 0 < segment.memSize) :
    segment.Covers page ↔ segment.startPage ≤ page ∧
      page ≤ (segment.virtualAddr + segment.memSize - 1) / 0x1000 := by
  unfold Covers startPage
  constructor
  · rintro ⟨address, above, below, rfl⟩
    omega
  · rintro ⟨above, below⟩
    refine ⟨max segment.virtualAddr (0x1000 * page), by omega, by omega, by omega⟩

end ProgramHeader

namespace Machine

variable {kernelStart : Nat} {machine middle after : Machine} {segment : ProgramHeader}

/-- The frames of the file are mapped. -/
def withFile (kernelStart : Nat) (machine : Machine) (segment : ProgramHeader) : Machine :=
  { machine with
    table := spread machine.table segment.startPage segment.fileFrames
      (fun index => some (segment.startFrame kernelStart + index)) }

/-- What becomes of the last page of the file: it stays when nothing else is in it, and is mapped
to a copy otherwise. -/
inductive Remapped (kernelStart : Nat) (segment : ProgramHeader) (machine : Machine) :
    Machine → Prop where
  /-- The file ends with the page. -/
  | kept (aligned : segment.zeroStart % 0x1000 = 0) : Remapped kernelStart segment machine machine
  /-- A copy of the last frame takes the place of the last page. -/
  | copied {frame : Nat} (unaligned : segment.zeroStart % 0x1000 ≠ 0)
      (answer : machine.frames 0 = some frame)
      (mapped : machine.table segment.lastFilePage ≠ none) :
      Remapped kernelStart segment machine
        { table := Function.update machine.table segment.lastFilePage (some frame)
          memory := (machine.copyFrame frame
            (segment.startFrame kernelStart + segment.fileFrames - 1)).memory
          frames := fun call => machine.frames (call + 1) }

/-- The additional pages are mapped and the bytes after the file's are zeroed. -/
def withZeros (machine : Machine) (segment : ProgramHeader) : Machine :=
  let table := spread machine.table segment.additionalPage segment.additionalFrames machine.frames
  { table := table
    memory := zeroed table machine.memory segment.zeroStart (segment.memSize - segment.fileSize)
    frames := fun call => machine.frames (call + segment.additionalFrames) }

/-- The machine after a segment was loaded. -/
inductive Loaded (kernelStart : Nat) (segment : ProgramHeader) (machine : Machine) :
    Machine → Prop where
  /-- All bytes are in the file. -/
  | plain (unmapped : ∀ index < segment.fileFrames,
        machine.table (segment.startPage + index) = none)
      (whole : segment.memSize = segment.fileSize) :
      Loaded kernelStart segment machine (machine.withFile kernelStart segment)
  /-- Zeros follow the bytes of the file. -/
  | followed {middle : Machine} (unmapped : ∀ index < segment.fileFrames,
        machine.table (segment.startPage + index) = none)
      (larger : segment.fileSize < segment.memSize)
      (remapped : Remapped kernelStart segment (machine.withFile kernelStart segment) middle)
      (additional : ∀ index < segment.additionalFrames,
        middle.frames index ≠ none ∧ middle.table (segment.additionalPage + index) = none)
      (reachable : ∀ index < segment.memSize - segment.fileSize,
        (middle.withZeros segment).table ((segment.zeroStart + index) / 0x1000) ≠ none) :
      Loaded kernelStart segment machine (middle.withZeros segment)

/-- The last page is moved as `Remapped` says. -/
theorem moveLast_ok_iff (loadable : segment.Loadable kernelStart)
    (unaligned : segment.zeroStart % 0x1000 ≠ 0) :
    machine.moveLast segment.virtualAddr segment.fileSize
        (segment.startFrame kernelStart + segment.fileFrames - 1) = .ok after ↔
      Remapped kernelStart segment machine after := by
  have sized := loadable.sized
  have fits := loadable.fits
  have fileEnd : virt (segment.virtualAddr + segment.fileSize) =
      .ok (segment.virtualAddr + segment.fileSize) :=
    virt_eq loadable.canonical (by omega) (by omega)
  have lastByte : before (segment.virtualAddr + segment.fileSize) =
      .ok (segment.virtualAddr + segment.fileSize - 1) :=
    if_neg (by omega)
  have last : virt (segment.virtualAddr + segment.fileSize - 1) =
      .ok (segment.virtualAddr + segment.fileSize - 1) :=
    virt_eq loadable.canonical (by omega) (by omega)
  unfold moveLast
  simp only [fileEnd, lastByte, last, ok_bind, bind_ok_iff, allocateFrame_ok_iff, unmap_ok_iff,
    mapTo_ok_iff]
  constructor
  · rintro ⟨⟨frame, next⟩, ⟨answer, rfl⟩, free, ⟨mapped, rfl⟩, -, rfl⟩
    have remapped : Remapped kernelStart segment machine _ := .copied unaligned answer mapped
    dsimp only
    rw [Function.update_idem]
    exact remapped
  · intro remapped
    cases remapped with
    | kept aligned => exact absurd aligned unaligned
    | @copied frame _ answer mapped =>
      refine ⟨(frame, _), ⟨answer, rfl⟩, _, ⟨mapped, rfl⟩, ?_, ?_⟩
      · exact Function.update_self _ _ _
      · dsimp only
        rw [Function.update_idem]
        rfl

/-- The last page is moved or stays. -/
theorem remapLast_ok_iff (loadable : segment.Loadable kernelStart) :
    machine.remapLast segment.zeroStart segment.virtualAddr segment.fileSize
        (segment.startFrame kernelStart + segment.fileFrames - 1) = .ok after ↔
      Remapped kernelStart segment machine after := by
  unfold remapLast
  split
  · next unaligned => exact moveLast_ok_iff loadable unaligned
  · next aligned =>
    have ends : segment.zeroStart % 0x1000 = 0 := by omega
    constructor
    · intro same
      obtain rfl := Except.ok.inj same
      exact .kept ends
    · intro remapped
      cases remapped with
      | kept => rfl
      | copied unaligned => exact absurd ends unaligned

/-- The zeros follow the bytes of the file. -/
theorem mapBss_ok_iff (loadable : segment.Loadable kernelStart)
    (larger : segment.fileSize < segment.memSize) :
    machine.mapBss segment.virtualAddr segment.fileSize segment.memSize
        (segment.startFrame kernelStart + segment.fileFrames - 1) = .ok after ↔
      ∃ middle, Remapped kernelStart segment machine middle ∧
        (∀ index < segment.additionalFrames, middle.frames index ≠ none ∧
          middle.table (segment.additionalPage + index) = none) ∧
        (∀ index < segment.memSize - segment.fileSize,
          (middle.withZeros segment).table ((segment.zeroStart + index) / 0x1000) ≠ none) ∧
        after = middle.withZeros segment := by
  have canonical := loadable.canonical
  have limit : segment.virtualAddr + segment.memSize + 0xfff < 2 ^ 64 := by
    unfold Canonical at canonical
    omega
  have first : virt (segment.virtualAddr + segment.fileSize) = .ok segment.zeroStart :=
    virt_eq canonical (by omega) (by omega)
  have last : virt (segment.virtualAddr + segment.memSize) =
      .ok (segment.virtualAddr + segment.memSize) :=
    virt_eq canonical (by omega) (by omega)
  have aligned : (alignUp segment.zeroStart).elim (.error .badAddress) virt =
      .ok (0x1000 * segment.additionalPage) := by
    have room : segment.zeroStart + 0x1000 ≤ 2 ^ 64 := by
      unfold ProgramHeader.zeroStart
      omega
    rw [alignUp_eq room]
    show virt (0x1000 * ((segment.zeroStart + 0xfff) / 0x1000)) = _
    unfold ProgramHeader.zeroStart at room ⊢
    exact virt_eq canonical (by omega) (by omega)
  have isPage : 0x1000 * segment.additionalPage / 0x1000 = segment.additionalPage := by omega
  unfold mapBss
  simp only [first, last, aligned, isPage, ok_bind, bind_ok_iff, remapLast_ok_iff loadable,
    mapAdditional_ok_iff, writeZeros_ok_iff]
  constructor
  · rintro ⟨middle, remapped, full, ⟨additional, rfl⟩, reachable, rfl⟩
    exact ⟨middle, remapped, additional, reachable, rfl⟩
  · rintro ⟨middle, remapped, additional, reachable, rfl⟩
    exact ⟨middle, remapped, _, ⟨additional, rfl⟩, reachable, rfl⟩

/-- `map_segment` does what `Loaded` says. -/
theorem mapSegment_ok_iff (loadable : segment.Loadable kernelStart)
    (pageAligned : kernelStart % 0x1000 = 0) (isLoad : segment.type = some .load) :
    mapSegment kernelStart machine segment = .ok after ↔
      Loaded kernelStart segment machine after := by
  have sized := loadable.sized
  have fits := loadable.fits
  have small := loadable.physical
  have start : phys (kernelStart + 0x1000 * (segment.offset / 0x1000)) =
      .ok (0x1000 * segment.startFrame kernelStart) := by
    have same : kernelStart + 0x1000 * (segment.offset / 0x1000) =
        0x1000 * segment.startFrame kernelStart := by
      unfold ProgramHeader.startFrame
      omega
    rw [same, phys, physAddrNew_eq (by omega)]
    rfl
  have fileEnd : phys (0x1000 * segment.startFrame kernelStart + segment.fileSize) =
      .ok (0x1000 * segment.startFrame kernelStart + segment.fileSize) := by
    rw [phys, physAddrNew_eq (by unfold ProgramHeader.startFrame; omega)]
    rfl
  have lastByte : before (0x1000 * segment.startFrame kernelStart + segment.fileSize) =
      .ok (0x1000 * segment.startFrame kernelStart + segment.fileSize - 1) :=
    if_neg (by omega)
  have isFrame : 0x1000 * segment.startFrame kernelStart / 0x1000 =
      segment.startFrame kernelStart := by omega
  have endFrame : (0x1000 * segment.startFrame kernelStart + segment.fileSize - 1) / 0x1000 =
      segment.startFrame kernelStart + segment.fileFrames - 1 := by
    unfold ProgramHeader.fileFrames
    omega
  have count : segment.startFrame kernelStart + segment.fileFrames - 1 + 1 -
      segment.startFrame kernelStart = segment.fileFrames := by
    unfold ProgramHeader.fileFrames
    omega
  have virtStart : virt segment.virtualAddr = .ok segment.virtualAddr :=
    virt_eq loadable.canonical (by omega) (by omega)
  have pages : Canonical (0x1000 * segment.startPage)
      (segment.virtualAddr + segment.memSize + 0xfff) := by
    have canonical := loadable.canonical
    unfold Canonical at canonical ⊢
    unfold ProgramHeader.startPage
    omega
  have mapped : ∀ next, machine.mapFrames segment.startPage (segment.startFrame kernelStart)
      segment.fileFrames = .ok next ↔ (∀ index < segment.fileFrames,
        machine.table (segment.startPage + index) = none) ∧
        next = machine.withFile kernelStart segment := by
    intro next
    refine mapFrames_ok_iff pages (Nat.le_refl _) ?_
    unfold ProgramHeader.startPage ProgramHeader.fileFrames
    omega
  unfold mapSegment
  rw [isLoad]
  simp only [start, virtStart, fileEnd, lastByte, isFrame, endFrame, count, ok_bind, bind_ok_iff]
  constructor
  · rintro ⟨next, ran, rest⟩
    obtain ⟨unmapped, rfl⟩ := (mapped next).mp ran
    split at rest
    · next larger =>
      obtain ⟨middle, remapped, additional, reachable, rfl⟩ :=
        (mapBss_ok_iff loadable larger).mp rest
      exact .followed unmapped larger remapped additional reachable
    · next whole =>
      obtain rfl := Except.ok.inj rest
      exact .plain unmapped (by omega)
  · intro loaded
    cases loaded with
    | plain unmapped whole =>
      refine ⟨_, (mapped _).mpr ⟨unmapped, rfl⟩, ?_⟩
      rw [if_neg (by omega)]
    | followed unmapped larger remapped additional reachable =>
      refine ⟨_, (mapped _).mpr ⟨unmapped, rfl⟩, ?_⟩
      rw [if_pos larger]
      exact (mapBss_ok_iff loadable larger).mpr ⟨_, remapped, additional, reachable, rfl⟩

/-! ## Pages that are mapped -/

variable {page : Nat}

/-- A page of the file. -/
theorem withFile_table_of_mem (first : segment.startPage ≤ page)
    (last : page < segment.startPage + segment.fileFrames) :
    (machine.withFile kernelStart segment).table page =
      some (segment.startFrame kernelStart + (page - segment.startPage)) :=
  if_pos ⟨first, last⟩

/-- Any other page. -/
theorem withFile_table_of_not_mem
    (outside : ¬ (segment.startPage ≤ page ∧ page < segment.startPage + segment.fileFrames)) :
    (machine.withFile kernelStart segment).table page = machine.table page :=
  if_neg outside

/-- An additional page. -/
theorem withZeros_table_of_mem (first : segment.additionalPage ≤ page)
    (last : page < segment.additionalPage + segment.additionalFrames) :
    (machine.withZeros segment).table page = machine.frames (page - segment.additionalPage) :=
  if_pos ⟨first, last⟩

/-- Any other page. -/
theorem withZeros_table_of_not_mem
    (outside : ¬ (segment.additionalPage ≤ page ∧
      page < segment.additionalPage + segment.additionalFrames)) :
    (machine.withZeros segment).table page = machine.table page :=
  if_neg outside

/-- The frames of the file add their pages. -/
theorem withFile_mapped_iff :
    (machine.withFile kernelStart segment).table page ≠ none ↔ machine.table page ≠ none ∨
      (segment.startPage ≤ page ∧ page < segment.startPage + segment.fileFrames) := by
  by_cases inside : segment.startPage ≤ page ∧ page < segment.startPage + segment.fileFrames
  · rw [withFile_table_of_mem inside.1 inside.2]
    simp only [inside, ne_eq, reduceCtorEq, not_false_eq_true, and_self, or_true]
  · rw [withFile_table_of_not_mem inside]
    simp only [inside, or_false]

/-- A page that is moved stays mapped. -/
theorem Remapped.mapped_iff (remapped : Remapped kernelStart segment machine middle) :
    middle.table page ≠ none ↔ machine.table page ≠ none := by
  cases remapped with
  | kept => rfl
  | copied _ _ mapped =>
    by_cases last : page = segment.lastFilePage
    · subst last
      simp only [Function.update_self, ne_eq, reduceCtorEq, not_false_eq_true, mapped]
    · dsimp only
      rw [Function.update_of_ne last]

/-- The additional pages are added. -/
theorem withZeros_mapped_iff
    (answers : ∀ index < segment.additionalFrames, machine.frames index ≠ none) :
    (machine.withZeros segment).table page ≠ none ↔ machine.table page ≠ none ∨
      (segment.additionalPage ≤ page ∧
        page < segment.additionalPage + segment.additionalFrames) := by
  by_cases inside : segment.additionalPage ≤ page ∧
      page < segment.additionalPage + segment.additionalFrames
  · have answer := answers (page - segment.additionalPage) (by omega)
    rw [withZeros_table_of_mem inside.1 inside.2]
    simp only [inside, answer, ne_eq, not_false_eq_true, and_self, or_true]
  · rw [withZeros_table_of_not_mem inside]
    simp only [inside, or_false]

/-- Loading a segment maps the pages that it takes, besides those that were mapped. -/
theorem Loaded.mapped_iff (loaded : Loaded kernelStart segment machine after) :
    after.table page ≠ none ↔ machine.table page ≠ none ∨ segment.Takes page := by
  unfold ProgramHeader.Takes
  cases loaded with
  | plain _ whole =>
    have same : ¬ segment.fileSize < segment.memSize := by omega
    rw [withFile_mapped_iff]
    simp only [same, false_and, or_false]
  | followed _ larger remapped additional =>
    rw [withZeros_mapped_iff fun index below => (additional index below).1, remapped.mapped_iff,
      withFile_mapped_iff]
    simp only [larger, true_and, or_assoc]

/-- None of the pages that it takes was mapped. -/
theorem Loaded.unmapped (loaded : Loaded kernelStart segment machine after)
    (takes : segment.Takes page) : machine.table page = none := by
  have file : ∀ index < segment.fileFrames, machine.table (segment.startPage + index) = none := by
    cases loaded with
    | plain unmapped => exact unmapped
    | followed unmapped => exact unmapped
  rcases takes with ⟨above, below⟩ | ⟨larger, above, below⟩
  · have first := file (page - segment.startPage) (by omega)
    rwa [Nat.add_sub_cancel' above] at first
  · cases loaded with
    | plain _ whole => omega
    | followed _ _ remapped additional =>
      have free := (additional (page - segment.additionalPage) (by omega)).2
      rw [Nat.add_sub_cancel' above] at free
      by_contra mapped
      exact remapped.mapped_iff.mpr (withFile_mapped_iff.mpr (.inl mapped)) free

end Machine

end Canyon.Boot
