import Canyon.Boot.Coverage

/-!
# Where the bytes of a segment are

After loading, the bytes of a segment are read through the page table: those of the file first,
zeros after them. The frames of the file are counted from the start of a page, so the last bytes
of a segment that starts inside a page may lie in a page that no frame was mapped for.
-/

namespace Canyon.Boot

open Canyon.Lib

/-- The bytes of the file take as many pages as their number alone needs: the segment's first
byte is not so far into its page that they reach into one more. -/
def ProgramHeader.InStep (segment : ProgramHeader) : Prop :=
  segment.virtualAddr % 0x1000 + (segment.fileSize - 1) % 0x1000 < 0x1000

namespace Machine

variable {kernelStart : Nat} {machine middle after : Machine} {segment : ProgramHeader}
  {segments : List ProgramHeader} {page frame : Nat}

/-- The allocator does not give the frame out. -/
def Spares (machine : Machine) (frame : Nat) : Prop :=
  ∀ call, machine.frames call ≠ some frame

/-- The allocator gives no frame out twice, and none that holds bytes of the segments' files. -/
structure Fresh (kernelStart : Nat) (segments : List ProgramHeader) (machine : Machine) :
    Prop where
  /-- Two calls have different answers. -/
  distinct : ∀ first second frame, machine.frames first = some frame →
    machine.frames second = some frame → first = second
  /-- The file stays where it is. -/
  spares : ∀ segment ∈ segments, ∀ index < segment.fileSize,
    machine.Spares ((kernelStart + segment.offset + index) / 0x1000)

/-- The bytes of the segment are where the header says: the file's first, then zeros. -/
def Placed (kernelStart : Nat) (machine after : Machine) (segment : ProgramHeader) : Prop :=
  (∀ index < segment.fileSize, after.readByte (segment.virtualAddr + index) =
    some (machine.memory (kernelStart + segment.offset + index))) ∧
  ∀ index, segment.fileSize ≤ index → index < segment.memSize →
    after.readByte (segment.virtualAddr + index) = some 0

/-! ## One segment -/

/-- Moving the last page takes at most one frame from the allocator. -/
theorem Remapped.frames_eq (remapped : Remapped kernelStart segment machine middle) :
    ∃ count, ∀ call, middle.frames call = machine.frames (call + count) := by
  cases remapped with
  | kept => exact ⟨0, fun _ => rfl⟩
  | copied => exact ⟨1, fun _ => rfl⟩

/-- The allocator goes on where it was. -/
theorem Loaded.frames_eq (loaded : Loaded kernelStart segment machine after) :
    ∃ count, ∀ call, after.frames call = machine.frames (call + count) := by
  cases loaded with
  | plain => exact ⟨0, fun _ => rfl⟩
  | followed _ _ remapped =>
    obtain ⟨count, frames⟩ := remapped.frames_eq
    refine ⟨segment.additionalFrames + count, fun call => ?_⟩
    rw [← Nat.add_assoc]
    exact frames _

variable {count address index : Nat}

/-- A frame that is not given out is not given out later. -/
theorem Spares.shift (spares : machine.Spares frame)
    (frames : ∀ call, after.frames call = machine.frames (call + count)) : after.Spares frame :=
  fun call => frames call ▸ spares (call + count)

/-- The allocator stays fresh. -/
theorem Fresh.shift (fresh : machine.Fresh kernelStart segments)
    (frames : ∀ call, after.frames call = machine.frames (call + count)) :
    after.Fresh kernelStart segments := by
  constructor
  · intro first second frame firstAnswer secondAnswer
    rw [frames] at firstAnswer secondAnswer
    have same := fresh.distinct _ _ frame firstAnswer secondAnswer
    omega
  · intro other otherIn index below
    exact (fresh.spares other otherIn index below).shift frames

/-- A frame that was given out is not given out again. -/
theorem Fresh.spares_taken {call : Nat} (fresh : machine.Fresh kernelStart segments)
    (frames : ∀ call, after.frames call = machine.frames (call + count))
    (answer : machine.frames call = some frame) (taken : call < count) : after.Spares frame := by
  intro later again
  rw [frames] at again
  have same := fresh.distinct _ _ frame answer again
  omega

/-- A page of the zeros is the last page of the file, moved, or an additional one. -/
theorem Remapped.zeros_table (remapped : Remapped kernelStart segment machine middle)
    (above : segment.zeroStart ≤ address)
    (below : address < segment.virtualAddr + segment.memSize) :
    (address / 0x1000 = segment.lastFilePage ∧ segment.zeroStart % 0x1000 ≠ 0 ∧
      (middle.withZeros segment).table (address / 0x1000) = machine.frames 0) ∨
    ∃ call < segment.additionalFrames,
      (middle.withZeros segment).table (address / 0x1000) = middle.frames call := by
  by_cases additional : segment.additionalPage ≤ address / 0x1000
  · have last : address / 0x1000 < segment.additionalPage + segment.additionalFrames := by
      unfold ProgramHeader.additionalFrames
      omega
    exact .inr ⟨address / 0x1000 - segment.additionalPage, by omega,
      withZeros_table_of_mem additional last⟩
  have inLast : address / 0x1000 = segment.lastFilePage ∧ segment.zeroStart % 0x1000 ≠ 0 := by
    unfold ProgramHeader.additionalPage at additional
    unfold ProgramHeader.lastFilePage
    unfold ProgramHeader.zeroStart at above additional ⊢
    omega
  have same : (middle.withZeros segment).table (address / 0x1000) =
      middle.table (address / 0x1000) :=
    withZeros_table_of_not_mem (by omega)
  refine .inl ⟨inLast.1, inLast.2, ?_⟩
  cases remapped with
  | kept aligned => exact absurd aligned inLast.2
  | copied _ answer _ =>
    rw [same, inLast.1, answer]
    exact Function.update_self _ _ _

/-- Moving the last page writes to the frame that it takes only. -/
theorem Remapped.memory_eq (remapped : Remapped kernelStart segment machine middle)
    (spares : machine.Spares (address / 0x1000)) :
    middle.memory address = machine.memory address := by
  cases remapped with
  | kept => rfl
  | @copied frame _ answer =>
    have other : address / 0x1000 ≠ frame := by
      rintro rfl
      exact spares 0 answer
    exact if_neg other

/-- Zeroing writes to frames that were taken from the allocator only. -/
theorem Remapped.zeroed_eq (remapped : Remapped kernelStart segment machine middle)
    (spares : machine.Spares (address / 0x1000)) :
    (middle.withZeros segment).memory address = middle.memory address := by
  apply zeroed_of_untouched
  intro index below frame mapped equal
  have isFrame : address / 0x1000 = frame := by omega
  obtain ⟨count, frames⟩ := remapped.frames_eq
  have zeros := remapped.zeros_table (Nat.le_add_right segment.zeroStart index)
    (by unfold ProgramHeader.zeroStart; omega)
  rcases zeros with ⟨-, -, first⟩ | ⟨call, -, later⟩
  · exact spares 0 (by rw [isFrame, ← first]; exact mapped)
  · exact spares (call + count) (by rw [isFrame, ← frames, ← later]; exact mapped)

/-- Loading writes to frames that were taken from the allocator only. -/
theorem Loaded.memory_eq (loaded : Loaded kernelStart segment machine after)
    (spares : machine.Spares (address / 0x1000)) :
    after.memory address = machine.memory address := by
  cases loaded with
  | plain => rfl
  | followed _ _ remapped => exact (remapped.zeroed_eq spares).trans (remapped.memory_eq spares)

/-- Loading leaves the frames of the pages that were mapped, outside of the segment. -/
theorem Loaded.table_eq (loaded : Loaded kernelStart segment machine after)
    (loadable : segment.Loadable kernelStart) (mapped : machine.table page = some frame)
    (outside : ¬ segment.Covers page) : after.table page = some frame := by
  have free : ¬ segment.Takes page := fun takes => by
    rw [loaded.unmapped takes] at mapped
    cases mapped
  unfold ProgramHeader.Takes at free
  have inFile : (machine.withFile kernelStart segment).table page = some frame :=
    (withFile_table_of_not_mem (by omega)).trans mapped
  cases loaded with
  | plain => exact inFile
  | followed _ larger remapped =>
    refine (withZeros_table_of_not_mem (by omega)).trans ?_
    cases remapped with
    | kept => exact inFile
    | copied =>
      have other : page ≠ segment.lastFilePage := by
        rintro rfl
        refine outside ⟨segment.virtualAddr + segment.fileSize - 1, ?_, ?_, rfl⟩
        · have := loadable.sized
          omega
        · have := loadable.fits
          omega
      exact (Function.update_of_ne other _ _).trans inFile

/-- Zeros follow the bytes of the file. -/
theorem Loaded.reads_zero (loaded : Loaded kernelStart segment machine after)
    (above : segment.fileSize ≤ index) (below : index < segment.memSize) :
    after.readByte (segment.virtualAddr + index) = some 0 := by
  cases loaded with
  | plain _ whole => omega
  | @followed middle _ _ _ _ reachable =>
    have address : segment.virtualAddr + index =
        segment.zeroStart + (index - segment.fileSize) := by
      unfold ProgramHeader.zeroStart
      omega
    have inside : index - segment.fileSize < segment.memSize - segment.fileSize := by omega
    obtain ⟨frame, mapped⟩ := Option.ne_none_iff_exists'.mp (reachable _ inside)
    rw [address, readByte, mapped, Option.map_some]
    exact congrArg some (zeroed_of_touched inside mapped)

/-- A page of the file's bytes keeps its frame, or is mapped to a copy of it. -/
theorem Remapped.file_table
    (remapped : Remapped kernelStart segment (machine.withFile kernelStart segment) middle)
    (sized : 0 < segment.fileSize) (inStep : segment.InStep) (below : index < segment.fileSize) :
    let address := segment.virtualAddr + index
    let source := segment.startFrame kernelStart + (address / 0x1000 - segment.startPage)
    (middle.withZeros segment).table (address / 0x1000) = some source ∨
      address / 0x1000 = segment.lastFilePage ∧
        source = segment.startFrame kernelStart + segment.fileFrames - 1 ∧
        segment.zeroStart % 0x1000 ≠ 0 ∧
        (middle.withZeros segment).table (address / 0x1000) = machine.frames 0 := by
  intro address source
  have before : address / 0x1000 < segment.additionalPage := by
    unfold ProgramHeader.additionalPage ProgramHeader.zeroStart
    omega
  have same : (middle.withZeros segment).table (address / 0x1000) =
      middle.table (address / 0x1000) :=
    withZeros_table_of_not_mem (by omega)
  have first : segment.startPage ≤ address / 0x1000 := by
    unfold ProgramHeader.startPage
    omega
  have last : address / 0x1000 < segment.startPage + segment.fileFrames := by
    unfold ProgramHeader.startPage ProgramHeader.fileFrames
    unfold ProgramHeader.InStep at inStep
    omega
  have inFile : (machine.withFile kernelStart segment).table (address / 0x1000) = some source :=
    withFile_table_of_mem first last
  rw [same]
  cases remapped with
  | kept => exact .inl inFile
  | copied unaligned answer =>
    by_cases isLast : address / 0x1000 = segment.lastFilePage
    · refine .inr ⟨isLast, ?_, unaligned, ?_⟩
      · dsimp only [source]
        rw [isLast]
        unfold ProgramHeader.lastFilePage ProgramHeader.startPage ProgramHeader.fileFrames
        unfold ProgramHeader.InStep at inStep
        omega
      · rw [isLast]
        exact (Function.update_self _ _ _).trans answer.symm
    · exact .inl ((Function.update_of_ne isLast _ _).trans inFile)

/-- In the last page, when it is moved, the bytes before the zeros are those of the last frame. -/
theorem Remapped.reads_copy (remapped : Remapped kernelStart segment machine middle)
    (fresh : machine.Fresh kernelStart segments) (unaligned : segment.zeroStart % 0x1000 ≠ 0)
    (isLast : address / 0x1000 = segment.lastFilePage) (before : address < segment.zeroStart)
    (moved : (middle.withZeros segment).table (address / 0x1000) = machine.frames 0) :
    (middle.withZeros segment).readByte address = some (machine.memory
      (0x1000 * (segment.startFrame kernelStart + segment.fileFrames - 1) +
        address % 0x1000)) := by
  have zeros := fun (index : Nat) (below : index < segment.memSize - segment.fileSize) =>
    remapped.zeros_table (Nat.le_add_right segment.zeroStart index)
      (by unfold ProgramHeader.zeroStart; omega)
  cases remapped with
  | kept aligned => exact absurd aligned unaligned
  | @copied frame _ answer mapped =>
    rw [readByte, moved, answer, Option.map_some]
    congr 1
    -- The zeros of this page come after the byte, and the other pages have other frames.
    refine (zeroed_of_untouched ?_).trans ?_
    · intro index below other otherMapped equal
      have isFrame : other = frame := by omega
      subst isFrame
      rcases zeros index below with ⟨alsoLast, -, -⟩ | ⟨call, -, later⟩
      · omega
      · have again := fresh.distinct 0 (call + 1) other answer (later.symm.trans otherMapped)
        omega
    · have isFrame : (0x1000 * frame + address % 0x1000) / 0x1000 = frame := by omega
      have isOffset : (0x1000 * frame + address % 0x1000) % 0x1000 = address % 0x1000 := by omega
      refine (if_pos isFrame).trans ?_
      rw [isOffset]

/-- A byte of the file is where its frame says. -/
theorem source_eq (loadable : segment.Loadable kernelStart)
    (pageAligned : kernelStart % 0x1000 = 0) (index : Nat) :
    0x1000 * (segment.startFrame kernelStart +
        ((segment.virtualAddr + index) / 0x1000 - segment.startPage)) +
      (segment.virtualAddr + index) % 0x1000 = kernelStart + segment.offset + index := by
  have congruent := loadable.congruent
  unfold ProgramHeader.startFrame ProgramHeader.startPage
  omega

/-- The bytes of the file are read at the segment's addresses. -/
theorem Loaded.reads_file (loaded : Loaded kernelStart segment machine after)
    (loadable : segment.Loadable kernelStart) (pageAligned : kernelStart % 0x1000 = 0)
    (inStep : segment.InStep) (fresh : machine.Fresh kernelStart segments)
    (isIn : segment ∈ segments) (below : index < segment.fileSize) :
    after.readByte (segment.virtualAddr + index) =
      some (machine.memory (kernelStart + segment.offset + index)) := by
  have source := source_eq loadable pageAligned index
  have spares := fresh.spares segment isIn index below
  cases loaded with
  | plain =>
    have first : segment.startPage ≤ (segment.virtualAddr + index) / 0x1000 := by
      unfold ProgramHeader.startPage
      omega
    have last : (segment.virtualAddr + index) / 0x1000 <
        segment.startPage + segment.fileFrames := by
      unfold ProgramHeader.startPage ProgramHeader.fileFrames
      unfold ProgramHeader.InStep at inStep
      omega
    rw [readByte, withFile_table_of_mem first last, Option.map_some, source]
    rfl
  | followed _ _ remapped =>
    rcases remapped.file_table loadable.sized inStep below with
      inFile | ⟨isLast, isEnd, unaligned, moved⟩
    · rw [readByte, inFile, Option.map_some, source, remapped.zeroed_eq spares,
        remapped.memory_eq spares]
      rfl
    · have inner : (machine.withFile kernelStart segment).Fresh kernelStart segments :=
        ⟨fresh.distinct, fresh.spares⟩
      rw [remapped.reads_copy inner unaligned isLast
        (by unfold ProgramHeader.zeroStart; omega) moved, ← isEnd, source]
      rfl

/-- The frame that the last page is moved to is not given out again. -/
theorem Remapped.moved (remapped : Remapped kernelStart segment machine middle)
    (fresh : machine.Fresh kernelStart segments) (unaligned : segment.zeroStart % 0x1000 ≠ 0) :
    ∃ frame, machine.frames 0 = some frame ∧ (middle.withZeros segment).Spares frame := by
  cases remapped with
  | kept aligned => exact absurd aligned unaligned
  | @copied frame _ answer =>
    refine ⟨frame, answer, fun call again => ?_⟩
    have same := fresh.distinct _ _ frame answer again
    omega

/-- The pages of a loaded segment are mapped to frames that are not given out again. -/
theorem Loaded.settled (loaded : Loaded kernelStart segment machine after)
    (loadable : segment.Loadable kernelStart) (pageAligned : kernelStart % 0x1000 = 0)
    (inStep : segment.InStep) (fresh : machine.Fresh kernelStart segments)
    (isIn : segment ∈ segments) (below : index < segment.memSize) :
    ∃ frame, after.table ((segment.virtualAddr + index) / 0x1000) = some frame ∧
      after.Spares frame := by
  obtain ⟨count, frames⟩ := loaded.frames_eq
  have source := source_eq loadable pageAligned index
  have spares : index < segment.fileSize → after.Spares (segment.startFrame kernelStart +
      ((segment.virtualAddr + index) / 0x1000 - segment.startPage)) := by
    intro inFile
    have isFrame : segment.startFrame kernelStart +
        ((segment.virtualAddr + index) / 0x1000 - segment.startPage) =
          (kernelStart + segment.offset + index) / 0x1000 := by omega
    rw [isFrame]
    exact (fresh.spares segment isIn index inFile).shift frames
  cases loaded with
  | plain _ whole =>
    have inFile : index < segment.fileSize := by omega
    refine ⟨_, withFile_table_of_mem ?_ ?_, spares inFile⟩
    · unfold ProgramHeader.startPage
      omega
    · unfold ProgramHeader.startPage ProgramHeader.fileFrames
      unfold ProgramHeader.InStep at inStep
      omega
  | @followed middle _ _ remapped additional =>
    have inner : (machine.withFile kernelStart segment).Fresh kernelStart segments :=
      ⟨fresh.distinct, fresh.spares⟩
    by_cases inFile : index < segment.fileSize
    · rcases remapped.file_table loadable.sized inStep inFile with
        kept | ⟨-, -, unaligned, moved⟩
      · exact ⟨_, kept, spares inFile⟩
      · obtain ⟨frame, answer, taken⟩ := remapped.moved inner unaligned
        exact ⟨frame, moved.trans answer, taken⟩
    · have above : segment.zeroStart ≤ segment.virtualAddr + index := by
        unfold ProgramHeader.zeroStart
        omega
      rcases remapped.zeros_table above (by omega) with
        ⟨-, unaligned, moved⟩ | ⟨call, within, later⟩
      · obtain ⟨frame, answer, taken⟩ := remapped.moved inner unaligned
        exact ⟨frame, moved.trans answer, taken⟩
      · obtain ⟨frame, answer⟩ := Option.ne_none_iff_exists'.mp (additional call within).1
        obtain ⟨_, middleFrames⟩ := remapped.frames_eq
        exact ⟨frame, later.trans answer,
          (inner.shift middleFrames).spares_taken (fun _ => rfl) answer within⟩

/-! ## All segments -/

/-- Loading keeps what is mapped outside of its segments to frames that are not given out. -/
theorem kept_of_mapElf (pageAligned : kernelStart % 0x1000 = 0)
    (loadable : ∀ segment ∈ loads segments, segment.Loadable kernelStart)
    (ran : mapElf kernelStart machine segments = .ok after)
    (mapped : machine.table page = some frame) (spares : machine.Spares frame)
    (outside : ∀ segment ∈ loads segments, ¬ segment.Covers page) :
    after.table page = some frame ∧
      ∀ offset < 0x1000, after.memory (0x1000 * frame + offset) =
        machine.memory (0x1000 * frame + offset) := by
  induction segments generalizing machine with
  | nil =>
    obtain rfl := Except.ok.inj ran
    exact ⟨mapped, fun _ _ => rfl⟩
  | cons segment rest ih =>
    obtain ⟨middle, first, ranRest⟩ := mapElf_cons.mp ran
    by_cases isLoad : segment.type = some .load
    · rw [loads_cons_of_load isLoad] at loadable outside
      have loadableFirst := loadable segment List.mem_cons_self
      have loaded := (mapSegment_ok_iff loadableFirst pageAligned isLoad).mp first
      obtain ⟨count, frames⟩ := loaded.frames_eq
      obtain ⟨tableEq, memoryEq⟩ :=
        ih (fun other isIn => loadable other (List.mem_cons_of_mem _ isIn)) ranRest
          (loaded.table_eq loadableFirst mapped (outside segment List.mem_cons_self))
          (spares.shift frames) (fun other isIn => outside other (List.mem_cons_of_mem _ isIn))
      refine ⟨tableEq, fun offset inPage => (memoryEq offset inPage).trans ?_⟩
      have isFrame : (0x1000 * frame + offset) / 0x1000 = frame := by omega
      exact loaded.memory_eq (isFrame.symm ▸ spares)
    · rw [loads_cons_of_not_load isLoad] at loadable outside
      obtain ⟨-, rfl⟩ := (mapSegment_skips isLoad).mp first
      exact ih loadable ranRest mapped spares outside

/-- A segment stays readable while segments in other pages are loaded. -/
theorem readByte_of_mapElf (pageAligned : kernelStart % 0x1000 = 0)
    (loadable : ∀ segment ∈ loads segments, segment.Loadable kernelStart)
    (ran : mapElf kernelStart machine segments = .ok after)
    (mapped : machine.table (address / 0x1000) = some frame) (spares : machine.Spares frame)
    (outside : ∀ segment ∈ loads segments, ¬ segment.Covers (address / 0x1000)) :
    after.readByte address = machine.readByte address := by
  obtain ⟨tableEq, memoryEq⟩ := kept_of_mapElf pageAligned loadable ran mapped spares outside
  rw [readByte, readByte, tableEq, mapped, Option.map_some, Option.map_some,
    memoryEq _ (Nat.mod_lt _ (by omega))]

/-- Segments in different pages, whose bytes take no more pages than their number needs, are
placed where they belong. -/
theorem placed_of_mapElf {all : List ProgramHeader} (pageAligned : kernelStart % 0x1000 = 0)
    (loadable : ∀ segment ∈ loads segments, segment.Loadable kernelStart)
    (apart : Apart (loads segments)) (inStep : ∀ segment ∈ loads segments, segment.InStep)
    (within : ∀ segment ∈ loads segments, segment ∈ all) (fresh : machine.Fresh kernelStart all)
    (ran : mapElf kernelStart machine segments = .ok after) :
    ∀ segment ∈ loads segments, Placed kernelStart machine after segment := by
  induction segments generalizing machine with
  | nil => exact fun segment isIn => absurd isIn List.not_mem_nil
  | cons segment rest ih =>
    obtain ⟨middle, first, ranRest⟩ := mapElf_cons.mp ran
    by_cases isLoad : segment.type = some .load
    · rw [loads_cons_of_load isLoad] at loadable apart inStep within ⊢
      obtain ⟨others, apartRest⟩ := List.pairwise_cons.mp apart
      have isFirst : segment ∈ segment :: loads rest := List.mem_cons_self
      have loadableFirst := loadable segment isFirst
      have loaded := (mapSegment_ok_iff loadableFirst pageAligned isLoad).mp first
      have loadableRest : ∀ other ∈ loads rest, other.Loadable kernelStart :=
        fun other isIn => loadable other (List.mem_cons_of_mem _ isIn)
      obtain ⟨count, frames⟩ := loaded.frames_eq
      intro other isIn
      rcases List.mem_cons.mp isIn with rfl | later
      · have stays : ∀ index < other.memSize, after.readByte (other.virtualAddr + index) =
            middle.readByte (other.virtualAddr + index) := by
          intro index below
          obtain ⟨frame, mapped, spares⟩ := loaded.settled loadableFirst pageAligned
            (inStep other isFirst) fresh (within other isFirst) below
          exact readByte_of_mapElf pageAligned loadableRest ranRest mapped spares
            fun neighbour neighbourIn => others neighbour neighbourIn _
              ⟨_, Nat.le_add_right _ _, by omega, rfl⟩
        constructor
        · intro index below
          rw [stays index (Nat.lt_of_lt_of_le below loadableFirst.fits)]
          exact loaded.reads_file loadableFirst pageAligned (inStep other isFirst) fresh
            (within other isFirst) below
        · intro index above below
          rw [stays index below]
          exact loaded.reads_zero above below
      · obtain ⟨file, zeros⟩ := ih loadableRest apartRest
          (fun other isIn => inStep other (List.mem_cons_of_mem _ isIn))
          (fun other isIn => within other (List.mem_cons_of_mem _ isIn)) (fresh.shift frames)
          ranRest other later
        refine ⟨fun index below => ?_, zeros⟩
        rw [file index below, loaded.memory_eq (fresh.spares other (within other isIn) index below)]
    · rw [loads_cons_of_not_load isLoad] at loadable apart inStep within ⊢
      obtain ⟨-, rfl⟩ := (mapSegment_skips isLoad).mp first
      exact ih loadable apart inStep within fresh ranRest

end Machine

/-- The loader gives a segment pages that it has bytes in, and the one after them at most. -/
theorem ProgramHeader.Takes.near {kernelStart page : Nat} {segment : ProgramHeader}
    (takes : segment.Takes page) (loadable : segment.Loadable kernelStart) :
    segment.Covers page ∨ 0 < page ∧ segment.Covers (page - 1) := by
  have sized := loadable.sized
  have fits := loadable.fits
  rw [covers_iff (by omega), covers_iff (by omega)]
  unfold Takes additionalFrames additionalPage zeroStart startPage fileFrames at takes
  unfold startPage
  omega

/-- A segment whose bytes reach into one page more than their number needs has bytes in two
pages, the second of which the loader does not give it. -/
theorem ProgramHeader.missing_page {kernelStart : Nat} {segment : ProgramHeader}
    (loadable : segment.Loadable kernelStart) (outOfStep : ¬ segment.InStep) :
    segment.Covers segment.lastFilePage ∧ segment.Covers (segment.lastFilePage - 1) ∧
      ¬ segment.Takes segment.lastFilePage := by
  have sized := loadable.sized
  have fits := loadable.fits
  rw [covers_iff (by omega), covers_iff (by omega)]
  unfold InStep at outOfStep
  unfold Takes additionalPage zeroStart lastFilePage startPage fileFrames
  omega

open Machine

/-- Segments in different pages are placed where they belong when the bytes of each take as many
pages as their number alone needs; and where none of their pages was mapped before, only then. -/
theorem segments_placed_iff {kernelStart : Nat} {machine after : Machine}
    {segments : List ProgramHeader} (pageAligned : kernelStart % 0x1000 = 0)
    (loadable : ∀ segment ∈ loads segments, segment.Loadable kernelStart)
    (apart : Apart (loads segments)) (fresh : machine.Fresh kernelStart (loads segments))
    (ran : mapElf kernelStart machine segments = .ok after) :
    ((∀ segment ∈ loads segments, segment.InStep) →
      ∀ segment ∈ loads segments, Placed kernelStart machine after segment) ∧
    ((∀ segment ∈ loads segments, ∀ page, segment.Covers page → machine.table page = none) →
      (∀ segment ∈ loads segments, Placed kernelStart machine after segment) →
      ∀ segment ∈ loads segments, segment.InStep) := by
  constructor
  · intro inStep
    exact placed_of_mapElf pageAligned loadable apart inStep (fun _ isIn => isIn) fresh ran
  · intro unmapped placed segment isIn
    by_contra outOfStep
    have sized := (loadable segment isIn).sized
    obtain ⟨covers, coversBefore, notTaken⟩ :=
      ProgramHeader.missing_page (loadable segment isIn) outOfStep
    -- The last byte of the file is read, so its page is mapped, and some segment takes it.
    have read := (placed segment isIn).1 (segment.fileSize - 1) (by omega)
    have isPage : (segment.virtualAddr + (segment.fileSize - 1)) / 0x1000 =
        segment.lastFilePage := by
      rw [← Nat.add_sub_assoc sized]
      rfl
    have mapped : after.table segment.lastFilePage ≠ none := by
      intro isNone
      rw [readByte, isPage, isNone] at read
      cases read
    rcases (mapped_iff_of_mapElf pageAligned loadable ran).mp mapped with
      before | ⟨other, otherIn, takes⟩
    · exact before (unmapped segment isIn _ covers)
    · by_cases same : segment = other
      · exact notTaken (same ▸ takes)
      · have beside := apart.forall isIn otherIn same
        rcases takes.near (loadable other otherIn) with here | ⟨-, oneBefore⟩
        · exact beside _ covers here
        · exact beside _ coversBefore oneBefore

/-- The frames of the bare machine are above a file that ends below them. -/
theorem fresh_bare {segments : List ProgramHeader}
    (low : ∀ segment ∈ segments, 0x10_0000 + segment.offset + segment.fileSize ≤ 0x20_0000) :
    bare.Fresh 0x10_0000 segments := by
  constructor
  · intro first second frame firstAnswer secondAnswer
    have same := Option.some.inj (firstAnswer.trans secondAnswer.symm)
    omega
  · intro segment isIn index below call answer
    have same : 0x200 + call = (0x10_0000 + segment.offset + index) / 0x1000 :=
      Option.some.inj answer
    have := low segment isIn
    omega

/-- A segment in the middle of a page, with a zero after the bytes of the file. -/
def leaning : ProgramHeader :=
  ⟨some .load, 0x1800, 0x1800, 0x400, 0x401⟩

/-- It is placed where it belongs. -/
theorem segments_placed_leaning : ∃ after, mapElf 0x10_0000 bare [leaning] = .ok after ∧
    ∀ segment ∈ loads [leaning], Placed 0x10_0000 bare after segment := by
  have only : ∀ segment ∈ loads [leaning], segment = leaning := fun segment isIn =>
    List.mem_singleton.mp isIn
  have loadable : ∀ segment ∈ loads [leaning], segment.Loadable 0x10_0000 := fun segment isIn =>
    only segment isIn ▸ ⟨by decide, by decide, rfl, .inl (by decide), by decide⟩
  have apart : Apart (loads [leaning]) := List.pairwise_singleton _ leaning
  have fresh : bare.Fresh 0x10_0000 (loads [leaning]) :=
    fresh_bare fun segment isIn => only segment isIn ▸ by decide
  obtain ⟨after, ran⟩ : ∃ after, mapElf 0x10_0000 bare [leaning] = .ok after := ⟨_, rfl⟩
  refine ⟨after, ran, (segments_placed_iff rfl loadable apart fresh ran).1 fun segment isIn => ?_⟩
  obtain rfl := only segment isIn
  show 0x1800 % 0x1000 + (0x400 - 1) % 0x1000 < 0x1000
  decide

/-- A page of bytes that begins in the middle of a page. -/
def straddling : ProgramHeader :=
  ⟨some .load, 0x1800, 0x1800, 0x1000, 0x1000⟩

/-- The segment is loaded, with one page mapped for the two that it lies in: its second half
cannot be read. -/
theorem straddling_half_mapped :
    straddling.Loadable 0x10_0000 ∧ bare.Fresh 0x10_0000 (loads [straddling]) ∧
      ∃ after, mapElf 0x10_0000 bare [straddling] = .ok after ∧
        ¬ Placed 0x10_0000 bare after straddling := by
  have loadable : straddling.Loadable 0x10_0000 :=
    ⟨by decide, by decide, rfl, .inl (by decide), by decide⟩
  have loaded : Loaded 0x10_0000 straddling bare (bare.withFile 0x10_0000 straddling) :=
    .plain (fun _ _ => rfl) rfl
  have ran := (mapSegment_ok_iff loadable rfl rfl).mpr loaded
  refine ⟨loadable, fresh_bare fun segment isIn => ?_, _, mapElf_cons.mpr ⟨_, ran, rfl⟩, ?_⟩
  · obtain rfl : segment = straddling := List.mem_singleton.mp isIn
    decide
  · intro placed
    have read := placed.1 0x800 (by decide)
    have outside : ¬ (straddling.startPage ≤ (straddling.virtualAddr + 0x800) / 0x1000 ∧
        (straddling.virtualAddr + 0x800) / 0x1000 <
          straddling.startPage + straddling.fileFrames) := by decide
    rw [readByte, withFile_table_of_not_mem outside] at read
    exact Option.some_ne_none _ read.symm

end Canyon.Boot
