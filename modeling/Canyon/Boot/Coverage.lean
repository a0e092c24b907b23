import Canyon.Boot.Segment
import Mathlib.Data.List.Pairwise

/-!
# Which pages loading maps

Loading an ELF file maps the pages that its segments take, and succeeds when no two of them take
the same page and none of their pages is mapped. A segment whose bytes after the file end with a
page takes one page more than it has bytes in.
-/

namespace Canyon.Boot

open Canyon.Lib

/-- The segments that are loaded. -/
def loads (segments : List ProgramHeader) : List ProgramHeader :=
  segments.filter fun segment => segment.type = some .load

/-- The segments have no bytes in one page. -/
def ProgramHeader.Beside (left right : ProgramHeader) : Prop :=
  ∀ page, left.Covers page → ¬ right.Covers page

instance : Std.Symm ProgramHeader.Beside where
  symm _ _ beside page coversRight coversLeft := beside page coversLeft coversRight

/-- No two of the segments have bytes in one page. -/
def Apart (segments : List ProgramHeader) : Prop :=
  segments.Pairwise ProgramHeader.Beside

/-- The loader gives no page to both segments. -/
def ProgramHeader.Separate (left right : ProgramHeader) : Prop :=
  ∀ page, left.Takes page → ¬ right.Takes page

instance : Std.Symm ProgramHeader.Separate where
  symm _ _ separate page takesRight takesLeft := separate page takesLeft takesRight

/-- A segment that is loaded comes first. -/
theorem loads_cons_of_load {segment : ProgramHeader} {segments : List ProgramHeader}
    (isLoad : segment.type = some .load) :
    loads (segment :: segments) = segment :: loads segments :=
  List.filter_cons_of_pos (by simpa using isLoad)

/-- Another one is left out. -/
theorem loads_cons_of_not_load {segment : ProgramHeader} {segments : List ProgramHeader}
    (skipped : segment.type ≠ some .load) : loads (segment :: segments) = loads segments :=
  List.filter_cons_of_neg (by simpa using skipped)

namespace Machine

variable {kernelStart : Nat} {machine after : Machine} {segment : ProgramHeader}
  {segments : List ProgramHeader}

/-- Other segments are skipped, and an unknown type stops the loader. -/
theorem mapSegment_skips (skipped : segment.type ≠ some .load) :
    mapSegment kernelStart machine segment = .ok after ↔
      segment.type ≠ none ∧ after = machine := by
  unfold mapSegment
  cases isType : segment.type with
  | none => simp only [reduceCtorEq, ne_eq, not_true_eq_false, false_and]
  | some type =>
    cases type with
    | load => exact absurd isType skipped
    | other =>
      simp only [Except.ok.injEq, ne_eq, reduceCtorEq, not_false_eq_true, true_and, eq_comm]

/-- Segments are loaded one after the other. -/
theorem mapElf_cons : mapElf kernelStart machine (segment :: segments) = .ok after ↔
    ∃ middle, mapSegment kernelStart machine segment = .ok middle ∧
      mapElf kernelStart middle segments = .ok after := by
  unfold mapElf
  rw [List.foldlM_cons, bind_ok_iff]

/-- The pages mapped in the end are those mapped before and those that the segments take. -/
theorem mapped_iff_of_mapElf (pageAligned : kernelStart % 0x1000 = 0)
    (loadable : ∀ segment ∈ loads segments, segment.Loadable kernelStart)
    (ran : mapElf kernelStart machine segments = .ok after) {page : Nat} :
    after.table page ≠ none ↔
      machine.table page ≠ none ∨ ∃ segment ∈ loads segments, segment.Takes page := by
  induction segments generalizing machine with
  | nil =>
    obtain rfl := Except.ok.inj ran
    simp only [loads, List.filter_nil, List.not_mem_nil, false_and, exists_false, or_false]
  | cons segment rest ih =>
    obtain ⟨middle, first, ranRest⟩ := mapElf_cons.mp ran
    by_cases isLoad : segment.type = some .load
    · rw [loads_cons_of_load isLoad] at loadable ⊢
      have loaded := (mapSegment_ok_iff (loadable segment List.mem_cons_self) pageAligned
        isLoad).mp first
      rw [ih (fun other otherIn => loadable other (List.mem_cons_of_mem _ otherIn)) ranRest,
        loaded.mapped_iff]
      simp only [List.mem_cons, exists_eq_or_imp, or_assoc]
    · rw [loads_cons_of_not_load isLoad] at loadable ⊢
      obtain ⟨-, rfl⟩ := (mapSegment_skips isLoad).mp first
      exact ih loadable ranRest

/-- Where loading succeeds, no page that a segment takes was mapped, and no two segments take
one page. -/
theorem apart_of_mapElf (pageAligned : kernelStart % 0x1000 = 0)
    (loadable : ∀ segment ∈ loads segments, segment.Loadable kernelStart)
    (ran : mapElf kernelStart machine segments = .ok after) :
    (∀ segment ∈ loads segments, ∀ page, segment.Takes page → machine.table page = none) ∧
      (loads segments).Pairwise ProgramHeader.Separate := by
  induction segments generalizing machine with
  | nil => exact ⟨fun segment isIn => absurd isIn List.not_mem_nil, List.Pairwise.nil⟩
  | cons segment rest ih =>
    obtain ⟨middle, first, ranRest⟩ := mapElf_cons.mp ran
    by_cases isLoad : segment.type = some .load
    · rw [loads_cons_of_load isLoad] at loadable ⊢
      have loaded := (mapSegment_ok_iff (loadable segment List.mem_cons_self) pageAligned
        isLoad).mp first
      obtain ⟨free, apart⟩ :=
        ih (fun other otherIn => loadable other (List.mem_cons_of_mem _ otherIn)) ranRest
      refine ⟨fun other otherIn page takes => ?_, List.pairwise_cons.mpr ⟨?_, apart⟩⟩
      · rcases List.mem_cons.mp otherIn with rfl | later
        · exact loaded.unmapped takes
        · by_contra mapped
          exact loaded.mapped_iff.mpr (.inl mapped) (free other later page takes)
      · intro other otherIn page takes alsoTakes
        exact loaded.mapped_iff.mpr (.inr takes) (free other otherIn page alsoTakes)
    · rw [loads_cons_of_not_load isLoad] at loadable ⊢
      obtain ⟨-, rfl⟩ := (mapSegment_skips isLoad).mp first
      exact ih loadable ranRest

/-- The types of the headers are known when loading succeeds. -/
theorem known_of_mapElf (ran : mapElf kernelStart machine segments = .ok after) :
    ∀ segment ∈ segments, segment.type ≠ none := by
  induction segments generalizing machine with
  | nil => exact fun segment isIn => absurd isIn List.not_mem_nil
  | cons segment rest ih =>
    obtain ⟨middle, first, ranRest⟩ := mapElf_cons.mp ran
    intro other otherIn
    rcases List.mem_cons.mp otherIn with rfl | later
    · intro unknown
      rw [mapSegment, unknown] at first
      cases first
    · exact ih ranRest other later

/-- The allocator of a machine always answers. -/
def Answers (machine : Machine) : Prop :=
  ∀ call, machine.frames call ≠ none

/-- It goes on answering. -/
theorem Loaded.answers (loaded : Loaded kernelStart segment machine after)
    (answers : machine.Answers) : after.Answers := by
  intro call
  cases loaded with
  | plain => exact answers call
  | followed _ _ remapped =>
    cases remapped with
    | kept => exact answers _
    | copied => exact answers _

/-- A segment that starts with a page is loaded when none of its pages is mapped. -/
theorem exists_loaded (loadable : segment.Loadable kernelStart)
    (aligned : segment.virtualAddr % 0x1000 = 0) (answers : machine.Answers)
    (unmapped : ∀ page, segment.Takes page → machine.table page = none) :
    ∃ after, Loaded kernelStart segment machine after := by
  have sized := loadable.sized
  have free : ∀ index < segment.fileFrames, machine.table (segment.startPage + index) = none :=
    fun index below => unmapped _ (.inl ⟨by omega, by omega⟩)
  rcases Nat.eq_or_lt_of_le loadable.fits with whole | larger
  · exact ⟨_, .plain free whole.symm⟩
  have last : (machine.withFile kernelStart segment).table segment.lastFilePage ≠ none := by
    refine withFile_mapped_iff.mpr (.inr ?_)
    unfold ProgramHeader.lastFilePage ProgramHeader.startPage ProgramHeader.fileFrames
    omega
  have remapped : ∃ middle, Remapped kernelStart segment (machine.withFile kernelStart segment)
      middle ∧ middle.Answers := by
    by_cases ends : segment.zeroStart % 0x1000 = 0
    · exact ⟨_, .kept ends, answers⟩
    · obtain ⟨frame, answer⟩ := Option.ne_none_iff_exists'.mp (answers 0)
      exact ⟨_, .copied ends answer last, fun call => answers (call + 1)⟩
  obtain ⟨middle, remapped, goesOn⟩ := remapped
  refine ⟨_, .followed free larger remapped (fun index below => ⟨goesOn index, ?_⟩)
    fun index below => ?_⟩
  · have isFree := unmapped (segment.additionalPage + index)
      (.inr ⟨larger, by omega, by omega⟩)
    by_contra mapped
    rcases withFile_mapped_iff.mp (remapped.mapped_iff.mp mapped) with before | inFile
    · exact before isFree
    · unfold ProgramHeader.additionalPage ProgramHeader.zeroStart ProgramHeader.startPage
        ProgramHeader.fileFrames at inFile
      omega
  · rw [withZeros_mapped_iff fun index _ => goesOn index, remapped.mapped_iff,
      withFile_mapped_iff]
    unfold ProgramHeader.additionalFrames ProgramHeader.additionalPage ProgramHeader.zeroStart
      ProgramHeader.startPage ProgramHeader.fileFrames
    omega

/-- Segments that start with a page are loaded when no two of them take one page and none of
their pages is mapped. -/
theorem exists_mapElf (pageAligned : kernelStart % 0x1000 = 0)
    (loadable : ∀ segment ∈ loads segments, segment.Loadable kernelStart)
    (aligned : ∀ segment ∈ loads segments, segment.virtualAddr % 0x1000 = 0)
    (known : ∀ segment ∈ segments, segment.type ≠ none) (answers : machine.Answers)
    (unmapped : ∀ segment ∈ loads segments, ∀ page, segment.Takes page →
      machine.table page = none)
    (apart : (loads segments).Pairwise ProgramHeader.Separate) :
    ∃ after, mapElf kernelStart machine segments = .ok after := by
  induction segments generalizing machine with
  | nil => exact ⟨machine, rfl⟩
  | cons segment rest ih =>
    have knownRest : ∀ other ∈ rest, other.type ≠ none :=
      fun other otherIn => known other (List.mem_cons_of_mem _ otherIn)
    by_cases isLoad : segment.type = some .load
    · rw [loads_cons_of_load isLoad] at loadable aligned unmapped apart
      obtain ⟨apartFirst, apartRest⟩ := List.pairwise_cons.mp apart
      have isFirst : segment ∈ segment :: loads rest := List.mem_cons_self
      obtain ⟨middle, loaded⟩ := exists_loaded (loadable segment isFirst)
        (aligned segment isFirst) answers (unmapped segment isFirst)
      have first := (mapSegment_ok_iff (loadable segment isFirst) pageAligned isLoad).mpr loaded
      have free : ∀ other ∈ loads rest, ∀ page, other.Takes page → middle.table page = none := by
        intro other isIn page takes
        by_contra mapped
        rcases loaded.mapped_iff.mp mapped with before | alsoTakes
        · exact before (unmapped other (List.mem_cons_of_mem _ isIn) page takes)
        · exact apartFirst other isIn page alsoTakes takes
      obtain ⟨after, ran⟩ := ih (fun other isIn => loadable other (List.mem_cons_of_mem _ isIn))
        (fun other isIn => aligned other (List.mem_cons_of_mem _ isIn)) knownRest
        (loaded.answers answers) free apartRest
      exact ⟨after, mapElf_cons.mpr ⟨middle, first, ran⟩⟩
    · rw [loads_cons_of_not_load isLoad] at loadable aligned unmapped apart
      have first : mapSegment kernelStart machine segment = .ok machine :=
        (mapSegment_skips isLoad).mpr ⟨known segment List.mem_cons_self, rfl⟩
      obtain ⟨after, ran⟩ := ih loadable aligned knownRest answers unmapped apart
      exact ⟨after, mapElf_cons.mpr ⟨machine, first, ran⟩⟩

end Machine

/-- A segment that starts with a page takes the pages that it has bytes in, and the page after
them when zeros follow the file and end with a page. -/
theorem ProgramHeader.takes_iff {kernelStart page : Nat} {segment : ProgramHeader}
    (loadable : segment.Loadable kernelStart) (aligned : segment.virtualAddr % 0x1000 = 0) :
    segment.Takes page ↔ segment.Covers page ∨
      (segment.fileSize ≠ segment.memSize ∧ segment.memSize % 0x1000 = 0 ∧
        page = (segment.virtualAddr + segment.memSize) / 0x1000) := by
  have sized := loadable.sized
  have fits := loadable.fits
  rw [covers_iff (by omega)]
  unfold Takes additionalFrames additionalPage zeroStart startPage fileFrames
  omega

open Machine

/-- Segments that start with a page and have no page in common, none of which is mapped, are
loaded to exactly their pages if and only if every header has a known type and no segment has
zeros after the file's bytes that end with a page. -/
theorem only_covered_mapped_iff {kernelStart : Nat} {machine : Machine}
    {segments : List ProgramHeader} (pageAligned : kernelStart % 0x1000 = 0)
    (loadable : ∀ segment ∈ loads segments, segment.Loadable kernelStart)
    (aligned : ∀ segment ∈ loads segments, segment.virtualAddr % 0x1000 = 0)
    (apart : Apart (loads segments))
    (unmapped : ∀ segment ∈ loads segments, ∀ page, segment.Covers page →
      machine.table page = none)
    (answers : machine.Answers) :
    (∃ after, mapElf kernelStart machine segments = .ok after ∧
      ∀ page, machine.table page = none ∧ after.table page ≠ none ↔
        ∃ segment ∈ loads segments, segment.Covers page) ↔
      (∀ segment ∈ segments, segment.type ≠ none) ∧
        ∀ segment ∈ loads segments,
          segment.fileSize = segment.memSize ∨ segment.memSize % 0x1000 ≠ 0 := by
  have takes_of_covers : ∀ segment ∈ loads segments, ∀ page, segment.Covers page →
      segment.Takes page := fun segment isIn page covers =>
    (ProgramHeader.takes_iff (loadable segment isIn) (aligned segment isIn)).mpr (.inl covers)
  constructor
  · rintro ⟨after, ran, exactly⟩
    refine ⟨known_of_mapElf ran, fun segment isIn => ?_⟩
    by_contra! extra
    -- The page after the segment is taken for it, so another segment would have to cover it.
    obtain ⟨free, disjoint⟩ := apart_of_mapElf pageAligned loadable ran
    have takes : segment.Takes ((segment.virtualAddr + segment.memSize) / 0x1000) :=
      (ProgramHeader.takes_iff (loadable segment isIn) (aligned segment isIn)).mpr
        (.inr ⟨extra.1, extra.2, rfl⟩)
    have mapped := (mapped_iff_of_mapElf pageAligned loadable ran).mpr (.inr ⟨_, isIn, takes⟩)
    obtain ⟨other, otherIn, covers⟩ := (exactly _).mp ⟨free segment isIn _ takes, mapped⟩
    have different : segment ≠ other := by
      rintro rfl
      have sized := (loadable segment isIn).sized
      have fits := (loadable segment isIn).fits
      have inside := (ProgramHeader.covers_iff (by omega)).mp covers
      have start := aligned segment isIn
      omega
    exact disjoint.forall isIn otherIn different _ takes
      (takes_of_covers other otherIn _ covers)
  · rintro ⟨known, within⟩
    have same : ∀ segment ∈ loads segments, ∀ page, segment.Takes page ↔ segment.Covers page := by
      intro segment isIn page
      rw [ProgramHeader.takes_iff (loadable segment isIn) (aligned segment isIn)]
      have := within segment isIn
      constructor
      · rintro (covers | ⟨larger, ends, -⟩)
        · exact covers
        · exact absurd ends (this.resolve_left larger)
      · exact .inl
    obtain ⟨after, ran⟩ := exists_mapElf pageAligned loadable aligned known answers
      (fun segment isIn page takes =>
        unmapped segment isIn page ((same segment isIn page).mp takes))
      (apart.imp_of_mem fun {left right} leftIn rightIn disjoint page takesLeft takesRight =>
        disjoint page ((same left leftIn page).mp takesLeft)
          ((same right rightIn page).mp takesRight))
    refine ⟨after, ran, fun page => ?_⟩
    rw [mapped_iff_of_mapElf pageAligned loadable ran]
    constructor
    · rintro ⟨free, mapped | ⟨segment, isIn, takes⟩⟩
      · exact absurd free mapped
      · exact ⟨segment, isIn, (same segment isIn page).mp takes⟩
    · rintro ⟨segment, isIn, covers⟩
      exact ⟨unmapped segment isIn page covers, .inr ⟨segment, isIn,
        (same segment isIn page).mpr covers⟩⟩

/-- A machine with nothing mapped. -/
def bare : Machine :=
  ⟨fun _ => none, fun _ => 0, fun call => some (0x200 + call)⟩

/-- A segment with two zeros after the bytes of the file, the second one in the next page. -/
def short : ProgramHeader :=
  ⟨some .load, 0x1000, 0x1000, 0xfff, 0x1001⟩

/-- It can be loaded. -/
theorem loadable_short : short.Loadable 0x10_0000 :=
  ⟨by decide, by decide, rfl, .inl (by decide), by decide⟩

/-- The two pages of the segment are mapped, and no other. -/
theorem only_covered_mapped_short : ∃ after, mapElf 0x10_0000 bare [short] = .ok after ∧
    ∀ page, bare.table page = none ∧ after.table page ≠ none ↔
      ∃ segment ∈ loads [short], segment.Covers page := by
  have only : ∀ segment ∈ loads [short], segment = short := fun segment isIn =>
    List.mem_singleton.mp isIn
  have apart : Apart (loads [short]) := List.pairwise_singleton _ short
  apply (only_covered_mapped_iff rfl ?_ ?_ apart (fun _ _ _ _ => rfl) ?_).mpr
  · constructor
    · intro segment isIn
      exact List.mem_singleton.mp isIn ▸ Option.some_ne_none _
    · intro segment isIn
      exact only segment isIn ▸ .inr (by decide)
  · intro segment isIn
    exact only segment isIn ▸ loadable_short
  · intro segment isIn
    exact only segment isIn ▸ rfl
  · exact fun call => Option.some_ne_none _

/-- A segment with one zero after the bytes of the file, which ends the page. -/
def brimful : ProgramHeader :=
  ⟨some .load, 0x1000, 0x1000, 0xfff, 0x1000⟩

/-- The segment in the page after it. -/
def neighbour : ProgramHeader :=
  ⟨some .load, 0x2000, 0x2000, 1, 1⟩

/-- Two segments in a page each, the first with a zero at the end of its page, are not loaded: the
page of the second one is taken for the first. -/
theorem neighbour_already_mapped :
    brimful.Loadable 0x10_0000 ∧ neighbour.Loadable 0x10_0000 ∧
      loads [brimful, neighbour] = [brimful, neighbour] ∧ Apart [brimful, neighbour] ∧
      bare.Answers ∧
      mapElf 0x10_0000 bare [brimful, neighbour] = .error .pageAlreadyMapped := by
  refine ⟨⟨by decide, by decide, rfl, .inl (by decide), by decide⟩,
    ⟨by decide, by decide, rfl, .inl (by decide), by decide⟩, rfl, ?_,
    fun call => Option.some_ne_none _, rfl⟩
  refine List.pairwise_pair.mpr fun page covers alsoCovers => ?_
  have first := (ProgramHeader.covers_iff (by decide)).mp covers
  have second := (ProgramHeader.covers_iff (by decide)).mp alsoCovers
  have end₁ : (brimful.virtualAddr + brimful.memSize - 1) / 0x1000 = 1 := rfl
  have start₂ : neighbour.startPage = 2 := rfl
  omega

end Canyon.Boot
