import Mathlib.Data.Set.Insert
import Mathlib.Data.Set.Lattice
import Mathlib.Data.List.Basic
import Mathlib.Logic.Relation
import Mathlib.Order.Interval.Set.Defs
import Mathlib.Order.BooleanAlgebra.Set
import Mathlib.Order.CompletePartialOrder

/-!
# The frame allocator

`FrameAllocator` keeps the free frames of physical memory as a list of segments. The list is
read as the set of frames it covers: `allocate` and `alloc_range` take frames out of the set,
`deallocate` puts one back. Frames are natural numbers: the addition of the paging crate is
plain addition below the top of the physical address space.
-/

namespace Canyon.Kernel

/-- `MemoryRange`. -/
structure MemoryRange where
  /-- `start`, a frame number. -/
  start : Nat
  /-- `pages`. -/
  pages : Nat
  deriving DecidableEq, Repr

namespace MemoryRange

/-- `MemoryRange::end_frame`. -/
def endFrame (range : MemoryRange) : Nat := range.start + range.pages - 1

/-- Frames of a range. -/
def frames (range : MemoryRange) : Set Nat := Set.Ico range.start (range.start + range.pages)

/-- Membership in the frames of a range. -/
@[simp] theorem mem_frames {range : MemoryRange} {frame : Nat} :
    frame ∈ range.frames ↔ range.start ≤ frame ∧ frame < range.start + range.pages :=
  Iff.rfl

/-- The frame after a segment that is not empty. -/
theorem endFrame_succ {range : MemoryRange} (filled : 1 ≤ range.pages) :
    range.endFrame + 1 = range.start + range.pages := by
  unfold endFrame
  omega

end MemoryRange

/-- The segments of a `FrameAllocator`. -/
abbrev Segments := List MemoryRange

namespace Segments

/-! ## The operations -/

/-- `FrameAllocator::allocate`. -/
def allocate : Segments → Option Nat × Segments
  | [] => (none, [])
  | segment :: rest =>
    (some segment.start,
      if segment.pages = 1 then rest else ⟨segment.start + 1, segment.pages - 1⟩ :: rest)

/-- `FrameAllocator::alloc_range`. -/
def allocRange (segments : Segments) (pages : Nat) : Option Nat × Segments :=
  match segments.findIdx? fun segment => decide (segment.pages ≥ pages) with
  | none => (none, segments)
  | some id =>
    match segments[id]? with
    | none => (none, segments)
    | some segment =>
      (some segment.start,
        if segment.pages = pages then segments.eraseIdx id
        else segments.set id ⟨segment.start + pages, segment.pages - pages⟩)

/-- The values of `ok` in `deallocate`. -/
inductive Side where
  /-- `not`. -/
  | not
  /-- `left`. -/
  | left
  /-- `right`. -/
  | right
  deriving DecidableEq, Repr

/-- One more than `i32::MAX`. -/
def i32Limit : Nat := 0x8000_0000

/-- One more than `u32::MAX`, the first index that is zero again as an `i32`. -/
def u32Limit : Nat := 0x1_0000_0000

/-- One more than `isize::MAX`, the most bytes that a `Vec` takes. -/
def isizeLimit : Nat := 0x8000_0000_0000_0000

/-- `i as i32`. -/
def asI32 (index : Nat) : Int := Int.bmod index 0x1_0000_0000

/-- `index as usize` of an `i32`. -/
def asUsize (index : Int) : Nat := (index % 0x1_0000_0000_0000_0000).toNat

/-- The overflow check of `i32` arithmetic. -/
def checkedI32 (value : Int) : Option Int :=
  if -i32Limit ≤ value ∧ value < i32Limit then some value else none

/-- The loop of `deallocate`: the segments it leaves, `index` and `ok`. -/
def scan (addr : Nat) : Nat → Segments → Segments × Int × Side
  | _, [] => ([], -1, .not)
  | i, segment :: rest =>
    if segment.endFrame + 1 < addr then
      let (after, found) := scan addr (i + 1) rest
      (segment :: after, found)
    else if segment.endFrame + 1 = addr then
      ({ segment with pages := segment.pages + 1 } :: rest, asI32 i, .right)
    else if segment.start = addr + 1 then
      (⟨addr, segment.pages + 1⟩ :: rest, asI32 i, .left)
    else if segment.start > addr + 1 then (segment :: rest, asI32 i, .not)
    else
      let (after, found) := scan addr (i + 1) rest
      (segment :: after, found)

/-- `Vec::insert`, which panics past the end. -/
def insertAt (segments : Segments) (index : Nat) (segment : MemoryRange) : Option Segments :=
  if index ≤ segments.length then some (segments.insertIdx index segment) else none

/-- Join two neighbours when they touch. An index out of range panics. -/
def join (segments : Segments) (first second : Nat) : Option Segments := do
  let left ← segments[first]?
  let right ← segments[second]?
  if left.endFrame + 1 = right.start then
    some ((segments.set first { left with pages := left.pages + right.pages }).eraseIdx second)
  else some segments

/-- `FrameAllocator::deallocate`. It panics when an index is out of range. -/
def deallocate (segments : Segments) (addr : Nat) : Option Segments :=
  if segments.length = 0 then some (segments ++ [⟨addr, 1⟩])
  else
    let (segments, index, ok) := scan addr 0 segments
    if ok = .not ∧ index ≠ -1 then segments.insertAt (asUsize index) ⟨addr, 1⟩
    else if ok = .not ∧ index = -1 then some (segments ++ [⟨addr, 1⟩])
    else do
      let segments ←
        if ok = .left ∧ index ≠ 0 then do
          let before ← checkedI32 (index - 1)
          segments.join (asUsize before) (asUsize index)
        else some segments
      if ok = .right ∧ asUsize index ≠ segments.length - 1 then do
        let after ← checkedI32 (index + 1)
        segments.join (asUsize index) (asUsize after)
      else some segments

/-! ## Free frames -/

/-- The frames that the segments cover. -/
def free (segments : Segments) : Set Nat := {frame | ∃ segment ∈ segments, frame ∈ segment.frames}

/-- No frame is free when there are no segments. -/
@[simp] theorem free_nil : free [] = ∅ := by simp [free]

/-- The free frames of two lists of segments. -/
@[simp] theorem free_append (left right : Segments) :
    free (left ++ right) = left.free ∪ right.free := by
  ext frame
  simp only [free, List.mem_append, Set.mem_ofPred_eq, Set.mem_union, or_and_right, exists_or]

/-- The free frames of a segment and of the rest. -/
@[simp] theorem free_cons (segment : MemoryRange) (rest : Segments) :
    free (segment :: rest) = segment.frames ∪ free rest := by
  ext frame
  simp [free]

/-- Segments in order: none is empty, and each ends before the next begins. -/
structure Ordered (segments : Segments) : Prop where
  /-- No segment is empty. -/
  filled : ∀ segment ∈ segments, 1 ≤ segment.pages
  /-- Each ends before the next begins. -/
  apart : segments.Pairwise fun left right => left.start + left.pages ≤ right.start

variable {segments before after : Segments} {segment : MemoryRange} {pages addr index frame : Nat}

/-- A part of an ordered list is ordered. -/
theorem Ordered.sublist {part : Segments} (ordered : segments.Ordered)
    (isPart : part.Sublist segments) : part.Ordered :=
  ⟨fun segment segmentIn => ordered.filled segment (isPart.subset segmentIn),
    ordered.apart.sublist isPart⟩

/-- Two ordered lists, the first before the second. -/
theorem ordered_append {left right : Segments} : (left ++ right).Ordered ↔
    left.Ordered ∧ right.Ordered ∧
      ∀ first ∈ left, ∀ second ∈ right, first.start + first.pages ≤ second.start := by
  constructor
  · intro ordered
    exact ⟨ordered.sublist (List.sublist_append_left _ _),
      ordered.sublist (List.sublist_append_right _ _),
      (List.pairwise_append.mp ordered.apart).2.2⟩
  · rintro ⟨first, second, before⟩
    refine ⟨fun segment segmentIn => ?_,
      List.pairwise_append.mpr ⟨first.apart, second.apart, before⟩⟩
    rcases List.mem_append.mp segmentIn with early | late
    · exact first.filled segment early
    · exact second.filled segment late

/-- A segment before an ordered list. -/
theorem ordered_cons {rest : Segments} : Ordered (segment :: rest) ↔
    1 ≤ segment.pages ∧ (∀ other ∈ rest, segment.start + segment.pages ≤ other.start) ∧
      rest.Ordered := by
  constructor
  · intro ordered
    obtain ⟨before, apart⟩ := List.pairwise_cons.mp ordered.apart
    exact ⟨ordered.filled segment List.mem_cons_self, before,
      fun other otherIn => ordered.filled other (List.mem_cons_of_mem _ otherIn), apart⟩
  · rintro ⟨filled, before, ordered⟩
    refine ⟨fun other otherIn => ?_, List.pairwise_cons.mpr ⟨before, ordered.apart⟩⟩
    rcases List.mem_cons.mp otherIn with rfl | later
    · exact filled
    · exact ordered.filled other later

/-! ## Taking frames -/

/-- What is left of a segment whose first pages are taken. -/
def remainder (segment : MemoryRange) (pages : Nat) : Segments :=
  if segment.pages = pages then [] else [⟨segment.start + pages, segment.pages - pages⟩]

/-- Members of what is left of a segment. -/
theorem mem_remainder {other : MemoryRange} (otherIn : other ∈ remainder segment pages)
    (few : pages ≤ segment.pages) :
    other.start = segment.start + pages ∧ 1 ≤ other.pages ∧
      other.start + other.pages = segment.start + segment.pages := by
  unfold remainder at otherIn
  split at otherIn
  · cases otherIn
  · obtain rfl := List.mem_singleton.mp otherIn
    dsimp only
    omega

/-- The frames left of a segment whose first pages are taken. -/
theorem free_remainder (few : pages ≤ segment.pages) :
    (remainder segment pages).free =
      segment.frames \ Set.Ico segment.start (segment.start + pages) := by
  ext frame
  unfold remainder
  split
  · rename_i whole
    simp only [free_nil, Set.mem_empty_iff_false, Set.mem_sdiff, MemoryRange.mem_frames,
      Set.mem_Ico, whole, false_iff]
    omega
  · simp only [free_cons, free_nil, Set.union_empty, Set.mem_sdiff, MemoryRange.mem_frames,
      Set.mem_Ico]
    omega

/-- Taking the first pages of a segment keeps the order. -/
theorem Ordered.take (ordered : Ordered (before ++ segment :: after))
    (few : pages ≤ segment.pages) :
    Ordered (before ++ (remainder segment pages ++ after)) := by
  obtain ⟨first, second, apart⟩ := ordered_append.mp ordered
  obtain ⟨-, follows, rest⟩ := ordered_cons.mp second
  refine ordered_append.mpr ⟨first, ordered_append.mpr ⟨?_, rest, ?_⟩, ?_⟩
  · refine ⟨fun other otherIn => (mem_remainder otherIn few).2.1, ?_⟩
    unfold remainder
    split <;> simp
  · intro other otherIn next nextIn
    have := (mem_remainder otherIn few).2.2
    have := follows next nextIn
    omega
  · intro early earlyIn other otherIn
    rcases List.mem_append.mp otherIn with left | next
    · have := (mem_remainder left few).1
      have := apart early earlyIn segment List.mem_cons_self
      omega
    · exact apart early earlyIn other (List.mem_cons_of_mem _ next)

/-- Taking the first pages of a segment takes these frames, which were free, and no others. -/
theorem Ordered.free_take (ordered : Ordered (before ++ segment :: after))
    (few : pages ≤ segment.pages) :
    Set.Ico segment.start (segment.start + pages) ⊆ free (before ++ segment :: after) ∧
      free (before ++ (remainder segment pages ++ after)) =
        free (before ++ segment :: after) \ Set.Ico segment.start (segment.start + pages) := by
  obtain ⟨-, second, apart⟩ := ordered_append.mp ordered
  obtain ⟨-, follows, -⟩ := ordered_cons.mp second
  have early : ∀ frame ∈ before.free, frame < segment.start := by
    rintro frame ⟨other, otherIn, -, upper⟩
    exact Nat.lt_of_lt_of_le upper (apart other otherIn segment List.mem_cons_self)
  have late : ∀ frame ∈ after.free, segment.start + segment.pages ≤ frame := by
    rintro frame ⟨other, otherIn, lower, -⟩
    exact Nat.le_trans (follows other otherIn) lower
  constructor
  · intro frame taken
    rw [Set.mem_Ico] at taken
    rw [free_append, free_cons]
    exact .inr (.inl ⟨taken.1, by omega⟩)
  · ext frame
    rw [free_append, free_append, free_append, free_cons, free_remainder few]
    simp only [Set.mem_union, Set.mem_sdiff, Set.mem_Ico]
    constructor
    · rintro (inBefore | ⟨inSegment, notTaken⟩ | inAfter)
      · have := early frame inBefore
        exact ⟨.inl inBefore, by omega⟩
      · exact ⟨.inr (.inl inSegment), notTaken⟩
      · have := late frame inAfter
        exact ⟨.inr (.inr inAfter), by omega⟩
    · rintro ⟨inBefore | inSegment | inAfter, notTaken⟩
      · exact .inl inBefore
      · exact .inr (.inl ⟨inSegment, notTaken⟩)
      · exact .inr (.inr inAfter)

/-- `allocate` takes the first frame, and fails only when there is none. -/
theorem allocate_cases (segments : Segments) :
    (segments = [] ∧ segments.allocate = (none, segments)) ∨
      ∃ segment rest, segments = segment :: rest ∧
        segments.allocate = (some segment.start, remainder segment 1 ++ rest) := by
  cases segments with
  | nil => exact .inl ⟨rfl, rfl⟩
  | cons segment rest =>
    refine .inr ⟨segment, rest, rfl, ?_⟩
    rw [allocate, remainder]
    split <;> rfl

/-- `alloc_range` takes the first pages of the first segment that is long enough, and fails only
when there is none. -/
theorem allocRange_cases (segments : Segments) (pages : Nat) :
    ((∀ segment ∈ segments, segment.pages < pages) ∧
        segments.allocRange pages = (none, segments)) ∨
      ∃ before segment after, segments = before ++ segment :: after ∧ pages ≤ segment.pages ∧
        (∀ other ∈ before, other.pages < pages) ∧
        segments.allocRange pages =
          (some segment.start, before ++ (remainder segment pages ++ after)) := by
  unfold allocRange
  cases search : segments.findIdx? fun segment => decide (segment.pages ≥ pages) with
  | none =>
    refine .inl ⟨fun segment segmentIn => ?_, rfl⟩
    have short := List.findIdx?_eq_none_iff.mp search segment segmentIn
    simpa using short
  | some id =>
    obtain ⟨inside, long, earlier⟩ := List.findIdx?_eq_some_iff_getElem.mp search
    have found : segments[id]? = some segments[id] := List.getElem?_eq_getElem inside
    have split : segments = segments.take id ++ segments[id] :: segments.drop (id + 1) := by
      rw [← List.drop_eq_getElem_cons inside, List.take_append_drop]
    refine .inr ⟨segments.take id, segments[id], segments.drop (id + 1), split,
      by simpa using long, fun other otherIn => ?_, ?_⟩
    · obtain ⟨place, placeInside, rfl⟩ := List.getElem_of_mem otherIn
      rw [List.length_take] at placeInside
      have short := earlier place (by omega)
      rw [List.getElem_take]
      simpa using short
    dsimp only
    rw [found]
    dsimp only
    unfold remainder
    congr 1
    split
    · rw [List.nil_append, List.eraseIdx_eq_take_drop_succ]
    · rw [List.set_eq_take_append_cons_drop, if_pos inside, List.singleton_append]

/-! ## Giving a frame back -/

/-- What `deallocate` does: the frame becomes a segment of its own, or a neighbour grows by it;
a segment that grows to the right is joined with the next when they touch. -/
inductive Freed (addr : Nat) : Segments → Segments → Prop where
  /-- All segments lie before the frame. -/
  | append {segments : Segments}
      (below : ∀ segment ∈ segments, segment.start + segment.pages < addr) :
      Freed addr segments (segments ++ [⟨addr, 1⟩])
  /-- The frame touches neither neighbour. -/
  | alone {before after : Segments} {segment : MemoryRange}
      (below : ∀ other ∈ before, other.start + other.pages < addr)
      (above : addr + 1 < segment.start) :
      Freed addr (before ++ segment :: after) (before ++ ⟨addr, 1⟩ :: segment :: after)
  /-- The frame touches the segment after it. -/
  | left {before after : Segments} {segment : MemoryRange}
      (below : ∀ other ∈ before, other.start + other.pages < addr)
      (touches : segment.start = addr + 1) :
      Freed addr (before ++ segment :: after) (before ++ ⟨addr, segment.pages + 1⟩ :: after)
  /-- The frame touches the segment before it, and not the next one. -/
  | right {before after : Segments} {segment : MemoryRange}
      (below : ∀ other ∈ before, other.start + other.pages < addr)
      (touches : segment.start + segment.pages = addr)
      (gap : ∀ next ∈ after.head?, next.start ≠ addr + 1) :
      Freed addr (before ++ segment :: after)
        (before ++ { segment with pages := segment.pages + 1 } :: after)
  /-- The frame touches both neighbours. -/
  | both {before after : Segments} {segment next : MemoryRange}
      (below : ∀ other ∈ before, other.start + other.pages < addr)
      (touches : segment.start + segment.pages = addr) (follows : next.start = addr + 1) :
      Freed addr (before ++ segment :: next :: after)
        (before ++ { segment with pages := segment.pages + 1 + next.pages } :: after)

/-- Segments of a list replaced by others that cover one more frame. -/
theorem free_splice (before after old new : Segments)
    (covers : ∀ frame, frame ∈ new.free ↔ frame = addr ∨ frame ∈ old.free) :
    free (before ++ (new ++ after)) = insert addr (free (before ++ (old ++ after))) := by
  ext frame
  simp only [free_append, Set.mem_union, Set.mem_insert_iff, covers]
  tauto

/-- `deallocate` adds its frame to the free ones. -/
theorem Freed.free_eq (freed : Freed addr segments after) :
    after.free = insert addr segments.free := by
  cases freed with
  | append below =>
    have added : free (segments ++ ([⟨addr, 1⟩] ++ [])) =
        insert addr (free (segments ++ ([] ++ []))) :=
      free_splice segments [] [] [⟨addr, 1⟩] fun frame => by
        simp only [free_cons, free_nil, Set.union_empty, MemoryRange.mem_frames,
          Set.mem_empty_iff_false, or_false]
        omega
    rwa [List.append_nil, List.append_nil, List.append_nil] at added
  | @alone before after segment below above =>
    exact free_splice before after [segment] [⟨addr, 1⟩, segment] fun frame => by
      simp only [free_cons, free_nil, Set.union_empty, Set.mem_union, MemoryRange.mem_frames]
      omega
  | @left before after segment below touches =>
    exact free_splice before after [segment] [⟨addr, segment.pages + 1⟩] fun frame => by
      simp only [free_cons, free_nil, Set.union_empty, MemoryRange.mem_frames]
      omega
  | @right before after segment below touches gap =>
    exact free_splice before after [segment] [{ segment with pages := segment.pages + 1 }]
      fun frame => by
        simp only [free_cons, free_nil, Set.union_empty, MemoryRange.mem_frames]
        omega
  | @both before after segment next below touches follows =>
    exact free_splice before after [segment, next]
      [{ segment with pages := segment.pages + 1 + next.pages }] fun frame => by
        simp only [free_cons, free_nil, Set.union_empty, Set.mem_union, MemoryRange.mem_frames]
        omega

/-- A segment put into the gap between two parts of an ordered list. -/
theorem Ordered.insert (ordered : Ordered (before ++ after)) (filled : 1 ≤ segment.pages)
    (lower : ∀ other ∈ before, other.start + other.pages ≤ segment.start)
    (upper : ∀ other ∈ after, segment.start + segment.pages ≤ other.start) :
    Ordered (before ++ segment :: after) := by
  obtain ⟨first, second, apart⟩ := ordered_append.mp ordered
  refine ordered_append.mpr ⟨first, ordered_cons.mpr ⟨filled, upper, second⟩, ?_⟩
  intro other otherIn next nextIn
  rcases List.mem_cons.mp nextIn with rfl | later
  · exact lower other otherIn
  · exact apart other otherIn next later

/-- `deallocate` of a frame that is not free keeps the order. -/
theorem Freed.ordered (freed : Freed addr segments after) (ordered : segments.Ordered)
    (notFree : addr ∉ segments.free) : after.Ordered := by
  have started : ∀ segment ∈ segments, addr ≤ segment.start → addr + 1 ≤ segment.start := by
    intro segment segmentIn above
    have filled := ordered.filled segment segmentIn
    by_contra short
    exact notFree ⟨segment, segmentIn, by omega, by omega⟩
  cases freed with
  | append below =>
    rw [← List.append_nil segments] at ordered
    refine ordered.insert (Nat.le_refl 1) (fun other otherIn => ?_) (by simp)
    exact Nat.le_of_lt (below other otherIn)
  | @alone before after segment below above =>
    obtain ⟨-, second, -⟩ := ordered_append.mp ordered
    obtain ⟨filled, follows, -⟩ := ordered_cons.mp second
    refine ordered.insert (Nat.le_refl 1) (fun other otherIn => ?_) fun other otherIn => ?_
    · exact Nat.le_of_lt (below other otherIn)
    · dsimp only
      rcases List.mem_cons.mp otherIn with rfl | later
      · omega
      · have := follows other later
        omega
  | @left before after segment below touches =>
    obtain ⟨-, second, -⟩ := ordered_append.mp ordered
    obtain ⟨filled, follows, -⟩ := ordered_cons.mp second
    have rest : Ordered (before ++ after) :=
      ordered.sublist ((List.sublist_cons_self _ _).append_left _)
    refine rest.insert (Nat.le_add_left _ _) (fun other otherIn => ?_) fun other otherIn => ?_
    · exact Nat.le_of_lt (below other otherIn)
    · have := follows other otherIn
      dsimp only
      omega
  | @right before after segment below touches gap =>
    obtain ⟨-, second, apart⟩ := ordered_append.mp ordered
    obtain ⟨filled, follows, -⟩ := ordered_cons.mp second
    have rest : Ordered (before ++ after) :=
      ordered.sublist ((List.sublist_cons_self _ _).append_left _)
    refine rest.insert (Nat.le_add_left _ _) (fun other otherIn => ?_) fun other otherIn => ?_
    · exact apart other otherIn segment List.mem_cons_self
    · have := follows other otherIn
      have := started other (by simp [otherIn]) (by omega)
      dsimp only
      omega
  | @both before after segment next below touches follows =>
    obtain ⟨-, second, apart⟩ := ordered_append.mp ordered
    obtain ⟨filled, -, third⟩ := ordered_cons.mp second
    obtain ⟨-, last, -⟩ := ordered_cons.mp third
    have rest : Ordered (before ++ after) :=
      ordered.sublist (((List.sublist_cons_self _ _).trans
        (List.sublist_cons_self _ _)).append_left _)
    refine rest.insert (show 1 ≤ segment.pages + 1 + next.pages by omega)
      (fun other otherIn => ?_) fun other otherIn => ?_
    · exact apart other otherIn segment List.mem_cons_self
    · have := last other otherIn
      dsimp only
      omega

/-- The loop passes the segments before the frame. -/
theorem scan_append (below : ∀ segment ∈ before, segment.endFrame + 1 < addr) (i : Nat)
    (rest : Segments) :
    scan addr i (before ++ rest) =
      (before ++ (scan addr (i + before.length) rest).1,
        (scan addr (i + before.length) rest).2) := by
  induction before generalizing i with
  | nil => rfl
  | cons segment before ih =>
    rw [List.cons_append, scan, if_pos (below segment List.mem_cons_self),
      ih (fun other otherIn => below other (List.mem_cons_of_mem _ otherIn)), List.length_cons,
      Nat.add_assoc, Nat.add_comm 1]
    rfl

/-- Small indices are `i32`s. -/
theorem asI32_eq (small : index < i32Limit) : asI32 index = index := by
  unfold i32Limit at small
  unfold asI32
  rw [Int.bmod_eq_of_le] <;> omega

/-- Indices that are not negative stay as they are. -/
theorem asUsize_natCast (small : index < i32Limit) : asUsize index = index := by
  unfold i32Limit at small
  unfold asUsize
  omega

/-- The index after one that is not the last. -/
theorem checkedI32_succ (small : index + 1 < i32Limit) :
    checkedI32 ((index : Int) + 1) = some ((index + 1 : Nat) : Int) := by
  rw [checkedI32, if_pos ⟨by omega, by omega⟩, Int.natCast_add, Int.natCast_one]

/-- The index before one that is not the first. -/
theorem checkedI32_pred (small : index < i32Limit) :
    checkedI32 (((index + 1 : Nat) : Int) - 1) = some (index : Int) := by
  rw [Int.natCast_add, Int.natCast_one, Int.add_sub_cancel, checkedI32,
    if_pos ⟨by omega, by omega⟩]

/-- An index whose remainder is an `i32` becomes its remainder. -/
theorem asI32_low (low : index % u32Limit < i32Limit) : asI32 index = (index % u32Limit : Nat) := by
  unfold i32Limit u32Limit at low
  unfold asI32 u32Limit Int.bmod
  dsimp only
  rw [if_pos (by omega)]
  omega

/-- An index whose remainder is no `i32` becomes negative. -/
theorem asI32_high (high : i32Limit ≤ index % u32Limit) :
    asI32 index = ((index % u32Limit : Nat) : Int) - u32Limit := by
  unfold i32Limit u32Limit at high
  unfold asI32 u32Limit Int.bmod
  dsimp only
  rw [if_neg (by omega)]
  omega

/-- A negative `i32` is far out of range as a `usize`. -/
theorem asUsize_negative {index : Int} (lower : -i32Limit ≤ index) (negative : index < 0) :
    isizeLimit < asUsize index := by
  unfold i32Limit at lower
  unfold isizeLimit asUsize
  omega

/-- A segment that is not there cannot be joined. -/
theorem join_none {first : Nat} (outside : segments.length ≤ first) (second : Nat) :
    join segments first second = none := by
  rw [join, List.getElem?_eq_none outside]
  rfl

/-- Two neighbours are joined when they touch. -/
theorem join_eq (before after : Segments) (left right : MemoryRange) :
    join (before ++ left :: right :: after) before.length (before.length + 1) =
      some (if left.endFrame + 1 = right.start
        then before ++ { left with pages := left.pages + right.pages } :: after
        else before ++ left :: right :: after) := by
  have first : (before ++ left :: right :: after)[before.length]? = some left := by simp
  have second : (before ++ left :: right :: after)[before.length + 1]? = some right := by
    rw [List.getElem?_append_right (by omega)]
    simp
  unfold join
  rw [first, second]
  dsimp only [bind, Option.bind]
  split
  · rw [List.set_append_right _ _ (Nat.le_refl _), Nat.sub_self, List.set_cons_zero,
      List.eraseIdx_append_of_length_le (Nat.le_succ _)]
    simp
  · rfl

/-- An element put between two parts of a list. -/
theorem insertIdx_length_append (before after : Segments) (segment : MemoryRange) :
    (before ++ after).insertIdx before.length segment = before ++ segment :: after := by
  induction before with
  | nil => rfl
  | cons first before ih =>
    rw [List.cons_append, List.length_cons, List.insertIdx_succ_cons, ih, List.cons_append]

/-- A list of segments is cut at the first that does not lie before the frame. -/
theorem exists_cut (addr : Nat) (segments : Segments) :
    (∀ segment ∈ segments, segment.endFrame + 1 < addr) ∨
      ∃ before segment after, segments = before ++ segment :: after ∧
        (∀ other ∈ before, other.endFrame + 1 < addr) ∧ addr ≤ segment.endFrame + 1 := by
  induction segments with
  | nil => exact .inl (by simp)
  | cons segment rest ih =>
    by_cases below : segment.endFrame + 1 < addr
    · rcases ih with allBelow | ⟨before, next, after, rfl, beforeBelow, above⟩
      · exact .inl (List.forall_mem_cons.mpr ⟨below, allBelow⟩)
      · exact .inr ⟨segment :: before, next, after, rfl,
          List.forall_mem_cons.mpr ⟨below, beforeBelow⟩, above⟩
    · exact .inr ⟨[], segment, rest, rfl, by simp, Nat.le_of_not_lt below⟩

/-- The loop finds no segment to stop at. -/
theorem deallocate_append (below : ∀ segment ∈ segments, segment.endFrame + 1 < addr) :
    segments.deallocate addr = some (segments ++ [⟨addr, 1⟩]) := by
  unfold deallocate
  split
  · rfl
  · have scanned := scan_append below 0 []
    rw [List.append_nil, scan, List.append_nil] at scanned
    simp [scanned]

section

variable (below : ∀ other ∈ before, other.endFrame + 1 < addr)

include below

/-- The loop stops at a segment past the frame, and the frame is inserted. -/
theorem deallocate_stop_alone (filled : 1 ≤ segment.pages) (above : addr + 1 < segment.start) :
    deallocate (before ++ segment :: after) addr =
      if asI32 before.length = -1 then some (before ++ segment :: after ++ [⟨addr, 1⟩])
      else insertAt (before ++ segment :: after) (asUsize (asI32 before.length)) ⟨addr, 1⟩ := by
  have last := MemoryRange.endFrame_succ filled
  have stop : scan addr before.length (segment :: after) =
      (segment :: after, asI32 before.length, Side.not) := by
    rw [scan, if_neg (by omega), if_neg (by omega), if_neg (by omega), if_pos (by omega)]
  have scanned := scan_append below 0 (segment :: after)
  rw [Nat.zero_add, stop] at scanned
  unfold deallocate
  rw [if_neg (by simp), scanned]
  dsimp only
  by_cases pushed : asI32 before.length = -1
  · rw [if_neg (fun inserts => inserts.2 pushed), if_pos ⟨rfl, pushed⟩, if_pos pushed]
  · rw [if_pos ⟨rfl, pushed⟩, if_neg pushed]

/-- The loop stops at a segment just past the frame, which grows to the left; the segment before it
is looked at. -/
theorem deallocate_stop_left (filled : 1 ≤ segment.pages) (touches : segment.start = addr + 1) :
    deallocate (before ++ segment :: after) addr =
      if asI32 before.length = 0 then some (before ++ ⟨addr, segment.pages + 1⟩ :: after)
      else (checkedI32 (asI32 before.length - 1)).bind fun previous =>
        join (before ++ ⟨addr, segment.pages + 1⟩ :: after) (asUsize previous)
          (asUsize (asI32 before.length)) := by
  have last := MemoryRange.endFrame_succ filled
  have stop : scan addr before.length (segment :: after) =
      (⟨addr, segment.pages + 1⟩ :: after, asI32 before.length, Side.left) := by
    rw [scan, if_neg (by omega), if_neg (by omega), if_pos touches]
  have scanned := scan_append below 0 (segment :: after)
  rw [Nat.zero_add, stop] at scanned
  unfold deallocate
  rw [if_neg (by simp), scanned]
  dsimp only
  rw [if_neg (by simp), if_neg (by simp)]
  by_cases first : asI32 before.length = 0
  · rw [if_neg (fun joins => joins.2 first), if_pos first]
    rfl
  · rw [if_pos ⟨rfl, first⟩, if_neg first]
    simp only [reduceCtorEq, false_and, ↓reduceIte, Option.bind_eq_bind, Option.bind_fun_some]

/-- The loop stops at a segment just before the frame, which grows to the right; the segment after
it is looked at unless it is the last. -/
theorem deallocate_stop_right (touches : segment.endFrame + 1 = addr) :
    deallocate (before ++ segment :: after) addr =
      if asUsize (asI32 before.length) = before.length + after.length then
        some (before ++ ⟨segment.start, segment.pages + 1⟩ :: after)
      else (checkedI32 (asI32 before.length + 1)).bind fun following =>
        join (before ++ ⟨segment.start, segment.pages + 1⟩ :: after)
          (asUsize (asI32 before.length)) (asUsize following) := by
  have stop : scan addr before.length (segment :: after) =
      (⟨segment.start, segment.pages + 1⟩ :: after, asI32 before.length, Side.right) := by
    rw [scan, if_neg (by omega), if_pos touches]
  have scanned := scan_append below 0 (segment :: after)
  rw [Nat.zero_add, stop] at scanned
  have length : (before ++ MemoryRange.mk segment.start (segment.pages + 1) :: after).length - 1 =
      before.length + after.length := by simp
  unfold deallocate
  rw [if_neg (by simp), scanned]
  dsimp only
  rw [if_neg (by simp), if_neg (by simp), if_neg (by simp), Option.bind_eq_bind, Option.bind_some,
    length]
  by_cases isLast : asUsize (asI32 before.length) = before.length + after.length
  · rw [if_neg (fun joins => joins.2 isLast), if_pos isLast]
  · rw [if_pos ⟨rfl, isLast⟩, if_neg isLast]
    rfl

/-- The loop stops at a segment past the frame, and the frame becomes a segment before it. -/
theorem deallocate_alone (filled : 1 ≤ segment.pages) (above : addr + 1 < segment.start)
    (short : before.length < i32Limit) :
    deallocate (before ++ segment :: after) addr =
      some (before ++ ⟨addr, 1⟩ :: segment :: after) := by
  rw [deallocate_stop_alone below filled above, asI32_eq short, if_neg (by omega),
    asUsize_natCast short, insertAt, if_pos (by simp), insertIdx_length_append]

/-- The loop stops at a segment just past the frame, which grows to the left; it does not touch
the segment before. -/
theorem deallocate_left (filled : 1 ≤ segment.pages) (touches : segment.start = addr + 1)
    (short : before.length < i32Limit) :
    deallocate (before ++ segment :: after) addr =
      some (before ++ ⟨addr, segment.pages + 1⟩ :: after) := by
  rw [deallocate_stop_left below filled touches, asI32_eq short]
  rcases List.eq_nil_or_concat' before with rfl | ⟨front, previous, rfl⟩
  · simp
  · have isBelow := below previous (by simp)
    have length : (front ++ [previous]).length = front.length + 1 := by simp
    have joined := join_eq front after previous ⟨addr, segment.pages + 1⟩
    rw [if_neg (by dsimp only; omega)] at joined
    rw [if_neg (by omega), length, checkedI32_pred (by omega), Option.bind_some,
      asUsize_natCast (by omega), asUsize_natCast (by omega), List.append_assoc,
      List.singleton_append, joined]

/-- The last segment grows to the right. -/
theorem deallocate_right_last (touches : segment.endFrame + 1 = addr)
    (short : before.length < i32Limit) :
    deallocate (before ++ [segment]) addr =
      some (before ++ [{ segment with pages := segment.pages + 1 }]) := by
  rw [deallocate_stop_right below touches, asI32_eq short, asUsize_natCast short,
    if_pos (by simp)]

/-- A segment before others grows to the right, and is joined with the next when they touch. -/
theorem deallocate_right {next : MemoryRange} (filled : 1 ≤ segment.pages)
    (touches : segment.endFrame + 1 = addr) (short : before.length + 1 < i32Limit) :
    deallocate (before ++ segment :: next :: after) addr =
      some (if addr + 1 = next.start
        then before ++ { segment with pages := segment.pages + 1 + next.pages } :: after
        else before ++ { segment with pages := segment.pages + 1 } :: next :: after) := by
  have last := MemoryRange.endFrame_succ filled
  have grown : (MemoryRange.mk segment.start (segment.pages + 1)).endFrame + 1 = addr + 1 := by
    rw [MemoryRange.endFrame_succ (Nat.le_add_left 1 segment.pages)]
    dsimp only
    omega
  have joined := join_eq before after ⟨segment.start, segment.pages + 1⟩ next
  rw [grown] at joined
  rw [deallocate_stop_right below touches, asI32_eq (by omega), asUsize_natCast (by omega),
    if_neg (by rw [List.length_cons]; omega), checkedI32_succ short, Option.bind_some,
    asUsize_natCast short, joined]

end

/-- Segments that end before the frame, by their last frames. -/
theorem Ordered.ends_below {rest : Segments} (ordered : (before ++ rest).Ordered)
    (below : ∀ other ∈ before, other.start + other.pages < addr) :
    ∀ other ∈ before, other.endFrame + 1 < addr := fun other otherIn =>
  MemoryRange.endFrame_succ (ordered.filled other (List.mem_append_left _ otherIn)) ▸
    below other otherIn

/-- A frame that is not free finds its place in an ordered list. -/
theorem exists_freed (ordered : segments.Ordered) (notFree : addr ∉ segments.free) :
    ∃ after, Freed addr segments after := by
  have ends : ∀ segment ∈ segments, segment.endFrame + 1 = segment.start + segment.pages :=
    fun segment segmentIn => MemoryRange.endFrame_succ (ordered.filled segment segmentIn)
  rcases exists_cut addr segments with allBelow | ⟨before, segment, after, rfl, below, above⟩
  · exact ⟨_, .append fun segment segmentIn => ends segment segmentIn ▸ allBelow segment segmentIn⟩
  · have last := ends segment (by simp)
    have belowEnds : ∀ other ∈ before, other.start + other.pages < addr := fun other otherIn =>
      ends other (List.mem_append_left _ otherIn) ▸ below other otherIn
    have outside : addr < segment.start ∨ segment.start + segment.pages ≤ addr := by
      by_contra inside
      exact notFree ⟨segment, by simp, by omega, by omega⟩
    -- The frame lies right after the segment, or before it with or without a gap.
    by_cases touches : segment.start + segment.pages = addr
    · by_cases gap : ∀ next ∈ after.head?, next.start ≠ addr + 1
      · exact ⟨_, .right belowEnds touches gap⟩
      · push Not at gap
        obtain ⟨next, isNext, follows⟩ := gap
        obtain ⟨rest, rfl⟩ := List.head?_eq_some_iff.mp isNext
        exact ⟨_, .both belowEnds touches follows⟩
    · by_cases gap : segment.start = addr + 1
      · exact ⟨_, .left belowEnds gap⟩
      · exact ⟨_, .alone belowEnds (by omega)⟩

/-- `deallocate` of a frame that is not free returns and does what it should, as long as the
segments can be counted by an `i32`. -/
theorem deallocate_freed (ordered : segments.Ordered) (notFree : addr ∉ segments.free)
    (short : segments.length ≤ i32Limit) :
    ∃ after, segments.deallocate addr = some after ∧ Freed addr segments after := by
  obtain ⟨after, freed⟩ := exists_freed ordered notFree
  refine ⟨after, ?_, freed⟩
  cases freed with
  | append below =>
    exact deallocate_append (Ordered.ends_below (by rwa [List.append_nil]) below)
  | @alone before after segment below above =>
    rw [List.length_append, List.length_cons] at short
    exact deallocate_alone (ordered.ends_below below) (ordered.filled segment (by simp)) above
      (by omega)
  | @left before after segment below touches =>
    rw [List.length_append, List.length_cons] at short
    exact deallocate_left (ordered.ends_below below) (ordered.filled segment (by simp)) touches
      (by omega)
  | @right before after segment below touches gap =>
    have filled := ordered.filled segment (by simp)
    rw [← MemoryRange.endFrame_succ filled] at touches
    cases after with
    | nil =>
      rw [List.length_append, List.length_singleton] at short
      exact deallocate_right_last (ordered.ends_below below) touches (by omega)
    | cons next after =>
      rw [List.length_append, List.length_cons, List.length_cons] at short
      rw [deallocate_right (ordered.ends_below below) filled touches (by omega),
        if_neg (gap next rfl).symm]
  | @both before after segment next below touches follows =>
    have filled := ordered.filled segment (by simp)
    rw [← MemoryRange.endFrame_succ filled] at touches
    rw [List.length_append, List.length_cons, List.length_cons] at short
    rw [deallocate_right (ordered.ends_below below) filled touches (by omega),
      if_pos follows.symm]

/-! ## Runs -/

/-- What each operation does to the free frames. -/
structure Exact (segments : Segments) : Prop where
  /-- `allocate` fails when no frame is free. -/
  exhausted : ∀ after, segments.allocate = (none, after) →
    after = segments ∧ segments.free = ∅
  /-- `allocate` takes the frame it returns, which was free. -/
  taken : ∀ frame after, segments.allocate = (some frame, after) →
    frame ∈ segments.free ∧ after.free = segments.free \ {frame}
  /-- `alloc_range` that fails takes nothing. -/
  refused : ∀ pages after, 1 ≤ pages → segments.allocRange pages = (none, after) →
    after = segments
  /-- `alloc_range` takes the frames it returns, which were free. -/
  range : ∀ pages frame after, 1 ≤ pages → segments.allocRange pages = (some frame, after) →
    Set.Ico frame (frame + pages) ⊆ segments.free ∧
      after.free = segments.free \ Set.Ico frame (frame + pages)
  /-- `deallocate` returns, and adds the frame. -/
  freed : ∀ addr, addr ∉ segments.free → segments.length ≤ i32Limit →
    ∃ after, segments.deallocate addr = some after ∧ after.free = insert addr segments.free

/-- One page is one frame. -/
theorem Ico_one (frame : Nat) : Set.Ico frame (frame + 1) = {frame} := by
  ext other
  rw [Set.mem_Ico, Set.mem_singleton_iff]
  omega

/-- The operations on an ordered list are exact. -/
theorem Ordered.exact (ordered : segments.Ordered) : segments.Exact where
  exhausted after ran := by
    rcases allocate_cases segments with ⟨rfl, -⟩ | ⟨segment, rest, -, isAllocate⟩
    · obtain rfl := (Prod.mk.inj ran).2
      exact ⟨rfl, free_nil⟩
    · rw [isAllocate] at ran
      cases (Prod.mk.inj ran).1
  taken frame after ran := by
    rcases allocate_cases segments with ⟨-, isAllocate⟩ | ⟨segment, rest, rfl, isAllocate⟩
    · rw [isAllocate] at ran
      cases (Prod.mk.inj ran).1
    · rw [isAllocate] at ran
      obtain ⟨isFrame, rfl⟩ := Prod.mk.inj ran
      obtain rfl := Option.some.inj isFrame
      have filled := ordered.filled segment List.mem_cons_self
      rw [← List.nil_append (segment :: rest)] at ordered
      obtain ⟨wasFree, left⟩ := ordered.free_take filled
      rw [Ico_one] at wasFree left
      exact ⟨wasFree rfl, left⟩
  refused pages after _ ran := by
    rcases allocRange_cases segments pages with ⟨-, isRange⟩ | ⟨_, _, _, -, -, -, isRange⟩
    · rw [isRange] at ran
      exact (Prod.mk.inj ran).2.symm
    · rw [isRange] at ran
      cases (Prod.mk.inj ran).1
  range pages frame after _ ran := by
    rcases allocRange_cases segments pages with
      ⟨-, isRange⟩ | ⟨before, segment, rest, rfl, few, -, isRange⟩
    · rw [isRange] at ran
      cases (Prod.mk.inj ran).1
    · rw [isRange] at ran
      obtain ⟨isFrame, rfl⟩ := Prod.mk.inj ran
      obtain rfl := Option.some.inj isFrame
      exact ordered.free_take few
  freed addr notFree short := by
    obtain ⟨after, ran, freed⟩ := deallocate_freed ordered notFree short
    exact ⟨after, ran, freed.free_eq⟩

/-- An operation that returns, and the frames that are handed out. `deallocate` is called with
frames that are not free, while the segments can be counted by an `i32`. -/
inductive Step : Segments × Set Nat → Segments × Set Nat → Prop where
  /-- `allocate` hands out a frame. -/
  | allocate {segments after : Segments} {out : Set Nat} {frame : Nat}
      (ran : segments.allocate = (some frame, after)) :
      Step (segments, out) (after, insert frame out)
  /-- `allocate` returns nothing. -/
  | exhausted {segments after : Segments} {out : Set Nat}
      (ran : segments.allocate = (none, after)) : Step (segments, out) (after, out)
  /-- `alloc_range` hands out frames. -/
  | allocRange {segments after : Segments} {out : Set Nat} {pages frame : Nat}
      (positive : 1 ≤ pages) (ran : segments.allocRange pages = (some frame, after)) :
      Step (segments, out) (after, out ∪ Set.Ico frame (frame + pages))
  /-- `alloc_range` returns nothing. -/
  | refused {segments after : Segments} {out : Set Nat} {pages : Nat} (positive : 1 ≤ pages)
      (ran : segments.allocRange pages = (none, after)) : Step (segments, out) (after, out)
  /-- `deallocate` takes a frame back. -/
  | deallocate {segments after : Segments} {out : Set Nat} {addr : Nat}
      (notFree : addr ∉ segments.free) (short : segments.length ≤ i32Limit)
      (ran : segments.deallocate addr = some after) :
      Step (segments, out) (after, out \ {addr})

/-- The frames of a run: each that was free at first is free or handed out, and none is both. -/
structure Accounts (initial segments : Segments) (out : Set Nat) : Prop where
  /-- The segments are in order. -/
  ordered : segments.Ordered
  /-- No frame is free and handed out. -/
  apart : Disjoint segments.free out
  /-- No frame is lost. -/
  kept : initial.free ⊆ segments.free ∪ out

/-- Frames that are handed out leave the free ones. -/
theorem Accounts.take {initial : Segments} {out frames : Set Nat}
    (accounts : Accounts initial segments out) (ordered : after.Ordered)
    (left : after.free = segments.free \ frames) : Accounts initial after (out ∪ frames) := by
  refine ⟨ordered, ?_, fun frame wasFree => ?_⟩
  · rw [left, Set.disjoint_union_right]
    exact ⟨accounts.apart.mono_left Set.sdiff_subset, Set.disjoint_sdiff_left⟩
  · rw [left]
    by_cases isTaken : frame ∈ frames
    · exact .inr (.inr isTaken)
    · rcases accounts.kept wasFree with stays | wasOut
      · exact .inl ⟨stays, isTaken⟩
      · exact .inr (.inl wasOut)

/-- `allocate` keeps the order. -/
theorem Ordered.allocated (ordered : segments.Ordered)
    (ran : segments.allocate = (some frame, after)) : after.Ordered := by
  rcases allocate_cases segments with ⟨-, isAllocate⟩ | ⟨segment, rest, rfl, isAllocate⟩
  · rw [isAllocate] at ran
    cases (Prod.mk.inj ran).1
  · rw [isAllocate] at ran
    obtain ⟨-, rfl⟩ := Prod.mk.inj ran
    have filled := ordered.filled segment List.mem_cons_self
    rw [← List.nil_append (segment :: rest)] at ordered
    exact ordered.take filled

/-- `alloc_range` keeps the order. -/
theorem Ordered.ranged (ordered : segments.Ordered)
    (ran : segments.allocRange pages = (some frame, after)) : after.Ordered := by
  rcases allocRange_cases segments pages with
    ⟨-, isRange⟩ | ⟨before, segment, rest, rfl, few, -, isRange⟩
  · rw [isRange] at ran
    cases (Prod.mk.inj ran).1
  · rw [isRange] at ran
    obtain ⟨-, rfl⟩ := Prod.mk.inj ran
    exact ordered.take few

/-- An operation keeps the accounts. -/
theorem Accounts.step {initial : Segments} {out outAfter : Set Nat}
    (accounts : Accounts initial segments out) (step : Step (segments, out) (after, outAfter)) :
    Accounts initial after outAfter := by
  have effects := accounts.ordered.exact
  cases step with
  | allocate ran =>
    rename_i frame
    obtain ⟨-, left⟩ := effects.taken frame after ran
    rw [← Set.union_singleton]
    exact accounts.take (accounts.ordered.allocated ran) left
  | exhausted ran =>
    obtain ⟨rfl, -⟩ := effects.exhausted after ran
    exact accounts
  | allocRange positive ran =>
    rename_i pages frame
    obtain ⟨-, left⟩ := effects.range pages frame after positive ran
    exact accounts.take (accounts.ordered.ranged ran) left
  | refused positive ran =>
    obtain rfl := effects.refused _ after positive ran
    exact accounts
  | deallocate notFree short ran =>
    rename_i addr
    obtain ⟨_, ranAgain, freed⟩ := deallocate_freed accounts.ordered notFree short
    obtain rfl := Option.some.inj (ran.symm.trans ranAgain)
    refine ⟨freed.ordered accounts.ordered notFree, ?_, fun frame wasFree => ?_⟩
    · rw [freed.free_eq, Set.disjoint_insert_left]
      exact ⟨by simp, accounts.apart.mono_right Set.sdiff_subset⟩
    · rw [freed.free_eq]
      by_cases same : frame = addr
      · exact .inl (.inl same)
      · rcases accounts.kept wasFree with stays | wasOut
        · exact .inl (.inr stays)
        · exact .inr ⟨wasOut, same⟩

/-- In every state that the allocator reaches the segments are in order, the operations are
exact, no frame is free and handed out, and none is lost. -/
theorem frames_conserved {initial segments : Segments} {out : Set Nat}
    (ordered : initial.Ordered)
    (run : Relation.ReflTransGen Step (initial, ∅) (segments, out)) :
    Accounts initial segments out ∧ segments.Exact := by
  suffices kept : ∀ state, Relation.ReflTransGen Step (initial, ∅) state →
      Accounts initial state.1 state.2 from
    ⟨kept _ run, (kept _ run).ordered.exact⟩
  intro state run
  induction run with
  | refl => exact ⟨ordered, Set.disjoint_empty _, Set.subset_union_left⟩
  | tail _ step ih => exact ih.step step

/-- A range of three frames and a single frame are handed out, and the range comes back frame by
frame: the frame in the middle is the last, and joins its neighbours. -/
theorem merging_run : ∃ out : Set Nat, (∀ frame, frame ∈ out ↔ frame = 200) ∧
    Relation.ReflTransGen Step ([⟨1, 3⟩, ⟨200, 4⟩], ∅) ([⟨1, 3⟩, ⟨201, 3⟩], out) := by
  refine ⟨((insert 200 (∅ ∪ Set.Ico 1 (1 + 3)) \ {1}) \ {3}) \ {2}, fun frame => ?_, ?_⟩
  · simp only [Set.mem_sdiff, Set.mem_insert_iff, Set.mem_union, Set.mem_Ico,
      Set.mem_singleton_iff, Set.mem_empty_iff_false, false_or]
    omega
  · have range : Step ([⟨1, 3⟩, ⟨200, 4⟩], ∅) ([⟨200, 4⟩], _) :=
      .allocRange (by decide : 1 ≤ 3) rfl
    have single : ∀ out, Step ([⟨200, 4⟩], out) ([⟨201, 3⟩], insert 200 out) :=
      fun _ => .allocate rfl
    have low : ∀ out, Step ([⟨201, 3⟩], out) ([⟨1, 1⟩, ⟨201, 3⟩], out \ {1}) :=
      fun _ => .deallocate (by simp) (by decide) (by decide)
    have high : ∀ out, Step ([⟨1, 1⟩, ⟨201, 3⟩], out) ([⟨1, 1⟩, ⟨3, 1⟩, ⟨201, 3⟩], out \ {3}) :=
      fun _ => .deallocate (by simp) (by decide) (by decide)
    have middle : ∀ out,
        Step ([⟨1, 1⟩, ⟨3, 1⟩, ⟨201, 3⟩], out) ([⟨1, 3⟩, ⟨201, 3⟩], out \ {2}) :=
      fun _ => .deallocate (by simp) (by decide) (by decide)
    exact ((((Relation.ReflTransGen.single range).tail (single _)).tail (low _)).tail
      (high _)).tail (middle _)

/-- The accounts after a run that allocates, takes a range, and joins two segments again. -/
theorem frames_conserved_merge : ∃ out : Set Nat, (∀ frame, frame ∈ out ↔ frame = 200) ∧
    Accounts [⟨1, 3⟩, ⟨200, 4⟩] [⟨1, 3⟩, ⟨201, 3⟩] out ∧ Exact [⟨1, 3⟩, ⟨201, 3⟩] := by
  obtain ⟨out, handedOut, run⟩ := merging_run
  have ordered : Ordered [⟨1, 3⟩, ⟨200, 4⟩] := ⟨by decide, by decide⟩
  exact ⟨out, handedOut, frames_conserved ordered run⟩

/-! ## More segments than an `i32` counts -/

/-- A segment at an index that is negative as an `i32` cannot grow to the right: the access to it is
out of range. -/
theorem deallocate_right_negative (below : ∀ other ∈ before, other.endFrame + 1 < addr)
    (touches : segment.endFrame + 1 = addr) (high : i32Limit ≤ before.length % u32Limit)
    (fits : before.length + after.length < isizeLimit) :
    deallocate (before ++ segment :: after) addr = none := by
  have small := Nat.mod_lt before.length (show 0 < u32Limit by decide)
  have half : u32Limit = i32Limit + i32Limit := by decide
  have huge := asUsize_negative (show -i32Limit ≤ ((before.length % u32Limit : Nat) : Int) -
    u32Limit by omega) (by omega)
  have checked : checkedI32 (((before.length % u32Limit : Nat) : Int) - u32Limit + 1) =
      some (((before.length % u32Limit : Nat) : Int) - u32Limit + 1) :=
    if_pos ⟨by omega, by omega⟩
  rw [deallocate_stop_right below touches, asI32_high high, if_neg (by omega), checked,
    Option.bind_some, join_none]
  rw [List.length_append, List.length_cons]
  omega

/-- Every third frame, up to one segment more than an `i32` counts. -/
def crowded : Segments := (List.range (i32Limit + 1)).map fun index => ⟨3 * index, 1⟩

/-- Segments of one page on every third frame. -/
theorem mem_thirds {count : Nat}
    (segmentIn : segment ∈ (List.range count).map fun index => MemoryRange.mk (3 * index) 1) :
    segment.start < 3 * count ∧ segment.start % 3 = 0 ∧ segment.pages = 1 := by
  obtain ⟨index, indexIn, rfl⟩ := List.mem_map.mp segmentIn
  have := List.mem_range.mp indexIn
  dsimp only
  omega

/-- Segments of one page on every third frame are in order. -/
theorem ordered_thirds (count : Nat) :
    Ordered ((List.range count).map fun index => MemoryRange.mk (3 * index) 1) := by
  refine ⟨fun segment segmentIn => ?_, ?_⟩
  · exact (mem_thirds segmentIn).2.2.ge
  · refine List.pairwise_map.mpr (List.pairwise_lt_range.imp fun order => ?_)
    dsimp only
    omega

/-- The frame after a segment of one page on every third frame is not free. -/
theorem notFree_thirds {count : Nat} (other : frame % 3 ≠ 0) :
    frame ∉ free ((List.range count).map fun index => MemoryRange.mk (3 * index) 1) := by
  rintro ⟨segment, segmentIn, lower, upper⟩
  have := mem_thirds segmentIn
  omega

/-- `deallocate` of the frame after the last of the crowded segments panics. -/
theorem crowded_deallocate : crowded.deallocate (3 * i32Limit + 1) = none := by
  rw [crowded, List.range_succ, List.map_append, List.map_singleton]
  refine deallocate_right_negative (fun other otherIn => ?_) rfl
    (by rw [List.length_map, List.length_range]; decide)
    (by rw [List.length_map, List.length_range]; decide)
  have := mem_thirds otherIn
  rw [MemoryRange.endFrame_succ (by omega)]
  omega

/-- `deallocate` panics on a list of 2147483649 segments, within a physical address space of 52
bits. -/
theorem deallocate_crowded : crowded.Ordered ∧ 3 * i32Limit + 1 ∉ crowded.free ∧
    3 * i32Limit + 1 < 0x100_0000_0000 ∧ crowded.deallocate (3 * i32Limit + 1) = none :=
  ⟨ordered_thirds _, notFree_thirds (by decide), by decide, crowded_deallocate⟩

end Segments

end Canyon.Kernel
