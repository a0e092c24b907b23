import Mathlib.Data.List.InsertIdx
import Mathlib.Data.List.TakeWhile
import Canyon.Kernel.Coalesce

/-!
# Where the loop of `deallocate` stops

`deallocate` keeps the position at which its loop stops in an `i32`, and looks up the neighbours of
the segment there by this number. Which positions come out right depends on what the frame touches:
a frame between two segments needs the true position and the next one, a frame right before a
segment only one that does not become negative. At any other position the call panics, puts the
frame in the wrong place, or leaves two segments that touch.
-/

namespace Canyon.Kernel.Segments

/-! ## Positions -/

/-- The position at which the loop stops, or the number of segments. -/
def stop (segments : Segments) (addr : Nat) : Nat :=
  (segments.takeWhile fun segment => segment.endFrame + 1 < addr).length

/-- The position of a segment comes out right for a frame: as the last segment before the frame, as
one of its two neighbours, as the one before a gap, as the one after the frame, or as the first one
past it. -/
def IndexedAt (position addr : Nat) (segment : MemoryRange) (rest : Segments) : Prop :=
  if segment.endFrame + 1 = addr then
    match rest with
    | [] => position < i32Limit ∨ position % u32Limit + 1 < i32Limit
    | next :: _ =>
      if next.start = addr + 1 then position + 1 < i32Limit
      else position % u32Limit + 1 < i32Limit
  else if segment.start = addr + 1 then position % u32Limit < i32Limit
  else position < i32Limit

/-- The position at which the loop stops comes out right. -/
def Indexed (segments : Segments) (addr : Nat) : Prop :=
  match segments.drop (segments.stop addr) with
  | [] => True
  | segment :: rest => IndexedAt (segments.stop addr) addr segment rest

variable {segments before after rest : Segments} {addr : Nat} {segment : MemoryRange}

/-- The loop does not stop at segments before the frame. -/
theorem indexed_of_below (below : ∀ segment ∈ segments, segment.endFrame + 1 < addr) :
    segments.Indexed addr := by
  have all : segments.takeWhile (fun segment => decide (segment.endFrame + 1 < addr)) = segments :=
    List.takeWhile_eq_self_iff.mpr fun segment segmentIn => decide_eq_true (below segment segmentIn)
  rw [Indexed, stop, all, List.drop_length]
  trivial

/-- The loop stops at the first segment that does not end before the frame. -/
theorem indexed_append (below : ∀ other ∈ before, other.endFrame + 1 < addr)
    (above : addr ≤ segment.endFrame + 1) :
    Indexed (before ++ segment :: after) addr ↔
      IndexedAt before.length addr segment after := by
  have stops : stop (before ++ segment :: after) addr = before.length := by
    rw [stop, List.takeWhile_append_of_pos fun other otherIn =>
      decide_eq_true (below other otherIn), List.takeWhile_cons_of_neg (by simpa using above),
      List.append_nil]
  rw [Indexed, stops, List.drop_left]

section Shapes

variable {before after : Segments} {segment next : MemoryRange} {addr : Nat}
  (below : ∀ other ∈ before, other.endFrame + 1 < addr)

include below

/-- The position of the first segment past the frame. -/
theorem indexed_alone (filled : 1 ≤ segment.pages) (above : addr + 1 < segment.start) :
    Indexed (before ++ segment :: after) addr ↔ before.length < i32Limit := by
  have last := MemoryRange.endFrame_succ filled
  rw [indexed_append below (by omega)]
  unfold IndexedAt
  rw [if_neg (by omega), if_neg (by omega)]

/-- The position of the segment right after the frame. -/
theorem indexed_left (filled : 1 ≤ segment.pages) (touches : segment.start = addr + 1) :
    Indexed (before ++ segment :: after) addr ↔ before.length % u32Limit < i32Limit := by
  have last := MemoryRange.endFrame_succ filled
  rw [indexed_append below (by omega)]
  unfold IndexedAt
  rw [if_neg (by omega), if_pos touches]

/-- The position of the last segment, right before the frame. -/
theorem indexed_last (touches : segment.endFrame + 1 = addr) :
    Indexed (before ++ [segment]) addr ↔
      before.length < i32Limit ∨ before.length % u32Limit + 1 < i32Limit := by
  rw [indexed_append below touches.ge, IndexedAt, if_pos touches]

/-- The position of a segment right before the frame, with a gap after the frame. -/
theorem indexed_gap (touches : segment.endFrame + 1 = addr) (gap : next.start ≠ addr + 1) :
    Indexed (before ++ segment :: next :: after) addr ↔
      before.length % u32Limit + 1 < i32Limit := by
  rw [indexed_append below touches.ge, IndexedAt, if_pos touches, if_neg gap]

/-- The position of a segment right before the frame, with another one right after the frame. -/
theorem indexed_both (touches : segment.endFrame + 1 = addr) (follows : next.start = addr + 1) :
    Indexed (before ++ segment :: next :: after) addr ↔ before.length + 1 < i32Limit := by
  rw [indexed_append below touches.ge, IndexedAt, if_pos touches, if_pos follows]

end Shapes

/-! ## Positions that come out right -/

/-- A segment at an index that wraps around grows to the left; the code then looks at two segments
further left, which do not touch. -/
theorem deallocate_left_wrapped
    (separate : ∀ left ∈ before, ∀ right ∈ before, left.endFrame + 1 ≠ right.start)
    (below : ∀ other ∈ before, other.endFrame + 1 < addr) (filled : 1 ≤ segment.pages)
    (touches : segment.start = addr + 1) (wraps : u32Limit ≤ before.length)
    (low : before.length % u32Limit < i32Limit) :
    deallocate (before ++ segment :: after) addr =
      some (before ++ ⟨addr, segment.pages + 1⟩ :: after) := by
  have small := Nat.mod_lt before.length (show 0 < u32Limit by decide)
  rw [deallocate_stop_left below filled touches, asI32_low low]
  generalize before.length % u32Limit = index at *
  cases index with
  | zero => rw [if_pos (by rfl)]
  | succ previous =>
    rw [if_neg (by omega), checkedI32_pred (by omega), Option.bind_some,
      asUsize_natCast (by omega), asUsize_natCast low, join_separate (by omega) separate]

/-- Segments of a coalesced list do not touch. -/
theorem Coalesced.apart_before (coalesced : Coalesced (before ++ rest)) :
    ∀ left ∈ before, ∀ right ∈ before, left.endFrame + 1 ≠ right.start := by
  intro left leftIn right rightIn
  rw [MemoryRange.endFrame_succ (coalesced.ordered.filled left (List.mem_append_left _ leftIn))]
  exact coalesced.separate left (List.mem_append_left _ leftIn) right
    (List.mem_append_left _ rightIn)

/-- A position whose remainder is an `i32` is one itself, or wraps around. -/
theorem lt_or_wraps {position : Nat} (low : position % u32Limit < i32Limit) :
    position % u32Limit = position ∧ position < i32Limit ∨ u32Limit ≤ position := by
  by_cases small : position < u32Limit
  · rw [Nat.mod_eq_of_lt small] at low ⊢
    exact .inl ⟨rfl, low⟩
  · exact .inr (Nat.le_of_not_lt small)

/-- `deallocate` of a frame that is not free does what it should when the position at which its
loop stops comes out right. -/
theorem Coalesced.deallocate_indexed (coalesced : segments.Coalesced)
    (notFree : addr ∉ segments.free) (indexed : segments.Indexed addr) :
    ∃ after, segments.deallocate addr = some after ∧ Freed addr segments after := by
  have ordered := coalesced.ordered
  obtain ⟨after, freed⟩ := exists_freed ordered notFree
  refine ⟨after, ?_, freed⟩
  cases freed with
  | append below => exact deallocate_append (Ordered.ends_below (by rwa [List.append_nil]) below)
  | @alone before after segment below above =>
    have filled := ordered.filled segment (by simp)
    have endsBelow := ordered.ends_below below
    exact deallocate_alone endsBelow filled above
      ((indexed_alone endsBelow filled above).mp indexed)
  | @left before after segment below touches =>
    have filled := ordered.filled segment (by simp)
    have endsBelow := ordered.ends_below below
    have low := (indexed_left endsBelow filled touches).mp indexed
    rcases lt_or_wraps low with ⟨-, short⟩ | wraps
    · exact deallocate_left endsBelow filled touches short
    · exact deallocate_left_wrapped coalesced.apart_before endsBelow filled touches wraps low
  | @right before after segment below touches gap =>
    have filled := ordered.filled segment (by simp)
    have endsBelow := ordered.ends_below below
    rw [← MemoryRange.endFrame_succ filled] at touches
    cases after with
    | nil =>
      by_cases short : before.length < i32Limit
      · exact deallocate_right_last endsBelow touches short
      · have low := ((indexed_last endsBelow touches).mp indexed).resolve_left short
        have wraps := (lt_or_wraps (by omega)).resolve_left fun same => short same.2
        exact deallocate_right_wrapped coalesced.apart_before endsBelow touches wraps low
    | cons next after =>
      have apart := gap next rfl
      have low := (indexed_gap endsBelow touches apart).mp indexed
      rcases lt_or_wraps (show before.length % u32Limit < i32Limit by omega) with ⟨same, -⟩ | wraps
      · rw [deallocate_right endsBelow filled touches (by omega), if_neg apart.symm]
      · exact deallocate_right_wrapped coalesced.apart_before endsBelow touches wraps low
  | @both before after segment next below touches follows =>
    have filled := ordered.filled segment (by simp)
    have endsBelow := ordered.ends_below below
    rw [← MemoryRange.endFrame_succ filled] at touches
    rw [deallocate_right endsBelow filled touches ((indexed_both endsBelow touches follows).mp
      indexed), if_pos follows.symm]

/-! ## Positions that do not -/

/-- A segment at an index whose successor is no `i32` cannot grow to the right, unless it is the
last. -/
theorem deallocate_right_overflow (below : ∀ other ∈ before, other.endFrame + 1 < addr)
    (touches : segment.endFrame + 1 = addr) (edge : before.length % u32Limit + 1 = i32Limit)
    (notLast : before.length % u32Limit ≠ before.length + after.length) :
    deallocate (before ++ segment :: after) addr = none := by
  have checked : checkedI32 (((before.length % u32Limit : Nat) : Int) + 1) = none :=
    if_neg (by omega)
  rw [deallocate_stop_right below touches, asI32_low (by omega), asUsize_natCast (by omega),
    if_neg notLast, checked, Option.bind_none]

/-- A segment at a negative index cannot grow to the left. -/
theorem deallocate_left_negative (below : ∀ other ∈ before, other.endFrame + 1 < addr)
    (filled : 1 ≤ segment.pages) (touches : segment.start = addr + 1)
    (high : i32Limit ≤ before.length % u32Limit)
    (fits : before.length + after.length < isizeLimit) :
    deallocate (before ++ segment :: after) addr = none := by
  have small := Nat.mod_lt before.length (show 0 < u32Limit by decide)
  have half : u32Limit = i32Limit + i32Limit := by decide
  rw [deallocate_stop_left below filled touches, asI32_high high, if_neg (by omega)]
  generalize isIndex : ((before.length % u32Limit : Nat) : Int) - u32Limit = index
  unfold checkedI32
  split
  · next inside =>
    have huge := asUsize_negative inside.1 (by omega)
    rw [Option.bind_some, join_none]
    rw [List.length_append, List.length_cons]
    omega
  · rfl

/-- A frame that is inserted before one of the segments that end before it is out of order. -/
theorem not_ordered_insertIdx {index : Nat}
    (below : ∀ other ∈ before, other.start + other.pages < addr) (inside : index < before.length) :
    ¬Ordered ((before ++ rest).insertIdx index ⟨addr, 1⟩) := by
  intro ordered
  obtain ⟨other, front, back, rfl, isIndex⟩ : ∃ other front back,
      before = front ++ other :: back ∧ front.length = index :=
    ⟨before[index], before.take index, before.drop (index + 1), by simp,
      List.length_take_of_le (Nat.le_of_lt inside)⟩
  subst isIndex
  rw [List.append_assoc, insertIdx_length_append] at ordered
  have := (ordered_cons.mp (ordered_append.mp ordered).2.1).2.1 other (by simp)
  have := below other (by simp)
  dsimp only at *
  omega

/-- A frame that touches no segment, at a position that is no `i32`: the call panics, or the frame
is out of order. -/
theorem deallocate_alone_missed (ordered : Ordered (before ++ segment :: after))
    (below : ∀ other ∈ before, other.start + other.pages < addr) (above : addr + 1 < segment.start)
    (fits : (before ++ segment :: after).length < isizeLimit)
    (missed : ¬Indexed (before ++ segment :: after) addr) :
    deallocate (before ++ segment :: after) addr = none ∨
      u32Limit ≤ (before ++ segment :: after).length ∧
        ∃ result, deallocate (before ++ segment :: after) addr = some result ∧ ¬result.Ordered := by
  have filled := ordered.filled segment (by simp)
  have endsBelow := ordered.ends_below below
  have half : u32Limit = i32Limit + i32Limit := by decide
  have small := Nat.mod_lt before.length (show 0 < u32Limit by decide)
  rw [indexed_alone endsBelow filled above] at missed
  rw [List.length_append, List.length_cons] at fits ⊢
  rw [deallocate_stop_alone endsBelow filled above]
  by_cases low : before.length % u32Limit < i32Limit
  · -- the index wraps around, and the frame is inserted too far left
    have wraps := (lt_or_wraps low).resolve_left fun same => missed same.2
    have misplaced : ¬Ordered ((before ++ segment :: after).insertIdx (before.length % u32Limit)
      ⟨addr, 1⟩) := not_ordered_insertIdx below (by omega)
    refine .inr ⟨by omega, _, ?_, misplaced⟩
    rw [asI32_low low, if_neg (by omega), asUsize_natCast low, insertAt, if_pos]
    rw [List.length_append]
    omega
  · rw [asI32_high (Nat.le_of_not_lt low)]
    by_cases pushed : ((before.length % u32Limit : Nat) : Int) - u32Limit = -1
    · -- the index is the one that stands for none, and the frame is put behind all segments
      have := Nat.mod_le before.length u32Limit
      refine .inr ⟨by omega, _, if_pos pushed, fun pushedOrdered => ?_⟩
      have := (ordered_append.mp pushedOrdered).2.2 segment (by simp) ⟨addr, 1⟩ (by simp)
      dsimp only at this
      omega
    · have huge := asUsize_negative (show -i32Limit ≤ ((before.length % u32Limit : Nat) : Int) -
        u32Limit by omega) (by omega)
      rw [if_neg pushed, insertAt, if_neg]
      · exact .inl rfl
      · rw [List.length_append, List.length_cons]
        omega

/-- `deallocate` of a frame that is not free, when the position at which its loop stops does not
come out right: it panics, or the frame is out of order, or the frame touches a free one after it
in another segment. The latter two need more segments than a `u32` counts. -/
theorem Coalesced.deallocate_missed (coalesced : segments.Coalesced)
    (notFree : addr ∉ segments.free) (fits : segments.length < isizeLimit)
    (missed : ¬segments.Indexed addr) :
    segments.deallocate addr = none ∨ u32Limit ≤ segments.length ∧
      ∃ after, segments.deallocate addr = some after ∧
        (¬after.Ordered ∨ addr + 1 ∈ segments.free ∧ ¬after.Coalesced) := by
  have ordered := coalesced.ordered
  obtain ⟨after, freed⟩ := exists_freed ordered notFree
  cases freed with
  | append below =>
    exact absurd (indexed_of_below (Ordered.ends_below (by rwa [List.append_nil]) below)) missed
  | @alone before after segment below above =>
    rcases deallocate_alone_missed ordered below above fits missed with panics | ⟨wraps, wrong⟩
    · exact .inl panics
    · obtain ⟨after, ran, misplaced⟩ := wrong
      exact .inr ⟨wraps, after, ran, .inl misplaced⟩
  | @left before after segment below touches =>
    have filled := ordered.filled segment (by simp)
    have endsBelow := ordered.ends_below below
    rw [indexed_left endsBelow filled touches] at missed
    rw [List.length_append, List.length_cons] at fits
    exact .inl (deallocate_left_negative endsBelow filled touches (Nat.le_of_not_lt missed)
      (by omega))
  | @right before after segment below touches gap =>
    have filled := ordered.filled segment (by simp)
    have endsBelow := ordered.ends_below below
    rw [← MemoryRange.endFrame_succ filled] at touches
    rw [List.length_append, List.length_cons] at fits
    refine .inl ?_
    by_cases high : i32Limit ≤ before.length % u32Limit
    · exact deallocate_right_negative endsBelow touches high (by omega)
    · have := Nat.mod_le before.length u32Limit
      cases after with
      | nil =>
        rw [indexed_last endsBelow touches] at missed
        exact deallocate_right_overflow endsBelow touches (by omega) (by
          rw [List.length_nil]
          omega)
      | cons next after =>
        rw [indexed_gap endsBelow touches (gap next rfl)] at missed
        exact deallocate_right_overflow endsBelow touches (by omega) (by
          rw [List.length_cons]
          omega)
  | @both before after segment next below touches follows =>
    have filled := ordered.filled segment (by simp)
    have endsBelow := ordered.ends_below below
    have filledNext := ordered.filled next (by simp)
    have touchesEnd := touches
    rw [← MemoryRange.endFrame_succ filled] at touchesEnd
    rw [indexed_both endsBelow touchesEnd follows] at missed
    rw [List.length_append, List.length_cons, List.length_cons] at fits ⊢
    have := Nat.mod_le before.length u32Limit
    by_cases high : i32Limit ≤ before.length % u32Limit
    · exact .inl (deallocate_right_negative endsBelow touchesEnd high (by
        rw [List.length_cons]
        omega))
    · by_cases edge : before.length % u32Limit + 1 = i32Limit
      · exact .inl (deallocate_right_overflow endsBelow touchesEnd edge (by
          rw [List.length_cons]
          omega))
      · -- the index wraps around, and the next segment is not looked at
        have wraps := (lt_or_wraps (Nat.lt_of_not_le high)).resolve_left fun same => by omega
        refine .inr ⟨by omega, _, deallocate_right_wrapped coalesced.apart_before endsBelow
          touchesEnd wraps (by omega), .inr ⟨⟨next, by simp, by omega, by omega⟩, fun joined => ?_⟩⟩
        refine joined.separate ⟨segment.start, segment.pages + 1⟩ (by simp) next (by simp) ?_
        dsimp only
        omega

/-! ## What stays wrong -/

/-- A segment that has grown by a frame next to it. -/
def Extended (addr : Nat) (segment grown : MemoryRange) : Prop :=
  segment.start + segment.pages = addr ∧ grown = ⟨segment.start, segment.pages + 1⟩ ∨
    segment.start = addr + 1 ∧ grown = ⟨addr, segment.pages + 1⟩

/-- A join of neighbours that returns leaves the segments, or makes one of two that touch. -/
theorem join_cases {first : Nat} (ran : segments.join first (first + 1) = some after) :
    after = segments ∨ ∃ before left right rest, segments = before ++ left :: right :: rest ∧
      left.endFrame + 1 = right.start ∧
      after = before ++ ⟨left.start, left.pages + right.pages⟩ :: rest := by
  by_cases inside : first + 1 < segments.length
  · obtain ⟨before, left, right, rest, rfl, isFirst⟩ : ∃ before left right rest,
        segments = before ++ left :: right :: rest ∧ before.length = first :=
      ⟨segments.take first, segments[first], segments[first + 1], segments.drop (first + 1 + 1),
        by simp, List.length_take_of_le (by omega)⟩
    subst isFirst
    rw [join_eq] at ran
    split at ran
    · next touches => exact .inr ⟨before, left, right, rest, rfl, touches,
        (Option.some.inj ran).symm⟩
    · exact .inl (Option.some.inj ran).symm
  · rw [join, List.getElem?_eq_none (Nat.le_of_not_lt inside)] at ran
    cases isLeft : segments[first]? with
    | none => rw [isLeft] at ran; cases ran
    | some left => rw [isLeft] at ran; cases ran

/-- An index that passes the check is an `i32`. -/
theorem eq_of_checkedI32 {index found : Int} (checked : checkedI32 index = some found) :
    found = index ∧ index < i32Limit := by
  unfold checkedI32 at checked
  split at checked
  · next inside => exact ⟨(Option.some.inj checked).symm, inside.2⟩
  · cases checked

/-- What `deallocate` of a frame that is not free does to any list without empty segments, if it
returns: the frame is inserted somewhere, or a neighbour grows and perhaps two segments that touch
are joined. -/
theorem deallocate_cases (filled : ∀ segment ∈ segments, 1 ≤ segment.pages)
    (notFree : addr ∉ segments.free) (fits : segments.length < isizeLimit)
    (ran : segments.deallocate addr = some after) :
    (∃ index ≤ segments.length, after = segments.insertIdx index ⟨addr, 1⟩) ∨
      ∃ before segment rest grown, segments = before ++ segment :: rest ∧
        Extended addr segment grown ∧ (after = before ++ grown :: rest ∨
          ∃ first, join (before ++ grown :: rest) first (first + 1) = some after) := by
  have pushes : segments ++ [⟨addr, 1⟩] = segments.insertIdx segments.length ⟨addr, 1⟩ := by
    have cut := insertIdx_length_append segments [] ⟨addr, 1⟩
    rw [List.append_nil] at cut
    exact cut.symm
  rcases exists_cut addr segments with allBelow | ⟨before, segment, rest, rfl, below, above⟩
  · rw [deallocate_append allBelow] at ran
    exact .inl ⟨_, Nat.le_refl _, (Option.some.inj ran).symm.trans pushes⟩
  have filledHere := filled segment (by simp)
  have last := MemoryRange.endFrame_succ filledHere
  have outside : addr < segment.start ∨ segment.start + segment.pages ≤ addr := by
    by_contra inside
    exact notFree ⟨segment, by simp, by omega, by omega⟩
  have room := fits
  rw [List.length_append, List.length_cons] at room
  by_cases touches : segment.endFrame + 1 = addr
  · refine .inr ⟨before, segment, rest, _, rfl, .inl ⟨by omega, rfl⟩, ?_⟩
    by_cases low : before.length % u32Limit < i32Limit
    · rw [deallocate_stop_right below touches, asI32_low low, asUsize_natCast low] at ran
      split at ran
      · exact .inl (Option.some.inj ran).symm
      · obtain ⟨following, checked, joined⟩ := Option.bind_eq_some_iff.mp ran
        obtain ⟨rfl, inside⟩ := eq_of_checkedI32 checked
        rw [← Int.natCast_one, ← Int.natCast_add, asUsize_natCast (by omega)] at joined
        exact .inr ⟨_, joined⟩
    · rw [deallocate_right_negative below touches (Nat.le_of_not_lt low) (by omega)] at ran
      cases ran
  by_cases adjacent : segment.start = addr + 1
  · refine .inr ⟨before, segment, rest, _, rfl, .inr ⟨adjacent, rfl⟩, ?_⟩
    by_cases low : before.length % u32Limit < i32Limit
    · rw [deallocate_stop_left below filledHere adjacent, asI32_low low] at ran
      split at ran
      · exact .inl (Option.some.inj ran).symm
      · next notFirst =>
        obtain ⟨previous, isPrevious⟩ : ∃ previous, before.length % u32Limit = previous + 1 :=
          Nat.exists_eq_add_one_of_ne_zero fun zero => notFirst (by rw [zero]; rfl)
        obtain ⟨found, checked, joined⟩ := Option.bind_eq_some_iff.mp ran
        obtain ⟨rfl, -⟩ := eq_of_checkedI32 checked
        rw [asUsize_natCast low, isPrevious, Int.natCast_add, Int.natCast_one,
          Int.add_sub_cancel, asUsize_natCast (by omega)] at joined
        exact .inr ⟨_, joined⟩
    · rw [deallocate_left_negative below filledHere adjacent (Nat.le_of_not_lt low)
        (by omega)] at ran
      cases ran
  · rw [deallocate_stop_alone below filledHere (by omega)] at ran
    split at ran
    · exact .inl ⟨_, Nat.le_refl _, (Option.some.inj ran).symm.trans pushes⟩
    · unfold insertAt at ran
      split at ran
      · next inside => exact .inl ⟨_, inside, (Option.some.inj ran).symm⟩
      · cases ran

/-- What a list without empty segments keeps when it goes over into another by a returning
`deallocate`: it has no empty segments, the frame is free as well, and it is not in order if it was
not before. -/
structure Follows (addr : Nat) (segments after : Segments) : Prop where
  /-- No segment is empty. -/
  filled : ∀ segment ∈ after, 1 ≤ segment.pages
  /-- The frame is free as well. -/
  free : after.free = insert addr segments.free
  /-- There is at most one segment more. -/
  length : after.length ≤ segments.length + 1
  /-- Segments out of order stay so. -/
  ordered : after.Ordered → segments.Ordered

/-- A frame inserted anywhere. -/
theorem follows_insertIdx {index : Nat} (filled : ∀ segment ∈ segments, 1 ≤ segment.pages)
    (inside : index ≤ segments.length) :
    Follows addr segments (segments.insertIdx index ⟨addr, 1⟩) := by
  refine ⟨fun segment segmentIn => ?_, ?_, List.length_insertIdx_le_succ .., fun ordered =>
    ordered.sublist (List.sublist_insertIdx ..)⟩
  · rcases (List.mem_insertIdx inside).mp segmentIn with rfl | old
    · exact Nat.le_refl 1
    · exact filled segment old
  · ext frame
    simp only [Segments.free, Set.mem_ofPred_eq, Set.mem_insert_iff, List.mem_insertIdx inside,
      exists_eq_or_imp, MemoryRange.mem_frames]
    exact or_congr_left ⟨fun _ => by omega, fun _ => by omega⟩

/-- A segment that grows. -/
theorem follows_extended {grown : MemoryRange}
    (filled : ∀ other ∈ before ++ segment :: rest, 1 ≤ other.pages)
    (extended : Extended addr segment grown) :
    Follows addr (before ++ segment :: rest) (before ++ grown :: rest) := by
  have frames : ∀ frame, frame ∈ grown.frames ↔ frame = addr ∨ frame ∈ segment.frames := by
    have := filled segment (by simp)
    intro frame
    rcases extended with ⟨touches, rfl⟩ | ⟨touches, rfl⟩
    all_goals
      simp only [MemoryRange.mem_frames]
      omega
  have bounds : grown.start ≤ segment.start ∧
      segment.start + segment.pages ≤ grown.start + grown.pages ∧ 1 ≤ grown.pages := by
    rcases extended with ⟨touches, rfl⟩ | ⟨touches, rfl⟩
    all_goals
      dsimp only
      omega
  simp only [List.forall_mem_append, List.forall_mem_cons] at filled
  refine ⟨?_, ?_, by simp, fun ordered => ?_⟩
  · simp only [List.forall_mem_append, List.forall_mem_cons]
    exact ⟨filled.1, bounds.2.2, filled.2.2⟩
  · exact free_splice before rest [segment] [grown] fun frame => by
      simp only [free_cons, free_nil, Set.union_empty, frames]
  · obtain ⟨front, back, apart⟩ := ordered_append.mp ordered
    obtain ⟨-, after, back⟩ := ordered_cons.mp back
    refine ordered_append.mpr ⟨front, ordered_cons.mpr ⟨filled.2.1, fun other otherIn => ?_, back⟩,
      fun first firstIn second secondIn => ?_⟩
    · exact Nat.le_trans bounds.2.1 (after other otherIn)
    · rcases List.mem_cons.mp secondIn with rfl | later
      · exact Nat.le_trans (apart first firstIn grown List.mem_cons_self) bounds.1
      · exact apart first firstIn second (List.mem_cons_of_mem _ later)

/-- Two segments that touch become one: nothing is lost, and what was out of order stays so. -/
theorem follows_joined {left right : MemoryRange}
    (follows : Follows addr segments (before ++ left :: right :: rest))
    (touches : left.endFrame + 1 = right.start) :
    Follows addr segments (before ++ ⟨left.start, left.pages + right.pages⟩ :: rest) := by
  have filled := follows.filled
  simp only [List.forall_mem_append, List.forall_mem_cons] at filled
  obtain ⟨filledFront, filledLeft, filledRight, filledBack⟩ := filled
  rw [MemoryRange.endFrame_succ filledLeft] at touches
  have length := follows.length
  rw [List.length_append, List.length_cons, List.length_cons] at length
  refine ⟨?_, ?_, ?_, fun ordered => follows.ordered ?_⟩
  · simp only [List.forall_mem_append, List.forall_mem_cons]
    exact ⟨filledFront, by omega, filledBack⟩
  · rw [← follows.free]
    ext frame
    simp only [free_append, free_cons, Set.mem_union, MemoryRange.mem_frames]
    refine or_congr_right ?_
    rw [← or_assoc]
    exact or_congr_left (by omega)
  · rw [List.length_append, List.length_cons]
    omega
  · obtain ⟨front, back, apart⟩ := ordered_append.mp ordered
    obtain ⟨-, after, back⟩ := ordered_cons.mp back
    have onlyRight := ordered_cons.mpr ⟨filledRight, fun other otherIn => by
      have := after other otherIn
      dsimp only at this
      omega, back⟩
    refine ordered_append.mpr ⟨front, ordered_cons.mpr ⟨filledLeft, fun other otherIn => ?_,
      onlyRight⟩, fun first firstIn second secondIn => ?_⟩
    · rcases List.mem_cons.mp otherIn with rfl | later
      · exact touches.le
      · have := after other later
        dsimp only at this
        omega
    · have merged := apart first firstIn _ List.mem_cons_self
      dsimp only at merged
      rcases List.mem_cons.mp secondIn with rfl | later
      · exact merged
      · rcases List.mem_cons.mp later with rfl | latest
        · omega
        · exact apart first firstIn second (List.mem_cons_of_mem _ latest)

/-- A returning `deallocate` of a frame that is not free. -/
theorem follows_deallocate (filled : ∀ segment ∈ segments, 1 ≤ segment.pages)
    (notFree : addr ∉ segments.free) (fits : segments.length < isizeLimit)
    (ran : segments.deallocate addr = some after) : Follows addr segments after := by
  rcases deallocate_cases filled notFree fits ran with
    ⟨index, inside, rfl⟩ | ⟨before, segment, rest, grown, rfl, extended, outcome⟩
  · exact follows_insertIdx filled inside
  · have follows := follows_extended filled extended
    rcases outcome with rfl | ⟨first, joined⟩
    · exact follows
    · rcases join_cases joined with rfl | ⟨front, left, right, back, shape, touches, rfl⟩
      · exact follows
      · exact follows_joined (shape ▸ follows) touches

end Canyon.Kernel.Segments
