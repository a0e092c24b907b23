import Mathlib.Order.Bounds.Basic
import Canyon.Kernel.Frame

/-!
# Coalesced free memory

No two segments of a coalesced list are adjacent. Such a list is determined by the frames it
covers, and every run of consecutive free frames lies in one of its segments; so `alloc_range`
finds the lowest run that is long enough, and fails only when there is none. The operations
keep a list coalesced as long as `deallocate` can count its segments by an `i32`.
-/

namespace Canyon.Kernel.Segments

/-- Segments in order, of which no two are adjacent. -/
structure Coalesced (segments : Segments) : Prop where
  /-- The segments are in order. -/
  ordered : segments.Ordered
  /-- No segment begins where another ends. -/
  separate : ∀ left ∈ segments, ∀ right ∈ segments, left.start + left.pages ≠ right.start

/-- What the allocating operations return: the lowest frame, and the lowest run that is long
enough. -/
structure FirstFit (segments : Segments) : Prop where
  /-- `allocate` fails when no frame is free. -/
  exhausted : segments.allocate.1 = none ↔ segments.free = ∅
  /-- `allocate` returns the lowest free frame. -/
  lowest : ∀ frame, segments.allocate.1 = some frame → IsLeast segments.free frame
  /-- `alloc_range` fails when no run of free frames is long enough. -/
  refused : ∀ pages, 1 ≤ pages → ((segments.allocRange pages).1 = none ↔
    ¬∃ frame, Set.Ico frame (frame + pages) ⊆ segments.free)
  /-- `alloc_range` returns the start of the lowest run that is long enough. -/
  first : ∀ pages frame, 1 ≤ pages → (segments.allocRange pages).1 = some frame →
    IsLeast {frame | Set.Ico frame (frame + pages) ⊆ segments.free} frame

/-! ## The shape of a coalesced list -/

variable {segments rest before after : Segments} {segment : MemoryRange}

/-- Two segments of an ordered list are the same, or one ends before the other begins. -/
theorem Ordered.eq_or_apart (ordered : segments.Ordered) {left right : MemoryRange}
    (leftIn : left ∈ segments) (rightIn : right ∈ segments) :
    left = right ∨ left.start + left.pages ≤ right.start ∨
      right.start + right.pages ≤ left.start := by
  let related (left right : MemoryRange) : Prop := left = right ∨
    left.start + left.pages ≤ right.start ∨ right.start + right.pages ≤ left.start
  have forward : segments.Pairwise related := ordered.apart.imp fun before => .inr (.inl before)
  have backward : segments.Pairwise (flip related) :=
    ordered.apart.imp fun before => .inr (.inr before)
  exact List.Pairwise.forall_of_forall_of_flip (fun _ _ => .inl rfl) forward backward
    leftIn rightIn

/-- An ordered list is coalesced when no frame right after a segment is free. -/
theorem Ordered.coalesced_iff (ordered : segments.Ordered) :
    segments.Coalesced ↔ ∀ segment ∈ segments, segment.start + segment.pages ∉ segments.free := by
  constructor
  · rintro coalesced segment segmentIn ⟨other, otherIn, lower, upper⟩
    have different := coalesced.separate segment segmentIn other otherIn
    rcases ordered.eq_or_apart segmentIn otherIn with rfl | before | after
    · omega
    · omega
    · omega
  · intro ends
    refine ⟨ordered, fun left leftIn right rightIn touches => ?_⟩
    have filled := ordered.filled right rightIn
    exact ends left leftIn ⟨right, rightIn, by omega, by omega⟩

/-- A part of a coalesced list is coalesced. -/
theorem Coalesced.sublist {part : Segments} (coalesced : segments.Coalesced)
    (isPart : part.Sublist segments) : part.Coalesced :=
  ⟨coalesced.ordered.sublist isPart, fun left leftIn right rightIn =>
    coalesced.separate left (isPart.subset leftIn) right (isPart.subset rightIn)⟩

/-- A run of free frames lies in one segment of a coalesced list. -/
theorem Coalesced.run_inside (coalesced : segments.Coalesced) {frame pages : Nat}
    (positive : 1 ≤ pages) (run : Set.Ico frame (frame + pages) ⊆ segments.free) :
    ∃ segment ∈ segments, segment.start ≤ frame ∧
      frame + pages ≤ segment.start + segment.pages := by
  obtain ⟨segment, segmentIn, lower, upper⟩ := run ⟨Nat.le_refl frame, by omega⟩
  refine ⟨segment, segmentIn, lower, ?_⟩
  by_contra long
  -- The run would go on over the frame right after the segment, which is not free.
  have ends := coalesced.ordered.coalesced_iff.mp coalesced segment segmentIn
  exact ends (run ⟨by omega, by omega⟩)

/-- The first segment begins at the lowest free frame. -/
theorem Ordered.isLeast_head (ordered : Ordered (segment :: rest)) :
    IsLeast (free (segment :: rest)) segment.start := by
  obtain ⟨filled, follows, -⟩ := ordered_cons.mp ordered
  refine ⟨⟨segment, List.mem_cons_self, Nat.le_refl _, by omega⟩, ?_⟩
  rintro frame ⟨other, otherIn, lower, -⟩
  rcases List.mem_cons.mp otherIn with rfl | later
  · exact lower
  · have := follows other later
    omega

/-- The frames of the segments after the first. -/
theorem Ordered.free_tail (ordered : Ordered (segment :: rest)) :
    rest.free = free (segment :: rest) \ segment.frames := by
  rw [← List.nil_append (segment :: rest)] at ordered
  have taken := (ordered.free_take (Nat.le_refl segment.pages)).2
  rwa [remainder, if_pos rfl] at taken

/-- The first segments of two coalesced lists that cover the same frames: the one does not end
before the other. -/
theorem Coalesced.head_end_le {left right : MemoryRange} {leftRest rightRest : Segments}
    (first : Coalesced (left :: leftRest))
    (same : free (left :: leftRest) = free (right :: rightRest))
    (start : left.start = right.start) :
    right.start + right.pages ≤ left.start + left.pages := by
  by_contra short
  have ends := first.ordered.coalesced_iff.mp first left List.mem_cons_self
  rw [same] at ends
  exact ends ⟨right, List.mem_cons_self, by omega, by omega⟩

/-- Coalesced lists that cover the same frames are equal. -/
theorem Coalesced.unique {left right : Segments} (first : left.Coalesced)
    (second : right.Coalesced) (same : left.free = right.free) : left = right := by
  induction left generalizing right with
  | nil =>
    cases right with
    | nil => rfl
    | cons other rest =>
      have member := second.ordered.isLeast_head.1
      rw [← same, free_nil] at member
      exact member.elim
  | cons segment segments ih =>
    cases right with
    | nil =>
      have member := first.ordered.isLeast_head.1
      rw [same, free_nil] at member
      exact member.elim
    | cons other rest =>
      have leastLeft := first.ordered.isLeast_head
      rw [same] at leastLeft
      have start : segment.start = other.start := leastLeft.unique second.ordered.isLeast_head
      have upper := first.head_end_le same start
      have lower := second.head_end_le same.symm start.symm
      have equal : segment = other := by
        cases segment
        cases other
        simp only [MemoryRange.mk.injEq] at start upper lower ⊢
        omega
      subst equal
      have tails : free segments = free rest := by
        rw [first.ordered.free_tail, second.ordered.free_tail, same]
      rw [ih (first.sublist (List.sublist_cons_self _ _))
        (second.sublist (List.sublist_cons_self _ _)) tails]

/-! ## First fit -/

/-- The allocating operations on a coalesced list are first fit. -/
theorem Coalesced.firstFit (coalesced : segments.Coalesced) : segments.FirstFit where
  exhausted := by
    cases segments with
    | nil => exact iff_of_true rfl free_nil
    | cons segment rest =>
      refine iff_of_false (by simp [allocate]) fun empty => ?_
      have member := coalesced.ordered.isLeast_head.1
      rw [empty] at member
      exact member
  lowest frame ran := by
    cases segments with
    | nil => cases ran
    | cons segment rest =>
      obtain rfl := Option.some.inj ran
      exact coalesced.ordered.isLeast_head
  refused pages positive := by
    rcases allocRange_cases segments pages with
      ⟨short, isRange⟩ | ⟨before, segment, rest, rfl, few, -, isRange⟩
    · refine iff_of_true (by rw [isRange]) ?_
      rintro ⟨frame, run⟩
      obtain ⟨segment, segmentIn, lower, upper⟩ := coalesced.run_inside positive run
      have := short segment segmentIn
      omega
    · refine iff_of_false (by rw [isRange]; simp) ?_
      exact not_not.mpr ⟨segment.start, (coalesced.ordered.free_take few).1⟩
  first pages frame positive ran := by
    rcases allocRange_cases segments pages with
      ⟨-, isRange⟩ | ⟨before, segment, rest, rfl, few, earlier, isRange⟩
    · rw [isRange] at ran
      cases ran
    · rw [isRange] at ran
      obtain rfl := Option.some.inj ran
      refine ⟨(coalesced.ordered.free_take few).1, fun other run => ?_⟩
      obtain ⟨found, foundIn, lower, upper⟩ := coalesced.run_inside positive run
      obtain ⟨-, second, -⟩ := ordered_append.mp coalesced.ordered
      rcases List.mem_append.mp foundIn with isEarlier | isLater
      · have := earlier found isEarlier
        omega
      · have least := second.isLeast_head.2
          ⟨found, isLater, Nat.le_refl found.start, by omega⟩
        omega

/-! ## The operations keep a list coalesced -/

/-- Taking the first pages of a segment keeps a list coalesced. -/
theorem Coalesced.take {pages : Nat} (coalesced : Coalesced (before ++ segment :: after))
    (few : pages ≤ segment.pages) : Coalesced (before ++ (remainder segment pages ++ after)) := by
  have ends := coalesced.ordered.coalesced_iff.mp coalesced
  have left := (coalesced.ordered.free_take few).2
  refine (coalesced.ordered.take few).coalesced_iff.mpr fun other otherIn => ?_
  -- Every end is the end of an old segment, and no frame became free.
  have old : ∃ segment' ∈ before ++ segment :: after,
      segment'.start + segment'.pages = other.start + other.pages := by
    rcases List.mem_append.mp otherIn with early | rest
    · exact ⟨other, List.mem_append_left _ early, rfl⟩
    · rcases List.mem_append.mp rest with isLeft | late
      · exact ⟨segment, by simp, ((mem_remainder isLeft few).2.2).symm⟩
      · exact ⟨other, by simp [late], rfl⟩
  obtain ⟨same, sameIn, equal⟩ := old
  rw [left, ← equal]
  exact fun isFree => ends same sameIn isFree.1

/-- An ordered list is coalesced when it is so without one of its segments, and this segment
touches neither those before it nor those after it. -/
theorem Ordered.coalesced_of_parts {new : MemoryRange} (ordered : Ordered (before ++ new :: rest))
    (old : Coalesced (before ++ rest))
    (lower : ∀ other ∈ before, other.start + other.pages ≠ new.start)
    (upper : ∀ other ∈ rest, new.start + new.pages ≠ other.start) :
    Coalesced (before ++ new :: rest) := by
  obtain ⟨-, second, apart⟩ := ordered_append.mp ordered
  obtain ⟨filled, follows, -⟩ := ordered_cons.mp second
  have member : ∀ {other}, other ∈ before ++ new :: rest → other = new ∨ other ∈ before ++ rest :=
    fun otherIn => by simpa [or_left_comm] using otherIn
  refine ⟨ordered, fun left leftIn right rightIn => ?_⟩
  rcases member leftIn with rfl | leftOld
  · rcases member rightIn with rfl | rightOld
    · omega
    · rcases List.mem_append.mp rightOld with early | late
      · have := apart right early left List.mem_cons_self
        omega
      · exact upper right late
  · rcases member rightIn with rfl | rightOld
    · rcases List.mem_append.mp leftOld with early | late
      · exact lower left early
      · have := follows left late
        omega
    · exact old.separate left leftOld right rightOld

/-- `deallocate` of a frame that is not free keeps a list coalesced. -/
theorem Freed.coalesced {addr : Nat} (freed : Freed addr segments after)
    (coalesced : segments.Coalesced) (notFree : addr ∉ segments.free) : after.Coalesced := by
  have ordered := freed.ordered coalesced.ordered notFree
  have separate := coalesced.separate
  cases freed with
  | append below =>
    rw [← List.append_nil segments] at coalesced
    exact ordered.coalesced_of_parts coalesced (fun other otherIn => (below other otherIn).ne)
      (by simp)
  | @alone before after segment below above =>
    obtain ⟨-, follows, -⟩ := ordered_cons.mp (ordered_append.mp coalesced.ordered).2.1
    refine ordered.coalesced_of_parts coalesced (fun other otherIn => (below other otherIn).ne)
      fun other otherIn => ?_
    rcases List.mem_cons.mp otherIn with rfl | later
    · exact above.ne
    · have := follows other later
      dsimp only
      omega
  | @left before after segment below touches =>
    refine ordered.coalesced_of_parts
      (coalesced.sublist ((List.sublist_cons_self _ _).append_left _))
      (fun other otherIn => (below other otherIn).ne) fun other otherIn => ?_
    have := separate segment (by simp) other (by simp [otherIn])
    dsimp only
    omega
  | @right before after segment below touches gap =>
    obtain ⟨-, follows, tail⟩ := ordered_cons.mp (ordered_append.mp ordered).2.1
    refine ordered.coalesced_of_parts
      (coalesced.sublist ((List.sublist_cons_self _ _).append_left _))
      (fun other otherIn => separate other (by simp [otherIn]) segment (by simp))
      fun other otherIn => ?_
    cases after with
    | nil => cases otherIn
    | cons next after =>
      have apart := gap next rfl
      have starts := follows next List.mem_cons_self
      obtain ⟨filled, later, -⟩ := ordered_cons.mp tail
      dsimp only at *
      rcases List.mem_cons.mp otherIn with rfl | otherLater
      · omega
      · have := later other otherLater
        omega
  | @both before after segment next below touches follows =>
    refine ordered.coalesced_of_parts (coalesced.sublist (((List.sublist_cons_self _ _).trans
      (List.sublist_cons_self _ _)).append_left _))
      (fun other otherIn => separate other (by simp [otherIn]) segment (by simp))
      fun other otherIn => ?_
    have := separate next (by simp) other (by simp [otherIn])
    dsimp only
    omega

/-- An operation keeps a list coalesced. -/
theorem Coalesced.step {out outAfter : Set Nat} (coalesced : segments.Coalesced)
    (step : Step (segments, out) (after, outAfter)) : after.Coalesced := by
  have effects := coalesced.ordered.exact
  cases step with
  | allocate ran =>
    rcases allocate_cases segments with ⟨-, isAllocate⟩ | ⟨segment, rest, rfl, isAllocate⟩
    · rw [isAllocate] at ran
      cases (Prod.mk.inj ran).1
    · rw [isAllocate] at ran
      obtain ⟨-, rfl⟩ := Prod.mk.inj ran
      have filled := coalesced.ordered.filled segment List.mem_cons_self
      rw [← List.nil_append (segment :: rest)] at coalesced
      exact coalesced.take filled
  | exhausted ran =>
    obtain ⟨rfl, -⟩ := effects.exhausted after ran
    exact coalesced
  | allocRange positive ran =>
    rename_i pages frame
    rcases allocRange_cases segments pages with
      ⟨-, isRange⟩ | ⟨before, segment, rest, rfl, few, -, isRange⟩
    · rw [isRange] at ran
      cases (Prod.mk.inj ran).1
    · rw [isRange] at ran
      obtain ⟨-, rfl⟩ := Prod.mk.inj ran
      exact coalesced.take few
  | refused positive ran =>
    obtain rfl := effects.refused _ after positive ran
    exact coalesced
  | deallocate notFree short ran =>
    obtain ⟨_, ranAgain, freed⟩ := deallocate_freed coalesced.ordered notFree short
    obtain rfl := Option.some.inj (ran.symm.trans ranAgain)
    exact freed.coalesced coalesced notFree

/-- In every state that the allocator reaches from a coalesced list, while `deallocate` can count
the segments by an `i32`, free memory is coalesced and allocation is first fit. -/
theorem allocation_first_fit {initial segments : Segments} {out : Set Nat}
    (coalesced : initial.Coalesced)
    (run : Relation.ReflTransGen Step (initial, ∅) (segments, out)) :
    segments.Coalesced ∧ segments.FirstFit := by
  suffices kept : ∀ state, Relation.ReflTransGen Step (initial, ∅) state → Coalesced state.1 from
    ⟨kept _ run, (kept _ run).firstFit⟩
  intro state run
  induction run with
  | refl => exact coalesced
  | tail _ step ih => exact ih.step step

/-- First fit after a run that allocates, takes a range, and joins two segments again. -/
theorem allocation_first_fit_merge :
    Coalesced [⟨1, 3⟩, ⟨201, 3⟩] ∧ FirstFit [⟨1, 3⟩, ⟨201, 3⟩] := by
  obtain ⟨_, -, run⟩ := merging_run
  have coalesced : Coalesced [⟨1, 3⟩, ⟨200, 4⟩] := ⟨⟨by decide, by decide⟩, by decide⟩
  exact allocation_first_fit coalesced run

/-! ## An index that wraps around -/

/-- Two neighbours among segments that do not touch stay as they are. -/
theorem join_separate {first : Nat} (inside : first + 1 < before.length)
    (separate : ∀ left ∈ before, ∀ right ∈ before, left.endFrame + 1 ≠ right.start) :
    join (before ++ rest) first (first + 1) = some (before ++ rest) := by
  have isLeft := List.getElem?_eq_getElem (show first < before.length by omega)
  have isRight := List.getElem?_eq_getElem inside
  rw [join, List.getElem?_append_left (by omega), List.getElem?_append_left inside, isLeft, isRight]
  dsimp only [bind, Option.bind]
  rw [if_neg (separate _ (List.mem_of_getElem? isLeft) _ (List.mem_of_getElem? isRight))]

/-- A segment at an index that wraps around grows to the right; the code then looks at two segments
further left, which do not touch, and does not join it with the next one. -/
theorem deallocate_right_wrapped {addr : Nat}
    (separate : ∀ left ∈ before, ∀ right ∈ before, left.endFrame + 1 ≠ right.start)
    (below : ∀ other ∈ before, other.endFrame + 1 < addr) (touches : segment.endFrame + 1 = addr)
    (wraps : u32Limit ≤ before.length) (low : before.length % u32Limit + 1 < i32Limit) :
    deallocate (before ++ segment :: after) addr =
      some (before ++ { segment with pages := segment.pages + 1 } :: after) := by
  have order : i32Limit < u32Limit := by decide
  rw [deallocate_stop_right below touches, asI32_low (by omega), asUsize_natCast (by omega),
    if_neg (by omega), checkedI32_succ low, Option.bind_some, asUsize_natCast low,
    join_separate (by omega) separate]

/-- Every third frame up to an index that wraps around, and two frames more. -/
def scattered : Segments :=
  (List.range u32Limit).map (fun index => ⟨3 * index, 1⟩) ++
    [⟨3 * u32Limit, 1⟩, ⟨3 * u32Limit + 2, 1⟩]

/-- The segments of the scattered list. -/
theorem mem_scattered (segmentIn : segment ∈ scattered) :
    segment.pages = 1 ∧ (segment.start % 3 = 0 ∧ segment.start ≤ 3 * u32Limit ∨
      segment.start = 3 * u32Limit + 2) := by
  rcases List.mem_append.mp segmentIn with third | last
  · have := mem_thirds third
    omega
  · rcases List.mem_cons.mp last with rfl | isLast
    · exact ⟨rfl, .inl ⟨by simp, Nat.le_refl _⟩⟩
    · obtain rfl := List.mem_singleton.mp isLast
      exact ⟨rfl, .inr rfl⟩

/-- The scattered list is coalesced. -/
theorem scattered_coalesced : scattered.Coalesced := by
  have ordered : scattered.Ordered := by
    refine ordered_append.mpr ⟨ordered_thirds _, ⟨by simp, by simp⟩, ?_⟩
    intro segment segmentIn other otherIn
    have := mem_thirds segmentIn
    have := mem_scattered (List.mem_append_right _ otherIn)
    simp only [List.mem_cons, List.not_mem_nil, or_false] at otherIn
    rcases otherIn with rfl | rfl
    · dsimp only
      omega
    · dsimp only
      omega
  refine ⟨ordered, fun left leftIn right rightIn => ?_⟩
  have := mem_scattered leftIn
  have := mem_scattered rightIn
  omega

/-- The frame between the last two segments of the scattered list becomes free, and the three
free frames stay two segments: a request for three frames fails. -/
theorem deallocate_leaves_adjacent : scattered.Coalesced ∧ 3 * u32Limit + 1 ∉ scattered.free ∧
    3 * u32Limit + 2 < 0x100_0000_0000 ∧
    ∃ after, scattered.deallocate (3 * u32Limit + 1) = some after ∧ ¬after.Coalesced ∧
      (after.allocRange 3).1 = none ∧
      Set.Ico (3 * u32Limit) (3 * u32Limit + 3) ⊆ after.free := by
  have limit : u32Limit = 0x1_0000_0000 := rfl
  have ran : scattered.deallocate (3 * u32Limit + 1) =
      some ((List.range u32Limit).map (fun index => ⟨3 * index, 1⟩) ++
        [⟨3 * u32Limit, 2⟩, ⟨3 * u32Limit + 2, 1⟩]) := by
    have length : ((List.range u32Limit).map fun index => MemoryRange.mk (3 * index) 1).length =
        u32Limit := by rw [List.length_map, List.length_range]
    refine deallocate_right_wrapped ?_ ?_ ?_ length.ge (by rw [length, Nat.mod_self]; decide)
    · intro left leftIn right rightIn
      have := mem_thirds leftIn
      have := mem_thirds rightIn
      rw [MemoryRange.endFrame_succ (by omega)]
      omega
    · intro other otherIn
      have := mem_thirds otherIn
      rw [MemoryRange.endFrame_succ (by omega)]
      omega
    · rw [MemoryRange.endFrame_succ (Nat.le_refl 1)]
  refine ⟨scattered_coalesced, ?_, by decide, _, ran, ?_, ?_, ?_⟩
  · rintro ⟨segment, segmentIn, lower, upper⟩
    have := mem_scattered segmentIn
    omega
  · intro coalesced
    exact coalesced.separate ⟨3 * u32Limit, 2⟩ (by simp) ⟨3 * u32Limit + 2, 1⟩ (by simp) rfl
  · rcases allocRange_cases _ 3 with ⟨-, isRange⟩ | ⟨before, segment, rest, whole, few, -⟩
    · rw [isRange]
    · have segmentIn : segment ∈ (List.range u32Limit).map (fun index => ⟨3 * index, 1⟩) ++
          [⟨3 * u32Limit, 2⟩, ⟨3 * u32Limit + 2, 1⟩] := by
        rw [whole]
        simp
      rcases List.mem_append.mp segmentIn with third | last
      · have := mem_thirds third
        omega
      · simp only [List.mem_cons, List.not_mem_nil, or_false] at last
        rcases last with rfl | rfl
        · exact absurd few (by decide)
        · exact absurd few (by decide)
  · intro frame frameIn
    rw [Set.mem_Ico] at frameIn
    rw [free_append, free_cons, free_cons]
    by_cases last : frame = 3 * u32Limit + 2
    · exact .inr (.inr (.inl ⟨by dsimp only; omega, by dsimp only; omega⟩))
    · exact .inr (.inl ⟨by dsimp only; omega, by dsimp only; omega⟩)

end Canyon.Kernel.Segments
