import Canyon.Kernel.Heap
import Canyon.Kernel.Position
import Canyon.Lib.Address

/-!
# Memory for devices

A driver asks for memory by its size and gives it back by its virtual address: `alloc_dma` takes
a run of frames, `dealloc_dma` frees them one by one. A coalesced list of segments is determined
by its frames, so the order of freeing does not matter and a round trip restores the list, as
long as the positions at which `deallocate` stops come out right as an `i32` all the way.
-/

namespace Canyon.Kernel

open Canyon.Lib

/-- `to_virt_addr`. -/
def toVirtAddr (offset phys : Nat) : Option Nat :=
  if phys + offset < usizeLimit then virtAddrNew (phys + offset) else none

/-- `to_phys_addr`. -/
def toPhysAddr (offset virt : Nat) : Option Nat :=
  if offset ≤ virt then physAddrNew (virt - offset) else none

/-- `(size + PAGE_SIZE - 1) / PAGE_SIZE`. -/
def dmaPages (size : Nat) : Option Nat :=
  if size + pageSize < usizeLimit then some ((size + pageSize - 1) / pageSize) else none

namespace Segments

/-- `virtio_dma_alloc`. -/
def virtioDmaAlloc (segments : Segments) (pages : Nat) : Option (Nat × Segments) :=
  match segments.allocRange pages with
  | (none, _) => none
  | (some frame, after) => (physAddrNew (frame * pageSize)).map fun paddr => (paddr, after)

/-- `dealloc` of one frame after another. -/
def deallocateAll (segments : Segments) (frames : List Nat) : Option Segments :=
  frames.foldlM deallocate segments

/-- `virtio_dma_dealloc`. -/
def virtioDmaDealloc (segments : Segments) (paddr pages : Nat) : Option Segments :=
  segments.deallocateAll ((List.range pages).map (paddr / pageSize + ·))

/-- `alloc_dma`: the virtual and the physical address, and the segments left. -/
def allocDma (offset : Nat) (segments : Segments) (size : Nat) :
    Option ((Nat × Nat) × Segments) := do
  let pages ← dmaPages size
  let (paddr, after) ← segments.virtioDmaAlloc pages
  let vaddr ← toVirtAddr offset paddr
  some ((vaddr, paddr), after)

/-- `dealloc_dma`. -/
def deallocDma (offset : Nat) (segments : Segments) (vaddr size : Nat) : Option Segments := do
  let paddr ← toPhysAddr offset vaddr
  let pages ← dmaPages size
  segments.virtioDmaDealloc paddr pages

/-! ## Freeing in any order -/

/-- Wherever the loop of `deallocate` stops when the frames are given back one after another, the
position comes out right. The list at each call is the coalesced one of what is free by then. -/
def Counted (segments : Segments) (frames : List Nat) : Prop :=
  ∀ done frame rest, frames = done ++ frame :: rest → ∀ middle : Segments, middle.Coalesced →
    middle.free = segments.free ∪ {other | other ∈ done} → middle.Indexed frame

namespace Counted

variable {segments after : Segments} {frame : Nat} {frames : List Nat}

/-- The first position comes out right. -/
theorem head (counted : segments.Counted (frame :: frames)) (coalesced : segments.Coalesced) :
    segments.Indexed frame :=
  counted [] frame frames rfl segments coalesced (by simp)

/-- So do the others, from the list with the first frame on. -/
theorem tail (counted : segments.Counted (frame :: frames))
    (added : after.free = insert frame segments.free) : after.Counted frames := by
  intro done other rest shape middle middleCoalesced middleFree
  refine counted (frame :: done) other rest (congrArg _ shape) middle middleCoalesced ?_
  rw [middleFree, added]
  ext found
  simp only [Set.mem_union, Set.mem_insert_iff, Set.mem_ofPred_eq, List.mem_cons]
  tauto

/-- No frames. -/
theorem nil (segments : Segments) : segments.Counted [] := by
  intro done frame rest shape
  simp at shape

/-- One frame, and the others from the list with it on. -/
theorem cons (coalesced : segments.Coalesced) (indexed : segments.Indexed frame)
    (added : after.free = insert frame segments.free) (counted : after.Counted frames) :
    segments.Counted (frame :: frames) := by
  intro done other rest shape middle middleCoalesced middleFree
  cases done with
  | nil =>
    obtain ⟨rfl, -⟩ := List.cons.inj shape
    rwa [middleCoalesced.unique coalesced (by simpa using middleFree)]
  | cons first done =>
    obtain ⟨rfl, shapeRest⟩ := List.cons.inj shape
    refine counted done other rest shapeRest middle middleCoalesced ?_
    rw [middleFree, added]
    ext found
    simp only [Set.mem_union, Set.mem_insert_iff, Set.mem_ofPred_eq, List.mem_cons]
    tauto

end Counted

variable {segments after : Segments} {frame offset size vaddr pages : Nat} {frames : List Nat}
  {segment : MemoryRange}

/-- A frame given back adds at most one segment. -/
theorem Freed.length_le {addr : Nat} (freed : Freed addr segments after) :
    after.length ≤ segments.length + 1 := by
  cases freed <;> simp only [List.length_append, List.length_cons, List.length_nil] <;> omega

/-- Frames that are not free are not, either, when another one is given back. -/
theorem notFree_insert (distinct : (frame :: frames).Nodup)
    (notFree : ∀ other ∈ frame :: frames, other ∉ segments.free)
    (added : after.free = insert frame segments.free) : ∀ other ∈ frames, other ∉ after.free := by
  intro other otherIn
  rw [added]
  rintro (rfl | isFree)
  · exact (List.nodup_cons.mp distinct).1 otherIn
  · exact notFree other (List.mem_cons_of_mem _ otherIn) isFree

/-- Frames given back one after another, at positions that come out right. -/
theorem Coalesced.deallocateAll (coalesced : segments.Coalesced) (distinct : frames.Nodup)
    (notFree : ∀ frame ∈ frames, frame ∉ segments.free) (counted : segments.Counted frames) :
    ∃ after, segments.deallocateAll frames = some after ∧ after.Coalesced ∧
      after.free = segments.free ∪ {frame | frame ∈ frames} := by
  induction frames generalizing segments with
  | nil => exact ⟨segments, rfl, coalesced, by simp⟩
  | cons frame frames ih =>
    have fresh := notFree frame List.mem_cons_self
    obtain ⟨middle, ran, freed⟩ := coalesced.deallocate_indexed fresh (counted.head coalesced)
    obtain ⟨after, ranRest, afterCoalesced, afterFree⟩ :=
      ih (freed.coalesced coalesced fresh) (List.nodup_cons.mp distinct).2
        (notFree_insert distinct notFree freed.free_eq) (counted.tail freed.free_eq)
    refine ⟨after, ?_, afterCoalesced, ?_⟩
    · rw [Segments.deallocateAll, List.foldlM_cons, ran]
      exact ranRest
    · rw [afterFree, freed.free_eq]
      ext other
      simp only [Set.mem_union, Set.mem_insert_iff, Set.mem_ofPred_eq, List.mem_cons]
      tauto

/-- Frames given back in any two orders leave the same segments. -/
theorem Coalesced.deallocateAll_perm (coalesced : segments.Coalesced) {order : List Nat}
    (distinct : frames.Nodup) (notFree : ∀ frame ∈ frames, frame ∉ segments.free)
    (reordered : frames.Perm order) (counted : segments.Counted frames)
    (countedOrder : segments.Counted order) :
    ∃ after, segments.deallocateAll frames = some after ∧
      segments.deallocateAll order = some after := by
  obtain ⟨after, ran, afterCoalesced, afterFree⟩ := coalesced.deallocateAll distinct notFree counted
  obtain ⟨other, ranOther, otherCoalesced, otherFree⟩ :=
    coalesced.deallocateAll (reordered.nodup_iff.mp distinct)
      (fun frame frameIn => notFree frame (reordered.mem_iff.mpr frameIn)) countedOrder
  have same : after.free = other.free := by
    rw [afterFree, otherFree]
    ext frame
    simp only [Set.mem_union, Set.mem_ofPred_eq, reordered.mem_iff]
  obtain rfl := afterCoalesced.unique otherCoalesced same
  exact ⟨after, ran, ranOther⟩

/-- One frame, then the others. -/
theorem deallocateAll_cons (ran : segments.deallocateAll (frame :: frames) = some after) :
    ∃ middle, segments.deallocate frame = some middle ∧
      middle.deallocateAll frames = some after := by
  rw [deallocateAll, List.foldlM_cons] at ran
  exact Option.bind_eq_some_iff.mp ran

/-- As long as a `u32` counts the segments, a call that returns has stopped at a position that comes
out right. -/
theorem Coalesced.indexed_of_returns (coalesced : segments.Coalesced)
    (fresh : frame ∉ segments.free)
    (short : segments.length < u32Limit) (ran : segments.deallocate frame = some after) :
    segments.Indexed frame ∧ Freed frame segments after := by
  have few : u32Limit < isizeLimit := by decide
  have indexed : segments.Indexed frame := by
    by_contra missed
    rcases coalesced.deallocate_missed fresh (by omega) missed with stops | ⟨long, -⟩
    · rw [stops] at ran
      cases ran
    · omega
  obtain ⟨_, ranAgain, freed⟩ := coalesced.deallocate_indexed fresh indexed
  obtain rfl := Option.some.inj (ran.symm.trans ranAgain)
  exact ⟨indexed, freed⟩

/-- As long as a `u32` counts the segments, frames that are given back one after another are so at
positions that come out right. -/
theorem Coalesced.counted_of_returns (coalesced : segments.Coalesced) (distinct : frames.Nodup)
    (notFree : ∀ frame ∈ frames, frame ∉ segments.free)
    (short : segments.length + frames.length ≤ u32Limit)
    (ran : segments.deallocateAll frames = some after) : segments.Counted frames := by
  induction frames generalizing segments with
  | nil => exact .nil segments
  | cons frame frames ih =>
    have fresh := notFree frame List.mem_cons_self
    rw [List.length_cons] at short
    obtain ⟨middle, ranFirst, ranRest⟩ := deallocateAll_cons ran
    obtain ⟨indexed, freed⟩ := coalesced.indexed_of_returns fresh (by omega) ranFirst
    have length := freed.length_le
    exact .cons coalesced indexed freed.free_eq (ih (freed.coalesced coalesced fresh)
      (List.nodup_cons.mp distinct).2 (notFree_insert distinct notFree freed.free_eq) (by omega)
      ranRest)

/-- While an `i32` counts the segments, all positions come out right. -/
theorem Coalesced.counted_of_short (coalesced : segments.Coalesced) (distinct : frames.Nodup)
    (notFree : ∀ frame ∈ frames, frame ∉ segments.free)
    (short : segments.length + frames.length ≤ i32Limit + 1) : segments.Counted frames := by
  have order : i32Limit < u32Limit := by decide
  induction frames generalizing segments with
  | nil => exact .nil segments
  | cons frame frames ih =>
    have fresh := notFree frame List.mem_cons_self
    rw [List.length_cons] at short
    obtain ⟨middle, ran, freed⟩ := deallocate_freed coalesced.ordered fresh (by omega)
    obtain ⟨indexed, -⟩ := coalesced.indexed_of_returns fresh (by omega) ran
    have length := freed.length_le
    exact .cons coalesced indexed freed.free_eq (ih (freed.coalesced coalesced fresh)
      (List.nodup_cons.mp distinct).2 (notFree_insert distinct notFree freed.free_eq) (by omega))

/-- Segments out of order stay so, whatever frames are given back. -/
theorem ordered_of_deallocateAll (filled : ∀ segment ∈ segments, 1 ≤ segment.pages)
    (distinct : frames.Nodup) (notFree : ∀ frame ∈ frames, frame ∉ segments.free)
    (fits : segments.length + frames.length < isizeLimit)
    (ran : segments.deallocateAll frames = some after) (ordered : after.Ordered) :
    segments.Ordered := by
  induction frames generalizing segments with
  | nil => exact Option.some.inj ran ▸ ordered
  | cons frame frames ih =>
    rw [List.length_cons] at fits
    obtain ⟨middle, ranFirst, ranRest⟩ := deallocateAll_cons ran
    have follows := follows_deallocate filled (notFree frame List.mem_cons_self) (by omega) ranFirst
    have length := follows.length
    exact follows.ordered (ih follows.filled (List.nodup_cons.mp distinct).2
      (notFree_insert distinct notFree follows.free) (by omega) ranRest)

/-- Frames in ascending order that are given back one after another and leave a coalesced list are
so at positions that come out right. -/
theorem Coalesced.counted_of_restored (coalesced : segments.Coalesced) {count : Nat}
    (notFree : ∀ other ∈ List.range' frame count, other ∉ segments.free)
    (fits : segments.length + count < isizeLimit)
    (ran : segments.deallocateAll (List.range' frame count) = some after)
    (restored : after.Coalesced) : segments.Counted (List.range' frame count) := by
  induction count generalizing segments frame with
  | zero => exact .nil segments
  | succ count ih =>
    have distinct : (List.range' frame (count + 1)).Nodup := List.nodup_range'
    rw [List.range'_succ] at notFree ran distinct ⊢
    have fresh := notFree frame List.mem_cons_self
    obtain ⟨middle, ranFirst, ranRest⟩ := deallocateAll_cons ran
    have indexed : segments.Indexed frame := by
      by_contra missed
      rcases coalesced.deallocate_missed fresh (by omega) missed with
        stops | ⟨-, wrong, ranWrong, disorder | ⟨nextFree, notCoalesced⟩⟩
      · rw [stops] at ranFirst
        cases ranFirst
      · -- a frame out of order stays out of order to the end
        obtain rfl := Option.some.inj (ranFirst.symm.trans ranWrong)
        have follows := follows_deallocate coalesced.ordered.filled fresh (by omega) ranFirst
        have length := follows.length
        exact disorder (ordered_of_deallocateAll follows.filled (List.nodup_cons.mp distinct).2
          (notFree_insert distinct notFree follows.free) (by rw [List.length_range']; omega)
          ranRest restored.ordered)
      · -- the next frame is free already, so this one was the last
        obtain rfl := Option.some.inj (ranFirst.symm.trans ranWrong)
        cases count with
        | zero =>
          obtain rfl : middle = after := Option.some.inj ranRest
          exact notCoalesced restored
        | succ count =>
          refine notFree (frame + 1) ?_ nextFree
          simp
    obtain ⟨_, ranAgain, freed⟩ := coalesced.deallocate_indexed fresh indexed
    obtain rfl := Option.some.inj (ranFirst.symm.trans ranAgain)
    have length := freed.length_le
    exact .cons coalesced indexed freed.free_eq (ih (freed.coalesced coalesced fresh)
      (notFree_insert distinct notFree freed.free_eq) (by omega) ranRest)

/-! ## A round trip -/

/-- Addresses survive the conversion to virtual addresses and back unless they are extended on the
way. -/
theorem toPhysAddr_toVirtAddr {phys virt : Nat} (small : phys < 0x10_0000_0000_0000)
    (converted : toVirtAddr offset phys = some virt) :
    toPhysAddr offset virt =
      if (phys + offset) / 0x8000_0000_0000 = 1 then none else some phys := by
  unfold toVirtAddr virtAddrNew at converted
  split at converted
  · split at converted
    · next canonical =>
      obtain rfl := Option.some.inj converted
      rw [if_neg (by omega), toPhysAddr, if_pos (Nat.le_add_left ..), Nat.add_sub_cancel,
        physAddrNew, if_pos small]
    · split at converted
      · next extended =>
        obtain rfl := Option.some.inj converted
        rw [if_pos extended, toPhysAddr, if_pos (by omega), physAddrNew, if_neg (by omega)]
      · cases converted
  · cases converted

/-- What `alloc_dma` does when it succeeds. -/
theorem allocDma_cases {paddr : Nat}
    (ran : allocDma offset segments size = some ((vaddr, paddr), after)) :
    ∃ pages frame, dmaPages size = some pages ∧
      segments.allocRange pages = (some frame, after) ∧ paddr = frame * pageSize ∧
      paddr < 0x10_0000_0000_0000 ∧ toVirtAddr offset paddr = some vaddr := by
  unfold allocDma at ran
  simp only [Option.bind_eq_bind, Option.bind_eq_some_iff] at ran
  obtain ⟨pages, isPages, ⟨address, left⟩, taken, virtual, converted, ran⟩ := ran
  obtain ⟨pair, rfl⟩ := Prod.mk.inj (Option.some.inj ran)
  obtain ⟨rfl, rfl⟩ := Prod.mk.inj pair
  unfold virtioDmaAlloc at taken
  split at taken
  · cases taken
  · rename_i frame rest isRange
    obtain ⟨found, isAddress, same⟩ := Option.map_eq_some_iff.mp taken
    obtain ⟨rfl, rfl⟩ := Prod.mk.inj same
    unfold physAddrNew at isAddress
    split at isAddress
    · rename_i small
      obtain rfl := Option.some.inj isAddress
      exact ⟨pages, frame, isPages, isRange, rfl, small, converted⟩
    · cases isAddress

/-- `alloc_dma` succeeds when the range is there and the addresses can be formed. -/
theorem allocDma_eq (isPages : dmaPages size = some pages)
    (isRange : segments.allocRange pages = (some frame, after))
    (small : frame * pageSize < 0x10_0000_0000_0000)
    (converted : toVirtAddr offset (frame * pageSize) = some vaddr) :
    allocDma offset segments size = some ((vaddr, frame * pageSize), after) := by
  have taken : segments.virtioDmaAlloc pages = some (frame * pageSize, after) := by
    rw [virtioDmaAlloc, isRange]
    dsimp only
    rw [physAddrNew, if_pos small, Option.map_some]
  simp only [allocDma, isPages, taken, converted, Option.bind_eq_bind, Option.bind_some]

/-- `dealloc_dma` frees the frames of the address one by one. -/
theorem deallocDma_eq (isPages : dmaPages size = some pages)
    (converted : toPhysAddr offset vaddr = some (frame * pageSize)) :
    deallocDma offset segments vaddr size =
      segments.deallocateAll ((List.range pages).map (frame + ·)) := by
  have sameFrame : frame * pageSize / pageSize = frame := Nat.mul_div_cancel _ (by decide)
  simp only [deallocDma, converted, isPages, virtioDmaDealloc, sameFrame, Option.bind_eq_bind,
    Option.bind_some]

/-- `alloc_range` leaves a coalesced list without the frames it returns. -/
theorem Coalesced.allocRange (coalesced : segments.Coalesced)
    (ran : segments.allocRange pages = (some frame, after)) :
    after.Coalesced ∧ after.length ≤ segments.length ∧
      Set.Ico frame (frame + pages) ⊆ segments.free ∧
      after.free = segments.free \ Set.Ico frame (frame + pages) := by
  rcases allocRange_cases segments pages with
    ⟨-, isRange⟩ | ⟨before, segment, rest, rfl, few, -, isRange⟩
  · rw [isRange] at ran
    cases (Prod.mk.inj ran).1
  · rw [isRange] at ran
    obtain ⟨isFrame, rfl⟩ := Prod.mk.inj ran
    obtain rfl := Option.some.inj isFrame
    obtain ⟨wasFree, left⟩ := coalesced.ordered.free_take few
    refine ⟨coalesced.take few, ?_, wasFree, left⟩
    unfold remainder
    split <;> simp

/-- The number of pages of a size. -/
theorem dmaPages_eq (isPages : dmaPages size = some pages) :
    pages = (size + pageSize - 1) / pageSize ∧ pages < 0x10_0000_0000_0001 := by
  unfold dmaPages at isPages
  split at isPages
  · next fits =>
    obtain rfl := Option.some.inj isPages
    refine ⟨rfl, ?_⟩
    unfold usizeLimit at fits
    unfold pageSize at *
    omega
  · cases isPages

/-- `dealloc_dma` after `alloc_dma` restores the segments exactly when the address was not extended
and the positions at which the frames are given back come out right. -/
theorem Coalesced.deallocDma_iff {paddr : Nat} (coalesced : segments.Coalesced)
    (fits : 16 * segments.length < isizeLimit)
    (ran : allocDma offset segments size = some ((vaddr, paddr), after)) :
    Segments.deallocDma offset after vaddr size = some segments ↔
      (paddr + offset) / 0x8000_0000_0000 ≠ 1 ∧
        after.Counted (List.range' (paddr / pageSize) ((size + pageSize - 1) / pageSize)) := by
  obtain ⟨pages, frame, isPages, isRange, rfl, small, converted⟩ := allocDma_cases ran
  obtain ⟨afterCoalesced, length, wasFree, left⟩ := coalesced.allocRange isRange
  obtain ⟨pagesEq, few⟩ := dmaPages_eq isPages
  have back := toPhysAddr_toVirtAddr small converted
  have sameFrame : frame * pageSize / pageSize = frame := Nat.mul_div_cancel _ (by decide)
  have taken : ∀ other ∈ List.range' frame pages, other ∉ after.free := by
    intro other otherIn
    rw [left]
    exact fun isFree => isFree.2 (by simpa using otherIn)
  rw [sameFrame, ← pagesEq]
  by_cases extended : (frame * pageSize + offset) / 0x8000_0000_0000 = 1
  · rw [if_pos extended] at back
    refine iff_of_false (fun restored => ?_) fun counted => counted.1 extended
    rw [Segments.deallocDma, back] at restored
    cases restored
  · rw [if_neg extended] at back
    rw [deallocDma_eq isPages back, ← List.range'_eq_map_range]
    refine ⟨fun restored => ⟨extended, ?_⟩, fun ⟨_, counted⟩ => ?_⟩
    · unfold isizeLimit at fits
      exact afterCoalesced.counted_of_restored taken (by unfold isizeLimit; omega) restored
        coalesced
    · obtain ⟨restored, ranBack, restoredCoalesced, restoredFree⟩ :=
        afterCoalesced.deallocateAll List.nodup_range' taken counted
      have isRun : {other | other ∈ List.range' frame pages} = Set.Ico frame (frame + pages) := by
        ext other
        simp
      have same : restored.free = segments.free := by
        rw [restoredFree, left, isRun, Set.sdiff_union_of_subset wasFree]
      obtain rfl := restoredCoalesced.unique coalesced same
      exact ranBack

/-! ## More segments than an `i32` counts -/

/-- `alloc_range` takes the first segment that is long enough. -/
theorem allocRange_append {before : Segments} (short : ∀ other ∈ before, other.pages < pages)
    (long : pages ≤ segment.pages) :
    Segments.allocRange (before ++ segment :: after) pages =
      (some segment.start, before ++ (remainder segment pages ++ after)) := by
  have none : before.findIdx? (fun segment => decide (segment.pages ≥ pages)) = none := by
    rw [List.findIdx?_eq_none_iff]
    intro other otherIn
    have := short other otherIn
    exact decide_eq_false (by omega)
  have search : (before ++ segment :: after).findIdx?
      (fun segment => decide (segment.pages ≥ pages)) = some before.length := by
    rw [List.findIdx?_append, none, List.findIdx?_cons, if_pos (decide_eq_true long)]
    simp
  have found : (before ++ segment :: after)[before.length]? = some segment := by simp
  unfold Segments.allocRange
  rw [search]
  dsimp only
  rw [found]
  dsimp only
  unfold remainder
  congr 1
  split
  · simp [List.eraseIdx_append_of_length_le]
  · simp

/-- The frame that the last fragment begins with. -/
def lastFrame : Nat := 3 * (i32Limit - 1)

/-- Single frames, one segment less than an `i32` counts. -/
def singles : Segments := (List.range (i32Limit - 1)).map fun index => ⟨3 * index, 1⟩

/-- As many segments as an `i32` counts: single frames, and a last segment of three. -/
def fragments : Segments := singles ++ [⟨lastFrame, 3⟩]

/-- The single frames lie before the last fragment. -/
theorem mem_singles (segmentIn : segment ∈ singles) :
    segment.start % 3 = 0 ∧ segment.start < lastFrame ∧ segment.pages = 1 := by
  have := mem_thirds segmentIn
  unfold lastFrame
  omega

/-- The number of single frames. -/
theorem length_singles : singles.length + 1 = i32Limit := by
  rw [singles, List.length_map, List.length_range]
  rfl

/-- The number of fragments. -/
theorem length_fragments : fragments.length = i32Limit := by
  rw [fragments, List.length_append, List.length_singleton, length_singles]

/-- The single frames end before every frame from the last fragment on. -/
theorem singles_below {addr : Nat} (above : lastFrame ≤ addr) :
    ∀ other ∈ singles, other.endFrame + 1 < addr := by
  intro other otherIn
  have := mem_singles otherIn
  have multiple : lastFrame % 3 = 0 := Nat.mul_mod_right _ _
  rw [MemoryRange.endFrame_succ (by omega)]
  omega

/-- The fragments are coalesced. -/
theorem fragments_coalesced : fragments.Coalesced := by
  have multiple : lastFrame % 3 = 0 := Nat.mul_mod_right _ _
  refine ⟨ordered_append.mpr ⟨ordered_thirds _, ⟨by simp, by simp⟩, ?_⟩, ?_⟩
  · intro segment segmentIn last lastIn
    obtain rfl := List.mem_singleton.mp lastIn
    have := mem_singles segmentIn
    dsimp only
    omega
  · have shape : ∀ segment ∈ fragments, segment.start % 3 = 0 ∧
        (segment.start < lastFrame ∧ segment.pages = 1 ∨
          segment.start = lastFrame ∧ segment.pages = 3) := by
      intro segment segmentIn
      rcases List.mem_append.mp segmentIn with single | last
      · have := mem_singles single
        omega
      · obtain rfl := List.mem_singleton.mp last
        exact ⟨multiple, .inr ⟨rfl, rfl⟩⟩
    intro left leftIn right rightIn
    have := shape left leftIn
    have := shape right rightIn
    omega

/-- Two pages are taken from the last fragment. -/
theorem fragments_allocRange :
    fragments.allocRange 2 = (some lastFrame, singles ++ [⟨lastFrame + 2, 1⟩]) := by
  have few : ∀ other ∈ singles, other.pages < 2 := by
    intro other otherIn
    have := mem_singles otherIn
    omega
  have left : remainder ⟨lastFrame, 3⟩ 2 = [⟨lastFrame + 2, 1⟩] := rfl
  have long : 2 ≤ (MemoryRange.mk lastFrame 3).pages := Nat.le_succ 2
  rw [fragments, allocRange_append few long, left, List.append_nil]

/-- Two pages of the last fragment cannot be given back: the first one becomes the segment
before what is left, and the index of the next segment overflows at the second. -/
theorem fragments_deallocateAll :
    deallocateAll (singles ++ [⟨lastFrame + 2, 1⟩]) [lastFrame, lastFrame + 1] = none := by
  have short : singles.length < i32Limit := by
    have := length_singles
    omega
  have first : Segments.deallocate (singles ++ [⟨lastFrame + 2, 1⟩]) lastFrame =
      some (singles ++ [⟨lastFrame, 1⟩, ⟨lastFrame + 2, 1⟩]) :=
    deallocate_alone (singles_below (Nat.le_refl _)) (Nat.le_refl 1) (Nat.lt_succ_self _) short
  have same : singles.length % u32Limit = singles.length :=
    Nat.mod_eq_of_lt (Nat.lt_trans short (by decide))
  have second : Segments.deallocate (singles ++ [⟨lastFrame, 1⟩, ⟨lastFrame + 2, 1⟩])
      (lastFrame + 1) = none :=
    deallocate_right_overflow (singles_below (Nat.le_succ _))
      (MemoryRange.endFrame_succ (Nat.le_refl 1)) (by rw [same, length_singles])
      (by rw [same, List.length_singleton]; omega)
  rw [deallocateAll, List.foldlM_cons, first, Option.bind_eq_bind, Option.bind_some,
    List.foldlM_cons, second, Option.bind_eq_bind, Option.bind_none]

/-- Memory of two pages from the last fragment cannot be given back. -/
theorem fragments_deallocDma :
    allocDma physicalMemoryOffset fragments 0x2000 =
        some ((lastFrame * pageSize + physicalMemoryOffset, lastFrame * pageSize),
          singles ++ [⟨lastFrame + 2, 1⟩]) ∧
      Segments.deallocDma physicalMemoryOffset (singles ++ [⟨lastFrame + 2, 1⟩])
        (lastFrame * pageSize + physicalMemoryOffset) 0x2000 = none := by
  have pages : dmaPages 0x2000 = some 2 := by decide
  have small : lastFrame * pageSize < 0x10_0000_0000_0000 := by decide
  have fits : lastFrame * pageSize + physicalMemoryOffset < usizeLimit := by decide
  have canonical : (lastFrame * pageSize + physicalMemoryOffset) / 0x8000_0000_0000 =
      0x1ffff := by decide
  have converted : toVirtAddr physicalMemoryOffset (lastFrame * pageSize) =
      some (lastFrame * pageSize + physicalMemoryOffset) := by
    rw [toVirtAddr, if_pos fits, virtAddrNew, if_pos (.inr canonical)]
  have back := toPhysAddr_toVirtAddr small converted
  rw [if_neg (by rw [canonical]; decide)] at back
  constructor
  · exact allocDma_eq pages fragments_allocRange small converted
  · rw [deallocDma_eq pages back]
    exact fragments_deallocateAll

/-! ## Freeing is reversible -/

/-- From a coalesced list, two orders of freeing leave the same segments when the positions come out
right in both, and as long as a `u32` counts the segments only then. A round trip of `alloc_dma` and
`dealloc_dma` restores the segments exactly when the virtual address was not extended and the
positions come out right. -/
theorem freeing_reversible_iff {segments : Segments} (coalesced : segments.Coalesced) :
    (∀ frames order : List Nat, frames.Nodup → (∀ frame ∈ frames, frame ∉ segments.free) →
      frames.Perm order →
      (segments.Counted frames ∧ segments.Counted order →
        ∃ after, segments.deallocateAll frames = some after ∧
          segments.deallocateAll order = some after) ∧
      (segments.length + frames.length ≤ u32Limit →
        ((∃ after, segments.deallocateAll frames = some after ∧
          segments.deallocateAll order = some after) ↔
            segments.Counted frames ∧ segments.Counted order))) ∧
    (16 * segments.length < isizeLimit → ∀ (offset size vaddr paddr : Nat) (after : Segments),
      allocDma offset segments size = some ((vaddr, paddr), after) →
      (Segments.deallocDma offset after vaddr size = some segments ↔
        (paddr + offset) / 0x8000_0000_0000 ≠ 1 ∧
          after.Counted (List.range' (paddr / pageSize) ((size + pageSize - 1) / pageSize)))) := by
  refine ⟨fun frames order distinct notFree reordered => ?_, fun fits _ _ _ _ _ ran =>
    coalesced.deallocDma_iff fits ran⟩
  have enough : segments.Counted frames ∧ segments.Counted order →
      ∃ after, segments.deallocateAll frames = some after ∧
        segments.deallocateAll order = some after := fun counted =>
    coalesced.deallocateAll_perm distinct notFree reordered counted.1 counted.2
  refine ⟨enough, fun short => ⟨fun ⟨after, ran, ranOrder⟩ => ⟨?_, ?_⟩, enough⟩⟩
  · exact coalesced.counted_of_returns distinct notFree short ran
  · exact coalesced.counted_of_returns (reordered.nodup_iff.mp distinct)
      (fun frame frameIn => notFree frame (reordered.mem_iff.mpr frameIn))
      (by rw [← reordered.length_eq]; exact short) ranOrder

/-- Single frames, as many as an `i32` counts. -/
def farFrames : Segments := (List.range i32Limit).map fun index => ⟨3 * index + 3, 1⟩

/-- Two pages before the single frames: more segments than an `i32` counts. -/
def spread : Segments := ⟨0, 2⟩ :: farFrames

/-- The single frames. -/
theorem mem_farFrames (segmentIn : segment ∈ farFrames) :
    3 ≤ segment.start ∧ segment.start % 3 = 0 ∧ segment.pages = 1 := by
  obtain ⟨index, -, rfl⟩ := List.mem_map.mp segmentIn
  dsimp only
  omega

/-- A segment before the single frames that ends with the second page. -/
theorem farFrames_coalesced {first : MemoryRange} (filled : 1 ≤ first.pages)
    (early : first.start + first.pages = 2) : Coalesced (first :: farFrames) := by
  refine ⟨ordered_cons.mpr ⟨filled, fun other otherIn => ?_, fun other otherIn => ?_, ?_⟩, ?_⟩
  · have := mem_farFrames otherIn
    omega
  · exact (mem_farFrames otherIn).2.2.ge
  · refine List.pairwise_map.mpr (List.pairwise_lt_range.imp fun order => ?_)
    dsimp only
    omega
  · have shape : ∀ segment ∈ first :: farFrames, segment = first ∨
        3 ≤ segment.start ∧ segment.start % 3 = 0 ∧ segment.pages = 1 := fun segment segmentIn =>
      (List.mem_cons.mp segmentIn).imp_right mem_farFrames
    intro left leftIn right rightIn
    rcases shape left leftIn with rfl | isLeft <;> rcases shape right rightIn with rfl | isRight <;>
      omega

/-- A page is taken from the front of the spread list. -/
theorem spread_allocDma : allocDma physicalMemoryOffset spread 0x1000 =
    some ((physicalMemoryOffset, 0), ⟨1, 1⟩ :: farFrames) := by
  have left : remainder ⟨0, 2⟩ 1 = [⟨1, 1⟩] := rfl
  have isRange : spread.allocRange 1 = (some 0, ⟨1, 1⟩ :: farFrames) := by
    have cut : Segments.allocRange ([] ++ ⟨0, 2⟩ :: farFrames) 1 =
        (some 0, [] ++ (remainder ⟨0, 2⟩ 1 ++ farFrames)) :=
      allocRange_append (List.forall_mem_nil _) (show 1 ≤ 2 by decide)
    rw [left, List.nil_append, List.nil_append, List.singleton_append] at cut
    exact cut
  exact allocDma_eq (by decide) isRange (by decide) (by decide)

/-- The position of the page that is given back comes out right. -/
theorem spread_counted : Segments.Counted (⟨1, 1⟩ :: farFrames) (List.range' 0 1) := by
  have indexed : Indexed ([] ++ ⟨1, 1⟩ :: farFrames) 0 :=
    (indexed_left (List.forall_mem_nil _) (Nat.le_refl 1) rfl).mpr (by decide)
  have covers : ∀ frame, frame ∈ free [⟨0, 2⟩] ↔ frame = 0 ∨ frame ∈ free [⟨1, 1⟩] := by
    intro frame
    simp only [free_cons, free_nil, Set.union_empty, MemoryRange.mem_frames]
    omega
  have added := free_splice [] farFrames [⟨1, 1⟩] [⟨0, 2⟩] covers
  rw [List.nil_append, List.nil_append, List.singleton_append, List.singleton_append] at added
  rw [List.nil_append] at indexed
  exact .cons (farFrames_coalesced (Nat.le_refl 1) rfl) indexed added (.nil spread)

/-- Three frames given back in two orders, and a page taken from the front of more segments than an
`i32` counts and given back there. -/
theorem freeing_reversible_spread :
    (∃ after, deallocateAll [⟨1, 1⟩, ⟨5, 2⟩] [2, 4, 3] = some after ∧
      deallocateAll [⟨1, 1⟩, ⟨5, 2⟩] [3, 4, 2] = some after) ∧
    spread.length = i32Limit + 1 ∧ ∃ vaddr paddr after,
      allocDma physicalMemoryOffset spread 0x1000 = some ((vaddr, paddr), after) ∧
        Segments.deallocDma physicalMemoryOffset after vaddr 0x1000 = some spread := by
  have coalesced : Coalesced [⟨1, 1⟩, ⟨5, 2⟩] := ⟨⟨by decide, by decide⟩, by decide⟩
  have notFree : ∀ frame ∈ [2, 4, 3], frame ∉ free [⟨1, 1⟩, ⟨5, 2⟩] := by simp
  have notFreeOrder : ∀ frame ∈ [3, 4, 2], frame ∉ free [⟨1, 1⟩, ⟨5, 2⟩] := by simp
  have whole : spread.Coalesced := farFrames_coalesced (by decide) rfl
  have length : spread.length = i32Limit + 1 := by
    rw [spread, farFrames, List.length_cons, List.length_map, List.length_range]
  refine ⟨?_, length, _, _, _, spread_allocDma, ?_⟩
  · refine ((freeing_reversible_iff coalesced).1 [2, 4, 3] [3, 4, 2] (by decide) notFree
      (by decide)).1 ⟨?_, ?_⟩
    · exact coalesced.counted_of_short (by decide) notFree (by decide)
    · exact coalesced.counted_of_short (by decide) notFreeOrder (by decide)
  · exact ((freeing_reversible_iff whole).2 (by rw [length]; decide) _ _ _ _ _
      spread_allocDma).mpr ⟨by decide, spread_counted⟩

/-- A list of 2147483648 segments from which a driver gets two pages and cannot give them back. -/
theorem dma_not_given_back : fragments.Coalesced ∧ fragments.length = i32Limit ∧
    ∃ vaddr paddr after,
      allocDma physicalMemoryOffset fragments 0x2000 = some ((vaddr, paddr), after) ∧
        Segments.deallocDma physicalMemoryOffset after vaddr 0x2000 = none :=
  ⟨fragments_coalesced, length_fragments, _, _, _, fragments_deallocDma.1,
    fragments_deallocDma.2⟩

end Segments

end Canyon.Kernel
