import Canyon.Fs.Init

/-!
# Bitmaps as finite sets

A bitmap on the blocks of a device, over whole runs of `alloc` and `dealloc` through the block
cache. `Bitmap.Run` keeps account of the bits that `alloc` returned and that were not given
back. In every run from cleared blocks the bitmap's blocks hold exactly these bits, and each
operation does to them what its name says on a finite set of numbers. Every number that the
code computes on the way is at most `total_count()` or a block of the device, so its `u64`
arithmetic is exact for every bitmap that has a `total_count()`.
-/

namespace Canyon.Fs.Bitmap

open Canyon.Lib
open EStateM (Result)

/-- The discipline of a program that locks the bitmap's blocks only, one at a time. -/
def rules (bitmap : Bitmap) : Scoped.Discipline Nat := ⟨1, bitmap.Owns⟩

/-- The runs of `alloc` and of `dealloc` of allocated bits, with the bits that are allocated:
those that `alloc` returned and that were not given back. -/
inductive Run (bitmap : Bitmap) (start : CacheManager) : CacheManager → Finset Nat → Prop where
  /-- Nothing is allocated at first. -/
  | start : Run bitmap start start ∅
  /-- `alloc` returned a bit. -/
  | alloc {manager after : CacheManager} {allocated : Finset Nat} {bit : Nat}
      (run : Run bitmap start manager allocated)
      (ran : bitmap.alloc.exec (.idle manager) = .ok (some bit) (.idle after)) :
      Run bitmap start after (insert bit allocated)
  /-- `alloc` returned nothing. -/
  | full {manager after : CacheManager} {allocated : Finset Nat}
      (run : Run bitmap start manager allocated)
      (ran : bitmap.alloc.exec (.idle manager) = .ok none (.idle after)) :
      Run bitmap start after allocated
  /-- `dealloc` of an allocated bit returned. -/
  | dealloc {manager after : CacheManager} {allocated : Finset Nat} {bit : Nat}
      (run : Run bitmap start manager allocated) (isIn : bit ∈ allocated)
      (ran : (bitmap.dealloc bit).exec (.idle manager) = .ok () (.idle after)) :
      Run bitmap start after (allocated.erase bit)

/-- The bits of the bitmap's blocks are exactly the numbers of the set, and the other blocks
are as they were at first. -/
structure Denotes (bitmap : Bitmap) (first contents : Nat → Block) (set : Finset Nat) : Prop where
  /-- Every word of every block of the bitmap holds the set's numbers. -/
  marks : bitmap.Marks contents fun bit => decide (bit ∈ set)
  /-- The numbers are positions of the bitmap. -/
  inside : ∀ bit ∈ set, bit < bitmap.totalCount
  /-- Blocks outside the bitmap are untouched. -/
  frame : ∀ id, ¬bitmap.Owns id → contents id = first id

/-- The cache between two calls on the bitmap of a device, standing for a set. -/
structure Backs (bitmap : Bitmap) (first : Nat → Block) (manager : CacheManager)
    (contents : Nat → Block) (set : Finset Nat) : Prop where
  /-- The cache stands for the contents. -/
  coherent : manager.Coherent contents
  /-- Nothing is held between two calls. -/
  handles : manager.handles = []
  /-- The bitmap's blocks are on the device. -/
  onDevice : ∀ id, bitmap.Owns id → id < manager.device.totalBlocks
  /-- The contents stand for the set. -/
  denotes : bitmap.Denotes first contents set

variable {bitmap : Bitmap} {first contents : Nat → Block} {set : Finset Nat}
  {manager : CacheManager} {failed : Panic → (Nat → Block) → Prop}

/-- Cleared blocks stand for the empty set. -/
theorem Denotes.empty (cleared : ∀ id, bitmap.Owns id → first id = Block.zero) :
    bitmap.Denotes first first ∅ :=
  ⟨marks_zeros cleared, by simp, fun _ _ => rfl⟩

/-- The discipline admits every block of the bitmap when nothing is held. -/
theorem rules_free {id : Nat} (owns : bitmap.Owns id) : bitmap.rules.Valid id ∧ id ∉ [] :=
  ⟨owns, List.not_mem_nil⟩

/-- The discipline has room for a lock when nothing is held. -/
theorem rules_room : ([] : List Nat).length < bitmap.rules.limit := Nat.one_pos

/-- `alloc` inserts the least number that is not in the set, or finds the set full. -/
theorem Denotes.wp_alloc (denotes : bitmap.Denotes first contents set) :
    bitmap.alloc.wp bitmap.rules []
      (fun found after => match found with
        | some bit => IsLeast {free | free < bitmap.totalCount ∧ free ∉ set} bit ∧
            bitmap.Denotes first after (insert bit set)
        | none => (∀ bit < bitmap.totalCount, bit ∈ set) ∧ after = contents)
      failed contents := by
  refine Bitmap.wp_alloc denotes.marks (fun _ owns => rules_free owns) rules_room ?_ ?_
  · intro bit after inside clear below marksAfter frame
    have absent : bit ∉ set := of_decide_eq_false clear
    refine ⟨⟨⟨inside, absent⟩, ?_⟩, ?_, ?_, ?_⟩
    · rintro free ⟨-, freeAbsent⟩
      by_contra less
      exact freeAbsent (of_decide_eq_true (below free (Nat.lt_of_not_le less)))
    · have same : (Function.update (fun bit => decide (bit ∈ set)) bit true) =
          fun other => decide (other ∈ insert bit set) := by
        funext other
        by_cases hit : other = bit
        · simp [hit]
        · simp [hit]
      rwa [same] at marksAfter
    · intro other otherIn
      rcases Finset.mem_insert.mp otherIn with rfl | old
      · exact inside
      · exact denotes.inside other old
    · intro id outside
      rw [frame id outside, denotes.frame id outside]
  · intro full
    exact ⟨fun bit inside => of_decide_eq_true (full bit inside), rfl⟩

/-- `dealloc` of a number of the set erases it. -/
theorem Denotes.wp_dealloc (denotes : bitmap.Denotes first contents set) {bit : Nat}
    (isIn : bit ∈ set) :
    (bitmap.dealloc bit).wp bitmap.rules []
      (fun _ after => bitmap.Denotes first after (set.erase bit)) failed contents := by
  have inside := denotes.inside bit isIn
  have row : bit / blockBits < bitmap.blocks :=
    Nat.div_lt_of_lt_mul (by rwa [totalCount, Nat.mul_comm] at inside)
  have owns : bitmap.Owns (bit / blockBits + bitmap.startBlockId) :=
    ⟨Nat.le_add_left _ _, by omega⟩
  refine Bitmap.wp_dealloc denotes.marks inside (decide_eq_true isIn)
    ⟨owns, List.not_mem_nil, rules_room⟩ ?_
  intro after marksAfter frame
  refine ⟨?_, ?_, ?_⟩
  · have same : (Function.update (fun bit => decide (bit ∈ set)) bit false) =
        fun other => decide (other ∈ set.erase bit) := by
      funext other
      by_cases hit : other = bit
      · simp [hit]
      · simp [hit]
    rwa [same] at marksAfter
  · intro other otherIn
    exact denotes.inside other (Finset.mem_of_mem_erase otherIn)
  · intro id outside
    rw [frame id outside, denotes.frame id outside]

/-- `free_count` is what the set leaves of the bitmap. -/
theorem Denotes.wp_freeCount (denotes : bitmap.Denotes first contents set) :
    bitmap.freeCount.wp bitmap.rules []
      (fun count after => count = bitmap.totalCount - set.card ∧ after = contents)
      failed contents := by
  refine Bitmap.wp_freeCount denotes.marks (fun _ owns => rules_free owns) rules_room
    ⟨?_, rfl⟩
  have subset : set ⊆ Finset.range bitmap.totalCount := fun bit isIn =>
    Finset.mem_range.mpr (denotes.inside bit isIn)
  have counted : (List.range bitmap.totalCount).countP (fun bit => !decide (bit ∈ set)) =
      (Finset.range bitmap.totalCount \ set).card := by
    rw [List.countP_eq_length_filter,
      ← List.toFinset_card_of_nodup (List.nodup_range.filter _)]
    congr 1
    ext bit
    simp
  rw [counted, Finset.card_sdiff_of_subset subset, Finset.card_range]

/-- A program that keeps to the bitmap's blocks returns on the cache, and leaves a cache that
stands for what its specification says. -/
theorem Backs.returns {α : Type} {program : Prog α} {post : α → (Nat → Block) → Prop}
    (backs : bitmap.Backs first manager contents set)
    (holds : program.wp bitmap.rules [] post (fun _ _ => False) contents) :
    ∃ value after reached, program.exec (.idle manager) = .ok value (.idle after) ∧
      post value reached ∧ ∀ changed, bitmap.Denotes first reached changed →
        bitmap.Backs first after reached changed := by
  have holding := Memory.Holding.idle backs.coherent backs.handles
  have met := Prog.exec_of_wp (show 1 ≤ cacheSize by decide) backs.onDevice holding holds
  cases outcome : program.exec (.idle manager) with
  | error error final =>
    rw [outcome] at met
    obtain ⟨-, -, -, impossible⟩ := met
    exact impossible.elim
  | ok value final =>
    rw [outcome] at met
    obtain ⟨reached, finalHolding, guards, total, reaches⟩ := met
    have isIdle : final = .idle final.manager := congrArg (Memory.mk final.manager) guards
    refine ⟨value, final.manager, reached, by rw [← isIdle], reaches, ?_⟩
    intro changed denotes
    refine ⟨finalHolding.coherent, ?_, ?_, denotes⟩
    · rw [finalHolding.handles, guards]
      rfl
    · intro id owns
      rw [total]
      exact backs.onDevice id owns

/-- `alloc` on the cache. -/
theorem Backs.alloc (backs : bitmap.Backs first manager contents set) :
    (∃ bit after reached, bitmap.alloc.exec (.idle manager) = .ok (some bit) (.idle after) ∧
      IsLeast {free | free < bitmap.totalCount ∧ free ∉ set} bit ∧
      bitmap.Backs first after reached (insert bit set)) ∨
    (∃ after, bitmap.alloc.exec (.idle manager) = .ok none (.idle after) ∧
      (∀ bit < bitmap.totalCount, bit ∈ set) ∧ bitmap.Backs first after contents set) := by
  obtain ⟨found, after, reached, ran, effect, next⟩ := backs.returns backs.denotes.wp_alloc
  cases found with
  | some bit =>
    obtain ⟨least, denotes⟩ := effect
    exact .inl ⟨bit, after, reached, ran, least, next _ denotes⟩
  | none =>
    obtain ⟨full, rfl⟩ := effect
    exact .inr ⟨after, ran, full, next _ backs.denotes⟩

/-- `dealloc` of a number of the set, on the cache. -/
theorem Backs.dealloc (backs : bitmap.Backs first manager contents set) {bit : Nat}
    (isIn : bit ∈ set) :
    ∃ after reached, (bitmap.dealloc bit).exec (.idle manager) = .ok () (.idle after) ∧
      bitmap.Backs first after reached (set.erase bit) := by
  obtain ⟨_, after, reached, ran, denotes, next⟩ := backs.returns (backs.denotes.wp_dealloc isIn)
  exact ⟨after, reached, ran, next _ denotes⟩

/-- `free_count` on the cache. -/
theorem Backs.freeCount (backs : bitmap.Backs first manager contents set) :
    ∃ after, bitmap.freeCount.exec (.idle manager) =
        .ok (bitmap.totalCount - set.card) (.idle after) ∧
      bitmap.Backs first after contents set := by
  obtain ⟨count, after, reached, ran, ⟨rfl, rfl⟩, next⟩ :=
    backs.returns backs.denotes.wp_freeCount
  exact ⟨after, ran, next _ backs.denotes⟩

/-- Every run leaves a cache that stands for the bits that are allocated. -/
theorem Run.backs {start : CacheManager} (initial : bitmap.Backs first start first ∅)
    (run : bitmap.Run start manager set) : ∃ contents, bitmap.Backs first manager contents set := by
  induction run with
  | start => exact ⟨first, initial⟩
  | alloc run ran ih =>
    obtain ⟨contents, backs⟩ := ih
    rcases backs.alloc with ⟨found, after, reached, again, -, next⟩ | ⟨after, again, -⟩
    · obtain ⟨sameBit, sameAfter⟩ := Result.ok.inj (ran.symm.trans again)
      obtain rfl := Option.some.inj sameBit
      obtain rfl := (Memory.mk.inj sameAfter).1
      exact ⟨reached, next⟩
    · obtain ⟨impossible, -⟩ := Result.ok.inj (ran.symm.trans again)
      contradiction
  | full run ran ih =>
    obtain ⟨contents, backs⟩ := ih
    rcases backs.alloc with ⟨found, after, reached, again, -⟩ | ⟨after, again, -, next⟩
    · obtain ⟨impossible, -⟩ := Result.ok.inj (ran.symm.trans again)
      contradiction
    · obtain ⟨-, sameAfter⟩ := Result.ok.inj (ran.symm.trans again)
      obtain rfl := (Memory.mk.inj sameAfter).1
      exact ⟨contents, next⟩
  | dealloc run isIn ran ih =>
    obtain ⟨contents, backs⟩ := ih
    obtain ⟨after, reached, again, next⟩ := backs.dealloc isIn
    obtain ⟨-, sameAfter⟩ := Result.ok.inj (ran.symm.trans again)
    obtain rfl := (Memory.mk.inj sameAfter).1
    exact ⟨reached, next⟩

/-- In every run of `alloc` and of `dealloc` of allocated bits, from cleared blocks of a device
and through any cache of it, the bitmap's blocks hold exactly the allocated bits and the other
blocks are as they were. `alloc` returns and adds the least number that is not allocated, or
returns `None` and changes nothing when there is none. `dealloc` of an allocated bit returns,
locks blocks of the bitmap only and removes that bit. `free_count` is `total_count` less the
number of allocated bits. -/
theorem run_refines_finset {start : CacheManager} (coherent : start.Coherent first)
    (handles : start.handles = [])
    (onDevice : ∀ id, bitmap.Owns id → id < start.device.totalBlocks)
    (cleared : ∀ id, bitmap.Owns id → first id = Block.zero) {allocated : Finset Nat}
    (run : bitmap.Run start manager allocated) :
    ∃ contents, bitmap.Backs first manager contents allocated ∧
      ((∃ bit after reached, bitmap.alloc.exec (.idle manager) = .ok (some bit) (.idle after) ∧
          IsLeast {free | free < bitmap.totalCount ∧ free ∉ allocated} bit ∧
          bitmap.Backs first after reached (insert bit allocated)) ∨
        (∃ after, bitmap.alloc.exec (.idle manager) = .ok none (.idle after) ∧
          (∀ bit < bitmap.totalCount, bit ∈ allocated) ∧
          bitmap.Backs first after contents allocated)) ∧
      (∀ bit ∈ allocated,
        (bitmap.dealloc bit).wp bitmap.rules [] (fun _ _ => True) (fun _ _ => False) contents ∧
        ∃ after reached, (bitmap.dealloc bit).exec (.idle manager) = .ok () (.idle after) ∧
          bitmap.Backs first after reached (allocated.erase bit)) ∧
      ∃ after, bitmap.freeCount.exec (.idle manager) =
          .ok (bitmap.totalCount - allocated.card) (.idle after) ∧
        bitmap.Backs first after contents allocated := by
  have initial : bitmap.Backs first start first ∅ :=
    ⟨coherent, handles, onDevice, Denotes.empty cleared⟩
  obtain ⟨contents, backs⟩ := run.backs initial
  refine ⟨contents, backs, backs.alloc, ?_, backs.freeCount⟩
  intro bit isIn
  constructor
  · exact Scoped.wp_mono (backs.denotes.wp_dealloc isIn) (fun _ _ _ => trivial)
      fun _ _ impossible => impossible
  · exact backs.dealloc isIn

/-- `alloc` returns the least number that is not in the set, when there is one. -/
theorem Backs.alloc_least (backs : bitmap.Backs first manager contents set) {bit : Nat}
    (least : IsLeast {free | free < bitmap.totalCount ∧ free ∉ set} bit) :
    ∃ after reached, bitmap.alloc.exec (.idle manager) = .ok (some bit) (.idle after) ∧
      bitmap.Backs first after reached (insert bit set) := by
  rcases backs.alloc with ⟨found, after, reached, ran, leastFound, next⟩ | ⟨-, -, full, -⟩
  · obtain rfl := leastFound.unique least
    exact ⟨after, reached, ran, next⟩
  · exact absurd (full bit least.1.1) least.1.2

/-- A bitmap of two blocks on a fresh cache of a cleared device, when two bits were allocated and
the first one was given back: that bit is allocated next, the other one can be given back, and 8191
bits are free. -/
theorem run_refines_finset_two : ∃ manager,
    Run ⟨1, 2⟩ (CacheManager.new ⟨3, fun _ => Block.zero⟩) manager {1} ∧
    (∃ after, (alloc ⟨1, 2⟩).exec (.idle manager) = .ok (some 0) (.idle after)) ∧
    (∃ after, (dealloc ⟨1, 2⟩ 1).exec (.idle manager) = .ok () (.idle after)) ∧
    ∃ after, (freeCount ⟨1, 2⟩).exec (.idle manager) = .ok 8191 (.idle after) := by
  have coherent := CacheManager.Coherent.new ⟨3, fun _ => Block.zero⟩
  have onDevice : ∀ id, Owns ⟨1, 2⟩ id → id < 3 := fun _ owns => owns.2
  have initial : Backs ⟨1, 2⟩ (fun _ => Block.zero)
      (CacheManager.new ⟨3, fun _ => Block.zero⟩) (fun _ => Block.zero) ∅ :=
    ⟨coherent, rfl, onDevice, Denotes.empty fun _ _ => rfl⟩
  have zero : IsLeast {free | free < totalCount ⟨1, 2⟩ ∧ free ∉ (∅ : Finset Nat)} 0 :=
    ⟨⟨by decide, by decide⟩, fun _ _ => Nat.zero_le _⟩
  have one : IsLeast {free | free < totalCount ⟨1, 2⟩ ∧ free ∉ (insert 0 ∅ : Finset Nat)} 1 := by
    refine ⟨⟨by decide, by decide⟩, fun free isFree => ?_⟩
    have absent := isFree.2
    rw [Finset.mem_insert, not_or] at absent
    exact Nat.one_le_iff_ne_zero.mpr absent.1
  obtain ⟨first, _, ranFirst, backsFirst⟩ := initial.alloc_least zero
  obtain ⟨second, _, ranSecond, backsSecond⟩ := backsFirst.alloc_least one
  obtain ⟨manager, _, ranBack, -⟩ := backsSecond.dealloc (show 0 ∈ insert 1 (insert 0 ∅) by decide)
  have left : (insert 1 (insert 0 ∅) : Finset Nat).erase 0 = {1} := by decide
  have run : Run ⟨1, 2⟩ (CacheManager.new ⟨3, fun _ => Block.zero⟩) manager {1} :=
    left ▸ (((Run.start.alloc ranFirst).alloc ranSecond).dealloc (by decide) ranBack)
  obtain ⟨contents, backs, allocs, deallocs, after, counted, -⟩ :=
    run_refines_finset coherent rfl onDevice (fun _ _ => rfl) run
  have again : IsLeast {free | free < totalCount ⟨1, 2⟩ ∧ free ∉ ({1} : Finset Nat)} 0 :=
    ⟨⟨by decide, by decide⟩, fun _ _ => Nat.zero_le _⟩
  refine ⟨manager, run, ?_, ?_, after, counted⟩
  · rcases allocs with ⟨bit, after, -, ran, least, -⟩ | ⟨-, -, full, -⟩
    · obtain rfl := least.unique again
      exact ⟨after, ran⟩
    · exact absurd (full 0 (by decide)) (by decide)
  · obtain ⟨-, after, -, ran, -⟩ := deallocs 1 (by decide)
    exact ⟨after, ran⟩

end Canyon.Fs.Bitmap
