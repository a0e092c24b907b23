import Canyon.Fs.Capacity
import Canyon.Fs.Concurrent

/-!
# Bitmaps that threads share

Any number of threads that allocate bits of one bitmap and give back bits of their own, through one
block cache and in any order. The bits are resources of the threads: `alloc` marks one that nobody
owns, and `dealloc` takes away the mark of one's own. So no bit is ever handed out twice, and the
assertion of `dealloc` never fails.
-/

namespace Canyon.Fs

open Canyon.Lib
open Relation (ReflTransGen)

namespace Bitmap

/-- The bits of a bitmap as resources, one for each position. -/
def marking (bitmap : Bitmap) : Marking Nat Block Nat where
  home := fun bit => bit / blockBits + bitmap.startBlockId
  marks := fun key content => {bit | bit < bitmap.totalCount ∧
    bit / blockBits + bitmap.startBlockId = key ∧
    ∃ words, content.view bitmapBlock 0 = some words ∧ words.bit (bit % blockBits) = true}
  home_eq := fun _ _ _ isMarked => isMarked.2.1

variable {bitmap : Bitmap} {blockId bit : Nat} {content : Block} {words : BitmapBlock}
  {own : Set Nat}

/-- The marks of a block of the bitmap whose words are known. -/
theorem mem_marks_iff (seen : content.view bitmapBlock 0 = some words) :
    bit ∈ bitmap.marking.marks (blockId + bitmap.startBlockId) content ↔
      bit < bitmap.totalCount ∧ bit / blockBits = blockId ∧
        words.bit (bit % blockBits) = true := by
  constructor
  · rintro ⟨inside, home, found, foundSeen, isSet⟩
    obtain rfl := Option.some.inj (seen.symm.trans foundSeen)
    exact ⟨inside, Nat.add_right_cancel home, isSet⟩
  · rintro ⟨inside, rfl, isSet⟩
    exact ⟨inside, rfl, words, seen, isSet⟩

/-- The rule of a scope on a block of the bitmap that may change its words. -/
theorem owning_lockedAt {γ : Type} {body : BitmapBlock → Prog (γ × Option BitmapBlock)}
    {goal : γ → Set Nat → Prop}
    (inner : ∀ content words, content.view bitmapBlock 0 = some words →
      bitmap.marking.Shows (blockId + bitmap.startBlockId) content own →
      (body words).Owning bitmap.marking own fun found own =>
        bitmap.marking.Leaves (blockId + bitmap.startBlockId) content
          (found.2.map (content.patch bitmapBlock 0)) own (goal found.1)) :
    (lockedAt bitmapBlock (blockId + bitmap.startBlockId) 0 body).Owning bitmap.marking own
      goal := by
  intro content shows
  obtain ⟨words, seen⟩ := content.exists_view_bitmapBlock
  have wide : 0 + bitmapBlock.width ≤ blockSize := by simp
  simp only [wide, ↓reduceIte, seen]
  exact Scoped.owning_bind (inner content words seen shows)

/-- The rule of a scope on a block of the bitmap that changes its words. -/
theorem owning_modifyAt {γ : Type} {body : BitmapBlock → Prog (γ × BitmapBlock)}
    {goal : γ → Set Nat → Prop}
    (inner : ∀ content words, content.view bitmapBlock 0 = some words →
      bitmap.marking.Shows (blockId + bitmap.startBlockId) content own →
      (body words).Owning bitmap.marking own fun found own =>
        bitmap.marking.Leaves (blockId + bitmap.startBlockId) content
          (some (content.patch bitmapBlock 0 found.2)) own (goal found.1)) :
    (modifyAt bitmapBlock (blockId + bitmap.startBlockId) 0 body).Owning bitmap.marking own
      goal := by
  intro content shows
  obtain ⟨words, seen⟩ := content.exists_view_bitmapBlock
  have wide : 0 + bitmapBlock.width ≤ blockSize := by simp
  simp only [wide, ↓reduceIte, seen]
  exact Scoped.owning_bind (inner content words seen shows)

/-- New words with one more bit: it becomes one's own. -/
theorem leaves_mark {changed : BitmapBlock} {spot : Nat} {goal : Set Nat → Prop}
    (inside : blockId < bitmap.blocks) (column : spot < blockBits)
    (seen : content.view bitmapBlock 0 = some words) (fits : bitmapBlock.Fits changed)
    (bits : ∀ place, changed.bit place = (words.bit place || place == spot))
    (clear : words.bit spot = false) (done : goal (insert (blockId * blockBits + spot) own)) :
    bitmap.marking.Leaves (blockId + bitmap.startBlockId) content
      (some (content.patch bitmapBlock 0 changed)) own goal := by
  have width : blockBits = 4096 := rfl
  have patched := Block.view_patch content bitmapBlock 0 changed (by simp) fits
  have total : bitmap.totalCount = bitmap.blocks * 4096 := rfl
  -- the new bit is the only difference
  have added : ∀ bit, bit ∈ bitmap.marking.marks (blockId + bitmap.startBlockId)
      (content.patch bitmapBlock 0 changed) ↔
      bit ∈ bitmap.marking.marks (blockId + bitmap.startBlockId) content ∨
        bit = blockId * blockBits + spot := by
    intro bit
    rw [mem_marks_iff patched, mem_marks_iff seen, bits, Bool.or_eq_true, beq_iff_eq]
    have place : bit % blockBits = spot ∧ bit / blockBits = blockId ↔
        bit = blockId * blockBits + spot := by
      rw [width] at column ⊢
      omega
    have bounded : blockId * blockBits + spot < bitmap.totalCount := by
      rw [total]
      rw [width] at column ⊢
      omega
    constructor
    · rintro ⟨isIn, row, old | new⟩
      · exact .inl ⟨isIn, row, old⟩
      · exact .inr (place.mp ⟨new, row⟩)
    · rintro (⟨isIn, row, old⟩ | rfl)
      · exact ⟨isIn, row, .inl old⟩
      · exact ⟨bounded, (place.mpr rfl).2, .inr (place.mpr rfl).1⟩
  have wasClear : blockId * blockBits + spot ∉
      bitmap.marking.marks (blockId + bitmap.startBlockId) content := by
    rw [mem_marks_iff seen]
    rintro ⟨-, -, isSet⟩
    have same : (blockId * blockBits + spot) % blockBits = spot := by
      rw [width] at column ⊢
      omega
    rw [same, clear] at isSet
    cases isSet
  refine ⟨fun bit lost => absurd ((added bit).mpr (.inl lost.1)) lost.2, ?_⟩
  have owned : transfer (bitmap.marking.marks (blockId + bitmap.startBlockId) content)
      (bitmap.marking.marks (blockId + bitmap.startBlockId)
        (content.patch bitmapBlock 0 changed)) own =
      insert (blockId * blockBits + spot) own := by
    ext bit
    constructor
    · rintro (⟨isOwn, -⟩ | ⟨isNew, notOld⟩)
      · exact .inr isOwn
      · exact .inl (((added bit).mp isNew).resolve_left notOld)
    · rintro (rfl | isOwn)
      · exact .inr ⟨(added _).mpr (.inr rfl), wasClear⟩
      · exact .inl ⟨isOwn, fun lost => lost.2 ((added bit).mpr (.inl lost.1))⟩
  rw [owned]
  exact done

/-- New words with one bit less: it is one's own no more. -/
theorem leaves_unmark {changed : BitmapBlock} {goal : Set Nat → Prop}
    (seen : content.view bitmapBlock 0 = some words) (fits : bitmapBlock.Fits changed)
    (bits : ∀ place, changed.bit place = (words.bit place && place != bit % blockBits))
    (isSet : bit ∈ bitmap.marking.marks (bit / blockBits + bitmap.startBlockId) content)
    (isOwn : bit ∈ own) (done : goal (own \ {bit})) :
    bitmap.marking.Leaves (bit / blockBits + bitmap.startBlockId) content
      (some (content.patch bitmapBlock 0 changed)) own goal := by
  have width : blockBits = 4096 := rfl
  have patched := Block.view_patch content bitmapBlock 0 changed (by simp) fits
  have removed : ∀ other, other ∈ bitmap.marking.marks (bit / blockBits + bitmap.startBlockId)
      (content.patch bitmapBlock 0 changed) ↔
      other ∈ bitmap.marking.marks (bit / blockBits + bitmap.startBlockId) content ∧
        other ≠ bit := by
    intro other
    rw [mem_marks_iff patched, mem_marks_iff seen, bits, Bool.and_eq_true, bne_iff_ne]
    have place : other / blockBits = bit / blockBits →
        (other % blockBits ≠ bit % blockBits ↔ other ≠ bit) := by
      rw [width]
      omega
    constructor
    · rintro ⟨isIn, row, old, different⟩
      exact ⟨⟨isIn, row, old⟩, (place row).mp different⟩
    · rintro ⟨⟨isIn, row, old⟩, different⟩
      exact ⟨isIn, row, old, (place row).mpr different⟩
  constructor
  · rintro other ⟨old, notNew⟩
    by_contra notOwn
    exact notNew ((removed other).mpr ⟨old, fun same => notOwn (same ▸ isOwn)⟩)
  · have owned : transfer (bitmap.marking.marks (bit / blockBits + bitmap.startBlockId) content)
        (bitmap.marking.marks (bit / blockBits + bitmap.startBlockId)
          (content.patch bitmapBlock 0 changed)) own = own \ {bit} := by
      ext other
      constructor
      · rintro (⟨isOther, notLost⟩ | ⟨isNew, notOld⟩)
        · refine ⟨isOther, ?_⟩
          rintro rfl
          exact notLost ⟨isSet, fun kept => ((removed _).mp kept).2 rfl⟩
        · exact absurd ((removed other).mp isNew).1 notOld
      · rintro ⟨isOther, different⟩
        exact .inl ⟨isOther, fun lost => lost.2 ((removed other).mpr ⟨lost.1, different⟩)⟩
    rw [owned]
    exact done

/-- One round of `alloc` marks a bit that was nobody's, or none. -/
theorem owning_allocIn (inside : blockId < bitmap.blocks) {goal : Option Nat → Set Nat → Prop}
    (found : ∀ bit < bitmap.totalCount, bit ∉ own → goal (some bit) (insert bit own))
    (full : goal none own) : (bitmap.allocIn blockId).Owning bitmap.marking own goal := by
  have width : blockBits = 4096 := rfl
  apply owning_lockedAt
  intro content words seen shows
  have fits := Block.fits_of_view (by simp) seen
  cases search : words.firstFree with
  | none => exact full
  | some place =>
    obtain ⟨position, inner⟩ := place
    obtain ⟨row, column, clear, -⟩ := words.firstFree_some fits search
    have spot : position * 64 + inner < blockBits := by omega
    apply leaves_mark inside spot seen (words.fits_mark fits row column)
      (words.bit_mark row column) clear
    have bounded : blockId * blockBits + (position * 64 + inner) < bitmap.totalCount := by
      rw [totalCount, width]
      omega
    apply found _ bounded
    intro isOwn
    have home : (blockId * blockBits + (position * 64 + inner)) / blockBits = blockId ∧
        (blockId * blockBits + (position * 64 + inner)) % blockBits = position * 64 + inner := by
      rw [width]
      omega
    have isMarked := shows _ isOwn (congrArg (· + bitmap.startBlockId) home.1)
    rw [mem_marks_iff seen, home.2, clear] at isMarked
    exact absurd isMarked.2.2 Bool.false_ne_true

/-- `alloc` marks a bit that was nobody's, or none. -/
theorem owning_alloc {goal : Option Nat → Set Nat → Prop}
    (found : ∀ bit < bitmap.totalCount, bit ∉ own → goal (some bit) (insert bit own))
    (full : goal none own) : bitmap.alloc.Owning bitmap.marking own goal := by
  suffices search : ∀ rows : List Nat, (∀ row ∈ rows, row < bitmap.blocks) →
      (bitmap.allocFrom rows).Owning bitmap.marking own goal by
    exact search _ fun row rowIn => List.mem_range.mp rowIn
  intro rows
  induction rows with
  | nil => exact fun _ => full
  | cons row rest ih =>
    intro inside
    apply Scoped.owning_bind
    apply owning_allocIn (inside row List.mem_cons_self)
    · exact fun bit bounded notOwn => found bit bounded notOwn
    · exact ih fun other otherIn => inside other (List.mem_cons_of_mem _ otherIn)

/-- `dealloc` of one's own bit returns, and it is one's own no more. -/
theorem owning_dealloc (isOwn : bit ∈ own)
    {goal : Unit → Set Nat → Prop} (done : goal () (own \ {bit})) :
    (bitmap.dealloc bit).Owning bitmap.marking own goal := by
  have width : blockBits = 4096 := rfl
  have low : bit % blockBits < 4096 := Nat.mod_lt _ (by decide)
  have row : bit % blockBits / 64 < 64 := by omega
  have column : bit % blockBits % 64 < 64 := by omega
  have place : bit % blockBits / 64 * 64 + bit % blockBits % 64 = bit % blockBits := by omega
  unfold dealloc decompose
  apply owning_modifyAt
  intro content words seen shows
  have fits := Block.fits_of_view (by simp) seen
  have isMarked := shows bit isOwn rfl
  have isSet := ((mem_marks_iff seen).mp isMarked).2.2
  have positive : 0 < words.word (bit % blockBits / 64) &&& 1 <<< (bit % blockBits % 64) := by
    have testBit : (words.word (bit % blockBits / 64)).testBit (bit % blockBits % 64) = true :=
      isSet
    rw [Nat.one_shiftLeft, Nat.and_two_pow, testBit, Bool.toNat_true, Nat.one_mul]
    exact Nat.two_pow_pos _
  rw [if_pos positive]
  apply leaves_unmark seen (words.fits_unmark fits row _) _ isMarked isOwn done
  intro other
  rw [words.bit_unmark row column (by rw [place]; exact isSet), place]

/-! ### One scope at a time -/

variable {allowed : Nat → Prop}

/-- The rule of a scope on a block of the bitmap, for the blocks that are asked for. -/
theorem within_lockedAt {γ : Type} {body : BitmapBlock → Prog (γ × Option BitmapBlock)}
    {goal : γ → Prop} (isAllowed : allowed (blockId + bitmap.startBlockId))
    (inner : ∀ (content : Block) words, content.view bitmapBlock 0 = some words →
      (body words).Within allowed 0 fun found => goal found.1) :
    (lockedAt bitmapBlock (blockId + bitmap.startBlockId) 0 body).Within allowed 1 goal := by
  refine ⟨isAllowed, Nat.one_pos, fun content => ?_⟩
  obtain ⟨words, seen⟩ := content.exists_view_bitmapBlock
  have wide : 0 + bitmapBlock.width ≤ blockSize := by simp
  simp only [wide, ↓reduceIte, seen]
  exact Scoped.within_bind (inner content words seen)

/-- `alloc` is in one scope at a time, on blocks of the bitmap, and returns bits of the bitmap. -/
theorem within_alloc (onDevice : ∀ blockId < bitmap.blocks, allowed (blockId + bitmap.startBlockId))
    {goal : Option Nat → Prop} (found : ∀ bit < bitmap.totalCount, goal (some bit))
    (full : goal none) : bitmap.alloc.Within allowed 1 goal := by
  have width : blockBits = 4096 := rfl
  suffices search : ∀ rows : List Nat, (∀ row ∈ rows, row < bitmap.blocks) →
      (bitmap.allocFrom rows).Within allowed 1 goal by
    exact search _ fun row rowIn => List.mem_range.mp rowIn
  intro rows
  induction rows with
  | nil => exact fun _ => full
  | cons row rest ih =>
    intro inside
    have rowInside := inside row List.mem_cons_self
    apply Scoped.within_bind
    apply within_lockedAt (onDevice row rowInside)
    intro content words seen
    cases search : words.firstFree with
    | none => exact ih fun other otherIn => inside other (List.mem_cons_of_mem _ otherIn)
    | some place =>
      obtain ⟨position, inner⟩ := place
      obtain ⟨below, column, -⟩ := words.firstFree_some (Block.fits_of_view (by simp) seen) search
      apply found
      rw [totalCount, width]
      omega

/-- `dealloc` is in one scope, on a block of the bitmap. -/
theorem within_dealloc
    (onDevice : ∀ blockId < bitmap.blocks, allowed (blockId + bitmap.startBlockId))
    (inside : bit < bitmap.totalCount) {goal : Unit → Prop} (done : goal ()) :
    (bitmap.dealloc bit).Within allowed 1 goal := by
  refine ⟨onDevice _ (Nat.div_lt_of_lt_mul (Nat.mul_comm _ _ ▸ inside)), Nat.one_pos, ?_⟩
  intro content
  obtain ⟨words, seen⟩ := content.exists_view_bitmapBlock
  have wide : 0 + bitmapBlock.width ≤ blockSize := by simp
  simp only [wide, ↓reduceIte, seen]
  apply Scoped.within_bind
  split
  · exact done
  · trivial

end Bitmap

/-! ## Clients -/

/-- A client of a bitmap: what it does next may depend on what `alloc` has returned so far. -/
inductive BitmapClient where
  /-- Return the bits that are left. -/
  | done
  /-- Call `alloc`, and go on. -/
  | take (next : Option Nat → BitmapClient)
  /-- Call `dealloc` with one of the bits that are left, and go on. -/
  | give (index : Nat) (next : BitmapClient)

/-- The program of a client that has these bits. -/
def BitmapClient.run (bitmap : Bitmap) : BitmapClient → List Nat → Prog (List Nat)
  | .done, kept => .pure kept
  | .take next, kept =>
    bitmap.alloc.bind fun found => (next found).run bitmap (found.toList ++ kept)
  | .give index next, kept =>
    match kept[index]? with
    | none => next.run bitmap kept
    | some bit => (bitmap.dealloc bit).bind fun _ => next.run bitmap (kept.eraseIdx index)

/-- Erasing one of distinct values leaves the others. -/
theorem mem_eraseIdx_iff {kept : List Nat} {index bit other : Nat} (distinct : kept.Nodup)
    (found : kept[index]? = some bit) :
    other ∈ kept.eraseIdx index ↔ other ∈ kept ∧ other ≠ bit := by
  rw [List.mem_eraseIdx_iff_getElem?]
  obtain ⟨below, -⟩ := List.getElem?_eq_some_iff.mp found
  constructor
  · rintro ⟨place, different, isOther⟩
    refine ⟨List.mem_of_getElem? isOther, ?_⟩
    rintro rfl
    exact different ((List.getElem?_inj below distinct).mp (found.trans isOther.symm)).symm
  · rintro ⟨isIn, different⟩
    obtain ⟨place, isOther⟩ := List.getElem?_of_mem isIn
    refine ⟨place, ?_, isOther⟩
    rintro rfl
    exact different (Option.some.inj (isOther.symm.trans found))

/-- A client owns the bits that are left. -/
theorem BitmapClient.owning_run {bitmap : Bitmap} (client : BitmapClient) {kept : List Nat}
    (distinct : kept.Nodup) (inside : ∀ bit ∈ kept, bit < bitmap.totalCount) :
    (client.run bitmap kept).Owning bitmap.marking {bit | bit ∈ kept} fun kept own =>
      kept.Nodup ∧ (∀ bit ∈ kept, bit < bitmap.totalCount) ∧ own = {bit | bit ∈ kept} := by
  induction client generalizing kept with
  | done => exact ⟨distinct, inside, rfl⟩
  | take next ih =>
    apply Scoped.owning_bind
    apply Bitmap.owning_alloc
    · intro bit bounded notOwn
      have more : insert bit {bit | bit ∈ kept} = {other | other ∈ bit :: kept} := by
        ext other
        exact List.mem_cons.symm
      rw [more]
      apply ih (some bit) (List.nodup_cons.mpr ⟨notOwn, distinct⟩)
      intro other otherIn
      rcases List.mem_cons.mp otherIn with rfl | old
      · exact bounded
      · exact inside other old
    · exact ih none distinct inside
  | give index next ih =>
    rw [run]
    cases found : kept[index]? with
    | none => exact ih distinct inside
    | some bit =>
      obtain ⟨below, isBit⟩ := List.getElem?_eq_some_iff.mp found
      have isIn : bit ∈ kept := List.mem_of_getElem? found
      apply Scoped.owning_bind
      apply Bitmap.owning_dealloc isIn
      have fewer : {bit | bit ∈ kept} \ {bit} = {other | other ∈ kept.eraseIdx index} := by
        ext other
        rw [Set.mem_sdiff, Set.mem_singleton_iff]
        exact (mem_eraseIdx_iff distinct found).symm
      rw [fewer]
      apply ih (distinct.eraseIdx index)
      exact fun other otherIn => inside other (List.mem_of_mem_eraseIdx otherIn)

/-- A client is in one scope at a time, on blocks of the bitmap. -/
theorem BitmapClient.within_run {bitmap : Bitmap} {allowed : Nat → Prop}
    (onDevice : ∀ blockId < bitmap.blocks, allowed (blockId + bitmap.startBlockId))
    (client : BitmapClient) {kept : List Nat} (inside : ∀ bit ∈ kept, bit < bitmap.totalCount) :
    (client.run bitmap kept).Within allowed 1 fun _ => True := by
  induction client generalizing kept with
  | done => trivial
  | take next ih =>
    apply Scoped.within_bind
    apply Bitmap.within_alloc onDevice
    · intro bit bounded
      apply ih (some bit)
      intro other otherIn
      rcases List.mem_cons.mp otherIn with rfl | old
      · exact bounded
      · exact inside other old
    · exact ih none inside
  | give index next ih =>
    rw [run]
    cases found : kept[index]? with
    | none => exact ih inside
    | some bit =>
      apply Scoped.within_bind
      apply Bitmap.within_dealloc onDevice (inside bit (List.mem_of_getElem? found))
      exact ih fun other otherIn => inside other (List.mem_of_mem_eraseIdx otherIn)

section Clients

variable {ι : Type} {manager : CacheManager} {store : Nat → Block} {bitmap : Bitmap}

/-- What a client that is done with these bits owns. -/
def BitmapClient.Done (bitmap : Bitmap) (Value : Type) (value : Value) (own : Set Nat) : Prop :=
  ∀ kept : List Nat, HEq value kept →
    kept.Nodup ∧ (∀ bit ∈ kept, bit < bitmap.totalCount) ∧ own = {bit | bit ∈ kept}

/-- Clients that start own nothing. -/
theorem owned_launchJobs (client : ι → BitmapClient) :
    (launchJobs store fun who => (client who).run bitmap []).Owned bitmap.marking
      (bitmap.marking.marked store) (fun _ => BitmapClient.Done bitmap) fun _ => ∅ where
  apart := {
    based := Set.Subset.rfl
    owned := fun _ => Set.empty_subset _
    fresh := fun _ => Set.disjoint_empty _
    disjoint := fun _ _ _ => Set.disjoint_empty _ }
  exclusive := .of_idle fun _ => rfl
  nested := fun _ => trivial
  owning := by
    intro who
    have owning := @BitmapClient.owning_run bitmap (client who) [] List.nodup_nil fun _ => nofun
    have nothing : {bit | bit ∈ ([] : List Nat)} = ∅ := by simp
    rw [nothing] at owning
    apply owning.mono
    intro value own holds kept same
    obtain rfl := eq_of_heq same
    exact holds

/-- When there are no more clients than entries in the cache, and the bitmap lies on the device, no
client panics. -/
theorem unstopped_clients [Fintype ι] [DecidableEq ι] (coherent : manager.Coherent store)
    (idle : manager.handles = []) (client : ι → BitmapClient)
    (onDevice : ∀ blockId < bitmap.blocks,
      blockId + bitmap.startBlockId < manager.device.totalBlocks)
    (few : Fintype.card ι ≤ cacheSize) {crew : Crew cacheThread ι}
    (run : ReflTransGen Crew.Step (launch manager fun who => (client who).run bitmap []) crew)
    (who : ι) (error : Panic) : Control.program (crew.control who) ≠ .fail error := by
  obtain ⟨plain, runs, follows, unstopped, -⟩ :=
    (follows_launch coherent idle _).run_unstopped (fun _ => rfl)
      (fun who => ⟨Nat.zero_le _,
        @BitmapClient.within_run bitmap _ onDevice (client who) [] fun _ => nofun⟩)
      (Nat.mul_one _ ▸ few) run
  obtain ⟨owns, owned⟩ := (owned_launchJobs client).run runs
  intro failed
  have owning := owned.owning who
  rw [unstopped who] at owning
  change (Control.program (crew.control who)).Owning _ _ _ at owning
  rw [failed] at owning
  exact owning

/-- Any number of threads take bits of one bitmap and give back bits of their own, on a block cache
that nobody uses, lock by lock and in any order. A thread that is done has distinct bits of the
bitmap that were not marked at the start and are marked now; two that are done have no bit in
common; and a thread that panics has been stopped by the cache, never by an assertion of the
bitmap, and only if there are more threads than the cache has entries or the bitmap does not lie on
the device. -/
theorem concurrent_allocs_apart [Fintype ι] [DecidableEq ι] (coherent : manager.Coherent store)
    (idle : manager.handles = []) (bitmap : Bitmap) (client : ι → BitmapClient)
    {crew : Crew cacheThread ι}
    (run : ReflTransGen Crew.Step (launch manager fun who => (client who).run bitmap []) crew) :
    (∃ current, crew.shared.Coherent current ∧
      bitmap.marking.marked store ⊆ bitmap.marking.marked current ∧
      ∀ who (kept : List Nat), crew.control who = (⟨.start, .pure kept, .none⟩ : Control) →
        kept.Nodup ∧ ∀ bit ∈ kept, bit < bitmap.totalCount ∧
          bit ∉ bitmap.marking.marked store ∧ bit ∈ bitmap.marking.marked current) ∧
    (∀ left right, left ≠ right → ∀ mine others : List Nat,
      crew.control left = (⟨.start, .pure mine, .none⟩ : Control) →
      crew.control right = (⟨.start, .pure others, .none⟩ : Control) → mine.Disjoint others) ∧
    ∀ who error, Control.program (crew.control who) = .fail error →
      error ∈ CacheManager.panics ∧ (cacheSize < Fintype.card ι ∨
        ∃ blockId < bitmap.blocks, manager.device.totalBlocks ≤ blockId + bitmap.startBlockId) := by
  obtain ⟨plain, runs, follows⟩ := (follows_launch coherent idle _).run run
  obtain ⟨owns, owned⟩ := (owned_launchJobs client).run runs
  have finished : ∀ who (kept : List Nat),
      crew.control who = (⟨.start, .pure kept, .none⟩ : Control) →
      kept.Nodup ∧ (∀ bit ∈ kept, bit < bitmap.totalCount) ∧
        owns who = {bit | bit ∈ kept} := by
    intro who kept isDone
    have owning := owned.owning who
    rw [(follows.shadows who).job_of_done isDone] at owning
    exact owning kept HEq.rfl
  refine ⟨⟨plain.shared, follows.coherent, owned.apart.based, ?_⟩, ?_, ?_⟩
  · intro who kept isDone
    obtain ⟨distinct, inside, isOwn⟩ := finished who kept isDone
    refine ⟨distinct, fun bit bitIn => ⟨inside bit bitIn, ?_, ?_⟩⟩
    · intro wasMarked
      apply Set.disjoint_left.mp (owned.apart.fresh who) wasMarked
      rw [isOwn]
      exact bitIn
    · apply owned.apart.owned who
      rw [isOwn]
      exact bitIn
  · intro left right different mine others leftDone rightDone bit mineIn othersIn
    have apart := owned.apart.disjoint left right different
    rw [(finished left mine leftDone).2.2, (finished right others rightDone).2.2] at apart
    exact Set.disjoint_left.mp apart mineIn othersIn
  · intro who error failed
    refine ⟨?_, ?_⟩
    · rcases (follows.shadows who).job_of_failed failed with isCache | isJob
      · exact isCache
      · have owning := owned.owning who
        rw [isJob] at owning
        exact owning.elim
    · by_contra! ⟨few, onDevice⟩
      exact unstopped_clients coherent idle client onDevice few run who error failed

/-- A thread that takes one bit, and is done. -/
def BitmapClient.takeOne : BitmapClient := .take fun _ => .done

/-- A client that takes one bit gets one while there is one. -/
theorem wp_takeOne {marked : Nat → Bool} {total : Nat} (marks : bitmap.Marks store marked)
    (onDevice : ∀ id, bitmap.Owns id → id < total)
    (room : ∃ bit < bitmap.totalCount, marked bit = false) :
    (BitmapClient.takeOne.run bitmap []).wp (Prog.deviceRules total) []
      (fun kept after => ∃ bit, kept = [bit] ∧
        bitmap.Marks after (Function.update marked bit true))
      (fun _ _ => False) store := by
  apply Scoped.wp_bind.mpr
  apply Bitmap.wp_alloc marks (fun id isOwn => ⟨onDevice id isOwn, List.not_mem_nil⟩)
    (show 0 < 5 by decide)
  · intro bit after _ _ _ marksAfter _
    exact ⟨bit, rfl, marksAfter⟩
  · intro full
    obtain ⟨bit, inside, isFree⟩ := room
    exact absurd (full bit inside) (Bool.eq_false_iff.mp isFree)

/-- Two threads take a bit each, one after the other: the bits differ. -/
theorem concurrent_allocs_apart_two : ∃ (crew : Crew cacheThread Bool) (mine yours : Nat),
    ReflTransGen Crew.Step
      (launch (.new (Disk.new 4)) fun _ => BitmapClient.takeOne.run ⟨1, 2⟩ []) crew ∧
    crew.control true = (⟨.start, .pure [mine], .none⟩ : Control) ∧
    crew.control false = (⟨.start, .pure [yours], .none⟩ : Control) ∧ mine ≠ yours := by
  have onDevice : ∀ id, Bitmap.Owns ⟨1, 2⟩ id → id < 4 := fun id isOwn => by
    have below : id < 1 + 2 := isOwn.2
    omega
  have marks : Bitmap.Marks ⟨1, 2⟩ (Disk.new 4).data fun _ => false :=
    Bitmap.marks_zeros fun _ _ => rfl
  have coherent := CacheManager.Coherent.new (Disk.new 4)
  obtain ⟨first, _, after, runFirst, firstDone, others, coherentAfter, free, total, mine, rfl,
      marksAfter⟩ :=
    @run_of_wp Bool _ (launch (.new (Disk.new 4)) fun _ => BitmapClient.takeOne.run ⟨1, 2⟩ [])
      true _ _ _ _ rfl (fun _ _ => rfl) coherent rfl
      (wp_takeOne marks onDevice ⟨0, by decide, rfl⟩)
  have room : ∃ bit < Bitmap.totalCount ⟨1, 2⟩,
      Function.update (fun _ => false) mine true bit = false := by
    by_cases isFirst : mine = 0
    · exact ⟨1, by decide, Function.update_of_ne (by omega) ..⟩
    · exact ⟨0, by decide, Function.update_of_ne (Ne.symm isFirst) ..⟩
  have idle : ∀ other, other ≠ false → Control.holds (first.control other) = [] := by
    intro other different
    obtain rfl : other = true := Bool.eq_true_of_not_eq_false different
    exact congrArg Control.holds firstDone
  obtain ⟨second, _, _, runSecond, secondDone, kept, -, -, -, yours, rfl, -⟩ :=
    run_of_wp (others false Bool.false_ne_true) idle coherentAfter free
      (wp_takeOne marksAfter (total ▸ onDevice) room)
  have mineDone := (kept true Bool.false_ne_true.symm).trans firstDone
  have run := runFirst.trans runSecond
  refine ⟨second, mine, yours, run, mineDone, secondDone, ?_⟩
  have apart := (concurrent_allocs_apart coherent rfl ⟨1, 2⟩ _ run).2.1 true false
    Bool.false_ne_true.symm _ _ mineDone secondDone
  exact fun same => apart List.mem_cons_self (same ▸ List.mem_cons_self)

end Clients

end Canyon.Fs
