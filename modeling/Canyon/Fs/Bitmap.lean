import Canyon.Lib.Bits
import Canyon.Fs.Layout

/-!
# Bitmaps

`Bitmap` on the blocks that hold it. `Bitmap.Marks` reads the words of these blocks as a set
of marked positions; `alloc` marks the first free one, `dealloc` clears one that is marked,
and `free_count` counts those that are not.
-/

namespace Canyon.Fs

open Canyon.Lib

/-- `u64::MAX`. -/
def u64Max : Nat := 2 ^ 64 - 1

/-- `Bitmap`. -/
structure Bitmap where
  /-- `start_block_id`. -/
  startBlockId : Nat
  /-- `blocks`. -/
  blocks : Nat
  deriving DecidableEq, Repr

/-- `decompose`: the block of a bit, its word in the block and its place in the word. -/
def decompose (bit : Nat) : Nat × Nat × Nat :=
  (bit / blockBits, bit % blockBits / 64, bit % blockBits % 64)

/-- A word of a bitmap block. -/
def BitmapBlock.word (words : BitmapBlock) (position : Nat) : Nat := words[position]?.getD 0

/-- The search in `Bitmap::alloc`: the first word that is not full, and its first clear bit. -/
def BitmapBlock.firstFree (words : BitmapBlock) : Option (Nat × Nat) :=
  (words.toList.findIdx? (· != u64Max)).map fun position =>
    (position, trailingOnes (words.word position))

/-- `bitmap_block[bits64_pos] |= 1u64 << inner_pos`. -/
def BitmapBlock.mark (words : BitmapBlock) (position inner : Nat) : BitmapBlock :=
  words.setIfInBounds position (words.word position ||| 1 <<< inner)

/-- `bitmap_block[bits64_pos] -= 1u64 << inner_pos`. -/
def BitmapBlock.unmark (words : BitmapBlock) (position inner : Nat) : BitmapBlock :=
  words.setIfInBounds position (words.word position - 1 <<< inner)

namespace Bitmap

/-- `Bitmap::total_count`. -/
def totalCount (bitmap : Bitmap) : Nat := bitmap.blocks * blockBits

/-- `Bitmap::free_count`. -/
def freeCount (bitmap : Bitmap) : Prog Nat :=
  (List.range bitmap.blocks).foldlM (fun count blockId => do
    let free ← readAt bitmapBlock (blockId + bitmap.startBlockId) 0 fun words =>
      .pure (words.toList.map fun word => 64 - oneCount word).sum
    return count + free) 0

/-- One round of the loop in `Bitmap::alloc`. -/
def allocIn (bitmap : Bitmap) (blockId : Nat) : Prog (Option Nat) :=
  lockedAt bitmapBlock (blockId + bitmap.startBlockId) 0 fun words =>
    match words.firstFree with
    | some (position, inner) =>
      .pure (some (blockId * blockBits + (position * 64 + inner)),
        some (words.mark position inner))
    | none => .pure (none, none)

/-- The loop in `Bitmap::alloc`, over the blocks still to search. -/
def allocFrom (bitmap : Bitmap) : List Nat → Prog (Option Nat)
  | [] => return none
  | blockId :: rest => do
    match ← bitmap.allocIn blockId with
    | some bit => return some bit
    | none => bitmap.allocFrom rest

/-- `Bitmap::alloc`. -/
def alloc (bitmap : Bitmap) : Prog (Option Nat) :=
  bitmap.allocFrom (List.range bitmap.blocks)

/-- `Bitmap::dealloc`. -/
def dealloc (bitmap : Bitmap) (bit : Nat) : Prog Unit :=
  let (blockPos, position, inner) := decompose bit
  modifyAt bitmapBlock (blockPos + bitmap.startBlockId) 0 fun words =>
    if words.word position &&& 1 <<< inner > 0 then .pure ((), words.unmark position inner)
    else .fail .bitNotSet

end Bitmap

/-! ## Bits of a block -/

namespace BitmapBlock

/-- A bit of a bitmap block. -/
def bit (words : BitmapBlock) (position : Nat) : Bool :=
  (words.word (position / 64)).testBit (position % 64)

variable {words : BitmapBlock} {position inner : Nat}

/-- The words of a block that was read are `u64`s. -/
theorem word_lt (fits : bitmapBlock.Fits words) (position : Nat) :
    words.word position < 2 ^ 64 := by
  unfold word
  cases found : words[position]? with
  | none => exact Nat.two_pow_pos 64
  | some value =>
    obtain ⟨inside, rfl⟩ := Vector.getElem?_eq_some_iff.mp found
    exact fits _ (by simp)

/-- Bits of a word of a block. -/
theorem bit_eq (words : BitmapBlock) (inside : inner < 64) :
    words.bit (position * 64 + inner) = (words.word position).testBit inner := by
  have quotient : (position * 64 + inner) / 64 = position := by omega
  have remainder : (position * 64 + inner) % 64 = inner := by omega
  rw [bit, quotient, remainder]

/-- The words of a block, as a list. -/
theorem getElem_toList (words : BitmapBlock) (inside : position < words.toList.length) :
    words.toList[position] = words.word position := by
  have bound : position < blockSize / 8 := by simpa using inside
  rw [Vector.getElem_toList, word, Vector.getElem?_eq_getElem bound, Option.getD_some]

/-- The search finds the first clear bit. -/
theorem firstFree_some (fits : bitmapBlock.Fits words)
    (found : words.firstFree = some (position, inner)) :
    position < 64 ∧ inner < 64 ∧ words.bit (position * 64 + inner) = false ∧
      ∀ lower < position * 64 + inner, words.bit lower = true := by
  obtain ⟨place, search, pair⟩ := Option.map_eq_some_iff.mp found
  obtain ⟨rfl, rfl⟩ := Prod.mk.inj pair
  obtain ⟨inside, notFull, before⟩ := List.findIdx?_eq_some_iff_getElem.mp search
  rw [getElem_toList, bne_iff_ne] at notFull
  obtain ⟨small, clear, below⟩ := trailingOnes_spec (words.word_lt fits place) notFull
  have bound : place < 64 := by
    rw [Vector.length_toList] at inside
    exact inside
  refine ⟨bound, small, by rw [bit_eq words small, clear], ?_⟩
  intro lower isLower
  by_cases same : lower / 64 = place
  · have decomposed : lower = place * 64 + lower % 64 := by omega
    rw [decomposed, bit_eq words (by omega)]
    exact below _ (by omega)
  · have full := before (lower / 64) (by omega)
    rw [getElem_toList, bne_iff_ne, not_not] at full
    rw [bit, full]
    exact testBit_full (by omega)

/-- The search finds nothing only in a block that is full. -/
theorem firstFree_none (nothing : words.firstFree = none) (inside : position < blockBits) :
    words.bit position = true := by
  have search := List.findIdx?_eq_none_iff.mp (Option.map_eq_none_iff.mp nothing)
  have bound : position / 64 < words.toList.length := by
    have bits : blockBits = 4096 := rfl
    rw [Vector.length_toList]
    show position / 64 < 64
    omega
  have full := search _ (List.getElem_mem bound)
  rw [getElem_toList, bne_eq_false_iff_eq] at full
  rw [bit, full]
  exact testBit_full (by omega)

/-- The words of a block that was changed in one word. -/
theorem word_set (words : BitmapBlock) (inside : position < 64) (value other : Nat) :
    word (words.setIfInBounds position value) other =
      if position = other then value else words.word other := by
  unfold word
  rw [Vector.getElem?_setIfInBounds, if_pos (show position < blockSize / 8 from inside)]
  split <;> rfl

/-- Marking a bit marks that bit and no other. -/
theorem bit_mark (words : BitmapBlock) (inside : position < 64) (small : inner < 64) (other : Nat) :
    (words.mark position inner).bit other =
      (words.bit other || other == position * 64 + inner) := by
  rw [bit, mark, word_set words inside]
  by_cases same : position = other / 64
  · have equal : (inner == other % 64) = (other == position * 64 + inner) := by
      rw [Bool.eq_iff_iff, beq_iff_eq, beq_iff_eq]
      omega
    rw [if_pos same, testBit_setBit, equal, bit, same]
  · have different : (other == position * 64 + inner) = false := by
      rw [beq_eq_false_iff_ne]
      omega
    rw [if_neg same, different, Bool.or_false, bit]

/-- Clearing a bit that is set clears that bit and no other. -/
theorem bit_unmark (words : BitmapBlock) (inside : position < 64) (small : inner < 64)
    (isSet : words.bit (position * 64 + inner) = true) (other : Nat) :
    (words.unmark position inner).bit other =
      (words.bit other && other != position * 64 + inner) := by
  rw [bit_eq words small] at isSet
  rw [bit, unmark, word_set words inside]
  by_cases same : position = other / 64
  · have equal : (other % 64 != inner) = (other != position * 64 + inner) := by
      rw [Bool.eq_iff_iff, bne_iff_ne, bne_iff_ne]
      omega
    rw [if_pos same, testBit_clearBit isSet, equal, bit, same]
  · have different : (other != position * 64 + inner) = true := by
      rw [bne_iff_ne]
      omega
    rw [if_neg same, different, Bool.and_true, bit]

/-- A block survives the disk when its words are `u64`s. -/
theorem fits_of_words (small : ∀ position, words.word position < 2 ^ 64) :
    bitmapBlock.Fits words := by
  intro value valueIn
  obtain ⟨position, inside, rfl⟩ := List.getElem_of_mem valueIn
  rw [getElem_toList]
  exact small position

/-- A marked block survives the disk. -/
theorem fits_mark (fits : bitmapBlock.Fits words) (inside : position < 64) (small : inner < 64) :
    bitmapBlock.Fits (words.mark position inner) := by
  refine fits_of_words fun other => ?_
  rw [mark, word_set words inside]
  split
  · exact setBit_lt (words.word_lt fits position) small
  · exact words.word_lt fits other

/-- A block with a bit cleared survives the disk. -/
theorem fits_unmark (fits : bitmapBlock.Fits words) (inside : position < 64) (inner : Nat) :
    bitmapBlock.Fits (words.unmark position inner) := by
  refine fits_of_words fun other => ?_
  rw [unmark, word_set words inside]
  split
  · exact Nat.lt_of_le_of_lt (Nat.sub_le _ _) (words.word_lt fits position)
  · exact words.word_lt fits other

/-- The free bits of a block, as `free_count` sums them up. -/
theorem sum_free (fits : bitmapBlock.Fits words) :
    (words.toList.map fun word => 64 - oneCount word).sum =
      (List.range blockBits).countP fun position => !words.bit position := by
  have listed : words.toList = (List.range 64).map words.word := by
    refine List.ext_getElem (by simp; rfl) fun position inside _ => ?_
    rw [getElem_toList, List.getElem_map, List.getElem_range]
  have rows := countP_range_mul 64 64 fun position => !words.bit position
  rw [show blockBits = 64 * 64 from rfl, rows, listed, List.map_map]
  refine congrArg List.sum (List.map_congr_left fun position _ => ?_)
  rw [Function.comp, zeroCount_eq (words.word_lt fits position)]
  refine List.countP_congr fun inner innerIn => ?_
  rw [bit_eq words (List.mem_range.mp innerIn)]

end BitmapBlock

/-! ## Marked positions -/

namespace Bitmap

/-- A block belongs to the bitmap. -/
def Owns (bitmap : Bitmap) (id : Nat) : Prop :=
  bitmap.startBlockId ≤ id ∧ id < bitmap.startBlockId + bitmap.blocks

/-- The marks are the lowest positions. -/
def Lowest (marked : Nat → Bool) : Prop :=
  ∀ bit, marked bit = true → ∀ lower < bit, marked lower = true

/-- Marking the first free position keeps the marks lowest. -/
theorem Lowest.mark {marked : Nat → Bool} (lowest : Lowest marked) {bit : Nat}
    (below : ∀ lower < bit, marked lower = true) : Lowest (Function.update marked bit true) := by
  intro place isMarked lower isLower
  by_cases same : lower = bit
  · rw [same, Function.update_self]
  · rw [Function.update_of_ne same]
    by_cases new : place = bit
    · exact below lower (new ▸ isLower)
    · rw [Function.update_of_ne new] at isMarked
      exact lowest place isMarked lower isLower

/-- The bitmap's blocks hold exactly these marks. -/
def Marks (bitmap : Bitmap) (store : Nat → Block) (marked : Nat → Bool) : Prop :=
  ∀ blockId < bitmap.blocks, ∃ words,
    (store (blockId + bitmap.startBlockId)).view bitmapBlock 0 = some words ∧
      ∀ position < blockBits, words.bit position = marked (blockId * blockBits + position)

variable {bitmap : Bitmap} {store : Nat → Block} {marked : Nat → Bool}

/-- The marks depend on the bitmap's blocks only. -/
theorem Marks.congr (marks : bitmap.Marks store marked) {after : Nat → Block}
    (same : ∀ id, bitmap.Owns id → after id = store id) : bitmap.Marks after marked := by
  intro blockId inside
  rw [same _ ⟨by omega, by omega⟩]
  exact marks blockId inside

variable {blockId : Nat} {words : BitmapBlock}

/-- A change of one bit of one block changes the marks at its position only. -/
theorem Marks.change (marks : bitmap.Marks store marked) {spot : Nat} {changed : BitmapBlock}
    (inside : blockId < bitmap.blocks)
    (seen : (store (blockId + bitmap.startBlockId)).view bitmapBlock 0 = some words)
    (column : spot < blockBits) (fits : bitmapBlock.Fits changed) {value : Bool}
    (bits : ∀ place, changed.bit place = if place = spot then value else words.bit place) :
    bitmap.Marks (Function.update store (blockId + bitmap.startBlockId)
        ((store (blockId + bitmap.startBlockId)).patch bitmapBlock 0 changed))
      (Function.update marked (blockId * blockBits + spot) value) := by
  have width : blockBits = 4096 := rfl
  intro other otherInside
  by_cases same : other = blockId
  · subst same
    obtain ⟨_, seenAgain, agree⟩ := marks other inside
    obtain rfl := Option.some.inj (seen.symm.trans seenAgain)
    refine ⟨changed, ?_, ?_⟩
    · rw [Function.update_self]
      exact Block.view_patch _ _ _ _ (by simp) fits
    · intro place placeInside
      rw [bits]
      by_cases hit : place = spot
      · rw [if_pos hit, hit, Function.update_self]
      · rw [if_neg hit, Function.update_of_ne (by omega)]
        exact agree place placeInside
  · obtain ⟨found, foundSeen, agree⟩ := marks other otherInside
    refine ⟨found, ?_, ?_⟩
    · rw [Function.update_of_ne (by omega)]
      exact foundSeen
    · intro place placeInside
      rw [Function.update_of_ne (by rw [width] at column placeInside ⊢; omega)]
      exact agree place placeInside

/-- A new mark: the word of its block changes, and the marks with it. -/
theorem Marks.mark (marks : bitmap.Marks store marked) {position inner : Nat}
    (inside : blockId < bitmap.blocks)
    (seen : (store (blockId + bitmap.startBlockId)).view bitmapBlock 0 = some words)
    (row : position < 64) (column : inner < 64) :
    bitmap.Marks (Function.update store (blockId + bitmap.startBlockId)
        ((store (blockId + bitmap.startBlockId)).patch bitmapBlock 0 (words.mark position inner)))
      (Function.update marked (blockId * blockBits + (position * 64 + inner)) true) := by
  have width : blockBits = 4096 := rfl
  have fits := Block.fits_of_view (by simp) seen
  refine marks.change inside seen (by omega) (words.fits_mark fits row column) fun place => ?_
  rw [words.bit_mark row column]
  by_cases hit : place = position * 64 + inner
  · simp [hit]
  · simp [hit]

/-- A mark taken back: the word of its block changes, and the marks with it. -/
theorem Marks.unmark (marks : bitmap.Marks store marked) {position inner : Nat}
    (inside : blockId < bitmap.blocks)
    (seen : (store (blockId + bitmap.startBlockId)).view bitmapBlock 0 = some words)
    (row : position < 64) (column : inner < 64) (isSet : words.bit (position * 64 + inner) = true) :
    bitmap.Marks (Function.update store (blockId + bitmap.startBlockId)
        ((store (blockId + bitmap.startBlockId)).patch bitmapBlock 0 (words.unmark position inner)))
      (Function.update marked (blockId * blockBits + (position * 64 + inner)) false) := by
  have width : blockBits = 4096 := rfl
  have fits := Block.fits_of_view (by simp) seen
  refine marks.change inside seen (by omega) (words.fits_unmark fits row inner) fun place => ?_
  rw [words.bit_unmark row column isSet]
  by_cases hit : place = position * 64 + inner
  · simp [hit]
  · simp [hit]

/-- A bit that is clear in the words of its block. -/
theorem Marks.word_eq_zero (marks : bitmap.Marks store marked) {bit : Nat}
    (inside : bit < bitmap.totalCount) (clear : marked bit = false)
    (seen : (store (bit / blockBits + bitmap.startBlockId)).view bitmapBlock 0 = some words) :
    words.word (bit % blockBits / 64) &&& 1 <<< (bit % blockBits % 64) = 0 := by
  have bits : blockBits = 4096 := rfl
  have row : bit / blockBits < bitmap.blocks :=
    Nat.div_lt_of_lt_mul (by rwa [totalCount, Nat.mul_comm] at inside)
  obtain ⟨found, foundSeen, agree⟩ := marks _ row
  obtain rfl := Option.some.inj (seen.symm.trans foundSeen)
  have place := agree (bit % blockBits) (Nat.mod_lt _ (by decide))
  have whole : bit / blockBits * blockBits + bit % blockBits = bit := Nat.div_add_mod' ..
  rw [whole, clear, BitmapBlock.bit] at place
  rw [Nat.one_shiftLeft, Nat.and_two_pow, place]
  simp

section Rules

variable {rules : Scoped.Discipline Nat} {held : List Nat}
  {failed : Panic → (Nat → Block) → Prop}

/-- One round of `alloc` marks the first free bit of its block, or finds the block full. -/
theorem wp_allocIn (marks : bitmap.Marks store marked) {blockId : Nat}
    (inside : blockId < bitmap.blocks)
    (admits : rules.Admits held (blockId + bitmap.startBlockId))
    {post : Option Nat → (Nat → Block) → Prop}
    (found : ∀ position after, position < blockBits →
      marked (blockId * blockBits + position) = false →
      (∀ lower < position, marked (blockId * blockBits + lower) = true) →
      bitmap.Marks after (Function.update marked (blockId * blockBits + position) true) →
      (∀ id, ¬bitmap.Owns id → after id = store id) →
      post (some (blockId * blockBits + position)) after)
    (full : (∀ position < blockBits, marked (blockId * blockBits + position) = true) →
      post none store) :
    (bitmap.allocIn blockId).wp rules held post failed store := by
  have bits : blockBits = 4096 := rfl
  obtain ⟨words, seen, agree⟩ := marks blockId inside
  have fits := Block.fits_of_view (by simp) seen
  refine wp_lockedAt (by simp) seen admits ?_
  cases search : words.firstFree with
  | none =>
    refine full fun position positionInside => ?_
    rw [← agree position positionInside]
    exact words.firstFree_none search positionInside
  | some place =>
    obtain ⟨position, inner⟩ := place
    obtain ⟨row, column, clear, below⟩ := words.firstFree_some fits search
    refine found (position * 64 + inner) _ (by omega) ?_ ?_ (marks.mark inside seen row column) ?_
    · rw [← agree _ (by omega)]
      exact clear
    · intro lower isLower
      rw [← agree _ (by omega)]
      exact below lower isLower
    · intro id outside
      have different : id ≠ blockId + bitmap.startBlockId := by
        rintro rfl
        exact outside ⟨by omega, by omega⟩
      exact Function.update_of_ne different _ _

/-- `alloc` marks the first free position, or finds the bitmap full. -/
theorem wp_alloc (marks : bitmap.Marks store marked)
    (free : ∀ id, bitmap.Owns id → rules.Valid id ∧ id ∉ held)
    (room : held.length < rules.limit) {post : Option Nat → (Nat → Block) → Prop}
    (found : ∀ bit after, bit < bitmap.totalCount → marked bit = false →
      (∀ lower < bit, marked lower = true) →
      bitmap.Marks after (Function.update marked bit true) →
      (∀ id, ¬bitmap.Owns id → after id = store id) → post (some bit) after)
    (full : (∀ bit < bitmap.totalCount, marked bit = true) → post none store) :
    bitmap.alloc.wp rules held post failed store := by
  have bits : blockBits = 4096 := rfl
  suffices search : ∀ count blockId, blockId + count = bitmap.blocks →
      (∀ bit < blockId * blockBits, marked bit = true) →
      (bitmap.allocFrom (List.range' blockId count)).wp rules held post failed store by
    rw [alloc, List.range_eq_range']
    exact search bitmap.blocks 0 (by omega) (by simp)
  intro count
  induction count with
  | zero =>
    intro blockId whole below
    refine full fun bit inside => below bit ?_
    rw [totalCount, ← whole] at inside
    exact inside
  | succ count ih =>
    intro blockId whole below
    have own := free (blockId + bitmap.startBlockId) ⟨by omega, by omega⟩
    refine Scoped.wp_bind.mpr
      (wp_allocIn marks (by omega) ⟨own.1, own.2, room⟩ ?_ ?_)
    · intro position after inside clear lower marksAfter frame
      have bounded : blockId * blockBits + position < bitmap.totalCount := by
        rw [totalCount, bits, ← whole]
        omega
      refine found _ after bounded clear (fun bit isLower => ?_) marksAfter frame
      by_cases earlier : bit < blockId * blockBits
      · exact below bit earlier
      · have place := lower (bit - blockId * blockBits) (by omega)
        rwa [Nat.add_sub_cancel' (by omega)] at place
    · intro rowFull
      refine ih (blockId + 1) (by omega) fun bit isLower => ?_
      by_cases earlier : bit < blockId * blockBits
      · exact below bit earlier
      · have place := rowFull (bit - blockId * blockBits) (by rw [Nat.succ_mul] at isLower; omega)
        rwa [Nat.add_sub_cancel' (by omega)] at place

/-- `dealloc` of a position that is not marked trips its assertion. -/
theorem wp_dealloc_clear (marks : bitmap.Marks store marked) {bit : Nat}
    (inside : bit < bitmap.totalCount) (clear : marked bit = false)
    (admits : rules.Admits held (bit / blockBits + bitmap.startBlockId))
    {post : Unit → (Nat → Block) → Prop} (goal : failed .bitNotSet store) :
    (bitmap.dealloc bit).wp rules held post failed store := by
  have row : bit / blockBits < bitmap.blocks :=
    Nat.div_lt_of_lt_mul (by rwa [totalCount, Nat.mul_comm] at inside)
  obtain ⟨words, seen, -⟩ := marks _ row
  unfold dealloc decompose
  refine wp_modifyAt (by simp) seen admits ?_
  have zero := marks.word_eq_zero inside clear seen
  rw [if_neg (by omega)]
  exact goal

/-- `dealloc` of a position that is marked takes that mark back. -/
theorem wp_dealloc (marks : bitmap.Marks store marked) {bit : Nat}
    (inside : bit < bitmap.totalCount) (isSet : marked bit = true)
    (admits : rules.Admits held (bit / blockBits + bitmap.startBlockId))
    {post : Unit → (Nat → Block) → Prop}
    (goal : ∀ after, bitmap.Marks after (Function.update marked bit false) →
      (∀ id, ¬bitmap.Owns id → after id = store id) → post () after) :
    (bitmap.dealloc bit).wp rules held post failed store := by
  have width : blockBits = 4096 := rfl
  have row : bit / blockBits < bitmap.blocks :=
    Nat.div_lt_of_lt_mul (by rwa [totalCount, Nat.mul_comm] at inside)
  obtain ⟨words, seen, agree⟩ := marks _ row
  -- The place of the bit in its block, by `decompose` and as one number.
  have place : bit % blockBits / 64 * 64 + bit % blockBits % 64 = bit % blockBits := by omega
  have whole : bit / blockBits * blockBits + bit % blockBits = bit := Nat.div_add_mod' ..
  have found := agree (bit % blockBits) (Nat.mod_lt _ (by decide))
  rw [whole, isSet] at found
  have low : bit % blockBits < 4096 := Nat.mod_lt _ (by decide)
  have cleared := marks.unmark row seen (show bit % blockBits / 64 < 64 by omega)
    (show bit % blockBits % 64 < 64 by omega) (by rw [place]; exact found)
  rw [place, whole] at cleared
  unfold dealloc decompose
  refine wp_modifyAt (by simp) seen admits ?_
  have positive : 0 < words.word (bit % blockBits / 64) &&& 1 <<< (bit % blockBits % 64) := by
    have testBit : (words.word (bit % blockBits / 64)).testBit (bit % blockBits % 64) = true :=
      found
    rw [Nat.one_shiftLeft, Nat.and_two_pow, testBit, Bool.toNat_true, Nat.one_mul]
    exact Nat.two_pow_pos _
  rw [if_pos positive]
  refine goal _ cleared fun id outside => Function.update_of_ne ?_ _ _
  rintro rfl
  exact outside ⟨Nat.le_add_left _ _, by omega⟩

/-- `free_count` counts the positions that are not marked. -/
theorem wp_freeCount (marks : bitmap.Marks store marked)
    (free : ∀ id, bitmap.Owns id → rules.Valid id ∧ id ∉ held)
    (room : held.length < rules.limit) {post : Nat → (Nat → Block) → Prop}
    (goal : post ((List.range bitmap.totalCount).countP fun bit => !marked bit) store) :
    bitmap.freeCount.wp rules held post failed store := by
  refine Scoped.wp_foldlM (fun done count after => store = after ∧ count =
    (done.map fun blockId => (List.range blockBits).countP fun position =>
      !marked (blockId * blockBits + position)).sum) ⟨rfl, by simp⟩ ?_ ?_
  · rintro done blockId rest count _ whole ⟨rfl, rfl⟩
    have inside : blockId < bitmap.blocks := by
      rw [← List.mem_range, whole]
      simp
    have own := free (blockId + bitmap.startBlockId) ⟨by omega, by omega⟩
    obtain ⟨words, seen, agree⟩ := marks blockId inside
    refine Scoped.wp_bind.mpr (wp_readAt (by simp) seen ⟨own.1, own.2, room⟩ ⟨rfl, ?_⟩)
    rw [List.map_append, List.sum_append, List.map_singleton, List.sum_singleton,
      words.sum_free (Block.fits_of_view (by simp) seen)]
    refine congrArg _ (List.countP_congr fun position positionIn => ?_)
    rw [agree position (List.mem_range.mp positionIn)]
  · rintro count _ ⟨rfl, rfl⟩
    rw [totalCount, countP_range_mul bitmap.blocks blockBits fun bit => !marked bit] at goal
    exact goal

end Rules

end Bitmap

end Canyon.Fs
