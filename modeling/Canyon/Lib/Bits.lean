import Mathlib.Data.Nat.Bitwise
import Mathlib.Data.List.Range

/-!
# Counting and searching bits

Bits of a number by position, least significant first: how many are set, which one is the
first that is clear, and what setting or clearing one does to the others.
-/

namespace Canyon.Lib

/-- Number of set bits, counted from the lowest. -/
def oneCount (number : Nat) : Nat :=
  if number = 0 then 0 else number % 2 + oneCount (number / 2)

/-- Number of set bits below the first clear one. -/
def trailingOnes (number : Nat) : Nat :=
  if number % 2 = 1 then trailingOnes (number / 2) + 1 else 0

/-- The set bits are the lowest one and those of the half. -/
theorem oneCount_half (number : Nat) : oneCount number = number % 2 + oneCount (number / 2) := by
  rw [oneCount]
  split
  · next zero =>
    rw [zero, oneCount]
    rfl
  · rfl

variable {width number bit : Nat}

/-- The set bits of a number of a given width are counted position by position. -/
theorem oneCount_eq (fits : number < 2 ^ width) :
    oneCount number = (List.range width).countP number.testBit := by
  induction width generalizing number with
  | zero =>
    have zero : number = 0 := by simpa using fits
    rw [zero, oneCount]
    rfl
  | succ width ih =>
    have half : number / 2 < 2 ^ width := by
      rw [Nat.pow_succ] at fits
      omega
    have higher : (List.range width).countP (number.testBit ∘ Nat.succ) =
        (List.range width).countP (number / 2).testBit :=
      List.countP_congr fun position _ => by simp [Nat.testBit_succ]
    rw [List.range_succ_eq_map, List.countP_cons, List.countP_map, higher, ← ih half]
    rw [oneCount_half]
    rcases Nat.mod_two_eq_zero_or_one number with even | odd
    · simp [Nat.testBit_zero, even]
    · simp [Nat.testBit_zero, odd, Nat.add_comm]

/-- A number of a given width that is not all ones has a clear bit within the width, and
every bit below the first clear one is set. -/
theorem trailingOnes_spec (fits : number < 2 ^ width) (notFull : number ≠ 2 ^ width - 1) :
    trailingOnes number < width ∧ number.testBit (trailingOnes number) = false ∧
      ∀ position < trailingOnes number, number.testBit position = true := by
  induction width generalizing number with
  | zero => simp at fits notFull; omega
  | succ width ih =>
    have power := Nat.pow_succ 2 width
    have positive := Nat.two_pow_pos width
    by_cases odd : number % 2 = 1
    · have halfFits : number / 2 < 2 ^ width := by omega
      obtain ⟨inside, clear, below⟩ := ih halfFits (by omega)
      rw [trailingOnes, if_pos odd]
      refine ⟨by omega, by rw [Nat.testBit_succ]; exact clear, ?_⟩
      intro position lower
      cases position with
      | zero => simp [Nat.testBit_zero, odd]
      | succ position =>
        rw [Nat.testBit_succ]
        exact below position (by omega)
    · rw [trailingOnes, if_neg odd]
      exact ⟨by omega, by simpa [Nat.testBit_zero] using odd, by omega⟩

/-- The clear bits of a number of a given width are counted position by position. -/
theorem zeroCount_eq (fits : number < 2 ^ width) :
    width - oneCount number =
      (List.range width).countP fun position => !number.testBit position := by
  have parts : (List.range width).length = (List.range width).countP number.testBit +
      (List.range width).countP fun position => decide ¬number.testBit position = true :=
    List.length_eq_countP_add_countP number.testBit
  have clear : ((List.range width).countP fun position => !number.testBit position) =
      (List.range width).countP fun position => decide ¬number.testBit position = true :=
    List.countP_congr fun position _ => by simp
  rw [List.length_range, ← oneCount_eq fits] at parts
  omega

/-- Positions of a range of rows are counted row by row. -/
theorem countP_range_mul (rows width : Nat) (marked : Nat → Bool) :
    (List.range (rows * width)).countP marked = ((List.range rows).map fun row =>
      (List.range width).countP fun column => marked (row * width + column)).sum := by
  induction rows with
  | zero => simp
  | succ rows ih =>
    rw [Nat.succ_mul, List.range_add, List.countP_append, ih, List.countP_map, List.range_succ,
      List.map_append, List.sum_append, List.map_singleton, List.sum_singleton]
    rfl

/-- A new mark counts once. -/
theorem countP_range_update {marked : Nat → Bool} (clear : marked bit = false) {total : Nat}
    (inside : bit < total) :
    (List.range total).countP (Function.update marked bit true) =
      (List.range total).countP marked + 1 := by
  have below : ∀ width ≤ bit, (List.range width).countP (Function.update marked bit true) =
      (List.range width).countP marked := by
    intro width order
    refine List.countP_congr fun place placeIn => ?_
    rw [List.mem_range] at placeIn
    rw [Function.update_of_ne (by omega)]
  induction total with
  | zero => omega
  | succ total ih =>
    rw [List.range_succ, List.countP_append, List.countP_append]
    by_cases last : bit = total
    · subst last
      rw [below bit (Nat.le_refl bit)]
      simp [clear]
    · rw [ih (by omega)]
      have same : Function.update marked bit true total = marked total :=
        Function.update_of_ne (Ne.symm last) _ _
      simp only [List.countP_singleton, same]
      omega

/-- Marks that are closed downwards are as many as the lowest position without one. -/
theorem lt_countP_range_iff {marked : Nat → Bool}
    (closed : ∀ bit, marked bit = true → ∀ lower < bit, marked lower = true) {total : Nat}
    (inside : bit < total) : bit < (List.range total).countP marked ↔ marked bit = true := by
  induction total with
  | zero => omega
  | succ total ih =>
    rw [List.range_succ, List.countP_append, List.countP_singleton]
    have few : (List.range total).countP marked ≤ total := by
      have length := List.countP_le_length (p := marked) (l := List.range total)
      rwa [List.length_range] at length
    by_cases last : marked total = true
    · have full : (List.range total).countP marked = total := by
        have all := List.countP_eq_length.mpr fun lower lowerIn =>
          closed total last lower (List.mem_range.mp lowerIn)
        rwa [List.length_range] at all
      rw [if_pos last, full]
      refine iff_of_true inside ?_
      by_cases same : bit = total
      · rwa [same]
      · exact closed total last bit (by omega)
    · rw [if_neg last, Nat.add_zero]
      by_cases same : bit = total
      · subst same
        exact iff_of_false (by omega) last
      · exact ih (by omega)

/-- All bits of a number that is all ones are set. -/
theorem testBit_full {position : Nat} (inside : position < width) :
    (2 ^ width - 1).testBit position = true := by
  simpa [Nat.testBit_two_pow_sub_one] using inside

/-- Setting a bit sets that bit and no other. -/
theorem testBit_setBit (number bit position : Nat) :
    (number ||| 1 <<< bit).testBit position = (number.testBit position || bit == position) := by
  rw [Nat.testBit_or, Nat.one_shiftLeft, Nat.testBit_two_pow]
  simp [BEq.beq]

/-- Setting a bit within the width keeps the number within it. -/
theorem setBit_lt (fits : number < 2 ^ width) (inside : bit < width) :
    number ||| 1 <<< bit < 2 ^ width := by
  rw [Nat.one_shiftLeft]
  exact Nat.or_lt_two_pow fits (Nat.pow_lt_pow_right (by decide) inside)

/-- Subtracting the value of a bit that is set clears that bit and no other. -/
theorem testBit_clearBit (isSet : number.testBit bit = true) (position : Nat) :
    (number - 1 <<< bit).testBit position = (number.testBit position && position != bit) := by
  rw [Nat.one_shiftLeft]
  induction bit generalizing number position with
  | zero =>
    have odd : number % 2 = 1 := by simpa [Nat.testBit_zero] using isSet
    cases position with
    | zero =>
      have even : (number - 1) % 2 = 0 := by omega
      simp [Nat.testBit_zero, even]
    | succ position =>
      have half : (number - 2 ^ 0) / 2 = number / 2 := by omega
      rw [Nat.testBit_succ, Nat.testBit_succ, half]
      simp
  | succ bit ih =>
    rw [Nat.testBit_succ] at isSet
    have power : 2 ^ (bit + 1) = 2 * 2 ^ bit := by omega
    have large : 2 ^ bit ≤ number / 2 := Nat.ge_two_pow_of_testBit isSet
    cases position with
    | zero =>
      have same : (number - 2 ^ (bit + 1)) % 2 = number % 2 := by omega
      simp [Nat.testBit_zero, same]
    | succ position =>
      have half : (number - 2 ^ (bit + 1)) / 2 = number / 2 - 2 ^ bit := by omega
      rw [Nat.testBit_succ, half, ih isSet, Nat.testBit_succ]
      simp [bne]

end Canyon.Lib
