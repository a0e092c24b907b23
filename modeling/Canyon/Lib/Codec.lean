import Mathlib.Algebra.Group.Nat.Defs
import Mathlib.Data.List.Basic

/-!
# Values at fixed places in memory

A codec says how a value of a type lies in a fixed number of bytes. Bytes need not hold
every value of the type, nor hold one at all: `Codec.Fits` names the values that survive
writing, and reading bytes that no value writes may fail. Words are little endian, and the
fields of a record follow one another without gaps.
-/

namespace Canyon.Lib

/-- Base-256 digits of a number, least significant first; higher digits are cut off. -/
def leBytes : Nat → Nat → List UInt8
  | 0, _ => []
  | width + 1, value => UInt8.ofNat (value % 256) :: leBytes width (value / 256)

/-- The number with these base-256 digits, least significant first. -/
def leValue : List UInt8 → Nat
  | [] => 0
  | digit :: rest => digit.toNat + 256 * leValue rest

/-- A word has as many digits as asked for. -/
@[simp] theorem length_leBytes (width value : Nat) : (leBytes width value).length = width := by
  induction width generalizing value with
  | zero => rfl
  | succ width ih => simp [leBytes, ih]

/-- Digits below the width stand for a number below its power. -/
theorem leValue_lt (digits : List UInt8) : leValue digits < 256 ^ digits.length := by
  induction digits with
  | nil => decide
  | cons digit rest ih =>
    have small := digit.toNat_lt
    simp only [leValue, List.length_cons, Nat.pow_succ]
    omega

/-- The digits of a number that fits the width stand for that number. -/
theorem leValue_leBytes {width value : Nat} (fits : value < 256 ^ width) :
    leValue (leBytes width value) = value := by
  induction width generalizing value with
  | zero =>
    have zero : value = 0 := by simpa using fits
    subst zero
    rfl
  | succ width ih =>
    have higher : value / 256 < 256 ^ width := by
      rw [Nat.div_lt_iff_lt_mul (by decide)]
      simpa [Nat.pow_succ] using fits
    have digit : (UInt8.ofNat (value % 256)).toNat = value % 256 := by
      simp only [UInt8.toNat_ofNat']
      omega
    simp only [leBytes, leValue, digit, ih higher]
    omega

/-- A type's layout in a fixed number of bytes. -/
structure Codec (α : Type) where
  /-- Bytes a value takes. -/
  width : Nat
  /-- Bytes written for a value. -/
  encode : α → List UInt8
  /-- Value that the bytes of one place stand for. -/
  decode : List UInt8 → Option α
  /-- Values that their bytes hold. -/
  Fits : α → Prop
  /-- A value takes exactly the width. -/
  length_encode : ∀ value, (encode value).length = width
  /-- A value that fits is read back. -/
  decode_encode : ∀ value, Fits value → decode (encode value) = some value
  /-- Whatever is read fits. -/
  fits_of_decode : ∀ bytes value, bytes.length = width → decode bytes = some value → Fits value

namespace Codec

variable {α β : Type}

/-- An unsigned word of a number of bytes. -/
def word (bytes : Nat) : Codec Nat where
  width := bytes
  encode value := leBytes bytes value
  decode stored := some (leValue stored)
  Fits value := value < 256 ^ bytes
  length_encode value := length_leBytes bytes value
  decode_encode value fits := by rw [leValue_leBytes fits]
  fits_of_decode stored value length read := by
    rw [← Option.some.inj read, ← length]
    exact leValue_lt stored

/-- One byte. -/
def byte : Codec UInt8 where
  width := 1
  encode value := [value]
  decode stored := stored.head?
  Fits _ := True
  length_encode _ := rfl
  decode_encode _ _ := rfl
  fits_of_decode _ _ _ _ := trivial

/-- Two fields, one after the other. -/
def pair (left : Codec α) (right : Codec β) : Codec (α × β) where
  width := left.width + right.width
  encode value := left.encode value.1 ++ right.encode value.2
  decode stored := do
    let first ← left.decode (stored.take left.width)
    let second ← right.decode (stored.drop left.width)
    some (first, second)
  Fits value := left.Fits value.1 ∧ right.Fits value.2
  length_encode value := by simp [left.length_encode, right.length_encode]
  decode_encode value fits := by
    have cut := left.length_encode value.1
    simp [← cut, left.decode_encode _ fits.1, right.decode_encode _ fits.2]
  fits_of_decode stored value length read := by
    cases first : left.decode (stored.take left.width) with
    | none => simp [first] at read
    | some leading =>
      cases second : right.decode (stored.drop left.width) with
      | none => simp [first, second] at read
      | some trailing =>
        simp only [first, second, bind, Option.bind, Option.some.injEq] at read
        subst read
        exact ⟨left.fits_of_decode _ _ (by simp; omega) first,
          right.fits_of_decode _ _ (by simp; omega) second⟩

/-- A type whose values are stored as values of another. Reading may refuse a stored value
that stands for none. -/
def refine (stored : Codec α) (pack : α → Option β) (unpack : β → α)
    (inverse : ∀ value, pack (unpack value) = some value)
    (sound : ∀ raw value, pack raw = some value → stored.Fits raw → stored.Fits (unpack value)) :
    Codec β where
  width := stored.width
  encode value := stored.encode (unpack value)
  decode bytes := (stored.decode bytes).bind pack
  Fits value := stored.Fits (unpack value)
  length_encode value := stored.length_encode (unpack value)
  decode_encode value fits := by simp [stored.decode_encode _ fits, inverse]
  fits_of_decode bytes value length read := by
    obtain ⟨raw, rawRead, packed⟩ := Option.bind_eq_some_iff.mp read
    exact sound raw value packed (stored.fits_of_decode bytes raw length rawRead)

/-- Read a number of values that follow one another. -/
def decodeMany (codec : Codec α) : Nat → List UInt8 → Option (List α)
  | 0, _ => some []
  | count + 1, stored => do
    let first ← codec.decode (stored.take codec.width)
    let rest ← codec.decodeMany count (stored.drop codec.width)
    some (first :: rest)

/-- Values written one after the other are read back. -/
theorem decodeMany_encode (codec : Codec α) {values : List α}
    (fits : ∀ value ∈ values, codec.Fits value) :
    codec.decodeMany values.length (values.flatMap codec.encode) = some values := by
  induction values with
  | nil => rfl
  | cons value rest ih =>
    have cut := codec.length_encode value
    have tail := ih fun other otherIn => fits other (List.mem_cons_of_mem _ otherIn)
    simp [decodeMany, ← cut, codec.decode_encode _ (fits value List.mem_cons_self), tail]

/-- Values without invalid bytes are always read. -/
theorem exists_decodeMany (codec : Codec α)
    (total : ∀ stored, ∃ value, codec.decode stored = some value) (count : Nat)
    (stored : List UInt8) :
    ∃ values, codec.decodeMany count stored = some values ∧ values.length = count := by
  induction count generalizing stored with
  | zero => exact ⟨[], rfl, rfl⟩
  | succ count ih =>
    obtain ⟨first, firstRead⟩ := total (stored.take codec.width)
    obtain ⟨rest, restRead, length⟩ := ih (stored.drop codec.width)
    refine ⟨first :: rest, ?_, by rw [List.length_cons, length]⟩
    simp only [decodeMany, firstRead, restRead, bind, Option.bind]

/-- Values read from places of the right size all fit. -/
theorem fits_of_decodeMany (codec : Codec α) {count : Nat} {stored : List UInt8}
    {values : List α} (length : stored.length = count * codec.width)
    (read : codec.decodeMany count stored = some values) :
    ∀ value ∈ values, codec.Fits value := by
  induction count generalizing stored values with
  | zero =>
    simp only [decodeMany, Option.some.injEq] at read
    subst read
    simp
  | succ count ih =>
    rw [Nat.succ_mul] at length
    cases first : codec.decode (stored.take codec.width) with
    | none => simp [decodeMany, first] at read
    | some leading =>
      cases tail : codec.decodeMany count (stored.drop codec.width) with
      | none => simp [decodeMany, first, tail] at read
      | some rest =>
        simp only [decodeMany, first, tail, bind, Option.bind, Option.some.injEq] at read
        subst read
        intro value valueIn
        rcases List.mem_cons.mp valueIn with rfl | later
        · exact codec.fits_of_decode _ _ (by simp; omega) first
        · exact ih (by simp; omega) tail value later

/-- A fixed number of values, one after the other. -/
def array (codec : Codec α) (count : Nat) : Codec (Vector α count) where
  width := count * codec.width
  encode values := values.toList.flatMap codec.encode
  decode stored := (codec.decodeMany count stored).bind fun values =>
    if sized : values.length = count then some ⟨values.toArray, by simpa using sized⟩ else none
  Fits values := ∀ value ∈ values.toList, codec.Fits value
  length_encode values := by
    simp [List.length_flatMap, codec.length_encode, List.map_const']
  decode_encode values fits := by
    have read := codec.decodeMany_encode fits
    rw [Vector.length_toList] at read
    simp only [read, Option.bind_some, Vector.length_toList, ↓reduceDIte, Option.some.injEq]
    rfl
  fits_of_decode stored values length read := by
    obtain ⟨list, listRead, packed⟩ := Option.bind_eq_some_iff.mp read
    split at packed
    · rw [← Option.some.inj packed]
      simpa using codec.fits_of_decodeMany length listRead
    · cases packed

end Codec

end Canyon.Lib
