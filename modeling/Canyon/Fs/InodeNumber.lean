import Mathlib.Tactic
import Canyon.Lib.Codec

/-!
# Inode numbers in directories

A directory's contents are the inode numbers of its children, each in ten bytes without a
zero, with a zero between them. The encoding keeps the eight bytes of a number, puts 255 where
one is zero and says in a ninth byte where that happened; the tenth says whether the ninth
counts.
-/

namespace Canyon.Fs

open Canyon.Lib

/-- The flag that `inode_number_binary` collects: bit `i` is set when byte `i` is zero. -/
def zeroFlag (flag position : Nat) : List UInt8 → Nat
  | [] => flag
  | byte :: rest =>
    zeroFlag (if byte = 0 then flag + 1 <<< position else flag) (position + 1) rest

/-- The bytes of `inode_number_binary`, with 255 for zero. -/
def escapeZeros (bytes : List UInt8) : List UInt8 :=
  bytes.map fun byte => if byte = 0 then 255 else byte

/-- `inode_number_binary`. -/
def inodeNumberBinary (inodeNumber : Nat) : List UInt8 :=
  let bytes := leBytes 8 inodeNumber
  let flag := zeroFlag 0 0 bytes
  escapeZeros bytes ++ if flag = 0 then [255, 20] else [UInt8.ofNat flag, 10]

/-- The bytes of `inode_number_from`, with zero where the flag says so. -/
def restoreZeros (flag position : Nat) : List UInt8 → List UInt8
  | [] => []
  | byte :: rest =>
    (if (flag &&& 1 <<< position) >>> position = 0 then byte else 0) ::
      restoreZeros flag (position + 1) rest

/-- `inode_number_from`. -/
def inodeNumberFrom (array : List UInt8) : Nat :=
  let flag := if array.getD 9 0 = 20 then 0 else (array.getD 8 0).toNat
  leValue (restoreZeros flag 0 (array.take 8))

/-- Whether a byte is zero, as a bit of the flag. -/
def zeroBits : List UInt8 → Nat
  | [] => 0
  | byte :: rest => (if byte = 0 then 1 else 0) + 2 * zeroBits rest

/-- The flag is the number with these bits. -/
theorem zeroFlag_eq (bytes : List UInt8) (flag position : Nat) :
    zeroFlag flag position bytes = flag + 2 ^ position * zeroBits bytes := by
  induction bytes generalizing flag position with
  | nil => rfl
  | cons byte rest ih =>
    rw [zeroFlag, ih, zeroBits, Nat.pow_succ]
    split
    · rw [Nat.one_shiftLeft]
      ring
    · ring

/-- The bits of so many bytes. -/
theorem zeroBits_lt (bytes : List UInt8) : zeroBits bytes < 2 ^ bytes.length := by
  induction bytes with
  | nil => decide
  | cons byte rest ih =>
    rw [zeroBits, List.length_cons, Nat.pow_succ]
    split <;> omega

/-- The flag of up to eight bytes is a byte. -/
theorem zeroFlag_lt {bytes : List UInt8} (few : bytes.length ≤ 8) : zeroFlag 0 0 bytes < 256 := by
  have bits := zeroBits_lt bytes
  have bound : 2 ^ bytes.length ≤ 2 ^ 8 := Nat.pow_le_pow_right (by decide) few
  rw [zeroFlag_eq]
  omega

/-- A masked and shifted bit is clear exactly when the bit is. -/
theorem masked_eq_zero (flag position : Nat) :
    (flag &&& 1 <<< position) >>> position = 0 ↔ flag.testBit position = false := by
  rw [Nat.shiftRight_and_distrib, Nat.shiftLeft_shiftRight, Nat.and_comm, Nat.testBit,
    bne_eq_false_iff_eq]

/-- Bytes whose zeros are replaced and flagged are restored. -/
theorem restoreZeros_escapeZeros (bytes : List UInt8) (flag position : Nat)
    (agree : ∀ offset, (offset < bytes.length →
      flag.testBit (position + offset) = (zeroBits bytes).testBit offset)) :
    restoreZeros flag position (escapeZeros bytes) = bytes := by
  induction bytes generalizing position with
  | nil => rfl
  | cons byte rest ih =>
    have head := agree 0 (by simp)
    have low : (zeroBits (byte :: rest)).testBit 0 = decide (byte = 0) := by
      rw [zeroBits, Nat.testBit_zero]
      split <;> simp_all
    have later := ih (position + 1) fun offset inside => by
      have shifted := agree (offset + 1) (by simpa using inside)
      have half : zeroBits (byte :: rest) / 2 = zeroBits rest := by
        rw [zeroBits]
        split <;> omega
      rw [Nat.testBit_succ, half] at shifted
      rwa [Nat.add_assoc, Nat.add_comm 1 offset]
    rw [Nat.add_zero, low] at head
    simp only [escapeZeros, List.map_cons, restoreZeros, masked_eq_zero, head]
    rw [escapeZeros] at later
    rw [later]
    by_cases zero : byte = 0 <;> simp [zero]

/-- An encoded number takes ten bytes. -/
@[simp] theorem length_inodeNumberBinary (inodeNumber : Nat) :
    (inodeNumberBinary inodeNumber).length = 10 := by
  simp only [inodeNumberBinary, List.length_append, escapeZeros, List.length_map, length_leBytes]
  split <;> rfl

/-- No byte of an encoded number is zero. -/
theorem nonzero_inodeNumberBinary (inodeNumber : Nat) :
    ∀ byte ∈ inodeNumberBinary inodeNumber, byte ≠ 0 := by
  intro byte byteIn
  rcases List.mem_append.mp byteIn with inside | flagged
  · obtain ⟨original, -, rfl⟩ := List.mem_map.mp inside
    split
    · decide
    · assumption
  · split at flagged
    · rcases List.mem_cons.mp flagged with rfl | last
      · decide
      · rw [List.mem_singleton.mp last]
        decide
    · next positive =>
      rcases List.mem_cons.mp flagged with rfl | last
      · have small := zeroFlag_lt (length_leBytes 8 inodeNumber).le
        intro zero
        have value := congrArg UInt8.toNat zero
        rw [UInt8.toNat_ofNat_of_lt' small] at value
        exact positive value
      · rw [List.mem_singleton.mp last]
        decide

/-- Decoding an encoded number gives the number. -/
theorem inodeNumberFrom_inodeNumberBinary {inodeNumber : Nat} (fits : inodeNumber < 2 ^ 64) :
    inodeNumberFrom (inodeNumberBinary inodeNumber) = inodeNumber := by
  have bits := zeroBits_lt (leBytes 8 inodeNumber)
  rw [length_leBytes] at bits
  have flagEq : zeroFlag 0 0 (leBytes 8 inodeNumber) = zeroBits (leBytes 8 inodeNumber) := by
    rw [zeroFlag_eq]
    omega
  have escaped : (escapeZeros (leBytes 8 inodeNumber)).length = 8 := by
    rw [escapeZeros, List.length_map, length_leBytes]
  have restored : restoreZeros (zeroBits (leBytes 8 inodeNumber)) 0
      (escapeZeros (leBytes 8 inodeNumber)) = leBytes 8 inodeNumber :=
    restoreZeros_escapeZeros _ _ 0 fun offset _ => by rw [Nat.zero_add]
  have value := leValue_leBytes (show inodeNumber < 256 ^ 8 from fits)
  simp only [inodeNumberFrom, inodeNumberBinary, flagEq, List.take_left' escaped]
  split
  · next none =>
    rw [none] at restored
    have last : (escapeZeros (leBytes 8 inodeNumber) ++ [255, 20]).getD 9 0 = 20 := by
      rw [List.getD_eq_getElem?_getD, List.getElem?_append_right (by omega), escaped]
      rfl
    rw [if_pos last, restored, value]
  · next some =>
    have last : (escapeZeros (leBytes 8 inodeNumber) ++
        [UInt8.ofNat (zeroBits (leBytes 8 inodeNumber)), 10]).getD 9 0 ≠ 20 := by
      rw [List.getD_eq_getElem?_getD, List.getElem?_append_right (by omega), escaped]
      show (10 : UInt8) ≠ 20
      decide
    have flag : (escapeZeros (leBytes 8 inodeNumber) ++
        [UInt8.ofNat (zeroBits (leBytes 8 inodeNumber)), 10]).getD 8 0 =
          UInt8.ofNat (zeroBits (leBytes 8 inodeNumber)) := by
      rw [List.getD_eq_getElem?_getD, List.getElem?_append_right (by omega), escaped]
      rfl
    rw [if_neg last, flag, UInt8.toNat_ofNat_of_lt' bits, restored, value]

/-- For every `u64` the code has no zero byte, the flag stays a byte after each round of the loop,
and decoding gives the number back; so no two numbers have one code. -/
theorem inode_number_codec :
    (∀ inodeNumber : UInt64,
      (∀ byte ∈ inodeNumberBinary inodeNumber.toNat, byte ≠ 0) ∧
      (∀ rounds, zeroFlag 0 0 ((leBytes 8 inodeNumber.toNat).take rounds) < 256) ∧
      inodeNumberFrom (inodeNumberBinary inodeNumber.toNat) = inodeNumber.toNat) ∧
    Function.Injective fun inodeNumber : UInt64 => inodeNumberBinary inodeNumber.toNat := by
  have decodes : ∀ inodeNumber : UInt64,
      inodeNumberFrom (inodeNumberBinary inodeNumber.toNat) = inodeNumber.toNat :=
    fun inodeNumber => inodeNumberFrom_inodeNumberBinary inodeNumber.toNat_lt
  constructor
  · intro inodeNumber
    refine ⟨nonzero_inodeNumberBinary _, fun rounds => zeroFlag_lt ?_, decodes inodeNumber⟩
    rw [List.length_take, length_leBytes]
    exact Nat.min_le_right rounds 8
  · intro left right same
    apply UInt64.toNat_inj.mp
    rw [← decodes left, ← decodes right]
    exact congrArg inodeNumberFrom same

/-! ## Directory contents -/

/-- The contents that `create` writes to the parent: the entry after what is there, with a
zero between. -/
def appendEntry (contents : List UInt8) (inodeNumber : Nat) : List UInt8 :=
  (if contents.isEmpty then contents else contents ++ [0]) ++ inodeNumberBinary inodeNumber

/-- An entry takes some bytes. -/
theorem lt_length_appendEntry (contents : List UInt8) (inodeNumber : Nat) :
    contents.length < (appendEntry contents inodeNumber).length := by
  unfold appendEntry
  split <;> simp

/-- An entry takes at most eleven bytes. -/
theorem length_appendEntry_le (contents : List UInt8) (inodeNumber : Nat) :
    (appendEntry contents inodeNumber).length ≤ contents.length + 11 := by
  unfold appendEntry
  split <;> simp

/-- Bytes with one more entry. -/
theorem length_appendEntry (contents : List UInt8) (inodeNumber : Nat) :
    (appendEntry contents inodeNumber).length =
      if contents.length = 0 then 10 else contents.length + 11 := by
  unfold appendEntry
  cases contents with
  | nil => simp
  | cons byte rest => simp

/-- Longer contents are longer with one more entry. -/
theorem length_appendEntry_mono {less more : List UInt8} (order : less.length ≤ more.length)
    (left right : Nat) : (appendEntry less left).length ≤ (appendEntry more right).length := by
  rw [length_appendEntry, length_appendEntry]
  split <;> split <;> omega

/-- Contents with at least as many new entries are at least as long. -/
theorem length_foldl_appendEntry_mono {less more : List UInt8} {left right : List Nat}
    (bytes : less.length ≤ more.length) (entries : left.length ≤ right.length) :
    (left.foldl appendEntry less).length ≤ (right.foldl appendEntry more).length := by
  induction right generalizing less more left with
  | nil =>
    obtain rfl := List.eq_nil_of_length_eq_zero (Nat.le_zero.mp entries)
    exact bytes
  | cons entry right ih =>
    cases left with
    | nil =>
      have longer := lt_length_appendEntry more entry
      exact @ih less (appendEntry more entry) [] (by omega) (Nat.zero_le _)
    | cons first left =>
      rw [List.length_cons, List.length_cons] at entries
      exact @ih _ _ left (length_appendEntry_mono bytes first entry) (by omega)

/-- Each of the new entries takes at most eleven bytes. -/
theorem length_foldl_appendEntry_le (contents : List UInt8) (entries : List Nat) :
    (entries.foldl appendEntry contents).length ≤ contents.length + 11 * entries.length := by
  induction entries generalizing contents with
  | nil => exact Nat.le_refl _
  | cons entry entries ih =>
    have longer := length_appendEntry_le contents entry
    have all := ih (appendEntry contents entry)
    rw [List.foldl_cons, List.length_cons]
    omega

/-- Contents of a directory with these children. -/
def directoryBytes (children : List Nat) : List UInt8 := children.foldl appendEntry []

/-- One more child is one more entry. -/
@[simp] theorem directoryBytes_concat (children : List Nat) (child : Nat) :
    directoryBytes (children ++ [child]) = appendEntry (directoryBytes children) child := by
  simp [directoryBytes]

/-- Bytes of a directory with these children. -/
theorem length_directoryBytes (children : List Nat) :
    (directoryBytes children).length = 11 * children.length - 1 := by
  induction children using List.reverseRecOn with
  | nil => rfl
  | append_singleton children child ih =>
    rw [directoryBytes_concat, appendEntry]
    cases children with
    | nil => simp [directoryBytes]
    | cons first rest =>
      have nonempty : directoryBytes (first :: rest) ≠ [] := by
        intro empty
        rw [empty, List.length_nil, List.length_cons] at ih
        omega
      simp only [List.isEmpty_iff, nonempty, ↓reduceIte, List.length_append, ih,
        List.length_cons, List.length_nil, length_inodeNumberBinary]
      omega

/-- A new entry is one more part of a directory's contents. -/
theorem splitOnP_appendEntry (contents : List UInt8) (inodeNumber : Nat) :
    (appendEntry contents inodeNumber).splitOnP (· == 0) =
      (if contents = [] then [] else contents.splitOnP (· == 0)) ++
        [inodeNumberBinary inodeNumber] := by
  have entry : (inodeNumberBinary inodeNumber).splitOnP (· == 0) =
      [inodeNumberBinary inodeNumber] :=
    List.splitOnP_eq_singleton fun byte byteIn => by
      simpa using nonzero_inodeNumberBinary inodeNumber byte byteIn
  rw [appendEntry]
  by_cases empty : contents = []
  · simpa [empty] using entry
  · simp only [List.isEmpty_iff, empty, ↓reduceIte, List.append_assoc, List.singleton_append]
    rw [List.splitOnP_append_cons _ _ (by rfl), entry]

/-- Splitting the contents of a directory at the zeros gives the entries. -/
theorem splitOnP_directoryBytes {children : List Nat} (some : children ≠ []) :
    (directoryBytes children).splitOnP (· == 0) = children.map inodeNumberBinary := by
  induction children using List.reverseRecOn with
  | nil => contradiction
  | append_singleton children child ih =>
    rw [directoryBytes_concat, splitOnP_appendEntry, List.map_append, List.map_singleton]
    by_cases none : children = []
    · rw [none]
      rfl
    · have nonempty : directoryBytes children ≠ [] := by
        intro empty
        have length := length_directoryBytes children
        have positive := List.length_pos_iff.mpr none
        rw [empty, List.length_nil] at length
        omega
      rw [if_neg nonempty, ih none]

end Canyon.Fs
