import Canyon.Fs.Cafs
import Mathlib.Data.List.TakeWhile

/-!
# Names and paths

A name goes into the 200 bytes of an inode as UTF-8 followed by zeros and comes back as the
characters before the first zero. A path is split at each `/`; what stands before the first one
is dropped, and what stands after the last one is the name.
-/

namespace Canyon.Fs

open Canyon.Lib

/-! ## Names -/

/-- U+FFFD, which `String::from_utf8_lossy` puts in the place of bytes that are no UTF-8. -/
def replacementChar : Char := '\uFFFD'

/-- Whether a byte continues a character: `0x80..=0xBF`. -/
def isContinuation (byte : Option UInt8) : Bool := byte.any fun byte => 0x80 ≤ byte && byte ≤ 0xBF

/-- Whether the second byte of a character of three or four bytes may follow the first. -/
def isSecond (first : UInt8) (byte : Option UInt8) : Bool :=
  isContinuation byte && byte.any fun byte =>
    if first = 0xE0 then 0xA0 ≤ byte
    else if first = 0xED then byte ≤ 0x9F
    else if first = 0xF0 then 0x90 ≤ byte
    else if first = 0xF4 then byte ≤ 0x8F
    else true

/-- Bytes that one replacement character stands for: as far as they could start a character. -/
def invalidLength : List UInt8 → Nat
  | [] => 0
  | first :: rest =>
    if 0xE0 ≤ first && first ≤ 0xF4 && isSecond first rest[0]? then
      if 0xF0 ≤ first && isContinuation rest[1]? then 3 else 2
    else 1

/-- The characters of bytes that are not all UTF-8; every step takes a byte of the fuel. -/
def decodeLossy : Nat → List UInt8 → List Char
  | 0, _ => []
  | fuel + 1, bytes =>
    if bytes = [] then []
    else
      match bytes.toByteArray.utf8DecodeChar? 0 with
      | some char => char :: decodeLossy fuel (bytes.drop char.utf8Size)
      | none => replacementChar :: decodeLossy fuel (bytes.drop (invalidLength bytes))

/-- `String::from_utf8_lossy`. -/
def fromUtf8Lossy (bytes : List UInt8) : String :=
  if valid : bytes.toByteArray.IsValidUTF8 then String.fromUTF8 bytes.toByteArray valid
  else String.ofList (decodeLossy bytes.length bytes)

/-- `CaInode::name`: the bytes before the first zero. -/
def nameString (name : NameBytes) : String :=
  fromUtf8Lossy (name.toList.takeWhile (· != 0))

/-- The characters of a name before the first NUL. -/
def beforeNul (name : String) : String := String.ofList (name.toList.takeWhile (· != '\x00'))

/-- The bytes of a string are those of its characters. -/
theorem utf8Bytes_eq (name : String) :
    utf8Bytes name = name.toList.flatMap String.utf8EncodeChar := by
  have encoded : name.toByteArray = name.toList.utf8Encode := by
    rw [← String.toByteArray_ofList, String.ofList_toList]
  show name.toByteArray.data.toList = _
  rw [encoded, List.utf8Encode]
  simp

/-- Only NUL has a zero byte. -/
theorem utf8EncodeChar_ne_zero {char : Char} (notNul : char ≠ '\x00') :
    ∀ byte ∈ String.utf8EncodeChar char, byte ≠ 0 := by
  have positive : 0 < char.val.toNat := by
    refine Nat.pos_of_ne_zero fun zero => notNul ?_
    exact Char.ext (UInt32.toNat_inj.mp zero)
  have nonzero : ∀ value, 0 < value → value < 256 → UInt8.ofNat value ≠ 0 := by
    intro value lower upper same
    have := congrArg UInt8.toNat same
    rw [UInt8.toNat_ofNat_of_lt' upper] at this
    exact Nat.ne_of_gt lower this
  intro byte byteIn
  unfold String.utf8EncodeChar at byteIn
  dsimp only at byteIn
  split_ifs at byteIn <;> simp only [List.mem_cons, List.not_mem_nil, or_false] at byteIn
  · rw [byteIn]
    exact nonzero _ positive (by omega)
  · rcases byteIn with rfl | rfl <;> exact nonzero _ (by omega) (by omega)
  · rcases byteIn with rfl | rfl | rfl <;> exact nonzero _ (by omega) (by omega)
  · rcases byteIn with rfl | rfl | rfl | rfl <;> exact nonzero _ (by omega) (by omega)

/-- The bytes before the first zero are those of the characters before the first NUL. -/
theorem takeWhile_utf8 (chars : List Char) (count : Nat) :
    (chars.flatMap String.utf8EncodeChar ++ List.replicate count 0).takeWhile (· != 0) =
      (chars.takeWhile (· != '\x00')).flatMap String.utf8EncodeChar := by
  induction chars with
  | nil => cases count <;> rfl
  | cons char chars ih =>
    by_cases isNul : char = '\x00'
    · subst isNul
      rfl
    · have keeps : (char != '\x00') = true := bne_iff_ne.mpr isNul
      rw [List.takeWhile_cons_of_pos (p := (· != '\x00')) keeps, List.flatMap_cons,
        List.flatMap_cons, List.append_assoc, List.takeWhile_append_of_pos, ih]
      intro byte byteIn
      exact bne_iff_ne.mpr (utf8EncodeChar_ne_zero isNul byte byteIn)

/-- UTF-8 is read back as the characters it encodes. -/
theorem fromUtf8Lossy_encode (chars : List Char) :
    fromUtf8Lossy (chars.flatMap String.utf8EncodeChar) = String.ofList chars := by
  have valid : (chars.flatMap String.utf8EncodeChar).toByteArray.IsValidUTF8 := ⟨chars, rfl⟩
  rw [fromUtf8Lossy, dif_pos valid]
  exact String.toByteArray_inj.mp String.toByteArray_ofList.symm

/-- The names that an inode can store. -/
theorem nameBytes_eq_some_iff (name : List UInt8) :
    (∃ bytes, nameBytes name = some bytes) ↔ name.length ≤ nameLengthLimit := by
  rw [nameBytes]
  by_cases fits : name.length ≤ nameLengthLimit
  · rw [if_pos fits]
    exact iff_of_true ⟨_, rfl⟩ fits
  · rw [if_neg fits]
    exact iff_of_false (by simp) fits

/-- A name comes back as what stands before its first NUL. -/
theorem nameString_of_nameBytes {name : String} {bytes : NameBytes}
    (isName : nameBytes (utf8Bytes name) = some bytes) : nameString bytes = beforeNul name := by
  unfold nameBytes at isName
  split at isName
  · rename_i short
    obtain rfl := Option.some.inj isName
    have stored : (utf8Bytes name ++ List.replicate (nameLengthLimit + 1) 0).take
        (nameLengthLimit + 1) = name.toList.flatMap String.utf8EncodeChar ++
          List.replicate (nameLengthLimit + 1 - (utf8Bytes name).length) 0 := by
      rw [List.take_append, List.take_of_length_le (by omega), List.take_replicate, utf8Bytes_eq]
      congr 2
      omega
    show fromUtf8Lossy (List.takeWhile (· != 0) (List.toArray _).toList) = _
    rw [stored, takeWhile_utf8, fromUtf8Lossy_encode]
    rfl
  · contradiction

/-- A name comes back unchanged exactly when it has no NUL. -/
theorem beforeNul_eq_iff (name : String) : beforeNul name = name ↔ '\x00' ∉ name.toList := by
  have asLists : beforeNul name = name ↔ name.toList.takeWhile (· != '\x00') = name.toList := by
    rw [← String.toList_inj, beforeNul, String.toList_ofList]
  rw [asLists, List.takeWhile_eq_self_iff]
  constructor
  · intro none isIn
    exact bne_iff_ne.mp (none _ isIn) rfl
  · intro absent char charIn
    exact bne_iff_ne.mpr fun isNul => absent (isNul ▸ charIn)

/-! ## Paths -/

/-- `Path`. -/
structure Path where
  /-- `parents`. -/
  parents : List String
  /-- `name`. -/
  name : String
  deriving DecidableEq

/-- All names of a path, as `read_unstable` and `write` look them up. -/
def Path.components (path : Path) : List String := path.parents ++ [path.name]

/-- `VFS::parse_path`; `pop().unwrap()` fails on a path without `/`. -/
def parsePath (path : String) : Option Path :=
  let dirs := ((path.toList.splitOn '/').map String.ofList).drop 1
  dirs.getLast?.map fun name => ⟨dirs.dropLast, name⟩

/-- The path of a list of names. -/
def renderPath (names : List String) : String :=
  String.ofList (['/'].intercalate ([] :: names.map String.toList))

/-- A path that is parsed stands for its names. -/
theorem components_of_parsePath {path : String} {parsed : Path}
    (isParsed : parsePath path = some parsed) :
    parsed.components = ((path.toList.splitOn '/').map String.ofList).drop 1 := by
  rw [parsePath] at isParsed
  obtain ⟨name, isLast, rfl⟩ := Option.map_eq_some_iff.mp isParsed
  exact List.dropLast_append_getLast? name isLast

/-- The names of a path have no `/`. -/
theorem slash_not_mem_of_parsePath {path : String} {parsed : Path}
    (isParsed : parsePath path = some parsed) : ∀ name ∈ parsed.components, '/' ∉ name.toList := by
  intro name nameIn
  rw [components_of_parsePath isParsed] at nameIn
  obtain ⟨chars, charsIn, rfl⟩ := List.mem_map.mp (List.mem_of_mem_drop nameIn)
  rw [String.toList_ofList]
  exact not_mem_of_mem_splitOn charsIn

/-- A path without `/` cannot be parsed, and every other path can. -/
theorem parsePath_eq_none_iff (path : String) : parsePath path = none ↔ '/' ∉ path.toList := by
  rw [parsePath, Option.map_eq_none_iff, List.getLast?_eq_none_iff, List.drop_eq_nil_iff,
    List.length_map]
  constructor
  · intro single isIn
    obtain ⟨front, back, whole⟩ := List.append_of_mem isIn
    rw [whole, List.splitOn_append_cons_self, List.length_append] at single
    have left := List.length_pos_of_ne_nil (List.splitOn_ne_nil '/' front)
    have right := List.length_pos_of_ne_nil (List.splitOn_ne_nil '/' back)
    omega
  · intro absent
    rw [List.splitOn_eq_singleton absent]
    exact Nat.le_refl 1

/-- Names without `/` are those of their path. -/
theorem components_of_renderPath {names : List String} (named : names ≠ [])
    (clean : ∀ name ∈ names, '/' ∉ name.toList) :
    ∃ parsed, parsePath (renderPath names) = some parsed ∧ parsed.components = names := by
  have parts : (renderPath names).toList.splitOn '/' = [] :: names.map String.toList := by
    rw [renderPath, String.toList_ofList]
    refine List.splitOn_intercalate '/' ?_ (List.cons_ne_nil _ _)
    intro part partIn
    rcases List.mem_cons.mp partIn with rfl | isName
    · exact List.not_mem_nil
    · obtain ⟨name, nameIn, rfl⟩ := List.mem_map.mp isName
      exact clean name nameIn
  have back : ((renderPath names).toList.splitOn '/').map String.ofList = "" :: names := by
    rw [parts, List.map_cons, List.map_map]
    congr 1
    exact (List.map_congr_left fun name _ => String.ofList_toList).trans (List.map_id names)
  cases isParsed : parsePath (renderPath names) with
  | none =>
    rw [parsePath, back, Option.map_eq_none_iff, List.getLast?_eq_none_iff] at isParsed
    exact absurd isParsed named
  | some parsed =>
    refine ⟨parsed, rfl, ?_⟩
    rw [components_of_parsePath isParsed, back]
    rfl

end Canyon.Fs
