import Canyon.Lib.Lists
import Mathlib.Data.List.DropRight
import Mathlib.Data.Nat.Digits.Lemmas

/-!
# The configuration of the loader

`boot.conf` is a text of lines `key=value`. Empty lines, comments and unknown keys are skipped, a
later line overrides an earlier one, and whatever cannot be read stops the loader. The text says
what its lines say, whatever order the loader reads them in; every configuration with numbers of 64
bits and a path on one line can be written, and no other is read.
-/

namespace Canyon.Boot

open Canyon.Lib

/-- How `Config::parse` panics. -/
inductive ConfigPanic where
  /-- "failed to parse config as utf8". -/
  | notUtf8
  /-- "failed to parse value". -/
  | noValue
  /-- `&value[2..]` of a value that has no such boundary. -/
  | badSlice
  /-- `unwrap` of a number that is not one. -/
  | badNumber
  /-- `unwrap` of a resolution without a height. -/
  | noHeight
deriving DecidableEq, Repr

/-- `Config`. -/
@[ext]
structure Config where
  /-- The address at which the kernel stack is placed. -/
  kernelStackAddress : Nat
  /-- The size of the kernel stack in pages. -/
  kernelStackSize : Nat
  /-- The offset at which physical memory is mapped. -/
  physicalMemoryOffset : Nat
  /-- The path of the kernel. -/
  kernelPath : List Char
  /-- The resolution of the graphic output. -/
  resolution : Option (Nat × Nat)
deriving DecidableEq, Repr

/-- `DEFAULT_CONFIG`. -/
def defaultConfig : Config :=
  ⟨0xffff_8020_0000_0000, 512, 0xffff_9000_0000_0000, "\\EFI\\canyon\\kernel.elf".toList, none⟩

/-! ## The functions on texts -/

/-- `char::is_whitespace`. -/
def isWhitespace (char : Char) : Bool :=
  let code := char.toNat
  (0x9 ≤ code && code ≤ 0xd) || code == 0x20 || code == 0x85 || code == 0xa0 || code == 0x1680 ||
    (0x2000 ≤ code && code ≤ 0x200a) || code == 0x2028 || code == 0x2029 || code == 0x202f ||
    code == 0x205f || code == 0x3000

/-- `str::trim`. -/
def trim (line : List Char) : List Char :=
  (line.dropWhile isWhitespace).rdropWhile isWhitespace

/-- The value of a digit or a letter of either case. -/
def digitValue (char : Char) : Option Nat :=
  let code := char.toNat
  if 0x30 ≤ code ∧ code ≤ 0x39 then some (code - 0x30)
  else if 0x61 ≤ code ∧ code ≤ 0x7a then some (code - 0x61 + 10)
  else if 0x41 ≤ code ∧ code ≤ 0x5a then some (code - 0x41 + 10)
  else none

/-- `char::to_digit`. -/
def toDigit (radix : Nat) (char : Char) : Option Nat :=
  (digitValue char).filter (· < radix)

/-- One more digit of a number, if it fits in 64 bits. -/
def pushDigit (radix number : Nat) (char : Char) : Option Nat := do
  let digit ← toDigit radix char
  if number * radix + digit < 2 ^ 64 then some (number * radix + digit) else none

/-- `u64::from_str_radix`, which allows a plus in front of the digits. -/
def fromStrRadix (radix : Nat) (text : List Char) : Option Nat :=
  let digits := if text.head? = some '+' then text.tail else text
  if digits = [] then none else digits.foldlM (pushDigit radix) 0

/-- `&text[count..]`, which panics inside of a character and beyond the end. -/
def sliceFrom : Nat → List Char → Option (List Char)
  | 0, text => some text
  | _ + 1, [] => none
  | count + 1, char :: rest =>
    if char.utf8Size ≤ count + 1 then sliceFrom (count + 1 - char.utf8Size) rest else none

/-! ## Reading -/

namespace Config

/-- The closure `r10`. -/
def r10 (value : List Char) : Except ConfigPanic Nat :=
  (fromStrRadix 10 value).elim (.error .badNumber) .ok

/-- The closure `r16`, which does not look at the first two bytes. -/
def r16 (value : List Char) : Except ConfigPanic Nat :=
  match sliceFrom 2 value with
  | none => .error .badSlice
  | some digits => (fromStrRadix 16 digits).elim (.error .badNumber) .ok

/-- `process`. -/
def process (config : Config) (key : String) (value : List Char) : Except ConfigPanic Config :=
  match key with
  | "kernel_stack_address" => do return { config with kernelStackAddress := ← r16 value }
  | "kernel_stack_size" => do return { config with kernelStackSize := ← r10 value }
  | "physical_memory_offset" => do return { config with physicalMemoryOffset := ← r16 value }
  | "kernel_path" => .ok { config with kernelPath := value }
  | "resolution" =>
    match value.splitOn 'x' with
    | x :: y :: _ => do return { config with resolution := some (← r10 x, ← r10 y) }
    | [x] => do
      let _ ← r10 x
      .error .noHeight
    -- a split text has a first part
    | [] => .error .badNumber
  | _ => .ok config

/-- The body of the loop over the lines. -/
def processLine (config : Config) (line : List Char) : Except ConfigPanic Config :=
  let line := trim line
  if line = [] ∨ line.head? = some '#' then .ok config
  else
    match line.dropWhile (· != '=') with
    | [] => .error .noValue
    | _ :: value => config.process (String.ofList (line.takeWhile (· != '='))) value

/-- `parse`. -/
def parse (content : ByteArray) : Except ConfigPanic Config :=
  match String.fromUTF8? content with
  | none => .error .notUtf8
  | some text => (text.toList.splitOn '\n').foldlM processLine defaultConfig

end Config

/-! ## What the lines say -/

/-- What a line says about the configuration. -/
inductive Entry where
  /-- Nothing. -/
  | skip
  /-- `kernel_stack_address`. -/
  | stackAddress (address : Nat)
  /-- `kernel_stack_size`. -/
  | stackSize (pages : Nat)
  /-- `physical_memory_offset`. -/
  | memoryOffset (offset : Nat)
  /-- `kernel_path`. -/
  | path (text : List Char)
  /-- `resolution`. -/
  | resolution (width height : Nat)
deriving DecidableEq, Repr

/-- The configuration after a line. -/
def Entry.apply (config : Config) : Entry → Config
  | .skip => config
  | .stackAddress address => { config with kernelStackAddress := address }
  | .stackSize pages => { config with kernelStackSize := pages }
  | .memoryOffset offset => { config with physicalMemoryOffset := offset }
  | .path text => { config with kernelPath := text }
  | .resolution width height => { config with resolution := some (width, height) }

/-- The keys that `process` knows. -/
def knownKeys : List String :=
  ["kernel_stack_address", "kernel_stack_size", "physical_memory_offset", "kernel_path",
    "resolution"]

/-- A hexadecimal number after any two bytes. -/
def HexAfterTwo (value : List Char) (number : Nat) : Prop :=
  ∃ digits, sliceFrom 2 value = some digits ∧ fromStrRadix 16 digits = some number

/-- What the value of a key says. -/
inductive Sets : String → List Char → Entry → Prop where
  /-- The address of the stack. -/
  | stackAddress {value : List Char} {address : Nat} (isHex : HexAfterTwo value address) :
      Sets "kernel_stack_address" value (.stackAddress address)
  /-- The size of the stack. -/
  | stackSize {value : List Char} {pages : Nat} (isNumber : fromStrRadix 10 value = some pages) :
      Sets "kernel_stack_size" value (.stackSize pages)
  /-- The offset of physical memory. -/
  | memoryOffset {value : List Char} {offset : Nat} (isHex : HexAfterTwo value offset) :
      Sets "physical_memory_offset" value (.memoryOffset offset)
  /-- The path of the kernel. -/
  | path (value : List Char) : Sets "kernel_path" value (.path value)
  /-- The resolution; what follows a second `x` does not matter. -/
  | resolution {value x y : List Char} {more : List (List Char)} {width height : Nat}
      (parts : value.splitOn 'x' = x :: y :: more) (isWidth : fromStrRadix 10 x = some width)
      (isHeight : fromStrRadix 10 y = some height) :
      Sets "resolution" value (.resolution width height)
  /-- Another key. -/
  | unknown {key : String} (value : List Char) (isUnknown : key ∉ knownKeys) : Sets key value .skip

/-- What a line says. -/
inductive Means (line : List Char) : Entry → Prop where
  /-- An empty line. -/
  | empty (isEmpty : trim line = []) : Means line .skip
  /-- A comment. -/
  | comment {rest : List Char} (isComment : trim line = '#' :: rest) : Means line .skip
  /-- A key, up to the first equals sign, and its value. -/
  | pair {key value : List Char} {entry : Entry} (isPair : trim line = key ++ '=' :: value)
      (first : '=' ∉ key) (noComment : key.head? ≠ some '#')
      (sets : Sets (String.ofList key) value entry) : Means line entry

namespace Config

variable {config after : Config} {value line : List Char} {number : Nat}

/-- A number that is read. -/
theorem r10_ok_iff : r10 value = .ok number ↔ fromStrRadix 10 value = some number := by
  unfold r10
  cases fromStrRadix 10 value with
  | none => simp only [Option.elim_none, reduceCtorEq]
  | some found => simp only [Option.elim_some, Except.ok.injEq, Option.some.injEq]

/-- A hexadecimal number that is read. -/
theorem r16_ok_iff : r16 value = .ok number ↔ HexAfterTwo value number := by
  unfold r16 HexAfterTwo
  cases sliceFrom 2 value with
  | none => simp only [reduceCtorEq, false_and, exists_false]
  | some digits =>
    cases isHex : fromStrRadix 16 digits with
    | none => simp [isHex]
    | some found => simp [isHex]

/-- A field that is set to a number that is read. -/
theorem map_ok_iff {α γ : Type} {read : Except ConfigPanic α} {set : α → γ} {result : γ} :
    (do return set (← read)) = Except.ok result ↔
      ∃ found, read = .ok found ∧ result = set found := by
  cases read with
  | error panic => simp
  | ok found => simp [eq_comm]

/-- `process` does what the value of the key says. -/
theorem process_ok_iff {key : String} : config.process key value = .ok after ↔
    ∃ entry, Sets key value entry ∧ after = entry.apply config := by
  constructor
  · intro ran
    unfold process at ran
    split at ran
    · obtain ⟨address, read, rfl⟩ := map_ok_iff.mp ran
      exact ⟨_, .stackAddress (r16_ok_iff.mp read), rfl⟩
    · obtain ⟨pages, read, rfl⟩ := map_ok_iff.mp ran
      exact ⟨_, .stackSize (r10_ok_iff.mp read), rfl⟩
    · obtain ⟨offset, read, rfl⟩ := map_ok_iff.mp ran
      exact ⟨_, .memoryOffset (r16_ok_iff.mp read), rfl⟩
    · obtain rfl := Except.ok.inj ran
      exact ⟨_, .path value, rfl⟩
    · split at ran
      · rename_i x y more parts
        obtain ⟨width, readWidth, ran⟩ := bind_ok_iff.mp ran
        obtain ⟨height, readHeight, rfl⟩ := map_ok_iff.mp ran
        exact ⟨_, .resolution parts (r10_ok_iff.mp readWidth) (r10_ok_iff.mp readHeight), rfl⟩
      · obtain ⟨width, -, ran⟩ := bind_ok_iff.mp ran
        cases ran
      · cases ran
    · rename_i notAddress notSize notOffset notPath notResolution
      obtain rfl := Except.ok.inj ran
      refine ⟨.skip, .unknown value ?_, rfl⟩
      simp only [knownKeys, List.mem_cons, List.not_mem_nil, or_false, not_or]
      exact ⟨notAddress, notSize, notOffset, notPath, notResolution⟩
  · rintro ⟨entry, sets, rfl⟩
    cases sets with
    | stackAddress isHex => exact map_ok_iff.mpr ⟨_, r16_ok_iff.mpr isHex, rfl⟩
    | stackSize isNumber => exact map_ok_iff.mpr ⟨_, r10_ok_iff.mpr isNumber, rfl⟩
    | memoryOffset isHex => exact map_ok_iff.mpr ⟨_, r16_ok_iff.mpr isHex, rfl⟩
    | path => rfl
    | resolution parts isWidth isHeight =>
      simp only [process, parts]
      exact bind_ok_iff.mpr ⟨_, r10_ok_iff.mpr isWidth,
        map_ok_iff.mpr ⟨_, r10_ok_iff.mpr isHeight, rfl⟩⟩
    | unknown _ isUnknown =>
      simp only [knownKeys, List.mem_cons, List.not_mem_nil, or_false, not_or] at isUnknown
      obtain ⟨notAddress, notSize, notOffset, notPath, notResolution⟩ := isUnknown
      simp only [process, Entry.apply]

/-- The parts of a text around its first equals sign. -/
theorem dropWhile_eq_cons_iff {text key : List Char} {char : Char} :
    text.dropWhile (· != '=') = char :: value ∧ text.takeWhile (· != '=') = key ↔
      char = '=' ∧ '=' ∉ key ∧ text = key ++ '=' :: value := by
  constructor
  · rintro ⟨dropped, rfl⟩
    have isSign : char = '=' := by
      have stops := List.head?_dropWhile_not (· != '=') text
      simpa [dropped] using stops
    refine ⟨isSign, fun isIn => ?_, ?_⟩
    · simpa using List.mem_takeWhile_imp isIn
    · obtain rfl := isSign
      rw [← dropped, List.takeWhile_append_dropWhile]
  · rintro ⟨rfl, first, rfl⟩
    have before : ∀ char ∈ key, (char != '=') = true := by
      intro char isIn
      simp only [bne_iff_ne, ne_eq]
      rintro rfl
      exact first isIn
    rw [List.dropWhile_append_of_pos before, List.takeWhile_append_of_pos before]
    simp

/-- The loop does what the line says. -/
theorem processLine_ok_iff : config.processLine line = .ok after ↔
    ∃ entry, Means line entry ∧ after = entry.apply config := by
  unfold processLine
  dsimp only
  split
  · rename_i skipped
    constructor
    · intro ran
      obtain rfl := Except.ok.inj ran
      rcases skipped with isEmpty | isComment
      · exact ⟨.skip, .empty isEmpty, rfl⟩
      · obtain ⟨rest, isComment⟩ := List.head?_eq_some_iff.mp isComment
        exact ⟨.skip, .comment isComment, rfl⟩
    · rintro ⟨entry, means, rfl⟩
      cases means with
      | empty | comment => rfl
      | pair isPair first noComment sets =>
        rename_i key value
        rw [isPair, List.head?_append] at skipped
        rcases skipped with isEmpty | isComment
        · simp at isEmpty
        · cases starts : key.head? with
          | none => simp [starts] at isComment
          | some char => simp_all
  · rename_i notSkipped
    constructor
    · intro ran
      split at ran
      · cases ran
      · rename_i char value dropped
        obtain ⟨-, first, isPair⟩ := dropWhile_eq_cons_iff.mp ⟨dropped, rfl⟩
        obtain ⟨entry, sets, rfl⟩ := process_ok_iff.mp ran
        refine ⟨entry, .pair isPair first ?_ sets, rfl⟩
        intro isComment
        apply notSkipped
        rw [isPair, List.head?_append, isComment]
        exact .inr rfl
    · rintro ⟨entry, means, rfl⟩
      cases means with
      | empty isEmpty => exact absurd (.inl isEmpty) notSkipped
      | comment isComment => exact absurd (.inr (isComment ▸ rfl)) notSkipped
      | pair isPair first noComment sets =>
        obtain ⟨dropped, isKey⟩ := dropWhile_eq_cons_iff.mpr ⟨rfl, first, isPair⟩
        simp only [dropped, isKey]
        exact process_ok_iff.mpr ⟨entry, sets, rfl⟩

/-- The lines are read one after the other. -/
theorem foldlM_processLine_ok_iff {lines : List (List Char)} :
    lines.foldlM processLine config = .ok after ↔
      ∃ entries, List.Forall₂ Means lines entries ∧ after = entries.foldl Entry.apply config := by
  induction lines generalizing config with
  | nil =>
    constructor
    · intro ran
      obtain rfl := Except.ok.inj ran
      exact ⟨[], .nil, rfl⟩
    · rintro ⟨entries, means, rfl⟩
      obtain rfl := List.forall₂_nil_left_iff.mp means
      rfl
  | cons line rest ih =>
    rw [List.foldlM_cons, bind_ok_iff]
    constructor
    · rintro ⟨middle, first, ran⟩
      obtain ⟨entry, means, rfl⟩ := processLine_ok_iff.mp first
      obtain ⟨entries, meansRest, rfl⟩ := ih.mp ran
      exact ⟨entry :: entries, .cons means meansRest, rfl⟩
    · rintro ⟨entries, means, rfl⟩
      obtain ⟨entry, more, meansFirst, meansRest, rfl⟩ := List.forall₂_cons_left_iff.mp means
      exact ⟨entry.apply config, processLine_ok_iff.mpr ⟨entry, meansFirst, rfl⟩,
        ih.mpr ⟨more, meansRest, rfl⟩⟩

/-- A text is read if every line is. -/
theorem parse_ok_iff_entries {content : ByteArray} : parse content = .ok config ↔
    ∃ text entries, String.fromUTF8? content = some text ∧
      List.Forall₂ Means (text.toList.splitOn '\n') entries ∧
      config = entries.foldl Entry.apply defaultConfig := by
  unfold parse
  cases String.fromUTF8? content with
  | none => simp only [reduceCtorEq, false_and, exists_false]
  | some text =>
    dsimp only
    rw [foldlM_processLine_ok_iff]
    constructor
    · rintro ⟨entries, means, rfl⟩
      exact ⟨text, entries, rfl, means, rfl⟩
    · rintro ⟨other, entries, isText, means, rfl⟩
      obtain rfl := Option.some.inj isText
      exact ⟨entries, means, rfl⟩

end Config

/-! ## The last line wins -/

namespace Entry

/-- The address that a line sets. -/
def stackAddress? : Entry → Option Nat
  | .stackAddress address => some address
  | _ => none

/-- The size that a line sets. -/
def stackSize? : Entry → Option Nat
  | .stackSize pages => some pages
  | _ => none

/-- The offset that a line sets. -/
def memoryOffset? : Entry → Option Nat
  | .memoryOffset offset => some offset
  | _ => none

/-- The path that a line sets. -/
def path? : Entry → Option (List Char)
  | .path text => some text
  | _ => none

/-- The resolution that a line sets. -/
def resolution? : Entry → Option (Option (Nat × Nat))
  | .resolution width height => some (some (width, height))
  | _ => none

/-- A field is as the last line that sets it says, or as it was. -/
theorem foldl_apply_eq {α : Type} {field : Config → α} {set : Entry → Option α}
    (sets : ∀ entry config, field (apply config entry) = (set entry).getD (field config))
    (entries : List Entry) (config : Config) :
    field (entries.foldl apply config) =
      ((entries.filterMap set).getLast?).getD (field config) := by
  induction entries generalizing config with
  | nil => rfl
  | cons entry rest ih =>
    rw [List.foldl_cons, ih, sets]
    cases isSet : set entry with
    | none => rw [List.filterMap_cons_none isSet, Option.getD_none]
    | some value => rw [List.filterMap_cons_some isSet, List.getLast?_cons, Option.getD_some,
        Option.getD_some]

end Entry

/-- A text is read if and only if it is UTF-8 and every one of its lines, by itself, is empty, a
comment, or a key with a value that can be read; each field of the configuration is what the last
line that sets it says, or its default. -/
theorem parse_ok_iff {content : ByteArray} {config : Config} : Config.parse content = .ok config ↔
    ∃ text entries, String.fromUTF8? content = some text ∧
      List.Forall₂ Means (text.toList.splitOn '\n') entries ∧
      config.kernelStackAddress =
        (entries.filterMap Entry.stackAddress?).getLast?.getD 0xffff_8020_0000_0000 ∧
      config.kernelStackSize = (entries.filterMap Entry.stackSize?).getLast?.getD 512 ∧
      config.physicalMemoryOffset =
        (entries.filterMap Entry.memoryOffset?).getLast?.getD 0xffff_9000_0000_0000 ∧
      config.kernelPath = (entries.filterMap Entry.path?).getLast?.getD
        "\\EFI\\canyon\\kernel.elf".toList ∧
      config.resolution = (entries.filterMap Entry.resolution?).getLast?.getD none := by
  rw [Config.parse_ok_iff_entries]
  refine exists_congr fun text => exists_congr fun entries =>
    and_congr_right fun _ => and_congr_right fun _ => ?_
  have address := @Entry.foldl_apply_eq _ Config.kernelStackAddress Entry.stackAddress?
    (fun entry _ => by cases entry <;> rfl) entries defaultConfig
  have size := @Entry.foldl_apply_eq _ Config.kernelStackSize Entry.stackSize?
    (fun entry _ => by cases entry <;> rfl) entries defaultConfig
  have offset := @Entry.foldl_apply_eq _ Config.physicalMemoryOffset Entry.memoryOffset?
    (fun entry _ => by cases entry <;> rfl) entries defaultConfig
  have path := @Entry.foldl_apply_eq _ Config.kernelPath Entry.path?
    (fun entry _ => by cases entry <;> rfl) entries defaultConfig
  have resolution := @Entry.foldl_apply_eq _ Config.resolution Entry.resolution?
    (fun entry _ => by cases entry <;> rfl) entries defaultConfig
  rw [Config.ext_iff, address, size, offset, path, resolution]
  rfl

/-! ## Which configurations can be written -/

/-- Numbers of 64 bits and a path on one line, without white space at its end. -/
structure Config.WellFormed (config : Config) : Prop where
  /-- The address of the stack has 64 bits. -/
  stackAddress : config.kernelStackAddress < 2 ^ 64
  /-- The size of the stack has 64 bits. -/
  stackSize : config.kernelStackSize < 2 ^ 64
  /-- The offset of physical memory has 64 bits. -/
  memoryOffset : config.physicalMemoryOffset < 2 ^ 64
  /-- The path has no line break. -/
  oneLine : '\n' ∉ config.kernelPath
  /-- The path does not end with white space. -/
  trimmed : ∀ char ∈ config.kernelPath.getLast?, isWhitespace char = false
  /-- The sizes of the screen have 64 bits. -/
  screen : ∀ size ∈ config.resolution, size.1 < 2 ^ 64 ∧ size.2 < 2 ^ 64

/-- Digits that are read make a number of 64 bits. -/
theorem foldlM_pushDigit_lt {radix start number : Nat} {digits : List Char}
    (small : start < 2 ^ 64) (isRead : digits.foldlM (pushDigit radix) start = some number) :
    number < 2 ^ 64 := by
  induction digits generalizing start with
  | nil =>
    obtain rfl := Option.some.inj isRead
    exact small
  | cons char rest ih =>
    rw [List.foldlM_cons] at isRead
    obtain ⟨next, pushed, isRead⟩ := Option.bind_eq_some_iff.mp isRead
    obtain ⟨digit, -, pushed⟩ := Option.bind_eq_some_iff.mp pushed
    split at pushed
    · rename_i fits
      obtain rfl := Option.some.inj pushed
      exact ih fits isRead
    · cases pushed

/-- A number that is read has 64 bits. -/
theorem fromStrRadix_lt {radix number : Nat} {text : List Char}
    (isRead : fromStrRadix radix text = some number) : number < 2 ^ 64 := by
  unfold fromStrRadix at isRead
  generalize (if text.head? = some '+' then text.tail else text) = digits at isRead
  dsimp only at isRead
  split at isRead
  · cases isRead
  · exact foldlM_pushDigit_lt (Nat.two_pow_pos 64) isRead

/-- So has one after two bytes. -/
theorem HexAfterTwo.lt {value : List Char} {number : Nat} (isHex : HexAfterTwo value number) :
    number < 2 ^ 64 := by
  obtain ⟨digits, -, isRead⟩ := isHex
  exact fromStrRadix_lt isRead

/-- Trimming adds nothing. -/
theorem mem_of_mem_trim {line : List Char} {char : Char} (isIn : char ∈ trim line) : char ∈ line :=
  (List.dropWhile_sublist _).subset ((List.rdropWhile_prefix _ _).subset isIn)

/-- A trimmed line does not end with white space. -/
theorem getLast?_trim {line : List Char} {char : Char} (isLast : (trim line).getLast? = some char) :
    isWhitespace char = false := by
  have notEmpty : trim line ≠ [] := by
    rintro isEmpty
    rw [isEmpty] at isLast
    cases isLast
  have last := List.rdropWhile_last_not isWhitespace (line.dropWhile isWhitespace) notEmpty
  rw [List.getLast?_eq_some_getLast notEmpty] at isLast
  rw [← Option.some.inj isLast]
  exact Bool.eq_false_iff.mpr last

/-- Every line keeps a configuration well formed. -/
theorem Means.wellFormed {line : List Char} {entry : Entry} {config : Config}
    (means : Means line entry) (oneLine : '\n' ∉ line) (wellFormed : config.WellFormed) :
    (entry.apply config).WellFormed := by
  cases means with
  | empty | comment => exact wellFormed
  | pair isPair first noComment sets =>
    rename_i key value
    generalize String.ofList key = name at sets
    cases sets with
    | stackAddress isHex => exact { wellFormed with stackAddress := isHex.lt }
    | stackSize isNumber => exact { wellFormed with stackSize := fromStrRadix_lt isNumber }
    | memoryOffset isHex => exact { wellFormed with memoryOffset := isHex.lt }
    | unknown => exact wellFormed
    | resolution parts isWidth isHeight =>
      refine { wellFormed with screen := ?_ }
      intro size isSize
      obtain rfl := Option.some.inj isSize
      exact ⟨fromStrRadix_lt isWidth, fromStrRadix_lt isHeight⟩
    | path =>
      have inLine : ∀ char ∈ value, char ∈ line := by
        intro char isIn
        apply mem_of_mem_trim
        rw [isPair]
        exact List.mem_append_right _ (List.mem_cons_of_mem _ isIn)
      refine { wellFormed with oneLine := fun isIn => oneLine (inLine _ isIn), trimmed := ?_ }
      intro char isLast
      have isLast : value.getLast? = some char := isLast
      apply @getLast?_trim line
      rw [isPair, List.getLast?_append, List.getLast?_cons, isLast]
      rfl

/-! ### Writing numbers -/

section Digits

variable {radix number : Nat}

/-- A digit is read as its value. -/
theorem toDigit_digitChar {digit : Nat} (small : radix ≤ 16) (below : digit < radix) :
    toDigit radix (Nat.digitChar digit) = some digit := by
  have values : ∀ digit < 16, digitValue (Nat.digitChar digit) = some digit := by decide
  rw [toDigit, values digit (by omega)]
  simp [below]

/-- One more digit. -/
theorem pushDigit_digitChar {digit : Nat} (small : radix ≤ 16) (below : digit < radix)
    (fits : number * radix + digit < 2 ^ 64) :
    pushDigit radix number (Nat.digitChar digit) = some (number * radix + digit) := by
  rw [pushDigit, toDigit_digitChar small below]
  exact if_pos fits

/-- The characters of a number are digits. -/
theorem mem_toDigits {char : Char} (large : 1 < radix) (isIn : char ∈ Nat.toDigits radix number) :
    ∃ digit < radix, char = Nat.digitChar digit := by
  induction number using Nat.strong_induction_on with
  | _ number ih =>
    by_cases small : number < radix
    · rw [Nat.toDigits_of_lt_base small, List.mem_singleton] at isIn
      exact ⟨number, small, isIn⟩
    · have least : radix ≤ number := Nat.le_of_not_lt small
      rw [Nat.toDigits_of_base_le large least, List.mem_append, List.mem_singleton] at isIn
      rcases isIn with earlier | last
      · exact ih _ (Nat.div_lt_self (by omega) large) earlier
      · exact ⟨number % radix, Nat.mod_lt _ (by omega), last⟩

/-- The digits of a number are read as the number. -/
theorem foldlM_toDigits (large : 1 < radix) (small : radix ≤ 16) (fits : number < 2 ^ 64) :
    (Nat.toDigits radix number).foldlM (pushDigit radix) 0 = some number := by
  induction number using Nat.strong_induction_on with
  | _ number ih =>
    by_cases below : number < radix
    · have zero : 0 * radix + number = number := by omega
      rw [Nat.toDigits_of_lt_base below, List.foldlM_cons,
        pushDigit_digitChar small below (by omega), zero]
      rfl
    · have least : radix ≤ number := Nat.le_of_not_lt below
      have less : number / radix < number := Nat.div_lt_self (by omega) large
      have whole : number / radix * radix + number % radix = number := Nat.div_add_mod' ..
      have last : number % radix < radix := Nat.mod_lt _ (by omega)
      rw [Nat.toDigits_of_base_le large least, List.foldlM_append, ih _ less (by omega)]
      show [_].foldlM (pushDigit radix) (number / radix) = _
      rw [List.foldlM_cons, pushDigit_digitChar small last (by rwa [whole]), whole]
      rfl

/-- A digit is no other character that matters. -/
theorem digit_plain {char : Char} (large : 1 < radix) (small : radix ≤ 16)
    (isIn : char ∈ Nat.toDigits radix number) :
    isWhitespace char = false ∧ char ≠ '\n' ∧ char ≠ 'x' ∧ char ≠ '+' := by
  have plain : ∀ digit < 16, isWhitespace (Nat.digitChar digit) = false ∧
      Nat.digitChar digit ≠ '\n' ∧ Nat.digitChar digit ≠ 'x' ∧ Nat.digitChar digit ≠ '+' := by
    decide
  obtain ⟨digit, below, rfl⟩ := mem_toDigits large isIn
  exact plain digit (by omega)

/-- A number is read as it is written. -/
theorem fromStrRadix_toDigits (large : 1 < radix) (small : radix ≤ 16) (fits : number < 2 ^ 64) :
    fromStrRadix radix (Nat.toDigits radix number) = some number := by
  have notPlus : (Nat.toDigits radix number).head? ≠ some '+' := by
    intro isPlus
    exact (digit_plain large small (List.mem_of_head? isPlus)).2.2.2 rfl
  have notEmpty : Nat.toDigits radix number ≠ [] := Nat.toDigits_ne_nil
  rw [fromStrRadix]
  simp only [notPlus, ↓reduceIte, notEmpty]
  exact foldlM_toDigits large small fits

end Digits

/-! ### Writing lines -/

/-- A text without white space at its ends is trimmed. -/
theorem trim_eq_self {text : List Char} (start : ∀ char ∈ text.head?, isWhitespace char = false)
    (last : ∀ char ∈ text.getLast?, isWhitespace char = false) : trim text = text := by
  have starts : text.dropWhile isWhitespace = text := by
    cases text with
    | nil => rfl
    | cons char rest => exact List.dropWhile_cons_of_neg (by simp [start char rfl])
  rw [trim, starts, List.rdropWhile_eq_self_iff]
  intro notEmpty
  rw [last _ (List.getLast?_eq_some_getLast notEmpty)]
  exact Bool.false_ne_true

/-- A line with a known key means what its value sets. -/
theorem means_pair {key : String} {value : List Char} {entry : Entry} (isKnown : key ∈ knownKeys)
    (last : ∀ char ∈ value.getLast?, isWhitespace char = false) (sets : Sets key value entry) :
    Means (key.toList ++ '=' :: value) entry := by
  have plain : ∀ key ∈ knownKeys, key.toList.head?.all (fun char => !isWhitespace char) = true ∧
      '=' ∉ key.toList ∧ key.toList.head? ≠ some '#' ∧ key.toList ≠ [] := by decide
  obtain ⟨start, first, noComment, notEmpty⟩ := plain key isKnown
  apply Means.pair _ first noComment
  · rw [String.ofList_toList]
    exact sets
  · apply trim_eq_self
    · intro char isFirst
      rw [List.head?_append_of_ne_nil _ notEmpty] at isFirst
      simpa [Option.mem_def.mp isFirst] using start
    · intro char isLast
      rw [List.getLast?_append, List.getLast?_cons] at isLast
      obtain rfl := Option.some.inj isLast
      cases ends : value.getLast? with
      | none => decide
      | some other => exact last other ends

/-- The lines of a configuration. -/
def Config.render (config : Config) : List (List Char) :=
  ["kernel_stack_address".toList ++ '=' :: '0' :: 'x' :: Nat.toDigits 16 config.kernelStackAddress,
    "kernel_stack_size".toList ++ '=' :: Nat.toDigits 10 config.kernelStackSize,
    "physical_memory_offset".toList ++
      '=' :: '0' :: 'x' :: Nat.toDigits 16 config.physicalMemoryOffset,
    "kernel_path".toList ++ '=' :: config.kernelPath] ++
  config.resolution.toList.map fun size =>
    "resolution".toList ++ '=' :: (Nat.toDigits 10 size.1 ++ 'x' :: Nat.toDigits 10 size.2)

/-- What they say. -/
def Config.entries (config : Config) : List Entry :=
  [.stackAddress config.kernelStackAddress, .stackSize config.kernelStackSize,
    .memoryOffset config.physicalMemoryOffset, .path config.kernelPath] ++
  config.resolution.toList.map fun size => .resolution size.1 size.2

/-- They say all of it. -/
theorem Config.foldl_entries (config : Config) :
    config.entries.foldl Entry.apply defaultConfig = config := by
  obtain ⟨address, size, offset, path, resolution⟩ := config
  cases resolution <;> rfl

/-- A hexadecimal number as it is written. -/
theorem hexAfterTwo_toDigits {number : Nat} (fits : number < 2 ^ 64) :
    HexAfterTwo ('0' :: 'x' :: Nat.toDigits 16 number) number :=
  ⟨Nat.toDigits 16 number, by simp [sliceFrom, Char.utf8Size],
    fromStrRadix_toDigits (by decide) (by decide) fits⟩

/-- A text that ends with a number does not end with white space. -/
theorem getLast?_append_toDigits {radix number : Nat} {start : List Char} {char : Char}
    (large : 1 < radix) (small : radix ≤ 16)
    (isLast : char ∈ (start ++ Nat.toDigits radix number).getLast?) :
    isWhitespace char = false := by
  rw [List.getLast?_append_of_ne_nil _ Nat.toDigits_ne_nil] at isLast
  exact (digit_plain large small (List.mem_of_getLast? isLast)).1

/-- The two numbers of a resolution. -/
theorem splitOn_resolution (width height : Nat) :
    (Nat.toDigits 10 width ++ 'x' :: Nat.toDigits 10 height).splitOn 'x' =
      [Nat.toDigits 10 width, Nat.toDigits 10 height] := by
  have plain : ∀ number, 'x' ∉ Nat.toDigits 10 number := fun number isIn =>
    (digit_plain (by decide) (by decide) isIn).2.2.1 rfl
  have parts := @List.splitOn_intercalate _ [Nat.toDigits 10 width, Nat.toDigits 10 height] _ _ 'x'
    (by simp [plain]) (List.cons_ne_nil _ _)
  simpa [List.intercalate_cons_cons] using parts

/-- Every line of a well formed configuration says what it should. -/
theorem Config.WellFormed.means {config : Config} (wellFormed : config.WellFormed) :
    List.Forall₂ Means config.render config.entries := by
  have hex := fun (number : Nat) => @getLast?_append_toDigits 16 number ['0', 'x']
  apply List.rel_append
  · refine .cons ?_ (.cons ?_ (.cons ?_ (.cons ?_ .nil)))
    · apply means_pair (by decide) _ (.stackAddress (hexAfterTwo_toDigits wellFormed.stackAddress))
      exact fun char => hex _ (by decide) (by decide)
    · apply means_pair (by decide) _ (.stackSize
        (fromStrRadix_toDigits (by decide) (by decide) wellFormed.stackSize))
      exact fun char => @getLast?_append_toDigits 10 _ [] char (by decide) (by decide)
    · apply means_pair (by decide) _ (.memoryOffset (hexAfterTwo_toDigits wellFormed.memoryOffset))
      exact fun char => hex _ (by decide) (by decide)
    · exact means_pair (by decide) wellFormed.trimmed (.path _)
  · cases isScreen : config.resolution with
    | none => exact .nil
    | some size =>
      obtain ⟨fitsWidth, fitsHeight⟩ := wellFormed.screen size isScreen
      apply List.Forall₂.cons _ .nil
      apply means_pair (by decide)
      · intro char isLast
        apply @getLast?_append_toDigits 10 size.2 (Nat.toDigits 10 size.1 ++ ['x']) char (by decide)
          (by decide)
        rwa [List.append_assoc]
      · exact .resolution (splitOn_resolution size.1 size.2)
          (fromStrRadix_toDigits (by decide) (by decide) fitsWidth)
          (fromStrRadix_toDigits (by decide) (by decide) fitsHeight)

/-- No line has a line break. -/
theorem Config.WellFormed.render_oneLine {config : Config} (wellFormed : config.WellFormed) :
    ∀ line ∈ config.render, '\n' ∉ line := by
  have pair : ∀ key ∈ knownKeys, ∀ value, '\n' ∉ value → '\n' ∉ key.toList ++ '=' :: value := by
    have keys : ∀ key ∈ knownKeys, '\n' ∉ key.toList := by decide
    intro key isKnown value oneLine
    simp [keys key isKnown, oneLine]
  have digits : ∀ radix number, 1 < radix → radix ≤ 16 → '\n' ∉ Nat.toDigits radix number :=
    fun radix number large small isIn => (digit_plain large small isIn).2.1 rfl
  have hex := fun number => digits 16 number (by decide) (by decide)
  have dec := fun number => digits 10 number (by decide) (by decide)
  intro line isLine
  rcases List.mem_append.mp isLine with isFixed | isScreen
  · simp only [List.mem_cons, List.not_mem_nil, or_false] at isFixed
    rcases isFixed with rfl | rfl | rfl | rfl
    · exact pair _ (by decide) _ (by simp [hex])
    · exact pair _ (by decide) _ (dec _)
    · exact pair _ (by decide) _ (by simp [hex])
    · exact pair _ (by decide) _ wellFormed.oneLine
  · obtain ⟨size, -, rfl⟩ := List.mem_map.mp isScreen
    exact pair _ (by decide) _ (by simp [dec])

/-- The default configuration is well formed. -/
theorem defaultConfig_wellFormed : defaultConfig.WellFormed where
  stackAddress := by decide
  stackSize := by decide
  memoryOffset := by decide
  oneLine := by decide
  trimmed := by
    have last : defaultConfig.kernelPath.getLast? = some 'f' := by decide
    intro char isLast
    rw [last] at isLast
    cases isLast
    decide
  screen := fun _ => nofun

/-- Lines keep a configuration well formed. -/
theorem wellFormed_foldl {lines : List (List Char)} {entries : List Entry} {config : Config}
    (means : List.Forall₂ Means lines entries) (oneLine : ∀ line ∈ lines, '\n' ∉ line)
    (wellFormed : config.WellFormed) : (entries.foldl Entry.apply config).WellFormed := by
  induction means generalizing config with
  | nil => exact wellFormed
  | cons first _ ih =>
    apply ih fun line isLine => oneLine line (List.mem_cons_of_mem _ isLine)
    exact first.wellFormed (oneLine _ List.mem_cons_self) wellFormed

/-- A text is read back from its bytes. -/
theorem fromUTF8?_toUTF8 (text : String) : String.fromUTF8? text.toUTF8 = some text :=
  dif_pos text.isValidUTF8

/-- The configurations that some text is read as are those with numbers of 64 bits and a path on one
line that does not end with white space. -/
theorem parse_range_iff {config : Config} :
    (∃ content, Config.parse content = .ok config) ↔ config.WellFormed := by
  constructor
  · rintro ⟨content, ran⟩
    obtain ⟨text, entries, -, means, rfl⟩ := Config.parse_ok_iff_entries.mp ran
    apply wellFormed_foldl means _ defaultConfig_wellFormed
    exact fun line isLine => not_mem_of_mem_splitOn isLine
  · intro wellFormed
    let text := String.ofList (['\n'].intercalate config.render)
    refine ⟨text.toUTF8, Config.parse_ok_iff_entries.mpr ⟨text, config.entries,
      fromUTF8?_toUTF8 text, ?_, config.foldl_entries.symm⟩⟩
    have lines : text.toList.splitOn '\n' = config.render := by
      rw [String.toList_ofList]
      exact List.splitOn_intercalate _ wellFormed.render_oneLine (List.cons_ne_nil _ _)
    rw [lines]
    exact wellFormed.means

end Canyon.Boot
